/-
Row origins against the rows of the scan.

Every byte of the batch buffer is tagged with the data event that brought
it and the source that event names. What the worker has attributed after
some events is then a function of the tagged buffer: the closed lines it
counted, each with the source of its first byte, and the open line with
whether it has content so far (`Attributed`).

The worker strips the carriage return of every fragment on its own, the
scanner only the one at the end of the whole line. So a line counts for
the worker unless all its bytes are carriage returns that arrived one by
one (`LoneReturns`); two or more of those are a row of the scan all the
same.
-/
import FastForward.Lib.Spans
import FastForward.Runtime.Proofs.Rows

namespace FastForward.Runtime

open Lib Core Io Pipeline List

-- == tagged buffers

/-- A data event, as far as attribution reads it. -/
structure DataEvent where
  sourceId : Option SourceId
  bytes : Bytes

/-- A byte of the buffer, with the event that brought it. -/
structure Arrival where
  event : Nat
  sourceId : Option SourceId
  byte : UInt8
  deriving DecidableEq

/-- The bytes of the event of number `n`. -/
def DataEvent.arrivals (n : Nat) (e : DataEvent) (bytes : Bytes) : List Arrival :=
  bytes.map fun byte => ⟨n, e.sourceId, byte⟩

/-- The bytes of some events, numbered from `n`. -/
def arrivals : Nat → List DataEvent → List Arrival
  | _, [] => []
  | n, e :: rest => e.arrivals n e.bytes ++ arrivals (n + 1) rest

def Arrival.isNewline (a : Arrival) : Bool := Core.isNewline a.byte

def bufferOf (events : List DataEvent) : Bytes := events.flatMap (·.bytes)

/-- All bytes of a line are carriage returns, each of another event than
the one before it. -/
def LoneReturns (line : List Arrival) : Prop :=
  (∀ a ∈ line, a.byte = carriageReturn) ∧ line.IsChain fun a b => a.event ≠ b.event

instance (line : List Arrival) : Decidable (LoneReturns line) :=
  inferInstanceAs (Decidable (_ ∧ _))

/-- The source that supplied the first byte of a line. -/
def firstSource (line : List Arrival) : Option SourceId := line.head?.bind (·.sourceId)

-- == what the worker does

/-- Attribute some events in turn, then close the batch. -/
def rowOriginsOf (inputName : String) (events : List DataEvent) : List RowOriginSpan :=
  let noted := events.foldl
    (fun st e => appendDataRowOrigins st.1 st.2 e.sourceId inputName e.bytes) ([], none)
  finalizePendingRowOrigin noted.1 noted.2

/-- The sources that spans attribute rows to, row by row. -/
def rowSources (spans : List RowOriginSpan) : List (Option SourceId) :=
  Spans.expand (·.rows) (·.sourceId) spans

variable (spans : List RowOriginSpan)

theorem length_rowSources :
    (rowSources spans).length = (spans.map (·.rows)).sum := Spans.length_expand ..

/-- Rows are added at the end, whether or not the last span takes them. -/
theorem rowSources_appendRowOrigin (sourceId : Option SourceId) (inputName : String) (rows : Nat) :
    rowSources (appendRowOrigin spans sourceId inputName rows)
      = rowSources spans ++ List.replicate rows sourceId := by
  rw [appendRowOrigin]
  by_cases hrows : rows = 0
  · simp [hrows]
  · rw [if_neg (by simpa using hrows)]
    rcases eq_nil_or_concat spans with rfl | ⟨front, last, rfl⟩
    · simp [rowSources]
    · rw [concat_eq_append, getLast?_concat]
      by_cases hsame : (last.sourceId == sourceId && last.inputName == inputName)
      · have hsource : last.sourceId = sourceId := by
          simp only [Bool.and_eq_true, beq_iff_eq] at hsame
          exact hsame.1
        simp only [hsame, dropLast_concat]
        rw [← hsource]
        exact Spans.expand_extended rfl rfl
      · simp only [hsame]
        simp [rowSources]

-- == fragments

def counted (line : List Arrival) : Bool := !decide (LoneReturns line)

variable {bytes : Bytes}

theorem arrivals_isNewline (n : Nat) (e : DataEvent)
    (h : newline ∉ bytes) : ∀ a ∈ e.arrivals n bytes, a.isNewline = false := by
  intro a ha
  obtain ⟨b, hb, rfl⟩ := mem_map.mp ha
  exact forall_isNewline.mpr h b hb

/-- A fragment without content is no byte or a single carriage return. -/
theorem loneReturns_arrivals (n : Nat) (e : DataEvent) (bytes : Bytes) :
    LoneReturns (e.arrivals n bytes) ↔ scannerLineHasContent bytes = false := by
  rw [scannerLineHasContent_eq_false]
  constructor
  · rintro ⟨hreturns, hchain⟩
    match bytes with
    | [] => exact .inl rfl
    | [b] => exact .inr (congrArg (fun b => [b]) (hreturns _ mem_cons_self))
    | b :: c :: rest => exact absurd rfl (isChain_cons_cons.mp hchain).1
  · rintro (rfl | rfl)
    · exact ⟨fun _ h => absurd h not_mem_nil, .nil⟩
    · refine ⟨fun a ha => ?_, .singleton _⟩
      rw [mem_singleton.mp ha]

variable {line : List Arrival} {n : Nat}

/-- A fragment joins a line that bytes of other events began. -/
theorem loneReturns_append (hline : ∀ a ∈ line, a.event ≠ n) (e : DataEvent) (bytes : Bytes) :
    LoneReturns (line ++ e.arrivals n bytes)
      ↔ LoneReturns line ∧ scannerLineHasContent bytes = false := by
  rw [← loneReturns_arrivals n e bytes]
  have hseam : ∀ a ∈ line.getLast?, ∀ b ∈ (e.arrivals n bytes).head?, a.event ≠ b.event := by
    intro a ha b hb
    obtain ⟨c, -, rfl⟩ := mem_map.mp (mem_of_mem_head? hb)
    exact hline a (mem_of_mem_getLast? ha)
  unfold LoneReturns
  rw [isChain_append, forall_mem_append]
  tauto

theorem counted_append (hline : ∀ a ∈ line, a.event ≠ n) (e : DataEvent) (bytes : Bytes) :
    counted (line ++ e.arrivals n bytes) = (counted line || scannerLineHasContent bytes) := by
  simp only [counted, loneReturns_append hline]
  cases scannerLineHasContent bytes <;> simp

/-- A pending line with one more fragment. -/
def PendingRowOrigin.extend (origin : PendingRowOrigin) (bytes : Bytes) : PendingRowOrigin :=
  { origin with hasContent := origin.hasContent || scannerLineHasContent bytes }

-- == the run

def openOrigin (inputName : String) (line : List Arrival) : Option PendingRowOrigin :=
  if line = [] then none else some ⟨firstSource line, inputName, counted line⟩

/-- What is attributed once the tagged bytes `seen` have arrived. -/
structure Attributed (inputName : String) (seen : List Arrival)
    (spans : List RowOriginSpan) (pending : Option PendingRowOrigin) : Prop where
  spans : rowSources spans
    = ((Segments.closed Arrival.isNewline seen).filter counted).map firstSource
  pending : pending = openOrigin inputName (Segments.rest Arrival.isNewline seen)

variable (pending : Option PendingRowOrigin) (sourceId : Option SourceId) (inputName : String)

theorem appendDataRowOrigins_line {segment rest : Bytes} (h : newline ∉ segment) :
    appendDataRowOrigins spans pending sourceId inputName (segment ++ newline :: rest)
      = appendDataRowOrigins
          (finalizePendingRowOrigin spans
            (some ((pending.getD ⟨sourceId, inputName, false⟩).extend segment)))
          none sourceId inputName rest := by
  have hcut := splitNewline_line h rest
  conv => lhs; rw [appendDataRowOrigins.eq_def]
  split
  next segment' rest' hcut' =>
    rw [hcut] at hcut'
    cases hcut'
    rfl
  next hcut' =>
    rw [hcut] at hcut'
    cases hcut'

theorem appendDataRowOrigins_open (h : newline ∉ bytes) :
    appendDataRowOrigins spans pending sourceId inputName bytes
      = (spans, if bytes = [] then pending
          else some ((pending.getD ⟨sourceId, inputName, false⟩).extend bytes)) := by
  have hcut := splitNewline_open h
  rw [appendDataRowOrigins.eq_def]
  split
  next segment' rest' hcut' =>
    rw [hcut] at hcut'
    cases hcut'
  next =>
    cases bytes with
    | nil => rfl
    | cons b bytes => cases pending <;> simp [PendingRowOrigin.extend]

variable (inputName : String) (hline : ∀ a ∈ line, a.event ≠ n) (e : DataEvent)

include hline

/-- A fragment extends the open line, or begins one. -/
theorem extend_openOrigin (hne : line ++ e.arrivals n bytes ≠ []) :
    some (((openOrigin inputName line).getD ⟨e.sourceId, inputName, false⟩).extend bytes)
      = openOrigin inputName (line ++ e.arrivals n bytes) := by
  rw [openOrigin, openOrigin, counted_append hline]
  cases line with
  | nil =>
    cases bytes with
    | nil => exact absurd rfl hne
    | cons b bytes => rfl
  | cons a line => rfl

/-- A line ends: it becomes a row of its first byte's source if it
counts. The line may be empty, in which case it does not. -/
theorem finalize_extend (bytes : Bytes) :
    rowSources (finalizePendingRowOrigin spans (some
        (((openOrigin inputName line).getD ⟨e.sourceId, inputName, false⟩).extend bytes)))
      = rowSources spans ++ ([line ++ e.arrivals n bytes].filter counted).map firstSource := by
  by_cases hne : line ++ e.arrivals n bytes = []
  · obtain ⟨rfl, hbytes⟩ := append_eq_nil_iff.mp hne
    obtain rfl : bytes = [] := map_eq_nil_iff.mp hbytes
    simp [openOrigin, finalizePendingRowOrigin, PendingRowOrigin.extend, DataEvent.arrivals,
      counted, LoneReturns, scannerLineHasContent]
  · rw [extend_openOrigin inputName hline e hne, openOrigin, if_neg hne, finalizePendingRowOrigin]
    cases hcounted : counted (line ++ e.arrivals n bytes) with
    | true => simp [hcounted, rowSources_appendRowOrigin]
    | false => simp [hcounted]

omit hline

variable {pending : Option PendingRowOrigin} {seen : List Arrival}

theorem Attributed.append {inputName : String} (e : DataEvent) (bytes : Bytes)
    {spans : List RowOriginSpan}
    (h : Attributed inputName seen spans pending)
    (hn : ∀ a ∈ Segments.rest Arrival.isNewline seen, a.event ≠ n) :
    Attributed inputName (seen ++ e.arrivals n bytes)
      (appendDataRowOrigins spans pending e.sourceId inputName bytes).1
      (appendDataRowOrigins spans pending e.sourceId inputName bytes).2 := by
  -- from line to line of the event; after its first newline nothing is
  -- left open, so that the bytes seen before do not matter any more
  induction bytes using Segments.segmentInduction isNewline generalizing seen spans pending with
  | isOpen bytes hbytes =>
    have hbytes := forall_isNewline.mp hbytes
    obtain ⟨hclosed, hrest⟩ :=
      Segments.closed_append_of_forall seen (arrivals_isNewline n e hbytes)
    rw [appendDataRowOrigins_open _ _ _ _ hbytes]
    refine ⟨by rw [hclosed]; exact h.spans, ?_⟩
    rw [hrest, h.pending]
    split
    next hnil => rw [hnil]; simp [DataEvent.arrivals]
    next hne =>
      refine extend_openOrigin inputName hn e fun hnil => hne ?_
      exact map_eq_nil_iff.mp (append_eq_nil_iff.mp hnil).2
  | isClosed segment sep rest hsegment hsep ih =>
    obtain rfl : sep = newline := beq_iff_eq.mp hsep
    have hsegment := forall_isNewline.mp hsegment
    have hnewline : Arrival.isNewline ⟨n, e.sourceId, newline⟩ = true := isNewline_newline
    obtain ⟨hclosed, hrest⟩ := Segments.closed_append_separator seen
      (arrivals_isNewline n e hsegment) hnewline
    have htagged : seen ++ e.arrivals n (segment ++ newline :: rest)
        = seen ++ (e.arrivals n segment ++ [⟨n, e.sourceId, newline⟩]) ++ e.arrivals n rest := by
      simp [DataEvent.arrivals]
    rw [appendDataRowOrigins_line _ _ _ _ hsegment, htagged]
    refine ih ⟨?_, by rw [hrest]; rfl⟩ (by rw [hrest]; exact fun _ h => absurd h not_mem_nil)
    rw [h.pending, finalize_extend spans inputName hn e segment, hclosed,
      filter_append, map_append, h.spans]

theorem Attributed.events {inputName : String} (events : List DataEvent)
    {spans : List RowOriginSpan}
    (h : Attributed inputName seen spans pending) (hn : ∀ a ∈ seen, a.event < n) :
    let noted := events.foldl
      (fun st e => appendDataRowOrigins st.1 st.2 e.sourceId inputName e.bytes) (spans, pending)
    Attributed inputName (seen ++ arrivals n events) noted.1 noted.2 := by
  induction events generalizing n seen spans pending with
  | nil =>
    rw [arrivals, append_nil]
    exact h
  | cons e events ih =>
    rw [arrivals, ← append_assoc]
    refine ih (h.append e e.bytes fun a ha => ?_) fun a ha => ?_
    · exact ne_of_lt (hn a (Segments.mem_of_mem_rest ha))
    · rcases mem_append.mp ha with ha | ha
      · exact Nat.lt_succ_of_lt (hn a ha)
      · obtain ⟨b, -, rfl⟩ := mem_map.mp ha
        exact Nat.lt_succ_self n

/-- The worker makes a row of every line that counts. -/
theorem rowSources_rowOriginsOf (inputName : String) (events : List DataEvent) :
    rowSources (rowOriginsOf inputName events)
      = (((arrivals 0 events).splitOnP Arrival.isNewline).filter counted).map firstSource := by
  have hinit : Attributed inputName [] [] none := ⟨by simp [rowSources], by simp [openOrigin]⟩
  have hrun := hinit.events events (n := 0) fun a ha => absurd ha not_mem_nil
  rw [nil_append] at hrun
  rw [rowOriginsOf, hrun.pending, Segments.splitOnP_eq, filter_append, map_append,
    ← hrun.spans, openOrigin]
  split
  next hnil => simp [hnil, finalizePendingRowOrigin, counted, LoneReturns]
  next =>
    rw [finalizePendingRowOrigin]
    split
    next hcounted =>
      dsimp only at hcounted
      simp [hcounted, rowSources_appendRowOrigin]
    next hcounted =>
      dsimp only at hcounted
      simp [hcounted]

-- == rows of the scan

theorem bytes_arrivals (n : Nat) (events : List DataEvent) :
    (arrivals n events).map (·.byte) = bufferOf events := by
  induction events generalizing n with
  | nil => rfl
  | cons e events ih =>
    rw [arrivals, map_append, ih, DataEvent.arrivals, map_map]
    exact congrArg (· ++ bufferOf events) (map_id e.bytes)

def rowLines (buf : List Arrival) : List (List Arrival) :=
  (buf.splitOnP Arrival.isNewline).filter fun line =>
    scannerLineHasContent (line.map (·.byte))

theorem texts_rowLines (events : List DataEvent) :
    (bufferRecords (bufferOf events)).map (·.1)
      = (rowLines (arrivals 0 events)).map fun line => stripCr (line.map (·.byte)) := by
  rw [bufferRecords, records_texts, linesOf_eq_splitOnP, ← bytes_arrivals 0 events,
    Segments.splitOnP_map, filter_map, map_map]
  rfl

/-- The only lines that are rows of the scan and do not count. -/
theorem loneReturns_and_content (line : List Arrival) :
    (LoneReturns line ∧ scannerLineHasContent (line.map (·.byte)))
      ↔ LoneReturns line ∧ 2 ≤ line.length := by
  refine and_congr_right fun hline => ?_
  match line with
  | [] => simp [scannerLineHasContent]
  | [a] =>
    have ha : a.byte = carriageReturn := hline.1 a mem_cons_self
    simp [scannerLineHasContent, ha]
  | a :: b :: rest =>
    rw [← Bool.not_eq_false, scannerLineHasContent_eq_false]
    simp

theorem content_of_counted (h : counted line) :
    scannerLineHasContent (line.map (·.byte)) := by
  by_contra hcontent
  rw [Bool.not_eq_true, scannerLineHasContent_eq_false] at hcontent
  rw [counted, Bool.not_eq_true', decide_eq_false_iff_not] at h
  rcases hcontent with hnil | hone
  · rw [map_eq_nil_iff.mp hnil] at h
    exact h ⟨fun _ h => absurd h not_mem_nil, .nil⟩
  · obtain ⟨a, rfl, ha⟩ := map_eq_singleton_iff.mp hone
    exact h ⟨fun b hb => by rw [mem_singleton.mp hb, ha], .singleton _⟩

section Scan

variable {F : Type} [FloatOps F]

/-- The spans total the rows of the scan, and every row is attributed to
the source that supplied the first byte of its line. -/
structure OriginsMatch (config : ScanConfig F) (inputName : String)
    (events : List DataEvent) : Prop where
  total : ((rowOriginsOf inputName events).map (·.rows)).sum
    = (rowsOf (scanStreaming (bufferOf events) config.plain)).length
  source : ∀ (i : Nat) (row : List ScanCall),
    (rowsOf (scanStreaming (bufferOf events) config.plain))[i]? = some row →
      ∃ line members, (rowLines (arrivals 0 events))[i]? = some line
        ∧ row = rowAppends config.plain (stripCr (line.map (·.byte))) members
        ∧ (rowSources (rowOriginsOf inputName events))[i]? = some (firstSource line)

/-- The spans match the scan exactly when no line consists of two or more
carriage returns that all arrived in events of their own. The scan is that
of a configuration without a row predicate, which drops no rows: with one,
spans of lines are not spans of rows. -/
theorem origins_match_iff (config : ScanConfig F) (inputName : String)
    (events : List DataEvent) :
    OriginsMatch config inputName events
      ↔ ∀ line ∈ (arrivals 0 events).splitOnP Arrival.isNewline,
          ¬ (LoneReturns line ∧ 2 ≤ line.length) := by
  have hsources := rowSources_rowOriginsOf inputName events
  have htexts := texts_rowLines events
  -- the lines that count are those among the row lines that count
  have hsub : ((arrivals 0 events).splitOnP Arrival.isNewline).filter counted
      = (rowLines (arrivals 0 events)).filter counted := by
    rw [rowLines, filter_filter]
    refine filter_congr fun line _ => ?_
    cases hcounted : counted line with
    | true => rw [content_of_counted hcounted]; rfl
    | false => rfl
  have hrows : (rowsOf (scanStreaming (bufferOf events) config.plain)).length
      = (rowLines (arrivals 0 events)).length := by
    have hlen := congrArg length htexts
    rw [length_map, length_map] at hlen
    rw [rowsOf_scanStreaming_plain, length_map, hlen]
  have hcounted : (∀ line ∈ rowLines (arrivals 0 events), counted line)
      ↔ ∀ line ∈ (arrivals 0 events).splitOnP Arrival.isNewline,
          ¬ (LoneReturns line ∧ 2 ≤ line.length) := by
    simp only [rowLines, mem_filter, and_imp, counted, Bool.not_eq_true',
      decide_eq_false_iff_not, ← loneReturns_and_content]
    exact forall₂_congr fun line _ => ⟨fun h hl => h hl.2 hl.1, fun h hc hl => h ⟨hl, hc⟩⟩
  rw [← hcounted]
  rw [hsub] at hsources
  constructor
  · intro h
    have htotal := h.total
    rw [← length_rowSources, hsources, length_map, hrows] at htotal
    exact length_filter_eq_length_iff.mp htotal
  · intro h
    rw [filter_eq_self.mpr h] at hsources
    refine ⟨by rw [← length_rowSources, hsources, length_map, hrows], ?_⟩
    intro i row hrow
    rw [rowsOf_scanStreaming_plain, getElem?_map, Option.map_eq_some_iff] at hrow
    obtain ⟨record, hrecord, rfl⟩ := hrow
    have htext := congrArg (·[i]?) htexts
    simp only [getElem?_map, hrecord] at htext
    obtain ⟨line, hline, htext⟩ := Option.map_eq_some_iff.mp htext.symm
    exact ⟨line, record.2, hline, by rw [htext], by rw [hsources, getElem?_map, hline]; rfl⟩

end Scan

/-- `\r\r\n` cut between the two carriage returns is a row of the scan
and of no source. -/
theorem cutReturns_not_match :
    ¬ OriginsMatch (ScanConfig.default : ScanConfig Int) "app"
      [⟨some 1, [0x0d]⟩, ⟨some 1, [0x0d, 0x0a]⟩] := by
  intro h
  have htotal := h.total
  revert htotal
  decide +kernel

end FastForward.Runtime
