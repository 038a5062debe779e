/-
The CRI sidecar as a list of rows.

A sidecar is sound when its spans total its row count, point to UTF-8 in
its timestamp buffer, and its flag says if any of them does. `rowValues`
reads it row by row; the operations append to that list, however they
coalesce spans and pack timestamps.
-/
import FastForward.Io.Input
import FastForward.Lib.Spans

namespace FastForward.Io.CriMetadata

open Core Lib List

/-- What a row says: its timestamp and stream, or nothing. -/
abbrev RowValue := Option (Bytes × CriStream)

/-- What a span says, its timestamp looked up in `bytes`. -/
def spanValue (bytes : Bytes) (span : CriMetadataSpan) : RowValue :=
  span.values.map fun v => (timestampOf bytes v, v.stream)

/-- What a sidecar says of each row. -/
def rowValues (m : CriMetadata) : List RowValue :=
  Spans.expand (·.rows) (spanValue m.timestampBytes) m.spans

/-- A descriptor points to UTF-8 in the timestamp buffer, and the sidecar
is flagged as having values. -/
structure ValueSound (bytes : Bytes) (hasValues : Bool) (v : CriMetadataValues) : Prop where
  inRange : v.timestampStart + v.timestampLen ≤ bytes.length
  utf8 : validUtf8 (timestampOf bytes v) = true
  flagged : hasValues = true

/-- The descriptor of a span, if it has one, is sound. -/
def SpanSound (bytes : Bytes) (hasValues : Bool) (span : CriMetadataSpan) : Prop :=
  ∀ v ∈ span.values, ValueSound bytes hasValues v

/-- The spans total the rows, and each is sound. -/
structure Sound (m : CriMetadata) : Prop where
  rows : (m.spans.map (·.rows)).sum = m.rows
  spans : ∀ span ∈ m.spans, SpanSound m.timestampBytes m.hasValues span

theorem Sound.empty : Sound .empty := ⟨rfl, fun _ h => absurd h not_mem_nil⟩

variable {m : CriMetadata}

theorem Sound.length_rowValues (h : m.Sound) : m.rowValues.length = m.rows := by
  rw [rowValues, Spans.length_expand, h.rows]

-- == longer timestamp buffers

variable {bytes : Bytes}

theorem timestampOf_append {v : CriMetadataValues}
    (h : v.timestampStart + v.timestampLen ≤ bytes.length) (more : Bytes) :
    timestampOf (bytes ++ more) v = timestampOf bytes v := by
  rw [timestampOf, timestampOf, drop_append_of_le_length (by omega),
    take_append_of_le_length (by rw [length_drop]; omega)]

variable {span : CriMetadataSpan}

theorem spanValue_append {hasValues : Bool} (h : SpanSound bytes hasValues span) (more : Bytes) :
    spanValue (bytes ++ more) span = spanValue bytes span := by
  rw [spanValue, spanValue]
  cases hv : span.values with
  | none => rfl
  | some v => rw [Option.map_some, Option.map_some, timestampOf_append (h v hv).inRange]

variable {hasValues hasValues' : Bool}

/-- The buffer grows and the flag is not taken back. -/
theorem SpanSound.append (h : SpanSound bytes hasValues span) (more : Bytes)
    (hflag : hasValues → hasValues') : SpanSound (bytes ++ more) hasValues' span := by
  intro v hv
  have hvalue := h v hv
  refine ⟨?_, ?_, hflag hvalue.flagged⟩
  · rw [length_append]
    exact Nat.le_add_right_of_le hvalue.inRange
  · rw [timestampOf_append hvalue.inRange]
    exact hvalue.utf8

-- == appending rows

variable {front : List CriMetadataSpan} {last : CriMetadataSpan}

theorem sum_extendLast (front : List CriMetadataSpan) (last : CriMetadataSpan) (n : Nat) :
    ((extendLast (front ++ [last]) n).map (·.rows)).sum
      = ((front ++ [last]).map (·.rows)).sum + n := by
  rw [extendLast]
  simp [add_assoc]

variable {n : Nat}

theorem mem_extendLast (h : span ∈ extendLast (front ++ [last]) n) :
    ∃ span' ∈ front ++ [last], span.values = span'.values := by
  rw [extendLast, getLast?_concat] at h
  rw [dropLast_concat] at h
  rcases mem_append.mp h with h | h
  · exact ⟨span, mem_append_left _ h, rfl⟩
  · rw [mem_singleton.mp h]
    exact ⟨last, mem_append_right _ mem_cons_self, rfl⟩

/-- A sound sidecar whose last span takes more rows. -/
theorem Sound.extendLast (h : m.Sound) (hspans : m.spans = front ++ [last]) (n : Nat) :
    Sound { m with spans := CriMetadata.extendLast m.spans n, rows := m.rows + n } := by
  constructor
  · dsimp only
    rw [hspans, sum_extendLast, ← hspans, h.rows]
  · intro span hspan
    rw [hspans] at hspan
    obtain ⟨span', hspan', hvalues⟩ := mem_extendLast hspan
    intro v hv
    rw [hvalues] at hv
    exact h.spans span' (hspans ▸ hspan') v hv

theorem Sound.push (h : m.Sound) (span : CriMetadataSpan) (more : Bytes)
    (hspan : SpanSound (m.timestampBytes ++ more) hasValues span)
    (hflag : m.hasValues → hasValues) :
    Sound
      { spans := m.spans ++ [span], timestampBytes := m.timestampBytes ++ more
        rows := m.rows + span.rows, hasValues } := by
  constructor
  · dsimp only
    rw [map_append, sum_append, h.rows]
    simp
  · intro other hother
    rcases mem_append.mp hother with hother | hother
    · exact (h.spans other hother).append more hflag
    · rw [mem_singleton.mp hother]
      exact hspan

theorem appendNullRows_cases (m : CriMetadata) (hn : n ≠ 0) :
    (∃ front last, m.spans = front ++ [last] ∧ last.values = none ∧ m.appendNullRows n
            = { m with spans := CriMetadata.extendLast m.spans n, rows := m.rows + n })
      ∨ m.appendNullRows n = { m with spans := m.spans ++ [⟨n, none⟩], rows := m.rows + n } := by
  rw [appendNullRows, if_neg (by simpa using hn)]
  rcases eq_nil_or_concat m.spans with hnil | ⟨front, last, hspans⟩
  · rw [hnil]
    exact .inr rfl
  · rw [concat_eq_append] at hspans
    rw [hspans, getLast?_concat]
    obtain ⟨rows, values⟩ := last
    cases values with
    | none => exact .inl ⟨front, ⟨rows, none⟩, rfl, rfl, rfl⟩
    | some v => exact .inr rfl

theorem Sound.appendNullRows (h : m.Sound) (n : Nat) : (m.appendNullRows n).Sound := by
  by_cases hn : n = 0
  · rw [hn]
    exact h
  · rcases appendNullRows_cases m hn with ⟨front, last, hspans, -, heq⟩ | heq
    · rw [heq]
      exact h.extendLast hspans n
    · rw [heq]
      have hpush := h.push ⟨n, none⟩ [] (fun v hv => nomatch hv) fun hflag => hflag
      rw [append_nil] at hpush
      exact hpush

theorem rows_appendNullRows (m : CriMetadata) (n : Nat) :
    (m.appendNullRows n).rows = m.rows + n := by
  by_cases hn : n = 0
  · rw [hn]
    rfl
  · rcases appendNullRows_cases m hn with ⟨-, -, -, -, heq⟩ | heq <;> rw [heq]

/-- The value that `append_value` gives a row. -/
def valueOf (timestamp stream : Bytes) : RowValue :=
  match CriStream.fromBytes stream with
  | none => none
  | some s => if validUtf8 timestamp then some (timestamp, s) else none

theorem Sound.pushValue (h : m.Sound) {timestamp : Bytes}
    (hutf8 : validUtf8 timestamp) (s : CriStream) : (m.pushValue timestamp s).Sound := by
  refine h.push ⟨1, some ⟨m.timestampBytes.length, timestamp.length, s⟩⟩ timestamp
    (fun v hv => ?_) fun _ => rfl
  cases hv
  refine ⟨le_of_eq length_append.symm, ?_, rfl⟩
  simpa [timestampOf] using hutf8

/-- How a row is appended: as a null row, in the last span, or in its own. -/
theorem appendValue_cases (m : CriMetadata) (timestamp stream : Bytes) :
    (valueOf timestamp stream = none ∧ m.appendValue timestamp stream = m.appendNullRows 1)
      ∨ ∃ s, valueOf timestamp stream = some (timestamp, s)
          ∧ validUtf8 timestamp
          ∧ ((∃ front last, m.spans = front ++ [last]
                ∧ spanValue m.timestampBytes last = some (timestamp, s)
                ∧ m.appendValue timestamp stream
                    = { m with spans := CriMetadata.extendLast m.spans 1, rows := m.rows + 1 })
              ∨ (∀ last ∈ m.spans.getLast?, spanValue m.timestampBytes last ≠ some (timestamp, s))
                ∧ m.appendValue timestamp stream = m.pushValue timestamp s) := by
  rw [appendValue, valueOf]
  cases CriStream.fromBytes stream with
  | none => exact .inl ⟨rfl, rfl⟩
  | some s =>
    cases hutf8 : validUtf8 timestamp with
    | false => exact .inl ⟨rfl, rfl⟩
    | true =>
      refine .inr ⟨s, rfl, rfl, ?_⟩
      dsimp only
      rw [if_neg (by decide)]
      rcases eq_nil_or_concat m.spans with hnil | ⟨front, ⟨rows, values⟩, hspans⟩
      · rw [hnil]
        exact .inr ⟨nofun, rfl⟩
      · rw [concat_eq_append] at hspans
        rw [hspans, getLast?_concat]
        cases values with
        | none => exact .inr ⟨by rintro _ ⟨⟩ ⟨⟩, rfl⟩
        | some v =>
          dsimp only
          split
          next hsame =>
            simp only [Bool.and_eq_true, beq_iff_eq] at hsame
            refine .inl ⟨front, _, rfl, ?_, rfl⟩
            rw [spanValue, Option.map_some, hsame.1, hsame.2]
          next hdiffer =>
            refine .inr ⟨?_, rfl⟩
            rintro _ ⟨⟩ ⟨⟩
            exact hdiffer (by simp)

theorem Sound.appendValue (h : m.Sound) (timestamp stream : Bytes) :
    (m.appendValue timestamp stream).Sound := by
  rcases appendValue_cases m timestamp stream with
    ⟨-, heq⟩ | ⟨s, -, hutf8, ⟨front, last, hspans, -, heq⟩ | ⟨-, heq⟩⟩
  · rw [heq]
    exact h.appendNullRows 1
  · rw [heq]
    exact h.extendLast hspans 1
  · rw [heq]
    exact h.pushValue hutf8 s

theorem rows_appendValue (m : CriMetadata) (timestamp stream : Bytes) :
    (m.appendValue timestamp stream).rows = m.rows + 1 := by
  rcases appendValue_cases m timestamp stream with
    ⟨-, heq⟩ | ⟨s, -, -, ⟨front, last, -, -, heq⟩ | ⟨-, heq⟩⟩
  · rw [heq, rows_appendNullRows]
  · rw [heq]
  · rw [heq]
    rfl

-- == joining sidecars

theorem timestampOf_rebase (front bytes : Bytes) (v : CriMetadataValues) :
    timestampOf (front ++ bytes) { v with timestampStart := v.timestampStart + front.length }
      = timestampOf bytes v := by
  have hdrop : (front ++ bytes).drop (v.timestampStart + front.length)
      = bytes.drop v.timestampStart := by
    rw [add_comm, ← drop_drop, drop_left]
  simp only [timestampOf, hdrop]

theorem spanValue_rebase (front : Bytes) (span : CriMetadataSpan) :
    spanValue (front ++ bytes) (rebase front.length span) = spanValue bytes span := by
  unfold spanValue rebase
  cases span.values with
  | none => rfl
  | some v => exact congrArg (fun t => some (t, v.stream)) (timestampOf_rebase front bytes v)

theorem SpanSound.rebase (h : SpanSound bytes hasValues span) (front : Bytes)
    (hflag : hasValues → hasValues') :
    SpanSound (front ++ bytes) hasValues' (CriMetadata.rebase front.length span) := by
  intro v hv
  obtain ⟨w, hw, rfl⟩ := Option.map_eq_some_iff.mp hv
  have hvalue := h w hw
  refine ⟨?_, ?_, hflag hvalue.flagged⟩
  · have hrange := hvalue.inRange
    rw [length_append]
    dsimp only
    omega
  · rw [timestampOf_rebase]
    exact hvalue.utf8

/-- Spans are compared by what they show. -/
theorem metadataValuesEqual_iff (bytes : Bytes) (span : CriMetadataSpan) (bytes' : Bytes)
    (span' : CriMetadataSpan) : metadataValuesEqual span.values bytes span'.values bytes'
      ↔ spanValue bytes span = spanValue bytes' span' := by
  unfold metadataValuesEqual spanValue
  cases span.values <;> cases span'.values <;> simp [and_comm]

variable {other : CriMetadata}

/-- What else two sidecars make. -/
theorem append_fields (hother : other.isEmpty = false) (hspans : m.spans = front ++ [last]) :
    (m.append other).timestampBytes = m.timestampBytes ++ other.timestampBytes
      ∧ (m.append other).hasValues = (m.hasValues || other.hasValues) := by
  have hne : m.spans.isEmpty = false := by rw [hspans]; simp
  rw [append, if_neg (by rw [hother]; decide), if_neg (by rw [hne]; decide)]
  exact ⟨rfl, rfl⟩

/-- The spans of two sidecars, the first of the other merged or not. -/
theorem append_spans (hother : other.isEmpty = false) (hspans : m.spans = front ++ [last]) :
    ((∀ first ∈ other.spans.head?, spanValue m.timestampBytes last
            ≠ spanValue other.timestampBytes first)
        ∧ (m.append other).spans = m.spans ++ other.spans.map (rebase m.timestampBytes.length))
      ∨ ∃ first tail, other.spans = first :: tail
          ∧ spanValue m.timestampBytes last = spanValue other.timestampBytes first
          ∧ (m.append other).spans = CriMetadata.extendLast m.spans first.rows
              ++ tail.map (rebase m.timestampBytes.length) := by
  have hne : m.spans.isEmpty = false := by rw [hspans]; simp
  rw [append, if_neg (by rw [hother]; decide), if_neg (by rw [hne]; decide)]
  rw [hspans, getLast?_concat]
  cases hfirst : other.spans with
  | nil => exact .inl ⟨nofun, rfl⟩
  | cons first tail =>
    have hequal := metadataValuesEqual_iff m.timestampBytes last other.timestampBytes first
    by_cases hmerge : metadataValuesEqual last.values m.timestampBytes first.values
        other.timestampBytes
    · exact .inr ⟨first, tail, rfl, hequal.mp hmerge, if_pos hmerge⟩
    · refine .inl ⟨?_, if_neg hmerge⟩
      rintro _ ⟨⟩ heq
      exact hmerge (hequal.mpr heq)

/-- The rows of the two add up. -/
theorem rows_append (h : m.Sound) : (m.append other).rows = m.rows + other.rows := by
  rw [append]
  split
  next hempty =>
    have hrows : other.rows = 0 := beq_iff_eq.mp hempty
    rw [hrows, add_zero]
  next =>
    split
    next hnil =>
      have hrows := h.rows
      rw [isEmpty_iff.mp hnil] at hrows
      rw [← hrows]
      exact (zero_add _).symm
    next => rfl

-- == run lengths

/-- A span as a run. -/
def run (bytes : Bytes) (span : CriMetadataSpan) : Nat × RowValue :=
  (span.rows, spanValue bytes span)

/-- The runs of a sidecar, with their values. -/
def runs (m : CriMetadata) : List (Nat × RowValue) :=
  m.spans.map (run m.timestampBytes)

theorem rowValues_eq_expand (m : CriMetadata) :
    m.rowValues = Spans.expand Prod.fst Prod.snd m.runs := by
  simp [rowValues, runs, Spans.expand, flatMap_map, run]

theorem runs_concat (hspans : m.spans = front ++ [last]) :
    m.runs = front.map (run m.timestampBytes) ++ [run m.timestampBytes last] := by
  rw [runs, hspans, map_append]
  rfl

theorem map_run_append (h : m.Sound) (more : Bytes) :
    m.spans.map (run (m.timestampBytes ++ more)) = m.runs :=
  map_congr_left fun span hspan =>
    congrArg (Prod.mk span.rows) (spanValue_append (h.spans span hspan) more)

theorem map_run_extendLast (n : Nat) :
    (CriMetadata.extendLast (front ++ [last]) n).map (run bytes)
      = front.map (run bytes) ++ [(last.rows + n, spanValue bytes last)] := by
  simp [extendLast, run, spanValue]

/-- Null rows join the last run. -/
theorem runs_appendNullRows (m : CriMetadata) (hn : n ≠ 0) :
    (m.appendNullRows n).runs = Spans.join m.runs [(n, none)] := by
  rcases eq_nil_or_concat m.spans with hnil | ⟨front, ⟨rows, values⟩, hspans⟩
  · simp [runs, appendNullRows, hn, hnil, run, spanValue]
  · cases values <;>
      simp [runs, appendNullRows, hn, hspans, extendLast, Spans.join, run, spanValue]

/-- So does an equal value. -/
theorem runs_appendValue (h : m.Sound) (timestamp stream : Bytes) :
    (m.appendValue timestamp stream).runs = Spans.join m.runs [(1, valueOf timestamp stream)] := by
  rcases appendValue_cases m timestamp stream with
    ⟨hvalue, heq⟩ | ⟨s, hvalue, -, ⟨front, last, hspans, hlast, heq⟩ | ⟨hne, heq⟩⟩
  · rw [heq, hvalue]
    exact runs_appendNullRows m (by decide)
  · rw [heq, hvalue, runs_concat hspans, Spans.join_of_eq, runs]
    · dsimp only
      rw [hspans, map_run_extendLast]
      rfl
    · exact hlast
  · have hpush : (m.pushValue timestamp s).runs = m.runs ++ [(1, some (timestamp, s))] := by
      show (m.spans ++ [_]).map (run (m.timestampBytes ++ timestamp)) = _
      rw [map_append, map_run_append h]
      simp [run, spanValue, timestampOf]
    rw [heq, hvalue, hpush]
    rcases eq_nil_or_concat m.spans with hnil | ⟨front, last, hspans⟩
    · simp [runs, hnil]
    · rw [concat_eq_append] at hspans
      rw [hspans, getLast?_concat] at hne
      rw [runs_concat hspans, Spans.join_of_ne]
      exact hne last rfl

/-- Sidecars are joined at the seam. -/
theorem runs_append (h : m.Sound) (hempty : other.isEmpty = false) :
    (m.append other).runs = Spans.join m.runs other.runs := by
  rcases eq_nil_or_concat m.spans with hnil | ⟨front, last, hspans⟩
  · rw [append, if_neg (by rw [hempty]; decide), runs, runs,
      hnil]
    rfl
  · rw [concat_eq_append] at hspans
    have hback : ∀ spans : List CriMetadataSpan,
        (spans.map (rebase m.timestampBytes.length)).map
          (run (m.timestampBytes ++ other.timestampBytes))
          = spans.map (run other.timestampBytes) := by
      intro spans
      simp only [map_map, Function.comp_def, run, spanValue_rebase]
      rfl
    have hfront := map_run_append h other.timestampBytes
    have hruns := runs_concat hspans
    rw [runs, (append_fields hempty hspans).1]
    rcases append_spans hempty hspans with ⟨hne, heq⟩ | ⟨first, tail, hfirst, hsame, heq⟩
    · rw [heq, map_append, hback, hfront, hruns, runs]
      cases hfirst : other.spans with
      | nil => simp
      | cons first tail =>
        rw [map_cons, Spans.join_of_ne]
        exact hne first (by rw [hfirst]; rfl)
    · rw [hruns, hspans, map_append] at hfront
      obtain ⟨hinit, -⟩ := append_inj' hfront rfl
      have hlast := spanValue_append (h.spans last (by simp [hspans])) other.timestampBytes
      show _ = Spans.join m.runs (other.spans.map _)
      rw [heq, map_append, hback, hspans, map_run_extendLast, hinit, hlast, hruns, hfirst, map_cons,
        Spans.join_of_eq, append_assoc]
      · rfl
      · exact hsame

theorem rowValues_appendNullRows (m : CriMetadata) (n : Nat) :
    (m.appendNullRows n).rowValues = m.rowValues ++ List.replicate n none := by
  by_cases hn : n = 0
  · rw [hn, replicate_zero, append_nil]
    rfl
  · rw [rowValues_eq_expand, runs_appendNullRows m hn, Spans.expand_join, rowValues_eq_expand]
    simp

theorem rowValues_appendValue (h : m.Sound) (timestamp stream : Bytes) :
    (m.appendValue timestamp stream).rowValues = m.rowValues ++ [valueOf timestamp stream] := by
  rw [rowValues_eq_expand, runs_appendValue h, Spans.expand_join, rowValues_eq_expand]
  rfl

/-- The rows of one, then those of the other. -/
theorem rowValues_append (h : m.Sound) (hother : other.Sound) :
    (m.append other).rowValues = m.rowValues ++ other.rowValues := by
  cases hempty : other.isEmpty with
  | true =>
    have hnone : other.rowValues = [] := by
      rw [← length_eq_zero_iff, hother.length_rowValues]
      exact beq_iff_eq.mp hempty
    rw [append, if_pos hempty, hnone, append_nil]
  | false =>
    rw [rowValues_eq_expand, runs_append h hempty, Spans.expand_join, rowValues_eq_expand,
      rowValues_eq_expand]

theorem Sound.append (h : m.Sound) (hother : other.Sound) : (m.append other).Sound := by
  cases hempty : other.isEmpty with
  | true =>
    rw [CriMetadata.append, if_pos hempty]
    exact h
  | false =>
    rcases eq_nil_or_concat m.spans with hnil | ⟨front, last, hspans⟩
    · rw [CriMetadata.append, if_neg (by rw [hempty]; decide), if_pos (by rw [hnil]; rfl)]
      exact hother
    · rw [concat_eq_append] at hspans
      constructor
      · rw [← Spans.length_expand, ← rowValues, rowValues_append h hother, length_append,
          h.length_rowValues, hother.length_rowValues, rows_append h]
      · intro span hspan
        -- the descriptors are those of the one, or rebased of the other
        have hfrom : (∃ mine ∈ m.spans, span.values = mine.values)
            ∨ ∃ theirs ∈ other.spans, span = rebase m.timestampBytes.length theirs := by
          rcases append_spans hempty hspans with ⟨-, heq⟩ | ⟨first, tail, hfirst, -, heq⟩
          · rw [heq, mem_append, mem_map] at hspan
            rcases hspan with hspan | ⟨theirs, htheirs, rfl⟩
            · exact .inl ⟨span, hspan, rfl⟩
            · exact .inr ⟨theirs, htheirs, rfl⟩
          · rw [heq, hspans, mem_append, mem_map] at hspan
            rcases hspan with hspan | ⟨theirs, htheirs, rfl⟩
            · exact .inl (hspans ▸ mem_extendLast hspan)
            · exact .inr ⟨theirs, hfirst ▸ mem_cons_of_mem first htheirs, rfl⟩
        rw [(append_fields hempty hspans).1, (append_fields hempty hspans).2]
        rcases hfrom with ⟨mine, hmine, heq⟩ | ⟨theirs, htheirs, rfl⟩
        · unfold SpanSound
          rw [heq]
          exact (h.spans mine hmine).append _ fun hflag => by rw [hflag, Bool.true_or]
        · exact (hother.spans theirs htheirs).rebase _ fun hflag => by rw [hflag, Bool.or_true]

-- == operations

/-- A sidecar put together by the operations. -/
inductive Build
  | empty
  | nullRows (b : Build) (rows : Nat)
  | value (b : Build) (timestamp stream : Bytes)
  | append (b other : Build)

/-- The sidecar that a build makes. -/
def Build.sidecar : Build → CriMetadata
  | empty => .empty
  | nullRows b rows => b.sidecar.appendNullRows rows
  | value b timestamp stream => b.sidecar.appendValue timestamp stream
  | append b other => b.sidecar.append other.sidecar

/-- The rows that the operations stand for. -/
def Build.rows : Build → List RowValue
  | empty => []
  | nullRows b rows => b.rows ++ List.replicate rows none
  | value b timestamp stream => b.rows ++ [valueOf timestamp stream]
  | append b other => b.rows ++ other.rows

/-- Induction over the operations: each joins runs to those there are. -/
theorem Build.encodes (b : Build) : b.sidecar.Sound
    ∧ (b.sidecar.runs.map Prod.snd).IsChain (· ≠ ·) ∧ b.sidecar.rowValues = b.rows := by
  induction b with
  | empty => exact ⟨.empty, .nil, rfl⟩
  | nullRows b n ih =>
    obtain ⟨hsound, hchain, hrows⟩ := ih
    rw [sidecar, rows, ← hrows]
    refine ⟨hsound.appendNullRows n, ?_, rowValues_appendNullRows _ n⟩
    by_cases hn : n = 0
    · rw [hn]
      exact hchain
    · rw [runs_appendNullRows _ hn]
      exact Spans.isChain_join hchain (.singleton _)
  | value b timestamp stream ih =>
    obtain ⟨hsound, hchain, hrows⟩ := ih
    rw [sidecar, rows, ← hrows]
    refine ⟨hsound.appendValue timestamp stream, ?_, rowValues_appendValue hsound timestamp stream⟩
    rw [runs_appendValue hsound]
    exact Spans.isChain_join hchain (.singleton _)
  | append b other ih ih' =>
    obtain ⟨hsound, hchain, hrows⟩ := ih
    obtain ⟨hsound', hchain', hrows'⟩ := ih'
    rw [sidecar, rows, ← hrows, ← hrows']
    refine ⟨hsound.append hsound', ?_, rowValues_append hsound hsound'⟩
    cases hempty : other.sidecar.isEmpty with
    | true =>
      rw [CriMetadata.append, if_pos hempty]
      exact hchain
    | false =>
      rw [runs_append hsound hempty]
      exact Spans.isChain_join hchain hchain'

/-- **The sidecar is a run-length encoding** of the rows its operations
stand for: the spans expand to them and total the row count, every stored
range lies in the buffer, and no two adjacent spans say the same. -/
theorem sidecar_encodes_rows (b : Build) :
    b.sidecar.rowValues = b.rows
      ∧ (b.sidecar.spans.map (·.rows)).sum = b.sidecar.rows
      ∧ (∀ span ∈ b.sidecar.spans, ∀ v ∈ span.values,
          v.timestampStart + v.timestampLen ≤ b.sidecar.timestampBytes.length)
      ∧ (b.sidecar.spans.map (spanValue b.sidecar.timestampBytes)).IsChain (· ≠ ·) := by
  obtain ⟨hsound, hchain, hrows⟩ := b.encodes
  refine ⟨hrows, hsound.rows, fun span hspan v hv => (hsound.spans span hspan v hv).inRange, ?_⟩
  rw [runs, map_map] at hchain
  exact hchain

end FastForward.Io.CriMetadata
