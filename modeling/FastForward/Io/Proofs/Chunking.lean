/-
Framing does not depend on how a stream is cut.

While no line is too long to be kept, the state of a source is a function
of the bytes it has read (`stateAfter`), and what it emits are the rows of
the lines those bytes complete (`streamRows`). Both are stated without
chunks; a read appends its bytes (`read_stateAfter`).

A source whose state is reclaimed starts over whenever nothing is pending.
Its offsets then count from the last such point, everything else stays the
same (`EntryAfter`).
-/
import FastForward.Io.Proofs.SourceIsolation

namespace FastForward.Io

open Core Lib Pipeline List Ascii SourceState FramedInput Transducer FormatDecoder CriMetadata
open Option

-- == complete lines

theorem terminated_splitOnP (front : Bytes) :
    terminated (front.splitOnP isNewline) = front ++ [newline] := by
  induction front using Segments.segmentInduction isNewline with
  | isOpen line h =>
    rw [splitOnP_eq_singleton h, terminated_cons]
    rfl
  | isClosed line sep rest h hsep ih =>
    obtain rfl := eq_newline hsep
    rw [splitOnP_append_cons_of_forall_mem h _ hsep, terminated_cons, ih, append_assoc, cons_append]

variable {pos : Nat}

/-- Cutting behind the last newline separates the closed lines from the
unfinished one. -/
theorem cut_lastNewline {buf : Bytes} (h : memrchr newline buf = some pos) :
    buf.take (pos + 1) = terminated (closedLines buf)
      ∧ buf.drop (pos + 1) = unfinishedLine buf := by
  rcases memrchr_newline buf with ⟨hnone, -⟩ | ⟨front, hsome, hbuf, hclosed⟩
  · rw [hnone] at h
    cases h
  · rw [hsome, some.injEq] at h
    subst h
    rw [hclosed, terminated_splitOnP]
    generalize unfinishedLine buf = back at hbuf ⊢
    subst hbuf
    rw [append_cons]
    exact ⟨take_left' (by simp), drop_left' (by simp)⟩

theorem newline_notMem_closedLines (buf : Bytes) : ∀ line ∈ closedLines buf, newline ∉ line := by
  rcases memrchr_newline buf with ⟨-, hclosed, -⟩ | ⟨front, -, -, hclosed⟩
  · rw [hclosed]
    exact fun _ h => absurd h not_mem_nil
  · rw [hclosed, ← linesOf_eq_splitOnP]
    exact newline_notMem_linesOf front

-- == emitted rows

/-- What rows are emitted as: one output, or none. -/
def emitRows (rows : List OutputRow) : List Emitted :=
  if (texts rows).isEmpty then []
  else [⟨texts rows, sidecarOf (some (rows.foldl addRow .empty))⟩]

theorem texts_readLines_passthrough {format : FormatDecoder} (h : format.isPassthrough)
    (lines : List Bytes) :
    format.readLines lines = (format, lines.map fun line => ⟨line ++ [newline], .untracked⟩) := by
  induction lines with
  | nil => rfl
  | cons line lines ih =>
    have hstep : format.readLine line = (format, [⟨line ++ [newline], .untracked⟩]) := by
      cases format with
      | passthrough | passthroughJson => rfl
      | cri a name | auto a name => cases h
    rw [FormatDecoder.readLines, run_cons, hstep, ← FormatDecoder.readLines, ih]
    rfl

variable (format : FormatDecoder) {lines : List Bytes}

/-- Complete lines, decoded by any format. -/
theorem processLines_terminated (h : ∀ line ∈ lines, newline ∉ line) (m : CriMetadata) :
    format.processLinesWithMetadata (terminated lines) [] (some m)
      = { format := (format.readLines lines).1
          out := texts (format.readLines lines).2
          metadata := some ((format.readLines lines).2.foldl addRow m) } := by
  cases hcri : format.emitsCriMetadata with
  | true =>
    rw [processLinesWithMetadata_eq hcri, chunkLines_terminated h]
    rfl
  | false =>
    have hpass : format.isPassthrough := by
      cases format with
      | passthrough | passthroughJson => rfl
      | cri a name | auto a name => cases hcri
    have hprocess : format.processLinesWithMetadata (terminated lines) [] (some m)
        = ⟨format, terminated lines, some m⟩ := by
      cases format with
      | passthrough | passthroughJson => rfl
      | cri a name | auto a name => cases hcri
    have htexts : texts (lines.map fun line =>
        (⟨line ++ [newline], .untracked⟩ : OutputRow)) = terminated lines := by
      rw [texts, flatMap_map]
      rfl
    have hsidecar : (lines.map fun line =>
        (⟨line ++ [newline], .untracked⟩ : OutputRow)).foldl addRow m = m := by
      rw [foldl_map]
      exact foldl_fixed' (fun _ => rfl) lines
    rw [hprocess, texts_readLines_passthrough hpass, htexts, hsidecar]

/-- Lines that are ended are read one by one. -/
theorem decode_terminated (s : SourceState) (h : ∀ line ∈ lines, newline ∉ line) :
    s.decode (terminated lines)
      = ({ s with format := (s.format.readLines lines).1 },
          emitRows (s.format.readLines lines).2) := by
  rw [decode, processLines_terminated s.format h]
  rfl

/-- What the sidecar says of an output row. -/
def OutputRow.values (row : OutputRow) : List CriMetadata.RowValue :=
  match row.sidecar with
  | .untracked => []
  | .null => [none]
  | .value timestamp stream => [valueOf timestamp stream]

variable {m : CriMetadata}

theorem rowValues_addRows (h : m.Sound) (rows : List OutputRow) :
    (rows.foldl addRow m).rowValues = m.rowValues ++ rows.flatMap OutputRow.values := by
  induction rows generalizing m with
  | nil => simp
  | cons row rows ih =>
    have hsound : (m.addRow row).Sound := h.addRows [row]
    have hrow : (m.addRow row).rowValues = m.rowValues ++ row.values := by
      unfold addRow OutputRow.values
      cases row.sidecar with
      | untracked => simp
      | null => exact rowValues_appendNullRows m 1
      | value timestamp stream => exact rowValues_appendValue h timestamp stream
    rw [foldl_cons, ih hsound, hrow, flatMap_cons, append_assoc]

def Emitted.rowValues (e : Emitted) : List CriMetadata.RowValue :=
  (e.criMetadata.map CriMetadata.rowValues).getD []

/-- An empty sidecar is not attached; it says nothing either way. -/
theorem rowValues_sidecarOf (h : m.Sound) :
    ((sidecarOf (some m)).map CriMetadata.rowValues).getD [] = m.rowValues := by
  rw [sidecarOf, filter_some]
  split
  next => rfl
  next hempty =>
    have hrows : m.rows = 0 := by simpa [CriMetadata.isEmpty] using hempty
    have hlength : m.rowValues.length = 0 := by rw [h.length_rowValues, hrows]
    rw [length_eq_zero_iff.mp hlength]
    rfl

theorem text_terminated_readLine (a : Aggregators) (name : Bytes) (onFail : Bool) (line : Bytes) :
    ∀ row ∈ (a.readLine name onFail line).2, ∃ body, row.text = body ++ [newline] := by
  intro row hrow
  cases hparse : parseCriLine line with
  | some cri =>
    rw [Aggregators.readLine_of_parse hparse] at hrow
    split at hrow
    · rw [mem_singleton.mp hrow]
      exact ⟨_, rfl⟩
    · exact absurd hrow not_mem_nil
  | none =>
    obtain ⟨rows, hread, hrows⟩ := Aggregators.readLine_of_none hparse name onFail
    rw [hread] at hrow
    exact (hrows row hrow).1

/-- Every row ends with a newline. -/
theorem text_terminated_readLines (lines : List Bytes) :
    ∀ row ∈ (format.readLines lines).2, ∃ body, row.text = body ++ [newline] := by
  refine (run_invariant readLine (fun _ => True)
    (fun row => ∃ body, row.text = body ++ [newline]) (fun _ => True)
    (fun format line _ _ => ⟨trivial, ?_⟩) trivial fun _ _ => trivial).2
  cases format with
  | passthrough | passthroughJson => exact fun row hrow => ⟨line, by rw [mem_singleton.mp hrow]⟩
  | cri a name => exact text_terminated_readLine a name false line
  | auto a name => exact text_terminated_readLine a name true line

theorem text_ne_nil_readLines (lines : List Bytes) :
    ∀ row ∈ (format.readLines lines).2, row.text ≠ [] := by
  intro row hrow
  obtain ⟨body, hbody⟩ := text_terminated_readLines format lines row hrow
  rw [hbody]
  exact append_ne_nil_of_right_ne_nil _ (cons_ne_nil _ _)

theorem bytes_emitRows (rows : List OutputRow) :
    (emitRows rows).flatMap (·.bytes) = texts rows := by
  rw [emitRows]
  split
  next hempty => rw [isEmpty_iff.mp hempty]; rfl
  next => simp

variable {rows : List OutputRow}

theorem rowValues_emitRows (h : ∀ row ∈ rows, row.text ≠ []) :
    (emitRows rows).flatMap Emitted.rowValues = rows.flatMap OutputRow.values := by
  rw [emitRows]
  split
  next hempty =>
    have hnil : rows = [] := by
      cases rows with
      | nil => rfl
      | cons row rows =>
        have htext := h row mem_cons_self
        rw [List.isEmpty_iff, texts, flatMap_cons, append_eq_nil_iff] at hempty
        exact absurd hempty.1 htext
    rw [hnil]
    rfl
  next =>
    rw [flatMap_singleton, Emitted.rowValues,
      rowValues_sidecarOf (Sound.empty.addRows rows),
      rowValues_addRows .empty rows]
    rfl

-- == state after a stream

/-- The tracker of a source that has read a stream. -/
def trackerAfter (stream : Bytes) : CheckpointTracker :=
  { readOffset := stream.length
    processedOffset := stream.length - (unfinishedLine stream).length
    remainderLen := (unfinishedLine stream).length
    checkpointOffset := 0 }

variable {bytes : Bytes}

theorem applyRead_trackerAfter (stream : Bytes) (h : bytes ≠ []) :
    (trackerAfter stream).applyRead bytes.length (memrchr newline bytes)
      = some (trackerAfter (stream ++ bytes)) := by
  have hlength : bytes.length ≠ 0 := fun h0 => h (length_eq_zero_iff.mp h0)
  unfold CheckpointTracker.applyRead
  rw [if_neg hlength]
  rcases memrchr_newline bytes with ⟨hnone, -, -⟩ | ⟨front, hsome, hbytes, -⟩
  · have hlines := (lines_append_of_notMem stream (memrchr_eq_none.mp hnone)).2
    rw [hnone]
    simp only [trackerAfter, hlines, length_append, some.injEq,
      CheckpointTracker.mk.injEq, true_and, and_true]
    omega
  · have hlines : unfinishedLine (stream ++ bytes) = unfinishedLine bytes := by
      conv => lhs; rw [hbytes, ← append_assoc]
      exact (Segments.rest_append_cons isNewline_newline).trans
        (Segments.rest_of_forall (Segments.rest_forall isNewline bytes))
    have hsum : bytes.length = front.length + 1 + (unfinishedLine bytes).length := by
      conv => lhs; rw [hbytes]
      rw [length_append, length_cons]
      omega
    rw [hsome]
    dsimp only
    rw [if_neg (by omega)]
    simp only [trackerAfter, hlines, length_append, some.injEq,
      CheckpointTracker.mk.injEq, true_and, and_true]
    omega

theorem newlineInNewBytes_eq {remainder : Bytes} (h : newline ∉ remainder) (bytes : Bytes) :
    newlineInNewBytes (memrchr newline (remainder ++ bytes)) remainder.length
      = memrchr newline bytes := by
  rcases memrchr_newline bytes with ⟨hnone, -⟩ | ⟨front, hsome, hbytes, -⟩
  · have hchunk : memrchr newline (remainder ++ bytes) = none :=
      memrchr_eq_none.mpr fun hmem =>
        (mem_append.mp hmem).elim h (memrchr_eq_none.mp hnone)
    rw [hchunk, hnone]
    rfl
  · have hchunk : memrchr newline (remainder ++ bytes)
        = some (remainder ++ front).length := by
      conv => lhs; rw [hbytes, ← append_assoc]
      exact memrchr_append_cons (newline_notMem_unfinishedLine bytes)
    rw [hchunk, hsome, newlineInNewBytes, bind_some, length_append,
      if_pos (Nat.le_add_right ..), Nat.add_sub_cancel_left]

variable {s : SourceState}

theorem keepTail_of_le {tail : Bytes} (h : tail.length ≤ maxRemainderBytes) :
    s.keepTail tail = { s with remainder := tail } := by
  rw [keepTail, if_neg (not_lt.mpr h)]

variable {chunk : Bytes}

theorem cutTail_eq (hremainder : s.remainder = []) (hpos : memrchr newline chunk = some pos) :
    s.cutTail chunk pos = (s.keepTail (unfinishedLine chunk), terminated (closedLines chunk)) := by
  obtain ⟨htake, hdrop⟩ := cut_lastNewline hpos
  rw [cutTail]
  split
  next => rw [htake, hdrop]
  next hend =>
    have hnil : unfinishedLine chunk = [] := by
      rw [← hdrop]
      exact drop_of_length_le (by omega)
    rw [← htake, take_of_length_le (by omega), hnil, keepTail_of_le (Nat.zero_le _), ← hremainder]

theorem terminated_closedLines_ne_nil
    (hpos : memrchr newline chunk = some pos) : terminated (closedLines chunk) ≠ [] := by
  rw [← (cut_lastNewline hpos).1]
  exact take_newline_ne_nil hpos

theorem complete_untainted {lines : Bytes} (h : lines ≠ []) :
    s.complete false lines = s.decode lines := by
  show (if 0 < lines.length then s.decode lines else _) = _
  rw [if_pos (length_pos_iff.mpr h)]

/-- A read that leaves a short line unfinished: the lines it closes are
decoded and emitted. -/
theorem read_eq (hremainder : newline ∉ s.remainder) (htaint : s.overflowTainted = false)
    (hshort : (unfinishedLine (s.remainder ++ bytes)).length ≤ maxRemainderBytes) :
    s.read bytes
      = (s.tracker.applyRead bytes.length (memrchr newline bytes)).map fun tracker =>
          ({ remainder := unfinishedLine (s.remainder ++ bytes)
             format := (s.format.readLines (closedLines (s.remainder ++ bytes))).1
             tracker
             overflowTainted := false },
            emitRows (s.format.readLines (closedLines (s.remainder ++ bytes))).2) := by
  have hlast := newlineInNewBytes_eq hremainder bytes
  obtain ⟨remainder, format, tracker, tainted⟩ := s
  obtain rfl : tainted = false := htaint
  rcases memrchr_newline (remainder ++ bytes) with
    ⟨hnone, hclosed, hopen⟩ | ⟨front, hsome, hchunk, -⟩
  · rw [hnone] at hlast
    rw [read_of_none hnone, ← hlast, hclosed, hopen]
    rw [hopen] at hshort
    refine congrArg (fun g => Option.map g _) (funext fun tracker' => ?_)
    rw [keepTail_of_le hshort]
    rfl
  · rw [hsome] at hlast
    rw [read_of_some hsome, hlast]
    refine congrArg (fun g => Option.map g _) (funext fun tracker' => ?_)
    rw [cutTail_eq rfl hsome, keepTail_of_le hshort]
    rw [complete_untainted (terminated_closedLines_ne_nil hsome),
      decode_terminated _ (newline_notMem_closedLines _)]

section Stream

variable (template : FormatDecoder)

/-- The decoder after a stream. -/
def formatAfter (stream : Bytes) : FormatDecoder :=
  (template.newInstance.readLines (closedLines stream)).1

/-- The rows of a stream. -/
def streamRows (stream : Bytes) : List OutputRow :=
  (template.newInstance.readLines (closedLines stream)).2

/-- A source that has read a stream and was never reclaimed. -/
def stateAfter (stream : Bytes) : SourceState :=
  { remainder := unfinishedLine stream
    format := formatAfter template stream
    tracker := trackerAfter stream
    overflowTainted := false }

theorem stateAfter_nil : stateAfter template [] = .fresh template := by
  simp [stateAfter, formatAfter, trackerAfter, fresh, CheckpointTracker.new]

/-- The rows that bytes add to a stream. -/
def rowsAdded (stream bytes : Bytes) : List OutputRow :=
  ((formatAfter template stream).readLines (closedLines (unfinishedLine stream ++ bytes))).2

theorem formatAfter_append (stream bytes : Bytes) :
    formatAfter template (stream ++ bytes)
      = ((formatAfter template stream).readLines
          (closedLines (unfinishedLine stream ++ bytes))).1 := by
  rw [formatAfter, closedLines_append, FormatDecoder.readLines, run_append]
  rfl

/-- They come behind the rows before. -/
theorem streamRows_append (stream bytes : Bytes) :
    streamRows template (stream ++ bytes)
      = streamRows template stream ++ rowsAdded template stream bytes := by
  rw [streamRows, closedLines_append, FormatDecoder.readLines, run_append]
  rfl

/-- A read takes the state of a stream to that of the longer one. -/
theorem read_stateAfter (stream : Bytes) {bytes : Bytes} (hne : bytes ≠ [])
    (hshort : (unfinishedLine (stream ++ bytes)).length ≤ maxRemainderBytes) :
    (stateAfter template stream).read bytes
      = some (stateAfter template (stream ++ bytes),
          emitRows (rowsAdded template stream bytes)) := by
  rw [unfinishedLine_append] at hshort
  have hstate : stateAfter template (stream ++ bytes)
      = { remainder := unfinishedLine (unfinishedLine stream ++ bytes)
          format := ((formatAfter template stream).readLines
            (closedLines (unfinishedLine stream ++ bytes))).1
          tracker := trackerAfter (stream ++ bytes)
          overflowTainted := false } := by
    rw [stateAfter, formatAfter_append, unfinishedLine_append]
  rw [read_eq (newline_notMem_unfinishedLine stream) rfl hshort, hstate]
  show Option.map _ ((trackerAfter stream).applyRead _ _) = _
  rw [applyRead_trackerAfter stream hne]
  rfl

-- == reclaiming

/-- The limits of the aggregators are not zero. With a limit of zero
nothing is ever pending, but a cut is still recorded. -/
def PositiveLimit : FormatDecoder → Prop
  | .cri a _ | .auto a _ => 0 < a.stdout.maxMessageSize
  | _ => True

end Stream

/-- A reassembler with this limit that remembers nothing but what is
pending. -/
structure Settled (limit : Nat) (r : CriReassembler) : Prop where
  limit : r.maxMessageSize = limit
  lineFragment : r.lineFragment = []
  lineFragmentTruncated : r.lineFragmentTruncated = false
  truncated : r.pending = [] → r.truncated = false

namespace Settled

variable {limit : Nat} {r : CriReassembler}

theorem new (limit : Nat) : Settled limit (.new limit) := ⟨rfl, rfl, rfl, fun _ => rfl⟩

theorem reset (h : Settled limit r) : Settled limit r.reset :=
  ⟨h.limit, rfl, rfl, fun _ => rfl⟩

/-- With nothing pending it is as new. -/
theorem eq_new (h : Settled limit r) (hpending : r.pending = []) : r = .new limit := by
  obtain ⟨pending, lineFragment, maxMessageSize, truncated, lineFragmentTruncated⟩ := r
  obtain ⟨hlimit, hfragment, hfragmentTruncated, htruncated⟩ := h
  dsimp only at *
  rw [hpending, hlimit, hfragment, hfragmentTruncated, htruncated hpending]
  rfl

theorem extend (hlimit : 0 < limit) (h : Settled limit r) (message : Bytes) :
    Settled limit (r.extend message) := by
  refine ⟨h.limit, h.lineFragment, h.lineFragmentTruncated, fun hpending => ?_⟩
  obtain ⟨hold, hadded⟩ := append_eq_nil_iff.mp hpending
  have hnotCut : ¬ min message.length (r.maxMessageSize - r.pending.length) < message.length := by
    have hmin : min (min message.length (r.maxMessageSize - r.pending.length)) message.length
        = 0 := by
      rw [← length_take, hadded]
      rfl
    rw [hold, h.limit] at hmin ⊢
    simp only [length_nil] at hmin ⊢
    omega
  show (if _ then true else r.truncated) = false
  rw [if_neg hnotCut]
  exact h.truncated hold

end Settled

namespace Aggregators

/-- Both reassemblers are settled. -/
structure Settled (limit : Nat) (a : Aggregators) : Prop where
  stdout : Io.Settled limit a.stdout
  stderr : Io.Settled limit a.stderr

variable {limit : Nat} {a : Aggregators}

theorem Settled.new (limit : Nat) : (Aggregators.new limit).Settled limit :=
  ⟨Io.Settled.new limit, Io.Settled.new limit⟩

theorem Settled.get (h : a.Settled limit) (stream : Bytes) : Io.Settled limit (a.get stream) := by
  rw [Aggregators.get]
  split
  · exact h.stderr
  · exact h.stdout

theorem Settled.set (h : a.Settled limit) (stream : Bytes) {r : CriReassembler}
    (hr : Io.Settled limit r) : (a.set stream r).Settled limit := by
  rw [Aggregators.set]
  split
  · exact ⟨h.stdout, hr⟩
  · exact ⟨hr, h.stderr⟩

variable (hlimit : 0 < limit) (h : a.Settled limit) (name : Bytes) (onFail : Bool)

include hlimit h

theorem Settled.readLine (line : Bytes) : (a.readLine name onFail line).1.Settled limit := by
  cases hparse : parseCriLine line with
  | some cri =>
    rw [readLine_of_parse hparse]
    split
    · exact h.set cri.stream (h.get cri.stream).reset
    · exact h.set cri.stream ((h.get cri.stream).extend hlimit cri.message)
  | none =>
    obtain ⟨rows, hread, -⟩ := readLine_of_none hparse name onFail
    rw [hread]
    exact ⟨h.stdout.reset, h.stderr.reset⟩

theorem Settled.readLines (lines : List Bytes) :
    (run (Aggregators.readLine name onFail) a lines).1.Settled limit :=
  (run_invariant (Aggregators.readLine name onFail) (Aggregators.Settled limit)
    (fun _ => True) (fun _ => True)
    (fun _ line hb _ => ⟨hb.readLine hlimit name onFail line, fun _ _ => trivial⟩) h
    fun _ _ => trivial).1

omit hlimit h

/-- With nothing buffered they are as new. -/
theorem Settled.eq_new (h : a.Settled limit) (hbuffered : a.hasBufferedState = false) :
    a = Aggregators.new limit := by
  simp only [hasBufferedState, CriReassembler.hasBufferedState, CriReassembler.hasPending,
    Bool.or_eq_false_iff, Bool.not_eq_false', List.isEmpty_iff] at hbuffered
  obtain ⟨stdout, stderr⟩ := a
  have hstdout := h.stdout.eq_new hbuffered.1.1
  have hstderr := h.stderr.eq_new hbuffered.2.1
  dsimp only at hstdout hstderr
  rw [hstdout, hstderr]
  rfl

end Aggregators

variable {stream : Bytes}

theorem formatAfter_eq_newInstance {template : FormatDecoder} (hlimit : PositiveLimit template)
    (hpending : (formatAfter template stream).hasPendingState = false) :
    formatAfter template stream = template.newInstance := by
  cases template with
  | passthrough | passthroughJson => rw [formatAfter, texts_readLines_passthrough rfl]
  | cri a name =>
    have hrun := run_embed (Aggregators.readLine name false)
      readLine (.cri · name) (fun _ _ => rfl)
      (.new a.stdout.maxMessageSize) (closedLines stream)
    have hsettled := (Aggregators.Settled.new a.stdout.maxMessageSize).readLines hlimit name
      false (closedLines stream)
    rw [formatAfter, newInstance, FormatDecoder.readLines, hrun] at hpending ⊢
    rw [hsettled.eq_new hpending]
  | auto a name =>
    have hrun := run_embed (Aggregators.readLine name true)
      readLine (.auto · name) (fun _ _ => rfl)
      (.new a.stdout.maxMessageSize) (closedLines stream)
    have hsettled := (Aggregators.Settled.new a.stdout.maxMessageSize).readLines hlimit name
      true (closedLines stream)
    rw [formatAfter, newInstance, FormatDecoder.readLines, hrun] at hpending ⊢
    rw [hsettled.eq_new hpending]

-- == whole runs

/-- A stream that leaves a source as new. -/
structure Clean (template : FormatDecoder) (stream : Bytes) : Prop where
  unfinished : unfinishedLine stream = []
  format : formatAfter template stream = template.newInstance

namespace Clean

variable {template : FormatDecoder} {dropped : Bytes}

theorem nil (template : FormatDecoder) : Clean template [] := ⟨Segments.rest_nil, rfl⟩

variable (h : Clean template dropped)

include h

theorem unfinished_append (kept : Bytes) :
    unfinishedLine (dropped ++ kept) = unfinishedLine kept := by
  rw [unfinishedLine_append, h.unfinished, nil_append]

theorem format_append (kept : Bytes) :
    formatAfter template (dropped ++ kept) = formatAfter template kept := by
  rw [formatAfter_append, h.unfinished, h.format, nil_append, formatAfter]

theorem rowsAdded_append (kept bytes : Bytes) :
    rowsAdded template (dropped ++ kept) bytes = rowsAdded template kept bytes := by
  rw [rowsAdded, rowsAdded, h.unfinished_append, h.format_append]

theorem append {kept : Bytes} (hkept : Clean template kept) : Clean template (dropped ++ kept) :=
  ⟨(h.unfinished_append kept).trans hkept.unfinished, (h.format_append kept).trans hkept.format⟩

omit h

theorem of_isReclaimable (hlimit : PositiveLimit template)
    (h : (stateAfter template stream).isReclaimable) : Clean template stream := by
  simp only [isReclaimable, Bool.and_eq_true, List.isEmpty_iff, Bool.not_eq_true'] at h
  exact ⟨h.1.1, formatAfter_eq_newInstance hlimit h.2⟩

end Clean

section Runs

variable (template : FormatDecoder) (reclaim : Bool)

/-- The entry of a source that has read a stream: since it was last
reclaimed it has read `kept`. -/
def EntryAfter (stream : Bytes) (entry : Option SourceState) : Prop :=
  ∃ dropped kept, stream = dropped ++ kept ∧ Clean template dropped
    ∧ (reclaim = false → dropped = [])
    ∧ entry = (stateAfter template kept).retained reclaim

/-- What it goes on with. -/
def ReadsOnAfter (stream : Bytes) (entry : Option SourceState) : Prop :=
  ∃ dropped kept, stream = dropped ++ kept ∧ Clean template dropped
    ∧ (reclaim = false → dropped = [])
    ∧ entry.getD (.fresh template) = stateAfter template kept

variable {template reclaim}

theorem ReadsOnAfter.start : ReadsOnAfter template reclaim [] none :=
  ⟨[], [], rfl, Clean.nil template, fun _ => rfl, (stateAfter_nil template).symm⟩

variable {entry : Option SourceState}

theorem EntryAfter.readsOn (hlimit : reclaim → PositiveLimit template)
    (h : EntryAfter template reclaim stream entry) :
    ReadsOnAfter template reclaim stream entry := by
  obtain ⟨dropped, kept, rfl, hclean, hwhole, rfl⟩ := h
  by_cases hreclaim : (reclaim && (stateAfter template kept).isReclaimable)
  · rw [Bool.and_eq_true] at hreclaim
    refine ⟨dropped ++ kept, [], (append_nil _).symm,
      hclean.append (.of_isReclaimable (hlimit hreclaim.1) hreclaim.2),
      fun hfalse => ?_, ?_⟩
    · rw [hreclaim.1] at hfalse
      cases hfalse
    · rw [retained, hreclaim.1, hreclaim.2]
      exact (stateAfter_nil template).symm
  · refine ⟨dropped, kept, rfl, hclean, hwhole, ?_⟩
    rw [retained, if_neg hreclaim]
    rfl

/-- One chunk. -/
theorem ReadsOnAfter.read
    (h : ReadsOnAfter template reclaim stream entry) {bytes : Bytes} (hne : bytes ≠ [])
    (hshort : (unfinishedLine (stream ++ bytes)).length ≤ maxRemainderBytes) :
    ∃ entry', ((entry.getD (.fresh template)).read bytes).map
          (fun r => (r.1.retained reclaim, r.2))
        = some (entry', emitRows (rowsAdded template stream bytes))
      ∧ EntryAfter template reclaim (stream ++ bytes) entry' := by
  obtain ⟨dropped, kept, rfl, hclean, hwhole, hentry⟩ := h
  rw [append_assoc, hclean.unfinished_append] at hshort
  refine ⟨(stateAfter template (kept ++ bytes)).retained reclaim, ?_,
    dropped, kept ++ bytes, append_assoc .., hclean, hwhole, rfl⟩
  rw [hentry, read_stateAfter template kept hne hshort, hclean.rowsAdded_append]
  rfl

end Runs

/-- Outputs write these rows. -/
structure Writes (outputs : List Emitted) (rows : List OutputRow) : Prop where
  bytes : outputs.flatMap (·.bytes) = texts rows
  values : outputs.flatMap Emitted.rowValues = rows.flatMap OutputRow.values

theorem Writes.append {outputs outputs' : List Emitted} {rows' : List OutputRow}
    (h : Writes outputs rows) (h' : Writes outputs' rows') :
    Writes (outputs ++ outputs') (rows ++ rows') := by
  constructor
  · rw [flatMap_append, h.bytes, h'.bytes, texts_append]
  · rw [flatMap_append, h.values, h'.values, flatMap_append]

theorem writes_emitRows (template : FormatDecoder) (stream bytes : Bytes) :
    Writes (emitRows (rowsAdded template stream bytes)) (rowsAdded template stream bytes) :=
  ⟨bytes_emitRows _, rowValues_emitRows (text_ne_nil_readLines _ _)⟩

/-- Rows of more bytes, in two pieces. -/
theorem rowsAdded_append (template : FormatDecoder) (stream bytes more : Bytes) :
    rowsAdded template stream (bytes ++ more)
      = rowsAdded template stream bytes ++ rowsAdded template (stream ++ bytes) more := by
  have hwhole := streamRows_append template stream (bytes ++ more)
  rw [← append_assoc, streamRows_append, streamRows_append, append_assoc] at hwhole
  exact (append_cancel_left hwhole).symm

/-- No line of a stream is too long to be kept. -/
def ShortLines (stream : Bytes) : Prop :=
  ∀ line ∈ linesOf stream, line.length ≤ maxRemainderBytes

/-- Then none was at any earlier point. -/
theorem ShortLines.unfinished {more : Bytes} (h : ShortLines (stream ++ more)) :
    (unfinishedLine stream).length ≤ maxRemainderBytes := by
  obtain ⟨tail, hmem⟩ := Segments.exists_extends_rest isNewline stream more
  rw [← linesOf_eq_splitOnP] at hmem
  have hlength := h _ hmem
  rw [length_append] at hlength
  exact le_trans (Nat.le_add_right ..) hlength

/-- A source's chunks as events. -/
def dataChunks {R : Type} (key : Option SourceId) (chunks : List Bytes) :
    List (SourceEvent UInt8 R) :=
  chunks.map fun chunk => .data chunk key chunk.length none

namespace Sources

variable {R : Type}

theorem update_update (S : Sources) (key : Option SourceId) (a b : Option SourceState) :
    (S.update key a).update key b = S.update key b := by
  have hstates : ((S.update key a).update key b).states = (S.update key b).states := by
    refine Std.ExtTreeMap.ext_getElem? fun k => ?_
    rw [getElem?_update, getElem?_update, getElem?_update]
    by_cases hk : key = k
    · rw [if_pos hk, if_pos hk]
    · rw [if_neg hk, if_neg hk, if_neg hk]
  exact congrArg (mk S.shouldReclaim S.formatTemplate) hstates

/-- Chunks of a source add the rows of its stream. -/
theorem process_chunks (keyOrder : BTreeMap (Option SourceId) SourceState → List (Option SourceId))
    {S : Sources} {key : Option SourceId}
    (hlimit : (key.isSome && S.shouldReclaim) → PositiveLimit S.formatTemplate)
    (h : ReadsOnAfter S.formatTemplate (key.isSome && S.shouldReclaim) stream S.states[key]?)
    {chunks : List Bytes} (hchunks : ∀ chunk ∈ chunks, chunk ≠ [])
    (hshort : ShortLines (stream ++ chunks.flatten)) (hne : chunks ≠ []) :
    ∃ entry outputs,
      S.process (R := R) keyOrder (dataChunks key chunks)
          = some (S.update key entry, dataEvents key outputs)
        ∧ EntryAfter S.formatTemplate (key.isSome && S.shouldReclaim)
            (stream ++ chunks.flatten) entry
        ∧ Writes outputs (rowsAdded S.formatTemplate stream chunks.flatten) := by
  induction chunks generalizing S stream with
  | nil => exact absurd rfl hne
  | cons chunk rest ih =>
    rw [flatten_cons, ← append_assoc] at hshort
    obtain ⟨entry, hread, hentry⟩ := h.read (hchunks chunk mem_cons_self) hshort.unfinished
    obtain ⟨r, hr, hpair⟩ := map_eq_some_iff.mp hread
    have hstep : S.step (R := R) keyOrder (.data chunk key chunk.length none)
        = some (S.update key entry,
            dataEvents key (emitRows (rowsAdded S.formatTemplate stream chunk))) := by
      rw [Prod.mk.injEq] at hpair
      rw [step, data, Sources.entry, hr, map_some, hpair.1, hpair.2]
    have hwrites := writes_emitRows S.formatTemplate stream chunk
    rw [flatten_cons]
    by_cases hrest : rest = []
    · subst hrest
      refine ⟨entry, emitRows (rowsAdded S.formatTemplate stream chunk), ?_, ?_, ?_⟩
      · rw [dataChunks, map_cons, process, hstep]
        simp [process]
      · rw [flatten_nil, append_nil]
        exact hentry
      · rw [flatten_nil, append_nil]
        exact hwrites
    · obtain ⟨entry', outputs, hprocess, hentry', hwrites'⟩ := ih
        (S := S.update key entry) hlimit
        (by rw [getElem?_update, if_pos rfl]; exact hentry.readsOn hlimit)
        (fun c hc => hchunks c (mem_cons_of_mem chunk hc)) hshort hrest
      refine ⟨entry', emitRows (rowsAdded S.formatTemplate stream chunk) ++ outputs, ?_, ?_, ?_⟩
      · rw [dataChunks, map_cons, process, hstep, bind_some, ← dataChunks]
        rw [hprocess, update_update, map_some, dataEvents, dataEvents, dataEvents, map_append]
      · rw [← append_assoc]
        exact hentry'
      · rw [rowsAdded_append]
        exact hwrites.append hwrites'

end Sources

-- == the two cuts compared

/-- What the sidecars of data events say, row by row. -/
def eventRowValues {R : Type} (events : List (SourceEvent UInt8 R)) :
    List CriMetadata.RowValue :=
  events.flatMap fun
    | .data _ _ _ criMetadata => (criMetadata.map CriMetadata.rowValues).getD []
    | _ => []

variable (key : Option SourceId) (outputs : List Emitted)

theorem payload_dataEvents {R : Type} :
    payload (Sources.dataEvents (R := R) key outputs) = outputs.flatMap (·.bytes) := by
  rw [payload, Sources.dataEvents, flatMap_map]

theorem eventRowValues_dataEvents {R : Type} :
    eventRowValues (Sources.dataEvents (R := R) key outputs)
      = outputs.flatMap Emitted.rowValues := by
  rw [eventRowValues, Sources.dataEvents, flatMap_map]
  rfl

/-- What is left of a source, but for its offsets. -/
def leftOver (entry : Option SourceState) : Option (Bytes × FormatDecoder × Bool × Nat) :=
  entry.map fun s => (s.remainder, s.format, s.overflowTainted, s.tracker.remainderLen)

variable {entry : Option SourceState}

/-- It depends on the stream alone. -/
theorem EntryAfter.leftOver_eq {template : FormatDecoder} {reclaim : Bool}
    (h : EntryAfter template reclaim stream entry) :
    leftOver entry = leftOver ((stateAfter template stream).retained reclaim) := by
  obtain ⟨dropped, kept, rfl, hclean, -, rfl⟩ := h
  have hunfinished := hclean.unfinished_append kept
  have hformat := hclean.format_append kept
  have hreclaimable : (stateAfter template (dropped ++ kept)).isReclaimable
      = (stateAfter template kept).isReclaimable := by
    simp only [isReclaimable, stateAfter, hunfinished, hformat]
  rw [retained, retained, hreclaimable]
  split
  next => rfl
  next => simp only [leftOver, stateAfter, trackerAfter, map_some, hunfinished, hformat]

theorem EntryAfter.eq_of_not_reclaim {template : FormatDecoder}
    (h : EntryAfter template false stream entry) :
    entry = some (stateAfter template stream) := by
  obtain ⟨dropped, kept, rfl, -, hwhole, rfl⟩ := h
  rw [hwhole rfl]
  rfl

/-- A stream of one source from the start. -/
theorem processRawEvents_chunks {R : Type}
    (keyOrder : BTreeMap (Option SourceId) SourceState → List (Option SourceId))
    {shouldReclaim : Bool} {template : FormatDecoder} {key : Option SourceId}
    (hlimit : (key.isSome && shouldReclaim) → PositiveLimit template)
    {chunks : List Bytes} (hne : chunks ≠ []) (hchunks : ∀ chunk ∈ chunks, chunk ≠ [])
    (hshort : ShortLines chunks.flatten) :
    ∃ r : FramedInput × List (SourceEvent UInt8 R),
      (FramedInput.new shouldReclaim template).processRawEvents keyOrder
          (dataChunks key chunks) = some r
        ∧ EntryAfter template (key.isSome && shouldReclaim) chunks.flatten r.1.sources[key]?
        ∧ payload r.2 = texts (streamRows template chunks.flatten)
        ∧ eventRowValues r.2 = (streamRows template chunks.flatten).flatMap OutputRow.values := by
  have hstart : ReadsOnAfter template (key.isSome && shouldReclaim) []
      (new shouldReclaim template).toSources.states[key]? := by
    exact .start
  obtain ⟨entry, outputs, hprocess, hentry, hwrites⟩ :=
    Sources.process_chunks keyOrder
      (S := (new shouldReclaim template).toSources) hlimit hstart hchunks hshort hne
  rw [← processRawEvents_eq, map_eq_some_iff] at hprocess
  obtain ⟨r, hr, hpair⟩ := hprocess
  rw [Prod.mk.injEq] at hpair
  have hlookup : r.1.sources[key]? = entry := by
    show r.1.toSources.states[key]? = entry
    rw [hpair.1, Sources.getElem?_update, if_pos rfl]
  refine ⟨r, hr, ?_, ?_, ?_⟩
  · rw [hlookup]
    exact hentry
  · rw [hpair.2, payload_dataEvents]
    exact hwrites.bytes
  · rw [hpair.2, eventRowValues_dataEvents]
    exact hwrites.values

/-- Two runs over the same stream of a source give the same. -/
structure SameFraming {R : Type} (reclaim : Bool) (key : Option SourceId)
    (many one : FramedInput × List (SourceEvent UInt8 R)) : Prop where
  bytes : payload many.2 = payload one.2
  rowValues : eventRowValues many.2 = eventRowValues one.2
  leftOver : leftOver many.1.sources[key]? = leftOver one.1.sources[key]?
  /-- The offsets too, unless completed states are reclaimed. -/
  offsets : reclaim = false → many.1.sources[key]? = one.1.sources[key]?

/-- **Framing does not depend on chunks.** A stream without a line that is
too long, cut into any chunks that are not empty, is framed as it is in one
piece. -/
theorem framing_of_chunks {R : Type}
    (keyOrder : BTreeMap (Option SourceId) SourceState → List (Option SourceId))
    (shouldReclaim : Bool) (template : FormatDecoder) (key : Option SourceId)
    (hlimit : (key.isSome && shouldReclaim) = true → PositiveLimit template)
    (chunks : List Bytes) (hne : chunks ≠ [])
    (hchunks : ∀ chunk ∈ chunks, chunk ≠ []) (hshort : ShortLines chunks.flatten) :
    ∃ many one : FramedInput × List (SourceEvent UInt8 R),
      (FramedInput.new shouldReclaim template).processRawEvents keyOrder
          (dataChunks key chunks) = some many
        ∧ (FramedInput.new shouldReclaim template).processRawEvents keyOrder
          (dataChunks key [chunks.flatten]) = some one
        ∧ SameFraming (key.isSome && shouldReclaim) key many one := by
  have hflat : [chunks.flatten].flatten = chunks.flatten := by simp
  have hflatNe : chunks.flatten ≠ [] := by
    obtain ⟨chunk, rest, rfl⟩ := exists_cons_of_ne_nil hne
    exact append_ne_nil_of_left_ne_nil (hchunks chunk mem_cons_self) _
  -- both runs start with no state and read the same stream
  obtain ⟨many, hmany, hmanyEntry, hmanyBytes, hmanyValues⟩ :=
    processRawEvents_chunks keyOrder hlimit hne hchunks hshort
  obtain ⟨one, hone, honeEntry, honeBytes, honeValues⟩ :=
    processRawEvents_chunks keyOrder hlimit (cons_ne_nil chunks.flatten [])
      (fun c hc => by rw [mem_singleton.mp hc]; exact hflatNe) (by rw [hflat]; exact hshort)
  rw [hflat] at honeEntry honeBytes honeValues
  refine ⟨many, one, hmany, hone, hmanyBytes.trans honeBytes.symm,
    hmanyValues.trans honeValues.symm, hmanyEntry.leftOver_eq.trans honeEntry.leftOver_eq.symm,
    fun hreclaim => ?_⟩
  rw [hreclaim] at hmanyEntry honeEntry
  rw [hmanyEntry.eq_of_not_reclaim, honeEntry.eq_of_not_reclaim]

/-- Two chunks, and the same bytes in one. -/
theorem framing_of_two_chunks :
    ∃ many one : FramedInput × List (SourceEvent UInt8 Unit),
      (FramedInput.new true .passthrough).processRawEvents (·.keys)
          (dataChunks (some 1) [[0x61], [0x62, 0x0a, 0x63]]) = some many
        ∧ (FramedInput.new true .passthrough).processRawEvents (·.keys)
          (dataChunks (some 1) [[0x61, 0x62, 0x0a, 0x63]]) = some one
        ∧ SameFraming true (some 1) many one :=
  framing_of_chunks (·.keys) true .passthrough (some 1) (fun _ => trivial)
    [[0x61], [0x62, 0x0a, 0x63]] (by decide) (by decide) (by simp [ShortLines]; decide)

/-- A source whose completed state is reclaimed counts its offsets from
there: `a` and a newline, then `b`, against the three bytes at once. -/
theorem reclaimed_offsets_differ :
    ((FramedInput.new true .passthrough).processRawEvents (R := Unit) (·.keys)
        (dataChunks (some 1) [[0x61, 0x0a], [0x62]])).map
          (fun r => (r.1.sources[some 1]?).map (·.tracker))
      = some (some ⟨1, 0, 1, 0⟩)
    ∧ ((FramedInput.new true .passthrough).processRawEvents (R := Unit) (·.keys)
        (dataChunks (some 1) [[0x61, 0x0a, 0x62]])).map
          (fun r => (r.1.sources[some 1]?).map (·.tracker))
      = some (some ⟨3, 2, 1, 0⟩) := by
  decide +kernel

end FastForward.Io
