/-
Restarting from a framing checkpoint.

A checkpoint is the offset read so far less the unfinished line, so a
restart reads that line again from its start, and not the lines before
it. A decoder that has taken those in without writing a row, because
they are parts of a message still to be completed, loses them: the rest
of the message is then decoded without its beginning. With nothing
pending at the crash, the run before it and the run after it write
together exactly what an uninterrupted run writes.
-/
import FastForward.Io.Proofs.Chunking

namespace FastForward.Io

open Core Lib Pipeline List Option

variable {R : Type}

-- == messages of a run

/-- The messages that a run emits. -/
def messagesOf (events : List (SourceEvent UInt8 R)) : List Bytes :=
  closedLines (FramedInput.payload events)

variable {rows : List OutputRow}

variable (h : ∀ row ∈ rows, ∃ body, row.text = body ++ [Ascii.newline])

include h

theorem unfinishedLine_texts :
    unfinishedLine (texts rows) = [] := by
  induction rows with
  | nil => exact Segments.rest_nil
  | cons row rows ih =>
    obtain ⟨body, hbody⟩ := h row mem_cons_self
    have htexts : texts (row :: rows) = body ++ Ascii.newline :: texts rows := by
      rw [texts, flatMap_cons, hbody, append_assoc]
      rfl
    rw [htexts, unfinishedLine, Segments.rest_append_cons isNewline_newline]
    exact ih fun r hr => h r (mem_cons_of_mem row hr)

/-- What is written behind whole lines are further messages. -/
theorem closedLines_texts_append (more : Bytes) :
    closedLines (texts rows ++ more) = closedLines (texts rows) ++ closedLines more := by
  rw [closedLines_append, unfinishedLine_texts h, nil_append]

omit h

-- == the state at a crash

variable {template : FormatDecoder}

/-- A stream in any number of chunks, also none. -/
theorem processRawEvents_stream
    (keyOrder : BTreeMap (Option SourceId) SourceState → List (Option SourceId))
    (shouldReclaim : Bool) (key : Option SourceId)
    (hlimit : PositiveLimit template) {chunks : List Bytes}
    (hchunks : ∀ chunk ∈ chunks, chunk ≠ []) (hshort : ShortLines chunks.flatten) :
    ∃ r : FramedInput × List (SourceEvent UInt8 R),
      (FramedInput.new shouldReclaim template).processRawEvents keyOrder
          (dataChunks key chunks) = some r
        ∧ ReadsOnAfter template (key.isSome && shouldReclaim) chunks.flatten r.1.sources[key]?
        ∧ FramedInput.payload r.2 = texts (streamRows template chunks.flatten) := by
  by_cases hne : chunks = []
  · subst hne
    refine ⟨_, rfl, ?_, rfl⟩
    exact .start
  · obtain ⟨r, hr, hentry, hbytes, -⟩ :=
      processRawEvents_chunks keyOrder (fun _ => hlimit) hne hchunks hshort
    exact ⟨r, hr, hentry.readsOn fun _ => hlimit, hbytes⟩

variable {entry : Option SourceState} {reclaim : Bool}

/-- What waits for its newline is the unfinished line. -/
theorem ReadsOnAfter.remainderLen {stream : Bytes}
    (h : ReadsOnAfter template reclaim stream entry) :
    (entry.elim 0 fun s => s.tracker.remainderLen) = (unfinishedLine stream).length := by
  obtain ⟨dropped, kept, rfl, hclean, -, hentry⟩ := h
  rw [hclean.unfinished_append]
  have hlen : (entry.getD (.fresh template)).tracker.remainderLen
      = (unfinishedLine kept).length := by
    rw [hentry]
    rfl
  rw [← hlen]
  cases entry <;> rfl

/-- With nothing pending the decoder is as new. -/
theorem ReadsOnAfter.format {stream : Bytes} (h : ReadsOnAfter template reclaim stream entry)
    (hlimit : PositiveLimit template)
    (hpending : entry.all (fun s => !s.format.hasPendingState) = true) :
    formatAfter template stream = template.newInstance := by
  obtain ⟨dropped, kept, rfl, hclean, -, hentry⟩ := h
  rw [hclean.format_append]
  have hformat : (entry.getD (.fresh template)).format = formatAfter template kept := by
    rw [hentry]
    rfl
  cases entry with
  | none => exact hformat.symm
  | some s =>
    refine formatAfter_eq_newInstance hlimit ?_
    rw [← hformat]
    simpa using hpending

-- == lines and cuts

theorem drop_to_unfinishedLine (stream more : Bytes) :
    (stream ++ more).drop (stream.length - (unfinishedLine stream).length)
      = unfinishedLine stream ++ more := by
  obtain ⟨front, hfront⟩ := Segments.rest_isSuffix isNewline stream
  have hlength : stream.length - (unfinishedLine stream).length = front.length := by
    have hsum := congrArg length hfront
    rw [length_append] at hsum
    show stream.length - (Segments.rest isNewline stream).length = front.length
    omega
  rw [hlength]
  conv => lhs; rw [← hfront, append_assoc]
  exact drop_left

variable {stream more : Bytes}

/-- Short lines stay short when the stream is cut off. -/
theorem ShortLines.left (h : ShortLines (stream ++ more)) : ShortLines stream := by
  intro line hline
  rw [linesOf_eq_splitOnP, Segments.splitOnP_eq] at hline
  rcases mem_append.mp hline with hclosed | hopen
  · refine h line ?_
    rw [linesOf_eq_splitOnP, Segments.splitOnP_append]
    exact mem_append_left _ hclosed
  · rw [mem_singleton.mp hopen]
    exact h.unfinished

theorem ShortLines.fromUnfinished (h : ShortLines (stream ++ more)) :
    ShortLines (unfinishedLine stream ++ more) := by
  intro line hline
  refine h line ?_
  rw [linesOf_eq_splitOnP] at hline ⊢
  rw [Segments.splitOnP_append]
  exact mem_append_right _ hline

-- == crashes

/-- A source read up to a crash. -/
structure Crash where
  keyOrder : BTreeMap (Option SourceId) SourceState → List (Option SourceId)
  shouldReclaim : Bool
  template : FormatDecoder
  limit : PositiveLimit template
  source : SourceId
  /-- Where the stream starts in its file. -/
  start : Nat
  before : List Bytes
  /-- What an uninterrupted run goes on to read. -/
  after : List Bytes
  nonempty : ∀ chunk ∈ before ++ after, chunk ≠ []
  short : ShortLines (before ++ after).flatten

namespace Crash

/-- A fresh wrapper reads chunks of the source. -/
def run (c : Crash) (chunks : List Bytes) :
    Option (FramedInput × List (SourceEvent UInt8 Unit)) :=
  (FramedInput.new c.shouldReclaim c.template).processRawEvents c.keyOrder
    (dataChunks (some c.source) chunks)

/-- The checkpoint that is reported at the crash. -/
def checkpoint (c : Crash) (f : FramedInput) : List (SourceId × Nat) :=
  f.checkpointData [(c.source, c.start + c.before.flatten.length)]

/-- The source's decoder waits for the rest of a message at the crash. -/
def pendingAtCrash (c : Crash) : Bool :=
  (c.run c.before).any fun r =>
    (r.1.sources[some c.source]?).any fun state => state.format.hasPendingState

/-- Every message of an uninterrupted run is a message of the run before
the crash or of one that reads on from the checkpoint, in whatever chunks. -/
def Recovers (c : Crash) : Prop :=
  ∃ whole crashed offset,
    c.run (c.before ++ c.after) = some whole ∧ c.run c.before = some crashed
      ∧ c.checkpoint crashed.1 = [(c.source, offset)]
      ∧ ∀ chunks : List Bytes, (∀ chunk ∈ chunks, chunk ≠ []) →
        chunks.flatten = (c.before ++ c.after).flatten.drop (offset - c.start) →
        ∃ again, c.run chunks = some again
          ∧ ∀ message ∈ messagesOf whole.2,
              message ∈ messagesOf crashed.2 ∨ message ∈ messagesOf again.2

theorem text_terminated_streamRows (template : FormatDecoder) (stream : Bytes) :
    ∀ row ∈ streamRows template stream, ∃ body, row.text = body ++ [Ascii.newline] :=
  text_terminated_readLines _ _

/-- With nothing pending the run after the restart writes what the
uninterrupted run writes from there on. -/
theorem rowsAdded_eq_streamRows
    (h : formatAfter template stream = template.newInstance) (more : Bytes) :
    rowsAdded template stream more = streamRows template (unfinishedLine stream ++ more) := by
  rw [rowsAdded, h, streamRows]

/-- **Recovery.** With nothing pending at the crash, every message is
emitted before the crash or after the restart. -/
theorem recovers (c : Crash) (h : c.pendingAtCrash = false) : c.Recovers := by
  have hflatten : (c.before ++ c.after).flatten = c.before.flatten ++ c.after.flatten :=
    flatten_append
  have hshort := c.short
  rw [hflatten] at hshort
  obtain ⟨whole, hwhole, -, hwholeBytes⟩ := processRawEvents_stream c.keyOrder
    c.shouldReclaim (some c.source) c.limit c.nonempty c.short
  obtain ⟨crashed, hcrashed, hreads, hcrashedBytes⟩ := processRawEvents_stream
    c.keyOrder c.shouldReclaim (some c.source) c.limit
    (fun chunk hchunk => c.nonempty chunk (mem_append_left _ hchunk)) hshort.left
  have hcheckpoint : c.checkpoint crashed.1 = [(c.source, c.start + c.before.flatten.length
      - (unfinishedLine c.before.flatten).length)] := by
    have hremainder := hreads.remainderLen
    rw [checkpoint, FramedInput.checkpointData, map_singleton]
    dsimp only
    rw [← hremainder]
    cases crashed.1.sources[some c.source]? <;> rfl
  refine ⟨whole, crashed, _, hwhole, hcrashed, hcheckpoint, fun chunks hchunks hrest => ?_⟩
  -- the restart reads the unfinished line and everything behind it
  rw [Nat.sub_right_comm, Nat.add_sub_cancel_left, hflatten, drop_to_unfinishedLine] at hrest
  obtain ⟨again, hagain, -, hagainBytes⟩ := processRawEvents_stream c.keyOrder
    c.shouldReclaim (some c.source) c.limit hchunks (by rw [hrest]; exact hshort.fromUnfinished)
  refine ⟨again, hagain, fun message hmessage => ?_⟩
  have hformat : formatAfter c.template c.before.flatten = c.template.newInstance := by
    refine hreads.format c.limit ?_
    rw [pendingAtCrash, run, hcrashed, any_some] at h
    cases hentry : crashed.1.sources[some c.source]? with
    | none => rfl
    | some state =>
      rw [hentry, any_some] at h
      rw [all_some, h]
      rfl
  rw [messagesOf, hwholeBytes, hflatten, streamRows_append, texts_append,
    rowsAdded_eq_streamRows hformat, ← hrest, ← hagainBytes,
    closedLines_texts_append (text_terminated_streamRows _ _), ← hcrashedBytes] at hmessage
  exact mem_append.mp hmessage

/-- A crash in the middle of a line, after both parts of a message:
`t stdout P a`, `t stdout F b` and `t std`, then `out F c`. -/
def midLine : Crash where
  keyOrder := (·.keys)
  shouldReclaim := false
  template := .cri (.new criMaxMessage) [0x6d]
  limit := by
    show 0 < criMaxMessage
    decide
  source := 1
  start := 0
  before :=
    [[0x74, 0x20, 0x73, 0x74, 0x64, 0x6f, 0x75, 0x74, 0x20, 0x50, 0x20, 0x61, 0x0a],
     [0x74, 0x20, 0x73, 0x74, 0x64, 0x6f, 0x75, 0x74, 0x20, 0x46, 0x20, 0x62, 0x0a],
     [0x74, 0x20, 0x73, 0x74, 0x64]]
  after := [[0x6f, 0x75, 0x74, 0x20, 0x46, 0x20, 0x63, 0x0a]]
  nonempty := by decide
  short := by
    unfold ShortLines
    decide

theorem midLine_recovers : midLine.pendingAtCrash = false ∧ midLine.Recovers :=
  ⟨by decide +kernel, midLine.recovers (by decide +kernel)⟩

/-- A crash between the two parts of a message: `t stdout P a`, then
`t stdout F b`. -/
def midMessage : Crash where
  keyOrder := (·.keys)
  shouldReclaim := false
  template := .cri (.new criMaxMessage) [0x6d]
  limit := by
    show 0 < criMaxMessage
    decide
  source := 1
  start := 0
  before := [[0x74, 0x20, 0x73, 0x74, 0x64, 0x6f, 0x75, 0x74, 0x20, 0x50, 0x20, 0x61, 0x0a]]
  after := [[0x74, 0x20, 0x73, 0x74, 0x64, 0x6f, 0x75, 0x74, 0x20, 0x46, 0x20, 0x62, 0x0a]]
  nonempty := by decide
  short := by
    unfold ShortLines
    decide

/-- The uninterrupted run emits `ab`. The checkpoint stands behind the
first part, so after a restart only `b` is emitted. -/
theorem midMessage_not_recovers : ¬ midMessage.Recovers := by
  rintro ⟨whole, crashed, offset, hwhole, hcrashed, hoffset, hrestart⟩
  have hmessages : (midMessage.run (midMessage.before ++ midMessage.after)).map
      (fun r => messagesOf r.2)
        = some [[0x7b, 0x22, 0x6d, 0x22, 0x3a, 0x22, 0x61, 0x62, 0x22, 0x7d]] := by
    decide +kernel
  have hbefore : (midMessage.run midMessage.before).map
      (fun r => (messagesOf r.2, midMessage.checkpoint r.1)) = some ([], [(1, 13)]) := by
    decide +kernel
  have hafter : (midMessage.run midMessage.after).map (fun r => messagesOf r.2)
      = some [[0x7b, 0x22, 0x6d, 0x22, 0x3a, 0x22, 0x62, 0x22, 0x7d]] := by
    decide +kernel
  rw [hwhole, map_some, some.injEq] at hmessages
  rw [hcrashed, map_some, some.injEq, Prod.mk.injEq, hoffset] at hbefore
  obtain rfl : offset = 13 := by simpa [midMessage] using hbefore.2
  obtain ⟨again, hagain, hall⟩ := hrestart midMessage.after (by decide) (by decide)
  rw [hagain, map_some, some.injEq] at hafter
  rw [hmessages, hbefore.1, hafter] at hall
  revert hall
  decide

end Crash

end FastForward.Io
