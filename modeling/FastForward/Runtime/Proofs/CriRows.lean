/-
Rows of the CRI sidecar against rows of the scan.

A call of a CRI decoder appends as many rows to the sidecar as the scan
makes of the bytes it appends (`processLines_rows`). The worker then keeps
the sidecar of a whole buffer: it counts the rows of each event on its
own and adds them up. That is the count of the buffer exactly when the
seam between buffer and event splits no line with content on both sides,
and does not join two lone carriage returns (`SeamOk`).
-/
import FastForward.Io.Proofs.Format
import FastForward.Lib.Run
import FastForward.Runtime.Proofs.Rows

namespace FastForward.Runtime

open Lib Core Io List CriMetadata

-- == decoder calls

/-- A decoder of a CRI format, in any state it can get into. -/
structure CriDecoder where
  format : FormatDecoder
  reached : format.Reached
  emits : format.emitsCriMetadata = true

theorem scannerReadyRowCount_texts {rows : List OutputRow}
    (h : ∀ row ∈ rows, row.IsScannerRow) : scannerReadyRowCount (texts rows) = rows.length := by
  induction rows with
  | nil => exact scannerReadyRowCount_open not_mem_nil
  | cons row rows ih =>
    obtain ⟨body, htext, hbody, b, hb, hne⟩ := (h row mem_cons_self).line
    have hcontent : scannerLineHasContent body := by
      rw [← Bool.not_eq_false, scannerLineHasContent_eq_false]
      rintro (rfl | rfl)
      · exact absurd hb not_mem_nil
      · exact hne (mem_singleton.mp hb)
    have hcut : texts (row :: rows) = body ++ newline :: texts rows := by
      rw [texts, flatMap_cons, htext, append_assoc]
      rfl
    rw [hcut, scannerReadyRowCount_line hbody, if_pos hcontent,
      ih fun r hr => h r (mem_cons_of_mem row hr), length_cons, add_comm]

/-- The rows a call of a CRI decoder writes. -/
def CriDecoder.rows (d : CriDecoder) (chunk : Bytes) : List OutputRow :=
  (d.format.readLines (chunkLines chunk)).2

theorem CriDecoder.isScannerRow (d : CriDecoder) (chunk : Bytes) :
    ∀ row ∈ d.rows chunk, row.IsScannerRow :=
  (d.reached.lineFree.readLines d.emits (newline_notMem_chunkLines chunk)).2

theorem CriDecoder.processLines_eq (d : CriDecoder) (chunk out : Bytes) (metadata : CriMetadata) :
    (d.format.processLinesWithMetadata chunk out (some metadata)).out = out ++ texts (d.rows chunk)
      ∧ (d.format.processLinesWithMetadata chunk out (some metadata)).metadata
        = some ((d.rows chunk).foldl addRow metadata) := by
  rw [processLinesWithMetadata_eq d.emits]
  exact ⟨rfl, rfl⟩

-- == seams

/-- The part of an event that goes to the line before it. -/
def firstSegment (bytes : Bytes) : Bytes := bytes.takeWhile fun b => !isNewline b

/-- The seam between a buffer and the bytes that follow splits no line
with content on both sides, and joins no two carriage returns to a line. -/
def SeamOk (buffered bytes : Bytes) : Prop :=
  ¬ (scannerLineHasContent (unfinishedLine buffered) = true
      ∧ scannerLineHasContent (firstSegment bytes) = true)
    ∧ ¬ (unfinishedLine buffered = [carriageReturn] ∧ firstSegment bytes = [carriageReturn])

instance (buffered bytes : Bytes) : Decidable (SeamOk buffered bytes) :=
  inferInstanceAs (Decidable (_ ∧ _))

/-- Content on the two sides of a cut, against content of the line. -/
theorem content_append_iff (left right : Bytes) :
    ((if scannerLineHasContent (left ++ right) then 1 else 0)
        = (if scannerLineHasContent left then 1 else 0)
          + if scannerLineHasContent right then 1 else 0)
      ↔ ¬ (scannerLineHasContent left ∧ scannerLineHasContent right)
          ∧ ¬ (left = [carriageReturn] ∧ right = [carriageReturn]) := by
  -- the joined line is empty only if both parts are, or one is and the
  -- other is the final carriage return
  have hjoin : scannerLineHasContent (left ++ right) = false
      ↔ (left = [] ∧ right = []) ∨ (left = [] ∧ right = [carriageReturn])
          ∨ (left = [carriageReturn] ∧ right = []) := by
    rw [scannerLineHasContent_eq_false, append_eq_nil_iff, append_eq_singleton_iff]
  have hfull : scannerLineHasContent left ∨ scannerLineHasContent right →
      scannerLineHasContent (left ++ right) := by
    simp only [← Bool.not_eq_false, hjoin, scannerLineHasContent_eq_false]
    tauto
  cases hl : scannerLineHasContent left with
  | true =>
    have hne : left ≠ [carriageReturn] := by
      rintro rfl
      cases hl
    cases hr : scannerLineHasContent right <;> simp [hfull (.inl hl), hne]
  | false =>
    cases hr : scannerLineHasContent right with
    | true =>
      have hne : right ≠ [carriageReturn] := by
        rintro rfl
        cases hr
      simp [hfull (.inr hr), hne]
    | false =>
      rw [scannerLineHasContent_eq_false] at hl hr
      rcases hl with rfl | rfl <;> rcases hr with rfl | rfl <;> decide

theorem scannerReadyRowCount_closed (bytes : Bytes) :
    scannerReadyRowCount bytes
      = (closedLines bytes).countP scannerLineHasContent
        + if scannerLineHasContent (unfinishedLine bytes) then 1 else 0 := by
  rw [scannerReadyRowCount_eq, Segments.splitOnP_eq, countP_append, countP_singleton]

theorem firstSegment_eq {segment back : Bytes} (h : newline ∉ segment)
    (hback : back = [] ∨ ∃ rest, back = newline :: rest) :
    firstSegment (segment ++ back) = segment := by
  have hall : ∀ b ∈ segment, (!isNewline b) := fun b hb => by
    rw [forall_isNewline.mpr h b hb]
    rfl
  rw [firstSegment, takeWhile_append_of_pos hall]
  rcases hback with rfl | ⟨rest, rfl⟩
  · exact append_nil segment
  · have hstop : (newline :: rest).takeWhile (fun b => !isNewline b) = [] :=
      takeWhile_cons_of_neg (by decide)
    rw [hstop, append_nil]

/-- Counting a buffer and what follows it apart gives the count of both
exactly at a good seam. -/
theorem scannerReadyRowCount_append_iff (buffered bytes : Bytes) :
    scannerReadyRowCount (buffered ++ bytes)
        = scannerReadyRowCount buffered + scannerReadyRowCount bytes
      ↔ SeamOk buffered bytes := by
  by_cases hmem : newline ∈ bytes
  · obtain ⟨segment, rest, rfl, hsegment⟩ := eq_append_cons_of_mem hmem
    -- the rest of the event is counted alike on both sides
    have hjoined : scannerReadyRowCount (buffered ++ (segment ++ newline :: rest))
        = (closedLines buffered).countP scannerLineHasContent
          + ((if scannerLineHasContent (unfinishedLine buffered ++ segment) then 1 else 0)
            + scannerReadyRowCount rest) := by
      have hunfinished : newline ∉ unfinishedLine buffered ++ segment := fun h =>
        (mem_append.mp h).elim (newline_notMem_unfinishedLine buffered) hsegment
      rw [scannerReadyRowCount_closed, closedLines_append, unfinishedLine_append,
        countP_append, add_assoc, ← scannerReadyRowCount_closed, ← append_assoc,
        scannerReadyRowCount_line hunfinished]
    rw [SeamOk, firstSegment_eq hsegment (.inr ⟨rest, rfl⟩), ← content_append_iff,
      scannerReadyRowCount_line hsegment, scannerReadyRowCount_closed buffered]
    omega
  · have hfirst := firstSegment_eq hmem (.inl rfl)
    rw [append_nil] at hfirst
    obtain ⟨hclosed, hrest⟩ := lines_append_of_notMem buffered hmem
    rw [SeamOk, hfirst, ← content_append_iff, scannerReadyRowCount_open hmem,
      scannerReadyRowCount_closed, scannerReadyRowCount_closed buffered, hclosed, hrest]
    omega

-- == the run

/-- The worker's buffer with its sidecar. -/
structure Buffered where
  bytes : Bytes
  metadata : CriMetadata

def Buffered.empty : Buffered := ⟨[], .empty⟩

/-- A data event: the output of a decoder call with its sidecar, or bytes
without one. -/
inductive RowEvent
  | decoded (d : CriDecoder) (chunk : Bytes)
  | plain (bytes : Bytes)

/-- The output of a decoder call that starts with empty buffers. -/
def CriDecoder.decode (d : CriDecoder) (chunk : Bytes) : Decoded :=
  d.format.processLinesWithMetadata chunk [] (some .empty)

def RowEvent.bytes : RowEvent → Bytes
  | decoded d chunk => (d.decode chunk).out
  | plain bytes => bytes

def RowEvent.metadata : RowEvent → Option CriMetadata
  | decoded d chunk => (d.decode chunk).metadata
  | plain _ => none

def Buffered.take (b : Buffered) (event : RowEvent) : Buffered :=
  { bytes := b.bytes ++ event.bytes
    metadata :=
      appendCriMetadataForData b.metadata event.metadata b.bytes event.bytes }

/-- The sidecar is empty or has a row for each row of the buffer. -/
def Buffered.Aligned (b : Buffered) : Prop :=
  b.metadata.isEmpty = true ∨ b.metadata.rows = scannerReadyRowCount b.bytes

/-- If the sidecar is in use, or comes into use with the event, the event
joins the buffer at a good seam. -/
def Buffered.JoinsWell (b : Buffered) (event : RowEvent) : Prop :=
  b.metadata.isEmpty = false ∨ event.metadata.isSome = true → SeamOk b.bytes event.bytes

variable {m : CriMetadata}

theorem isEmpty_eq_false : m.isEmpty = false ↔ m.rows ≠ 0 := by
  rw [CriMetadata.isEmpty, beq_eq_false_iff_ne]

theorem isEmpty_eq_true : m.isEmpty ↔ m.rows = 0 := by
  rw [CriMetadata.isEmpty, beq_iff_eq]

/-- The output of a decoder call, and its sidecar. -/
theorem CriDecoder.decode_spec (d : CriDecoder) (chunk : Bytes) :
    ∃ m, (d.decode chunk).metadata = some m ∧ m.Sound
      ∧ m.rows = scannerReadyRowCount (d.decode chunk).out
      ∧ (m.rows = 0 → (d.decode chunk).out = []) := by
  obtain ⟨hout, hmetadata⟩ := d.processLines_eq chunk [] .empty
  have hrows := rows_addRows (d.isScannerRow chunk) .empty
  refine ⟨_, hmetadata, Sound.empty.addRows _, ?_, fun hzero => ?_⟩
  · rw [decode, hout, nil_append,
      scannerReadyRowCount_texts (d.isScannerRow chunk), hrows]
    exact zero_add _
  · rw [hrows] at hzero
    have hnil : d.rows chunk = [] :=
      eq_nil_of_length_eq_zero (Nat.eq_zero_of_add_eq_zero_left hzero)
    rw [decode, hout, hnil]
    rfl

theorem take_plain (b : Buffered) (bytes : Bytes) :
    (b.take (.plain bytes)).metadata
      = if b.metadata.isEmpty then b.metadata
        else b.metadata.appendNullRows (scannerReadyRowCount bytes) := by
  unfold Buffered.take RowEvent.metadata RowEvent.bytes appendCriMetadataForData
  cases b.metadata.isEmpty <;> rfl

theorem take_decoded (b : Buffered) {d : CriDecoder} {chunk : Bytes}
    (hm : (d.decode chunk).metadata = some m) :
    (b.take (.decoded d chunk)).metadata
      = (if b.metadata.isEmpty && !b.bytes.isEmpty then
          b.metadata.appendNullRows (scannerReadyRowCount b.bytes)
        else b.metadata).append m := by
  unfold Buffered.take RowEvent.metadata appendCriMetadataForData
  dsimp only
  rw [hm]

variable {b : Buffered}

/-- The rows of the sidecar after an event that keeps it in use or brings
it into use: those of the buffer and those of the event. -/
theorem take_rows (hsound : b.metadata.Sound) (haligned : b.Aligned)
    {event : RowEvent} (huse : b.metadata.isEmpty = false ∨ event.metadata.isSome) :
    (b.take event).metadata.rows
      = scannerReadyRowCount b.bytes + scannerReadyRowCount event.bytes := by
  have hrows : b.metadata.isEmpty = false → b.metadata.rows = scannerReadyRowCount b.bytes :=
    fun hne => haligned.resolve_left (by rw [hne]; exact Bool.false_ne_true)
  cases event with
  | plain bytes =>
    have hne := huse.resolve_right Bool.false_ne_true
    rw [take_plain, hne, if_neg Bool.false_ne_true, rows_appendNullRows, hrows hne]
    rfl
  | decoded d chunk =>
    obtain ⟨m, hm, -, hmrows, -⟩ := d.decode_spec chunk
    rw [take_decoded b hm]
    show _ = scannerReadyRowCount b.bytes + scannerReadyRowCount (d.decode chunk).out
    rw [← hmrows]
    cases hempty : b.metadata.isEmpty with
    | false =>
      rw [Bool.false_and, if_neg Bool.false_ne_true, rows_append hsound, hrows hempty]
    | true =>
      have hzero := isEmpty_eq_true.mp hempty
      cases hbytes : b.bytes with
      | nil =>
        rw [if_neg (by decide), rows_append hsound, hzero, scannerReadyRowCount_open not_mem_nil]
        rfl
      | cons byte bytes =>
        rw [if_pos (by simp), rows_append (hsound.appendNullRows _),
          rows_appendNullRows, hzero, zero_add]

theorem Buffered.take_sound (h : b.metadata.Sound) (event : RowEvent) :
    (b.take event).metadata.Sound := by
  cases event with
  | plain bytes =>
    rw [take_plain]
    split
    · exact h
    · exact h.appendNullRows _
  | decoded d chunk =>
    obtain ⟨m, hm, hsound, -⟩ := d.decode_spec chunk
    rw [take_decoded b hm]
    split
    · exact (h.appendNullRows _).append hsound
    · exact h.append hsound

/-- One event keeps the sidecar aligned exactly if it joins well. -/
theorem take_aligned_iff (hsound : b.metadata.Sound) (haligned : b.Aligned)
    (event : RowEvent) : (b.take event).Aligned ↔ b.JoinsWell event := by
  by_cases huse : b.metadata.isEmpty = false ∨ event.metadata.isSome
  · have hrows := take_rows hsound haligned huse
    have hjoins : b.JoinsWell event ↔ SeamOk b.bytes event.bytes :=
      ⟨fun h => h huse, fun h _ => h⟩
    rw [hjoins, ← scannerReadyRowCount_append_iff, Buffered.Aligned, isEmpty_eq_true, hrows]
    constructor
    · rintro (hzero | h)
      · -- no rows on either side: the event is a decoder's, and empty
        cases event with
        | plain bytes =>
          have hne := isEmpty_eq_false.mp (huse.resolve_right Bool.false_ne_true)
          have := haligned.resolve_left (by rw [isEmpty_eq_true]; exact hne)
          omega
        | decoded d chunk =>
          obtain ⟨m, -, -, hmrows, hnil⟩ := d.decode_spec chunk
          have hout : (d.decode chunk).out = [] := hnil (by
            rw [hmrows]
            exact Nat.eq_zero_of_add_eq_zero_left hzero)
          show scannerReadyRowCount (b.bytes ++ (d.decode chunk).out)
            = scannerReadyRowCount b.bytes + scannerReadyRowCount (d.decode chunk).out
          rw [hout, append_nil, scannerReadyRowCount_open not_mem_nil]
          rfl
      · exact h.symm
    · exact fun h => .inr h.symm
  · have hkept : (b.take event).metadata = b.metadata := by
      have hempty : b.metadata.isEmpty = true :=
        Bool.not_eq_false _ ▸ fun h => huse (.inl h)
      cases event with
      | plain bytes =>
        rw [take_plain, if_pos hempty]
      | decoded d chunk =>
        obtain ⟨m, hm, -⟩ := d.decode_spec chunk
        exact absurd (.inr (by rw [RowEvent.metadata, hm]; rfl)) huse
    refine ⟨fun _ h => absurd h huse, fun _ => .inl ?_⟩
    rw [hkept]
    exact Bool.not_eq_false _ ▸ fun h => huse (.inl h)

section Main

variable {F : Type} [FloatOps F]

/-- A call of a CRI decoder gives the sidecar a row for each row of the
scan of what it appends; and a run of events keeps the sidecar of the
buffer aligned exactly if all of them join well. -/
theorem cri_rows_match (config : ScanConfig F) (d : CriDecoder) (chunk out : Bytes)
    (metadata : CriMetadata) (events : List RowEvent) :
    (∃ appended m,
        (d.format.processLinesWithMetadata chunk out (some metadata)).out = out ++ appended
          ∧ (d.format.processLinesWithMetadata chunk out (some metadata)).metadata = some m
          ∧ m.rows = metadata.rows
              + (rowsOf (scanStreaming appended config.plain)).length)
      ∧ ((∀ front, front <+: events → (front.foldl Buffered.take .empty).Aligned)
          ↔ StepsMeet (fun event b => some (Buffered.take b event)) Buffered.JoinsWell
              .empty events) := by
  constructor
  · obtain ⟨hout, hmetadata⟩ := d.processLines_eq chunk out metadata
    refine ⟨_, _, hout, hmetadata, ?_⟩
    rw [rows_addRows (d.isScannerRow chunk), length_rowsOf_scanStreaming_plain,
      scannerReadyRowCount_texts (d.isScannerRow chunk)]
  · have hstep : ∀ (b : Buffered) (event : RowEvent), b.metadata.Sound ∧ b.Aligned →
        ((b.take event).metadata.Sound ∧ (b.take event).Aligned ↔ b.JoinsWell event) := by
      rintro b event ⟨hsound, haligned⟩
      rw [take_aligned_iff hsound haligned]
      exact ⟨fun h => h.2, fun hj => ⟨Buffered.take_sound hsound event, hj⟩⟩
    have hempty : Buffered.empty.metadata.Sound ∧ Buffered.empty.Aligned :=
      ⟨.empty, .inl rfl⟩
    have hiff := forall_states_iff_stepsMeet .take Buffered.JoinsWell _ hstep hempty events
    rw [← hiff]
    refine forall₂_congr fun front _ => ⟨fun h => ⟨?_, h⟩, fun h => h.2⟩
    -- soundness is kept by every event
    have hsound : ∀ (events : List RowEvent) (b : Buffered), b.metadata.Sound →
        (events.foldl .take b).metadata.Sound := by
      intro events
      induction events with
      | nil => exact fun b hb => hb
      | cons event events ih => exact fun b hb => ih _ (Buffered.take_sound hb event)
    exact hsound front .empty .empty

end Main

/-- A decoder of the CRI format that has seen nothing. -/
def freshCri : CriDecoder := ⟨.cri (.new criMaxMessage) [0x62], .cri _ _, rfl⟩

/-- After the record `t stdout F {}` the line `ab` arrives in two events
without sidecar: two null rows are added for it. -/
theorem splitLine_not_aligned :
    ¬ (List.foldl Buffered.take .empty
      [.decoded freshCri [0x74, 0x20, 0x73, 0x74, 0x64, 0x6f, 0x75, 0x74, 0x20, 0x46, 0x20,
        0x7b, 0x7d, 0x0a], .plain [0x61], .plain [0x62, 0x0a]]).Aligned := by
  unfold Buffered.Aligned
  decide +kernel

end FastForward.Runtime
