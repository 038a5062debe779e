/-
Rows of a buffer, as the I/O worker counts them and as the scanner makes
them.

The worker counts the lines of a buffer that are not empty once a final
carriage return is dropped (`scannerReadyRowCount`); the scanner makes a
row of each such line, unless its predicate drops it. Both are stated
over the segments of the buffer, so that later results never unfold
either of them.
-/
import FastForward.Core.Proofs.Newlines
import FastForward.Core.Proofs.Pushdown
import FastForward.Runtime.IoWorker

namespace FastForward.Runtime

open Lib Core Io List

-- == lines of a buffer

variable {bytes rest line : Bytes}

/-- A line is split off at its newline. -/
theorem splitNewline_line (h : newline ∉ line) (rest : Bytes) :
    splitNewline (line ++ newline :: rest) = some (line, rest) := by
  have hall : ∀ b ∈ line, (b != newline) :=
    fun b hb => bne_iff_ne.mpr (ne_of_mem_of_not_mem hb h)
  simp [splitNewline, takeWhile_append_of_pos hall, dropWhile_append_of_pos hall]

theorem splitNewline_open (h : newline ∉ bytes) : splitNewline bytes = none := by
  have hnil : (bytes ++ []).dropWhile (· != newline) = [] :=
    dropWhile_append_of_pos fun b hb => bne_iff_ne.mpr (ne_of_mem_of_not_mem hb h)
  rw [splitNewline, ← append_nil bytes, hnil]

-- == content

/-- A line counts unless it is empty but for a carriage return. -/
theorem scannerLineHasContent_eq (line : Bytes) :
    scannerLineHasContent line = decide (stripCr line ≠ []) := by
  unfold scannerLineHasContent stripCr
  rcases eq_nil_or_concat line with rfl | ⟨body, b, rfl⟩
  · rfl
  · by_cases hb : b = carriageReturn
    · simp [hb, length_pos_iff, carriageReturn]
    · have hb' : ¬ b = Ascii.carriageReturn := hb
      simp [hb, hb']

/-- A line without content is empty or a single carriage return. -/
theorem scannerLineHasContent_eq_false :
    scannerLineHasContent line = false ↔ line = [] ∨ line = [carriageReturn] := by
  rw [scannerLineHasContent_eq, stripCr]
  rcases eq_nil_or_concat line with rfl | ⟨body, b, rfl⟩
  · simp
  · by_cases hb : b = carriageReturn
    · simp [hb, carriageReturn]
    · have hb' : ¬ b = Ascii.carriageReturn := hb
      simp [hb', append_eq_singleton_iff, hb]

/-- The rows of a buffer, line by line. -/
theorem scannerReadyRowCount_line (h : newline ∉ line) :
    scannerReadyRowCount (line ++ newline :: rest)
      = (if scannerLineHasContent line then 1 else 0) + scannerReadyRowCount rest := by
  have hcut := splitNewline_line h rest
  rw [scannerReadyRowCount]
  split
  next line' rest' hcut' =>
    rw [hcut] at hcut'
    cases hcut'
    rfl
  next hcut' =>
    rw [hcut] at hcut'
    cases hcut'

theorem scannerReadyRowCount_open (h : newline ∉ bytes) :
    scannerReadyRowCount bytes = if scannerLineHasContent bytes then 1 else 0 := by
  have hcut := splitNewline_open h
  rw [scannerReadyRowCount]
  split
  next line' rest' hcut' =>
    rw [hcut] at hcut'
    cases hcut'
  next => rfl

/-- Rows of a buffer: its lines with content. -/
theorem scannerReadyRowCount_eq (bytes : Bytes) :
    scannerReadyRowCount bytes = (bytes.splitOnP isNewline).countP scannerLineHasContent := by
  induction bytes using Segments.segmentInduction isNewline with
  | isOpen bytes h =>
    rw [scannerReadyRowCount_open (forall_isNewline.mp h), splitOnP_eq_singleton h,
      countP_singleton]
  | isClosed line sep rest h hsep ih =>
    obtain rfl : sep = newline := eq_newline hsep
    rw [scannerReadyRowCount_line (forall_isNewline.mp h), ih,
      splitOnP_append_cons_of_forall_mem h _ hsep, countP_cons, Nat.add_comm]

-- == the scan

section Scan

variable {F : Type} [FloatOps F] (config : ScanConfig F)

/-- What is read of some lines is what is left of those with content. -/
theorem records_texts (s : QuoteState) (lines : List Bytes) :
    (records s lines).map (·.1) = (lines.filter scannerLineHasContent).map stripCr := by
  induction lines generalizing s with
  | nil => rfl
  | cons line rest ih =>
    rw [records, map_append, ih, recordOf, filter_cons, scannerLineHasContent_eq]
    by_cases h : stripCr line = []
    · simp [h]
    · simp [h]

/-- The records of a buffer: its lines with their members. -/
def bufferRecords (buf : Bytes) : List (Bytes × List Member) := records .start (linesOf buf)

variable (buf : Bytes)

/-- There are as many records as rows are counted. -/
theorem length_bufferRecords :
    (bufferRecords buf).length = scannerReadyRowCount buf := by
  rw [scannerReadyRowCount_eq, ← linesOf_eq_splitOnP, countP_eq_length_filter,
    bufferRecords, ← length_map (fun r : Bytes × List Member => r.1), records_texts,
    length_map]

/-- The scanner makes the calls of the records. -/
theorem scanStreaming_bufferRecords :
    scanStreaming buf config = (bufferRecords buf).flatMap fun r => lineCalls config r.1 r.2 := by
  have h := scanStreaming_joinLines config (newline_notMem_linesOf buf)
  rw [joinLines_linesOf] at h
  rw [h, readLines_records, bufferRecords]

theorem rowsOf_scanStreaming_plain :
    rowsOf (scanStreaming buf config.plain)
      = (bufferRecords buf).map fun r => rowAppends config.plain r.1 r.2 := by
  rw [scanStreaming_bufferRecords, rowsOf_plain config.plain rfl]

/-- It builds as many rows as are counted. -/
theorem length_rowsOf_scanStreaming_plain :
    (rowsOf (scanStreaming buf config.plain)).length = scannerReadyRowCount buf := by
  rw [rowsOf_scanStreaming_plain, length_map, length_bufferRecords]

end Scan

end FastForward.Runtime
