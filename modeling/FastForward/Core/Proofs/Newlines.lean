/-
Newlines of a buffer: the byte searches, and lines as segments.
-/
import FastForward.Core.Proofs.Lines
import FastForward.Lib.Segments

namespace FastForward.Core

open Lib List Ascii

-- == byte searches

section Search

variable {needle : UInt8} {haystack front back : Bytes}

theorem memchr_eq_none : memchr needle haystack = none ↔ needle ∉ haystack := by
  rw [memchr, findIdx?_eq_none_iff]
  constructor
  · intro h hmem
    exact absurd (h needle hmem) (by rw [beq_self_eq_true]; decide)
  · intro h b hb
    exact beq_eq_false_iff_ne.mpr fun heq => h (heq ▸ hb)

/-- The first occurrence is where the front ends. -/
theorem memchr_append_cons (h : needle ∉ front) :
    memchr needle (front ++ needle :: back) = some front.length := by
  rw [memchr, findIdx?_append, ← memchr, memchr_eq_none.mpr h]
  simp [findIdx?_cons]

theorem memrchr_eq_none : memrchr needle haystack = none ↔ needle ∉ haystack := by
  rw [memrchr, Option.map_eq_none_iff, memchr_eq_none, mem_reverse]

/-- The last occurrence is where the back begins. -/
theorem memrchr_append_cons (h : needle ∉ back) :
    memrchr needle (front ++ needle :: back) = some front.length := by
  have hreverse : (front ++ needle :: back).reverse
      = back.reverse ++ needle :: front.reverse := by simp
  rw [memrchr, hreverse, memchr_append_cons (by rwa [mem_reverse]), Option.map_some]
  simp only [length_append, length_cons, length_reverse, Option.some.injEq]
  omega

end Search

-- == lines of a buffer

/-- The separator of lines. -/
def isNewline (b : UInt8) : Bool := b == newline

theorem isNewline_newline : isNewline newline = true := by decide

theorem eq_newline {b : UInt8} (h : isNewline b) : b = newline := beq_iff_eq.mp h

theorem isNewline_eq_false {b : UInt8} : isNewline b = false ↔ b ≠ newline := by
  rw [isNewline, beq_eq_false_iff_ne]

/-- No newline among the bytes. -/
theorem forall_isNewline {bytes : Bytes} :
    (∀ b ∈ bytes, isNewline b = false) ↔ newline ∉ bytes := by
  constructor
  · exact fun h hmem => isNewline_eq_false.mp (h _ hmem) rfl
  · exact fun h b hb => isNewline_eq_false.mpr fun heq => h (heq ▸ hb)

/-- The lines of a buffer are its segments. -/
theorem linesOf_eq_splitOnP (buf : Bytes) : linesOf buf = buf.splitOnP isNewline := by
  induction buf with
  | nil => rfl
  | cons b rest ih =>
    rw [splitOnP_cons_eq_if_modifyHead, linesOf, ih]
    by_cases hb : b = newline
    · rw [if_pos hb, if_pos (by rw [hb]; rfl)]
    · rw [if_neg hb, if_neg (by rw [isNewline_eq_false.mpr hb]; exact Bool.false_ne_true)]
      cases hs : rest.splitOnP isNewline with
      | nil => exact absurd hs (splitOnP_ne_nil _ _)
      | cons line lines => rfl

/-- The lines that a newline ends. -/
abbrev closedLines (buf : Bytes) : List Bytes := Segments.closed isNewline buf

/-- The open line of a stream. -/
abbrev unfinishedLine (buf : Bytes) : Bytes := Segments.rest isNewline buf

theorem newline_notMem_unfinishedLine (buf : Bytes) : newline ∉ unfinishedLine buf :=
  forall_isNewline.mp (Segments.rest_forall isNewline buf)

/-- More bytes go on with the line that is not finished. -/
theorem closedLines_append (buf bytes : Bytes) :
    closedLines (buf ++ bytes) = closedLines buf ++ closedLines (unfinishedLine buf ++ bytes) :=
  Segments.closed_append isNewline buf bytes

/-- What is left unfinished depends on the unfinished line alone. -/
theorem unfinishedLine_append (buf bytes : Bytes) :
    unfinishedLine (buf ++ bytes) = unfinishedLine (unfinishedLine buf ++ bytes) :=
  Segments.rest_append isNewline buf bytes

/-- Without a newline, bytes only make the last line longer. -/
theorem lines_append_of_notMem (buf : Bytes) {bytes : Bytes} (h : newline ∉ bytes) :
    closedLines (buf ++ bytes) = closedLines buf
      ∧ unfinishedLine (buf ++ bytes) = unfinishedLine buf ++ bytes :=
  Segments.closed_append_of_forall buf (forall_isNewline.mpr h)

/-- Where the last newline of a stream is, and how it cuts it. -/
theorem memrchr_newline (buf : Bytes) :
    (memrchr newline buf = none ∧ closedLines buf = [] ∧ unfinishedLine buf = buf)
      ∨ ∃ front, memrchr newline buf = some front.length
          ∧ buf = front ++ newline :: unfinishedLine buf
          ∧ closedLines buf = front.splitOnP isNewline := by
  rcases Segments.eq_front_rest isNewline buf with
    ⟨hclosed, hbuf⟩ | ⟨front, sep, hsep, hbuf, hclosed⟩
  · refine .inl ⟨memrchr_eq_none.mpr ?_, hclosed, hbuf.symm⟩
    rw [hbuf]
    exact newline_notMem_unfinishedLine buf
  · obtain rfl := eq_newline hsep
    refine .inr ⟨front, ?_, hbuf, hclosed⟩
    conv => lhs; rw [hbuf]
    exact memrchr_append_cons (newline_notMem_unfinishedLine buf)

end FastForward.Core
