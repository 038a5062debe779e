/-
Line ranges: the newline bits, taken off block by block from the lowest
up, are the newline positions of the buffer in order; and on lines joined
by newlines the ranges are those of the lines, without a trailing CR and
without the empty ones.
-/
import FastForward.Core.Proofs.Stage1

namespace FastForward.Core

open Lib List Ascii

-- == newline positions

/-- The positions of the newlines in some bytes that start at `pos`. -/
def newlinesFrom : Nat → Bytes → List Nat
  | _, [] => []
  | pos, b :: rest =>
    if b = newline then pos :: newlinesFrom (pos + 1) rest
    else newlinesFrom (pos + 1) rest

theorem newlinesFrom_append (pos : Nat) (a b : Bytes) :
    newlinesFrom pos (a ++ b) = newlinesFrom pos a ++ newlinesFrom (pos + a.length) b := by
  induction a generalizing pos with
  | nil => rfl
  | cons x a ih =>
    have hpos : pos + 1 + a.length = pos + (x :: a).length := by simp; omega
    rw [cons_append, newlinesFrom, newlinesFrom, ih, hpos]
    split <;> rfl

theorem newlinesFrom_none {a : Bytes} (h : newline ∉ a) (pos : Nat) : newlinesFrom pos a = [] := by
  induction a generalizing pos with
  | nil => rfl
  | cons x a ih =>
    have hx : x ≠ newline := fun hx => h (hx ▸ mem_cons_self)
    rw [newlinesFrom, if_neg hx, ih (fun ha => h (mem_cons_of_mem x ha)) _]

/-- Newline positions as a selection from a range. -/
theorem newlinesFrom_eq_filter (pos : Nat) (a : Bytes) :
    newlinesFrom pos a
      = ((List.range a.length).filter fun j => a[j]? == some newline).map (pos + ·) := by
  induction a generalizing pos with
  | nil => rfl
  | cons x a ih =>
    have hshift : ∀ l : List Nat, (l.map .succ).map (pos + ·) = l.map (pos + 1 + ·) := by
      intro l
      rw [map_map]
      apply map_congr_left
      intro j _
      simp only [Function.comp_apply]
      omega
    rw [newlinesFrom, length_cons, range_succ_eq_map, filter_cons, ih, filter_map]
    simp only [Function.comp_def, getElem?_cons_succ, getElem?_cons_zero]
    by_cases hx : x = newline
    · simp only [hx, if_true, beq_self_eq_true, map_cons, Nat.add_zero, hshift]
    · have hne : (some x == some newline) = false := by simp [hx]
      simp only [hx, if_false, hne, Bool.false_eq_true, hshift]

-- == cutting at them

/-- Cut at the given newline positions: the ranges, and the start of what
is left. -/
def cutLines (buf : Bytes) : List Nat → Nat → List (Nat × Nat) × Nat
  | [], lineStart => ([], lineStart)
  | p :: rest, lineStart =>
    let r := cutLines buf rest (p + 1)
    (lineRange buf lineStart p ++ r.1, r.2)

variable (buf : Bytes)

theorem cutLines_append (a b : List Nat) (lineStart : Nat) :
    cutLines buf (a ++ b) lineStart
      = ((cutLines buf a lineStart).1 ++ (cutLines buf b (cutLines buf a lineStart).2).1,
        (cutLines buf b (cutLines buf a lineStart).2).2) := by
  induction a generalizing lineStart with
  | nil => rfl
  | cons p a ih =>
    rw [cons_append, cutLines, cutLines, ih]
    simp [append_assoc]

/-- The loop over the bits of a block cuts at its set bits. -/
theorem splitLines_eq (offset : Nat) :
    ∀ (fuel : Nat) (nl : U64) (lineStart : Nat), (setBits nl).length ≤ fuel →
      splitLines buf offset fuel nl lineStart
        = cutLines buf ((setBits nl).map (offset + ·)) lineStart := by
  intro fuel
  induction fuel with
  | zero =>
    intro nl lineStart hfuel
    rw [length_eq_zero_iff.mp (Nat.le_zero.mp hfuel)]
    rfl
  | succ fuel ih =>
    intro nl lineStart hfuel
    rw [splitLines]
    by_cases hnl : nl = 0#64
    · rw [hnl]
      rfl
    · have hcons := setBits_eq_cons hnl
      rw [hcons, length_cons] at hfuel
      have hrest := ih (nl &&& (nl - 1#64)) (offset + trailingZeros nl + 1) (by omega)
      simp only [if_neg hnl, hcons, map_cons, cutLines, hrest]

/-- A bit of the newline mask is a newline of the buffer. -/
theorem getLsbD_newline_block {buf : Bytes} {k j : Nat} (hj : j < 64) (c : StreamingClassifier) :
    (c.processBlock (findStructuralChars (blockAt buf k))
        (min (buf.length - k * 64) 64)).2.newline.getLsbD j
      = (((buf.drop (k * 64)).take 64)[j]? == some newline) := by
  simp only [StreamingClassifier.processBlock, findStructuralChars, BitVec.getLsbD_and,
    getLsbD_lengthMask _ hj, getLsbD_findCharMask (Nat.le_of_eq (length_blockAt buf k))]
  rcases Nat.lt_or_ge j (min (buf.length - k * 64) 64) with hlt | hge
  · have htake := take_blockAt (by omega) (show k * 64 + (j + 1) ≤ buf.length by omega)
    have hget := congrArg (·[j]?) htake
    simp only [getElem?_take, Nat.lt_succ_self, if_true] at hget
    rw [hget, getElem?_take_of_lt hj]
    simp only [hlt, decide_true, Bool.and_true]
  · have hlen : ((buf.drop (k * 64)).take 64).length ≤ j := by
      rw [length_take, length_drop, Nat.min_comm]
      exact hge
    rw [getElem?_eq_none hlen]
    simp [Nat.not_lt.mpr hge]

theorem newlines_block (k : Nat) (c : StreamingClassifier) :
    let r := c.processBlock (findStructuralChars (blockAt buf k))
      (min (buf.length - k * 64) 64)
    (setBits r.2.newline).map (k * 64 + ·)
      = newlinesFrom (k * 64) ((buf.drop (k * 64)).take 64) := by
  intro r
  have hlen : ((buf.drop (k * 64)).take 64).length = min (buf.length - k * 64) 64 := by
    rw [length_take, length_drop, Nat.min_comm]
  have hbit : ∀ j, j < 64 → r.2.newline.getLsbD j
      = (((buf.drop (k * 64)).take 64)[j]? == some newline) :=
    fun j hj => getLsbD_newline_block hj c
  rw [newlinesFrom_eq_filter, hlen]
  congr 1
  -- beyond the end of the buffer no bit is set
  obtain ⟨d, hd⟩ : ∃ d, 64 = min (buf.length - k * 64) 64 + d :=
    ⟨64 - min (buf.length - k * 64) 64, by omega⟩
  have hsplit : range 64
      = range (min (buf.length - k * 64) 64)
        ++ (range d).map (min (buf.length - k * 64) 64 + ·) := by
    rw [← range_add, ← hd]
  have htail : ((range d).map (min (buf.length - k * 64) 64 + ·)).filter
      r.2.newline.getLsbD = [] := by
    rw [filter_eq_nil_iff]
    intro j hj
    obtain ⟨i, hi, rfl⟩ := mem_map.mp hj
    have hi' := mem_range.mp hi
    rw [hbit _ (by omega), getElem?_eq_none (by omega)]
    simp
  rw [setBits, hsplit, filter_append, htail, append_nil]
  apply filter_congr
  intro j hj
  have hj' := mem_range.mp hj
  exact hbit j (by omega)

/-- The first pass cuts at the newlines of the blocks so far. -/
theorem passLines : ∀ k, k ≤ numBlocks buf →
    let pass := (List.range k).foldl (passBlock buf) .init
    (pass.lineRanges, pass.lineStart) = cutLines buf (newlinesFrom 0 (buf.take (k * 64))) 0 := by
  intro k
  induction k with
  | zero =>
    intro _
    simp [newlinesFrom, cutLines, BlockPass.init]
  | succ k ih =>
    intro hk
    have hk64 : k * 64 ≤ buf.length := by
      rw [numBlocks] at hk
      omega
    have hprev := ih (by omega)
    simp only [range_succ, foldl_append, foldl_cons, foldl_nil] at *
    generalize (range k).foldl (passBlock buf) .init = pass at hprev
    have hbits := newlines_block buf k pass.classifier
    have hfuel : ∀ nl : U64, (setBits nl).length ≤ 64 := by
      intro nl
      have hle := length_filter_le nl.getLsbD (range 64)
      simpa [setBits] using hle
    have htake : (buf.take (k * 64)).length = k * 64 := by
      rw [length_take]
      omega
    rw [Nat.succ_mul, take_add, newlinesFrom_append, cutLines_append, htake,
      Nat.zero_add, ← hprev, ← hbits]
    simp only [passBlock, splitLines_eq buf _ 64 _ _ (hfuel _)]

theorem lineRanges_eq :
    lineRanges buf
      = (cutLines buf (newlinesFrom 0 buf) 0).1
        ++ lineRange buf (cutLines buf (newlinesFrom 0 buf) 0).2 buf.length := by
  have hpass := passLines buf (numBlocks buf) (Nat.le_refl _)
  rw [take_of_length_le (length_le_numBlocks buf)] at hpass
  have hranges := congrArg Prod.fst hpass
  have hstart := congrArg Prod.snd hpass
  simp only at hranges hstart
  have hempty : ∀ start, ¬ start < buf.length → lineRange buf start buf.length = [] := by
    intro start hstart
    simp only [lineRange, hstart, false_and, if_false]
  rw [lineRanges, firstPass, hranges, hstart]
  split
  · rfl
  next h => rw [hempty _ h]

-- == joined lines

/-- The ranges of lines that start at `pos`. -/
def rangesOf (buf : Bytes) : Nat → List Bytes → List (Nat × Nat)
  | _, [] => []
  | pos, line :: rest =>
    lineRange buf pos (pos + line.length) ++ rangesOf buf (pos + line.length + 1) rest

theorem joinLines_cons {line : Bytes} {rest : List Bytes} (h : rest ≠ []) :
    joinLines (line :: rest) = line ++ newline :: joinLines rest := by
  cases rest with
  | nil => exact absurd rfl h
  | cons => rfl

/-- Cutting joined lines at their newlines. -/
theorem cutLines_joinLines {lines : List Bytes} (hne : lines ≠ [])
    (hlines : ∀ line ∈ lines, newline ∉ line) (pos : Nat) :
    let r := cutLines buf (newlinesFrom pos (joinLines lines)) pos
    r.1 ++ lineRange buf r.2 (pos + (joinLines lines).length) = rangesOf buf pos lines := by
  induction lines generalizing pos with
  | nil => exact absurd rfl hne
  | cons line rest ih =>
    have hline := newlinesFrom_none (hlines line mem_cons_self) pos
    by_cases hrest : rest = []
    · subst hrest
      simp only [joinLines, hline, cutLines, rangesOf, nil_append, append_nil]
    · have hnext := ih hrest (fun l hl => hlines l (mem_cons_of_mem line hl))
        (pos + line.length + 1)
      have hlen : pos + (line ++ newline :: joinLines rest).length
          = pos + line.length + 1 + (joinLines rest).length := by
        simp only [length_append, length_cons]
        omega
      simp only [joinLines_cons hrest, newlinesFrom_append, hline, newlinesFrom, if_true,
        nil_append, cutLines, rangesOf, hlen, append_assoc] at *
      rw [hnext]

theorem lineRanges_joinLines {lines : List Bytes} (hlines : ∀ line ∈ lines, newline ∉ line) :
    lineRanges (joinLines lines) = rangesOf (joinLines lines) 0 lines := by
  by_cases hne : lines = []
  · subst hne
    rfl
  · have hcut := cutLines_joinLines (joinLines lines) hne hlines 0
    rw [lineRanges_eq]
    simpa only [Nat.zero_add] using hcut

def linesOf : Bytes → List Bytes
  | [] => [[]]
  | b :: rest =>
    if b = newline then [] :: linesOf rest
    else
      match linesOf rest with
      | [] => [[b]]
      | line :: lines => (b :: line) :: lines

theorem linesOf_ne_nil : linesOf buf ≠ [] := by
  cases buf with
  | nil => exact cons_ne_nil _ _
  | cons b rest =>
    rw [linesOf]
    split
    · exact cons_ne_nil _ _
    · split <;> exact cons_ne_nil _ _

theorem joinLines_linesOf : joinLines (linesOf buf) = buf := by
  induction buf with
  | nil => rfl
  | cons b rest ih =>
    rw [linesOf]
    split
    next hb =>
      rw [joinLines_cons (linesOf_ne_nil rest), ih, hb]
      rfl
    next hb =>
      cases hlines : linesOf rest with
      | nil => exact absurd hlines (linesOf_ne_nil rest)
      | cons line lines =>
        rw [hlines] at ih
        rw [← ih]
        cases lines <;> rfl

theorem newline_notMem_linesOf : ∀ line ∈ linesOf buf, newline ∉ line := by
  induction buf with
  | nil =>
    intro line hline
    rw [mem_singleton.mp hline]
    exact not_mem_nil
  | cons b rest ih =>
    intro line hline
    rw [linesOf] at hline
    split at hline
    next hb =>
      rcases mem_cons.mp hline with rfl | hline
      · exact not_mem_nil
      · exact ih line hline
    next hb =>
      cases hlines : linesOf rest with
      | nil => exact absurd hlines (linesOf_ne_nil rest)
      | cons first lines =>
        rw [hlines] at ih hline
        rcases mem_cons.mp hline with rfl | hline
        · rw [mem_cons]
          exact fun h => h.elim (fun h => hb h.symm) (ih first mem_cons_self)
        · exact ih line (mem_cons_of_mem first hline)

/-- The range of a line: its text without a trailing CR, if there is any. -/
theorem lineRange_of_text (before line behind : Bytes) :
    lineRange (before ++ (line ++ behind)) before.length (before.length + line.length)
      = if stripCr line = [] then []
        else [(before.length, before.length + (stripCr line).length)] := by
  rcases eq_nil_or_concat line with rfl | ⟨body, b, rfl⟩
  · simp [lineRange, stripCr]
  · rw [concat_eq_append]
    have hbyte : byteAt (before ++ (body ++ [b] ++ behind))
        (before.length + (body ++ [b]).length - 1) = b := by
      rw [byteAt]
      simp
    simp only [lineRange, hbyte, stripCr, getLast?_concat,
      dropLast_concat]
    by_cases hb : b = carriageReturn
    · simp only [hb]
      cases body with
      | nil | cons x body => simp
    · simp [hb]

end FastForward.Core
