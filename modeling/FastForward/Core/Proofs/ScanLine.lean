/-
The position-based scan of a line is the reading of its cells.

For a buffer with its masks and a bound `stop`, `ahead pos` are the cells
from `pos` up to the bound. Every function of the scanner that moves a
position is shown to move along `ahead` as its counterpart of Reader.lean
does, for arbitrary bytes. The opener stack of the scanner, an array with
an overflow vector, stands for a plain list (`Holds`).
-/
import FastForward.Core.Proofs.Lines

namespace FastForward.Core

open Lib List Ascii

-- == the cells ahead

theorem length_classify (s : QuoteState) (bytes : Bytes) :
    (classify s bytes).length = bytes.length := by
  induction bytes generalizing s with
  | nil => rfl
  | cons b bytes ih => simp [classify, ih]

theorem textOf_classify (s : QuoteState) (bytes : Bytes) : textOf (classify s bytes) = bytes := by
  induction bytes generalizing s with
  | nil => rfl
  | cons b bytes ih =>
    exact congrArg (b :: ·) (ih _)

/-- Classifying goes on in the state reached. -/
theorem classify_append (s : QuoteState) (a b : Bytes) :
    classify s (a ++ b) = classify s a ++ classify (s.run a) b := by
  induction a generalizing s with
  | nil => rfl
  | cons x a ih => rw [cons_append, classify, ih]; rfl

/-- The cells from `pos` up to `stop`. -/
def ahead (buf : Bytes) (stop pos : Nat) : List Cell :=
  classify (stateAt buf pos) (slice buf pos stop)

theorem slice_cons {buf : Bytes} {pos stop : Nat} (h : pos < stop) (hstop : stop ≤ buf.length) :
    slice buf pos stop = byteAt buf pos :: slice buf (pos + 1) stop := by
  have hlen : pos < buf.length := by omega
  have hn : stop - pos = stop - (pos + 1) + 1 := by omega
  have hbyte : buf[pos] = byteAt buf pos := by
    rw [byteAt, getD_eq_getElem?_getD, getElem?_eq_getElem hlen]
    rfl
  rw [slice, slice, drop_eq_getElem_cons hlen, hn, take_succ_cons, hbyte]

theorem stateAt_succ {buf : Bytes} {pos : Nat} (h : pos < buf.length) :
    stateAt buf (pos + 1) = (stateAt buf pos).step (byteAt buf pos) := by
  have hget : buf[pos]? = some (byteAt buf pos) := by
    rw [byteAt, getD_eq_getElem?_getD, getElem?_eq_getElem h]
    rfl
  rw [stateAt, take_add_one, hget, QuoteState.run_append]
  rfl

theorem isJsonDelimiter_of_floatMark {b : UInt8}
    (h : b = dot ∨ b = lowerE ∨ b = upperE) : isJsonDelimiter b = false := by
  rcases h with rfl | rfl | rfl <;> decide

variable {word : U64}

/-- The lowest bit of a shifted word comes from the same word. -/
theorem trailingZeros_shift_lt {bit : Nat} (h : word >>> bit ≠ 0#64) :
    bit + trailingZeros (word >>> bit) < 64 := by
  obtain ⟨_, hset, _⟩ := trailingZeros_spec h
  rcases Nat.lt_or_ge (bit + trailingZeros (word >>> bit)) 64 with hin | hout
  · exact hin
  · rw [BitVec.getLsbD_ushiftRight, BitVec.getLsbD_of_ge word _ hout] at hset
    cases hset

/-- The bits of a word from a position on. -/
theorem getLsbD_shifted {buf : Bytes} {blocks : StoredBitmasks}
    (hmasks : MasksOk buf blocks) {pos j : Nat} (hj : pos % 64 + j < 64)
    (hlen : pos + j < buf.length) (hword : blocks.realQuotes[pos / 64]? = some word) :
    (word >>> (pos % 64)).getLsbD j = quoteMark buf (pos + j) := by
  have hdiv : (pos + j) / 64 = pos / 64 := by omega
  have hmod : (pos + j) % 64 = pos % 64 + j := by omega
  rw [BitVec.getLsbD_ushiftRight, ← hmasks.quote _ hlen, testPos_eq, hdiv, hmod,
    getD_eq_getElem?_getD, hword, Option.getD_some]

section Ahead

variable {buf : Bytes} {stop pos : Nat}

theorem skipBareValue_le (h : pos ≤ stop) : skipBareValue buf stop pos ≤ stop := by
  fun_induction skipBareValue buf stop pos with
  | case1 => exact h
  | case2 pos hlt _ ih => exact ih (by omega)
  | case3 => exact h

theorem ahead_nil (h : stop ≤ pos) : ahead buf stop pos = [] := by
  have hempty : slice buf pos stop = [] := by
    rw [slice, Nat.sub_eq_zero_of_le h, take_zero]
  rw [ahead, hempty, classify]

/-- The text of the cells in between. -/
theorem textOf_take_ahead {p : Nat} (hp : p ≤ stop) :
    textOf ((ahead buf stop pos).take (p - pos)) = slice buf pos p := by
  have hmap : textOf ((ahead buf stop pos).take (p - pos))
      = (textOf (ahead buf stop pos)).take (p - pos) := map_take
  rw [hmap, ahead, textOf_classify, slice, slice, take_take, Nat.min_eq_left (by omega)]

variable (hstop : stop ≤ buf.length)
include hstop

/-- The cells ahead, one by one. -/
theorem ahead_cons (h : pos < stop) :
    ahead buf stop pos = ⟨byteAt buf pos, stateAt buf pos⟩ :: ahead buf stop (pos + 1) := by
  rw [ahead, ahead, slice_cons h hstop, classify, stateAt_succ (by omega)]

theorem length_ahead (pos : Nat) : (ahead buf stop pos).length = stop - pos := by
  rw [ahead, length_classify, slice, length_take, length_drop]
  omega

/-- Dropping cells is moving on. -/
theorem drop_ahead (pos n : Nat) : (ahead buf stop pos).drop n = ahead buf stop (pos + n) := by
  induction n generalizing pos with
  | zero => rfl
  | succ n ih =>
    rcases Nat.lt_or_ge pos stop with hlt | hge
    · rw [ahead_cons hstop hlt, drop_succ_cons, ih]
      congr 1
      omega
    · rw [ahead_nil hge, ahead_nil (by omega), drop_nil]

-- == whitespace

/-- Skipping whitespace trims the cells. -/
theorem trimStart_ahead (pos : Nat) :
    trimStart (ahead buf stop pos) = ahead buf stop (skipWhitespace buf stop pos) := by
  fun_induction skipWhitespace buf stop pos with
  | case1 pos hlt b hws ih =>
    have hspace : (⟨byteAt buf pos, stateAt buf pos⟩ : Cell).isSpace := by
      simpa [Cell.isSpace, or_assoc] using hws
    rw [ahead_cons hstop hlt, trimStart, dropWhile_cons_of_pos hspace]
    exact ih
  | case2 pos hlt b hws =>
    have hspace : ¬ (⟨byteAt buf pos, stateAt buf pos⟩ : Cell).isSpace := by
      simpa [Cell.isSpace, or_assoc] using hws
    rw [ahead_cons hstop hlt, trimStart, dropWhile_cons_of_neg hspace]
  | case3 pos hge =>
    rw [ahead_nil (by omega)]
    rfl

-- == bare values

/-- Skipping a bare value splits it off. -/
theorem splitBare_ahead (pos : Nat) :
    splitBare (ahead buf stop pos)
      = ((ahead buf stop pos).take (skipBareValue buf stop pos - pos),
        ahead buf stop (skipBareValue buf stop pos)) := by
  fun_induction skipBareValue buf stop pos with
  | case1 pos hlt hdelim =>
    have hbare : ¬ (⟨byteAt buf pos, stateAt buf pos⟩ : Cell).isBare := by
      simp [Cell.isBare, hdelim]
    rw [ahead_cons hstop hlt, splitBare, takeWhile_cons_of_neg hbare,
      dropWhile_cons_of_neg hbare, Nat.sub_self, take_zero]
  | case2 pos hlt hdelim ih =>
    have hle := le_skipBareValue buf stop (pos + 1)
    have hn : skipBareValue buf stop (pos + 1) - pos
        = skipBareValue buf stop (pos + 1) - (pos + 1) + 1 := by omega
    have hbare : (⟨byteAt buf pos, stateAt buf pos⟩ : Cell).isBare := by
      simp [Cell.isBare, hdelim]
    rw [splitBare, Prod.mk.injEq] at ih
    rw [ahead_cons hstop hlt, splitBare, takeWhile_cons_of_pos hbare,
      dropWhile_cons_of_pos hbare, hn, take_succ_cons, ih.1, ih.2]
  | case3 pos hge =>
    rw [ahead_nil (by omega), take_nil]
    rfl

/-- A number ends where a bare value does. -/
theorem numberEnd_eq (pos : Nat) (isFloat : Bool) :
    numberEnd buf stop pos isFloat
      = (skipBareValue buf stop pos,
        isFloat || (slice buf pos (skipBareValue buf stop pos)).any isFloatMark) := by
  have hstep : ∀ {pos : Nat}, pos < stop → isJsonDelimiter (byteAt buf pos) = false →
      skipBareValue buf stop pos = skipBareValue buf stop (pos + 1)
      ∧ slice buf pos (skipBareValue buf stop pos)
        = byteAt buf pos :: slice buf (pos + 1) (skipBareValue buf stop (pos + 1)) := by
    intro pos hlt hdelim
    have hsame : skipBareValue buf stop pos = skipBareValue buf stop (pos + 1) := by
      rw [skipBareValue]
      simp [hlt, hdelim]
    have hle := le_skipBareValue buf stop (pos + 1)
    have hbound : skipBareValue buf stop (pos + 1) ≤ stop := skipBareValue_le hlt
    exact ⟨hsame, by rw [hsame, slice_cons (by omega) (by omega)]⟩
  fun_induction numberEnd buf stop pos isFloat with
  | case1 pos isFloat hlt c hmark ih =>
    obtain ⟨hsame, hslice⟩ := hstep hlt (isJsonDelimiter_of_floatMark hmark)
    have hfloat : isFloatMark (byteAt buf pos) := by
      simpa [isFloatMark, or_assoc] using hmark
    rw [ih, hslice, hsame]
    simp [hfloat]
  | case2 pos isFloat hlt c hmark hdelim =>
    have hsame : skipBareValue buf stop pos = pos := by
      rw [skipBareValue]
      simp only [hlt, if_true]
      rw [if_pos hdelim]
    rw [hsame]
    simp [slice]
  | case3 pos isFloat hlt c hmark hdelim ih =>
    obtain ⟨hsame, hslice⟩ := hstep hlt (by simpa using hdelim)
    have hfloat : isFloatMark (byteAt buf pos) = false := by
      simpa [isFloatMark, and_assoc] using hmark
    rw [ih, hslice, hsame]
    simp [hfloat]
  | case4 pos isFloat hge =>
    have hsame : skipBareValue buf stop pos = pos := by
      rw [skipBareValue, if_neg hge]
    rw [hsame]
    simp [slice]

-- == literals

/-- A literal in the buffer is one in the cells ahead. -/
theorem isLiteral_eq (h : pos ≤ stop) (word : Bytes) :
    isLiteral buf stop pos word = startsLiteral word (ahead buf stop pos) := by
  rw [isLiteral, startsLiteral]
  congr 1
  · have htext : textOf (ahead buf stop pos) = slice buf pos stop := by
      rw [ahead, textOf_classify]
    rw [htext, Bool.eq_iff_iff, isPrefixOf_iff_prefix, Bool.and_eq_true,
      decide_eq_true_eq, beq_iff_eq]
    have hslice : pos + word.length ≤ stop →
        slice buf pos (pos + word.length) = (slice buf pos stop).take word.length := by
      intro hle
      rw [slice, slice, take_take, Nat.add_sub_cancel_left, Nat.min_eq_left (by omega)]
    constructor
    · intro hw
      rw [prefix_iff_eq_take, ← hslice hw.1]
      exact hw.2.symm
    · intro hw
      have hlen := hw.length_le
      rw [slice, length_take] at hlen
      have hle : pos + word.length ≤ stop := by omega
      exact ⟨hle, by rw [hslice hle]; exact (prefix_iff_eq_take.mp hw).symm⟩
  · rw [drop_ahead hstop]
    rcases Nat.lt_or_ge (pos + word.length) stop with hlt | hge
    · rw [ahead_cons hstop hlt]
      simp [Nat.not_le.mpr hlt]
    · rw [ahead_nil hge]
      simp [hge]

-- == quotes

variable {blocks : StoredBitmasks} (hmasks : MasksOk buf blocks)
include hmasks

/-- `next_quote` finds the first unescaped quote up to `stop`, if there is
one. -/
theorem nextQuote_spec (pos : Nat) :
    (∀ found, nextQuote blocks stop pos = some found → quoteMark buf found)
      ∧ ∀ i, pos ≤ i → i < (nextQuote blocks stop pos).getD stop → quoteMark buf i = false := by
  fun_induction nextQuote blocks stop pos with
  | case1 pos hlt block word hword mask hmask at_ hat =>
    obtain ⟨ht, hset, hlow⟩ := trailingZeros_spec hmask
    have hin : pos % 64 + trailingZeros mask < 64 := trailingZeros_shift_lt hmask
    refine ⟨fun found h => ?_, fun i hi hi' => ?_⟩
    · rw [← Option.some.inj h, ← getLsbD_shifted hmasks hin (by omega) hword]
      exact hset
    · rw [Option.getD_some] at hi'
      obtain ⟨j, rfl⟩ := Nat.exists_eq_add_of_le hi
      rw [← getLsbD_shifted hmasks (by omega) (by omega) hword]
      exact hlow j (by omega)
  | case2 pos hlt block word hword mask hmask at_ hat =>
    refine ⟨by simp, fun i hi hi' => ?_⟩
    obtain ⟨ht, hset, hlow⟩ := trailingZeros_spec hmask
    have hin : pos % 64 + trailingZeros mask < 64 := trailingZeros_shift_lt hmask
    rw [Option.getD_none] at hi'
    obtain ⟨j, rfl⟩ := Nat.exists_eq_add_of_le hi
    rw [← getLsbD_shifted hmasks (by omega) (by omega) hword]
    exact hlow j (by omega)
  | case3 pos hlt block word hword mask hmask ih =>
    refine ⟨ih.1, fun i hi hi' => ?_⟩
    rcases Nat.lt_or_ge i ((block + 1) * 64) with hsame | hnext
    · have hzero : mask = 0#64 := Classical.not_not.mp hmask
      have hlen : i < buf.length := by
        cases hquote : nextQuote blocks stop ((block + 1) * 64) with
        | none => rw [hquote] at hi'; exact Nat.lt_of_lt_of_le hi' hstop
        | some found =>
          have hbounds := nextQuote_bounds hquote
          omega
      obtain ⟨j, rfl⟩ := Nat.exists_eq_add_of_le hi
      rw [← getLsbD_shifted hmasks (show pos % 64 + j < 64 by omega) hlen hword]
      show mask.getLsbD j = false
      rw [hzero, BitVec.getLsbD_zero]
    · exact ih.2 i hnext hi'
  | case4 pos hlt block hword =>
    have hcover := hmasks.covers pos (by omega)
    rw [getElem?_eq_none_iff] at hword
    omega
  | case5 pos hge =>
    refine ⟨by simp, fun i hi hi' => ?_⟩
    rw [Option.getD_none] at hi'
    omega

omit hmasks in
/-- Cells that are no quotes are passed over. -/
theorem splitQuote_skip {n : Nat} (hn : n ≤ stop - pos)
    (h : ∀ i, pos ≤ i → i < pos + n → quoteMark buf i = false) :
    splitQuote (ahead buf stop pos)
      = (splitQuote (ahead buf stop (pos + n))).map fun r =>
          ((ahead buf stop pos).take n ++ r.1, r.2) := by
  induction n generalizing pos with
  | zero => simp
  | succ n ih =>
    have hcell : (⟨byteAt buf pos, stateAt buf pos⟩ : Cell).isQuote = false :=
      h pos (Nat.le_refl pos) (by omega)
    rw [ahead_cons hstop (by omega), splitQuote, hcell,
      ih (by omega) (fun i hi hi' => h i (by omega) (by omega)),
      show pos + 1 + n = pos + (n + 1) by omega]
    simp [Function.comp_def]

/-- The cells up to the next quote. -/
theorem splitQuote_ahead (pos : Nat) :
    splitQuote (ahead buf stop pos)
      = (nextQuote blocks stop pos).map fun p =>
          ((ahead buf stop pos).take (p - pos), ahead buf stop (p + 1)) := by
  obtain ⟨hmark, hfirst⟩ := nextQuote_spec hstop hmasks pos
  cases hquote : nextQuote blocks stop pos with
  | none =>
    rw [hquote, Option.getD_none] at hfirst
    have hend : ahead buf stop (pos + (stop - pos)) = [] := ahead_nil (by omega)
    rw [splitQuote_skip hstop (Nat.le_refl _) fun i hi hi' => hfirst i hi (by omega), hend]
    rfl
  | some found =>
    rw [hquote, Option.getD_some] at hfirst
    have hbounds := nextQuote_bounds hquote
    have hcell : (⟨byteAt buf found, stateAt buf found⟩ : Cell).isQuote = true :=
      hmark found hquote
    rw [splitQuote_skip hstop (n := found - pos) (by omega) fun i hi hi' => hfirst i hi (by omega),
      Nat.add_sub_cancel' hbounds.1, ahead_cons hstop hbounds.2, splitQuote, hcell]
    simp

end Ahead

-- == the opener stack

/-- The array with its overflow holds the openers of a plain list, the
last one first: the deepest 32 in the array, the rest in the vector. -/
structure Holds (stack : OpenerStack) (openers : List UInt8) : Prop where
  depth : stack.depth = openers.length
  size : stack.openers.length = maxTrackedDepth
  tracked : ∀ i, i < maxTrackedDepth → i < openers.length →
    stack.openers[i]? = openers.reverse[i]?
  overflow : stack.overflow.getD [] = openers.take (openers.length - maxTrackedDepth)

theorem Holds.empty : Holds .empty [] :=
  { depth := rfl
    size := length_replicate
    tracked := fun i _ hi => absurd hi (Nat.not_lt_zero i)
    overflow := rfl }

variable {openers : List UInt8} {stack : OpenerStack}

/-- An opener is pushed. -/
theorem Holds.push (h : Holds stack openers) (b : UInt8) : Holds (stack.push b) (b :: openers) := by
  rw [OpenerStack.push]
  split
  next hlt =>
    have hroom : openers.length < maxTrackedDepth := h.depth ▸ hlt
    refine ⟨by simp [h.depth], by simp [h.size], fun i hi hlen => ?_, ?_⟩
    · rw [reverse_cons]
      rcases Nat.lt_or_ge i openers.length with hold | hnew
      · rw [getElem?_set_ne (by rw [h.depth]; omega), getElem?_append_left (by simpa using hold)]
        exact h.tracked i hi hold
      · have hi' : i = openers.length := by
          simp only [length_cons] at hlen
          omega
        subst hi'
        rw [h.depth, getElem?_set_self (by rw [h.size]; exact hi)]
        simp
    · have hnone : openers.length - maxTrackedDepth = 0 := by omega
      have hnone' : (b :: openers).length - maxTrackedDepth = 0 := by
        simp only [length_cons]
        omega
      have hover := h.overflow
      rw [hnone] at hover
      rw [hnone']
      exact hover
  next hge =>
    have hfull : maxTrackedDepth ≤ openers.length := by
      rw [← h.depth]
      omega
    refine ⟨by simp [h.depth], h.size, fun i hi hlen => ?_, ?_⟩
    · rw [reverse_cons, getElem?_append_left (by simp; omega)]
      exact h.tracked i hi (by omega)
    · have hlen : (b :: openers).length - maxTrackedDepth
          = openers.length - maxTrackedDepth + 1 := by
        simp only [length_cons]
        omega
      rw [hlen, take_succ_cons, ← h.overflow]
      rfl

variable {opener : UInt8}

/-- The last opener is popped. -/
theorem Holds.pop (h : Holds stack (opener :: openers)) :
    ∃ stack', stack.pop = some (opener, stack') ∧ Holds stack' openers := by
  have hdepth : stack.depth = openers.length + 1 := h.depth
  have hrev : (opener :: openers).reverse = openers.reverse ++ [opener] :=
    reverse_cons
  have htracked : ∀ i, i < maxTrackedDepth → i < openers.length →
      stack.openers[i]? = openers.reverse[i]? := by
    intro i hi hlen
    have hold := h.tracked i hi (by simp only [length_cons]; omega)
    rwa [hrev, getElem?_append_left (by simpa using hlen)] at hold
  rw [OpenerStack.pop]
  split
  next hover =>
    have hlen : (opener :: openers).length - maxTrackedDepth
        = openers.length - maxTrackedDepth + 1 := by
      simp only [length_cons]
      omega
    have hvec := h.overflow
    rw [hlen] at hvec
    cases hov : stack.overflow with
    | none => rw [hov] at hvec; cases hvec
    | some vec =>
      rw [hov] at hvec
      subst hvec
      exact ⟨_, rfl, by simp [hdepth], h.size, htracked, rfl⟩
  next hin =>
    have hroom : openers.length < maxTrackedDepth := by omega
    have htop : stack.openers.getD (stack.depth - 1) 0 = opener := by
      have hat := h.tracked openers.length hroom (by simp)
      rw [hdepth, Nat.add_sub_cancel, getD_eq_getElem?_getD, hat]
      simp
    refine ⟨{ stack with depth := stack.depth - 1 }, by rw [htop],
      by simp [hdepth], h.size, htracked, ?_⟩
    have hnone : openers.length - maxTrackedDepth = 0 := by omega
    have hnone' : (opener :: openers).length - maxTrackedDepth = 0 := by
      simp only [length_cons]
      omega
    rw [hnone]
    have hover := h.overflow
    rwa [hnone'] at hover

theorem Holds.exists_cons (h : Holds stack openers) (hdepth : stack.depth ≠ 0) :
    ∃ opener rest, openers = opener :: rest := by
  rw [h.depth, ne_eq, length_eq_zero_iff] at hdepth
  exact exists_cons_of_ne_nil hdepth

/-- What is popped off a stack that is not empty is its last opener. -/
theorem Holds.of_pop {stack' : OpenerStack} (h : Holds stack openers) (hdepth : ¬ stack.depth = 0)
    (hpop : stack.pop = some (opener, stack')) :
    ∃ rest, openers = opener :: rest ∧ Holds stack' rest := by
  obtain ⟨opener', rest, rfl⟩ := h.exists_cons hdepth
  obtain ⟨stack'', hsome, hrest⟩ := h.pop
  cases hpop.symm.trans hsome
  exact ⟨rest, rfl, hrest⟩

-- == nested values

/-- Skipping stays within the line. -/
theorem skipNested_le {buf : Bytes} {blocks : StoredBitmasks} {stop : Nat}
    (stack : OpenerStack) {pos : Nat} (h : pos ≤ stop) :
    skipNested buf blocks stop stack pos ≤ stop := by
  fun_induction skipNested buf blocks stop stack pos with
  | case8 stack pos _ _ _ _ _ _ close hquote ih =>
    have hclose := nextQuote_bounds hquote
    exact ih (by omega)
  | _ => omega

section Nested

variable {buf : Bytes} {stop : Nat} (hstop : stop ≤ buf.length) {blocks : StoredBitmasks}
  (hmasks : MasksOk buf blocks)
include hstop hmasks

omit hstop hmasks in
/-- The scanner's test for one of two brackets. -/
theorem testPos₂_iff {pos : Nat} {masks masks' : List U64} {x y : UInt8}
    (h : testPos₂ masks masks' pos = (charMark buf x pos || charMark buf y pos)) :
    ((byteAt buf pos = x ∨ byteAt buf pos = y) ∧ testPos₂ masks masks' pos)
      ↔ ((byteAt buf pos == x || byteAt buf pos == y) && !(stateAt buf pos).inString) := by
  rw [h]
  simp only [charMark, Bool.and_eq_true, Bool.or_eq_true, beq_iff_eq]
  constructor
  · intro hmark
    exact ⟨hmark.1, hmark.2.elim And.right And.right⟩
  · intro hmark
    exact ⟨hmark.1, hmark.1.imp (⟨·, hmark.2⟩) (⟨·, hmark.2⟩)⟩

theorem isOpen_iff {pos : Nat} (h : pos < stop) :
    ((byteAt buf pos = openBrace ∨ byteAt buf pos = openBracket)
        ∧ testPos₂ blocks.openBrace blocks.openBracket pos)
      ↔ (⟨byteAt buf pos, stateAt buf pos⟩ : Cell).isOpen :=
  testPos₂_iff (hmasks.opening pos (by omega))

theorem isClose_iff {pos : Nat} (h : pos < stop) :
    ((byteAt buf pos = closeBrace ∨ byteAt buf pos = closeBracket)
        ∧ testPos₂ blocks.closeBrace blocks.closeBracket pos)
      ↔ (⟨byteAt buf pos, stateAt buf pos⟩ : Cell).isClose :=
  testPos₂_iff (hmasks.closing pos (by omega))

/-- The scanner's test for a quote. -/
theorem isQuote_iff {pos : Nat} (h : pos < stop) :
    (byteAt buf pos = Ascii.quote ∧ testPos blocks.realQuotes pos)
      ↔ (⟨byteAt buf pos, stateAt buf pos⟩ : Cell).isQuote := by
  rw [hmasks.quote pos (by omega)]
  simp only [quoteMark, Cell.isQuote, Bool.and_eq_true, beq_iff_eq]
  exact ⟨fun hq => hq.2, fun hq => ⟨hq.1, hq⟩⟩

/-- Skipping by blocks is skipping by cells. -/
theorem skipValue_ahead (hstack : Holds stack openers) (pos : Nat) :
    skipValue openers (ahead buf stop pos)
      = ahead buf stop (skipNested buf blocks stop stack pos) := by
  fun_induction skipNested buf blocks stop stack pos generalizing openers
  case case1 pos hlt hcover =>
    have := hmasks.covers pos (by omega)
    omega
  case case2 pos hlt hcover b hopen ih =>
    have hcell := (isOpen_iff hstop hmasks hlt).mp hopen
    rw [ahead_cons hstop hlt, skipValue_open hcell]
    exact ih (hstack.push _)
  case case3 pos hlt hcover b hopen hclose hdepth =>
    have hcell := (isClose_iff hstop hmasks hlt).mp hclose
    rw [hstack.depth, length_eq_zero_iff] at hdepth
    subst hdepth
    rw [ahead_cons hstop hlt, skipValue_close hcell]
  -- the depth counts the openers, so there is one to pop
  case case4 pos hlt hcover b hopen hclose hdepth hpop =>
    obtain ⟨opener, openers, rfl⟩ := hstack.exists_cons hdepth
    obtain ⟨stack', hsome, _⟩ := hstack.pop
    rw [hpop] at hsome
    cases hsome
  case case5 pos hlt hcover b hopen hclose hdepth opener' stack' hpop hmismatch =>
    have hcell := (isClose_iff hstop hmasks hlt).mp hclose
    obtain ⟨rest, rfl, _⟩ := hstack.of_pop hdepth hpop
    rw [ahead_cons hstop hlt, skipValue_close hcell]
    exact if_pos hmismatch
  case case6 pos hlt hcover b hopen hclose hdepth opener' stack' hpop hmatch hlast =>
    have hcell := (isClose_iff hstop hmasks hlt).mp hclose
    obtain ⟨rest, rfl, hstack'⟩ := hstack.of_pop hdepth hpop
    rw [hstack'.depth, length_eq_zero_iff] at hlast
    rw [ahead_cons hstop hlt, skipValue_close hcell]
    exact (if_neg hmatch).trans (if_pos hlast)
  case case7 pos hlt hcover b hopen hclose hdepth opener' stack' hpop hmatch hlast ih =>
    have hcell := (isClose_iff hstop hmasks hlt).mp hclose
    obtain ⟨rest, rfl, hstack'⟩ := hstack.of_pop hdepth hpop
    rw [hstack'.depth, length_eq_zero_iff] at hlast
    rw [ahead_cons hstop hlt, skipValue_close hcell]
    exact ((if_neg hmatch).trans (if_neg hlast)).trans (ih hstack')
  case case8 pos hlt hcover b hopen hclose hquote close hnext ih =>
    have hcell := (isQuote_iff hstop hmasks hlt).mp hquote
    rw [ahead_cons hstop hlt, skipValue_quote hcell, splitQuote_ahead hstop hmasks, hnext]
    exact ih hstack
  case case9 pos hlt hcover b hopen hclose hquote hnext =>
    have hcell := (isQuote_iff hstop hmasks hlt).mp hquote
    rw [ahead_cons hstop hlt, skipValue_quote hcell, splitQuote_ahead hstop hmasks, hnext,
      ahead_nil (Nat.le_refl stop)]
    rfl
  case case10 pos hlt hcover b hopen hclose hquote ih =>
    have hcell := mt (isOpen_iff hstop hmasks hlt).mpr hopen
    have hcell' := mt (isClose_iff hstop hmasks hlt).mpr hclose
    have hcell'' := mt (isQuote_iff hstop hmasks hlt).mpr hquote
    rw [ahead_cons hstop hlt, skipValue_other (Bool.eq_false_iff.mpr hcell)
      (Bool.eq_false_iff.mpr hcell') (Bool.eq_false_iff.mpr hcell'')]
    exact ih hstack
  case case11 pos hge => rw [ahead_nil (by omega), skipValue_nil]

-- == keys and values

/-- A key is read by blocks as by cells. -/
theorem readKey_ahead (pos : Nat) :
    readKey (ahead buf stop pos)
      = (scanKey buf blocks stop pos).map fun r => (r.1, ahead buf stop r.2) := by
  rw [readKey, scanKey, trimStart_ahead hstop]
  generalize skipWhitespace buf stop pos = keyAt
  rcases Nat.lt_or_ge keyAt stop with hlt | hge
  · rw [ahead_cons hstop hlt]
    by_cases hquote : byteAt buf keyAt = quote
    · have hbrace : ¬ (stop ≤ keyAt ∨ byteAt buf keyAt = closeBrace) := by
        rw [hquote]
        exact fun h => h.elim (by omega) (by decide)
      rw [if_neg hbrace]
      simp only [hquote, ne_eq]
      rw [splitQuote_ahead hstop hmasks]
      cases hend : nextQuote blocks stop (keyAt + 1) with
      | none => rfl
      | some keyEnd =>
        have hbound := nextQuote_bounds hend
        have htext : textOf ((ahead buf stop (keyAt + 1)).take (keyEnd - (keyAt + 1)))
            = slice buf (keyAt + 1) keyEnd := textOf_take_ahead (by omega)
        simp only [Option.map_some]
        rw [trimStart_ahead hstop, htext]
        generalize skipWhitespace buf stop (keyEnd + 1) = colonAt
        rcases Nat.lt_or_ge colonAt stop with hlt' | hge'
        · rw [ahead_cons hstop hlt']
          by_cases hcolon : byteAt buf colonAt = colon
          · simp only [hcolon, not_true_eq_false, or_false, Nat.not_le.mpr hlt', if_false]
            rw [trimStart_ahead hstop]
            generalize skipWhitespace buf stop (colonAt + 1) = valueAt
            rcases Nat.lt_or_ge valueAt stop with hlt'' | hge''
            · rw [if_neg (Nat.not_le.mpr hlt''), Option.map_some,
                ahead_cons hstop hlt'']
            · rw [ahead_nil hge'', if_pos hge'']
              rfl
          · simp only [hcolon, not_false_eq_true, or_true]
            rfl
        · rw [ahead_nil hge', if_pos (Or.inl hge')]
          rfl
    · simp only [ne_eq, hquote, not_false_eq_true, if_true]
      split <;> rfl
  · rw [ahead_nil hge, if_pos (.inl hge)]
    rfl

end Nested

/-- The value at `pos` as it stands there, and where it ends. -/
def scanRaw (buf : Bytes) (blocks : StoredBitmasks) (stop pos : Nat) :
    Option (RawValue × Nat) :=
  let literal (word : Bytes) (value : RawValue) : RawValue × Nat :=
    if isLiteral buf stop pos word then (value, pos + word.length)
    else (.malformed, skipBareValue buf stop pos)
  let b := byteAt buf pos
  if b = Ascii.quote then
    (nextQuote blocks stop (pos + 1)).map fun valEnd =>
      (.str (slice buf (pos + 1) valEnd), valEnd + 1)
  else if b = openBrace ∨ b = openBracket then
    let nestedEnd := skipNested buf blocks stop .empty pos
    some (.nested (slice buf pos nestedEnd), nestedEnd)
  else if b = lowerT then some (literal trueWord (.bool true))
  else if b = lowerF then some (literal falseWord (.bool false))
  else if b = lowerN then some (literal nullWord .null)
  else
    let bareEnd := skipBareValue buf stop pos
    some (.number (slice buf pos bareEnd), bareEnd)

section Values

variable {buf : Bytes} {stop : Nat} (hstop : stop ≤ buf.length) {blocks : StoredBitmasks}
  (hmasks : MasksOk buf blocks)
include hstop

variable {pos : Nat}

theorem readLiteral_ahead (h : pos ≤ stop) (word : Bytes) (value : RawValue) :
    readLiteral word value (ahead buf stop pos)
      = if isLiteral buf stop pos word then (value, ahead buf stop (pos + word.length))
        else (.malformed, ahead buf stop (skipBareValue buf stop pos)) := by
  rw [readLiteral, isLiteral_eq hstop h, splitBare_ahead hstop, drop_ahead hstop]

theorem skipComma_ahead (pos : Nat) :
    dropComma (ahead buf stop pos) = ahead buf stop (skipComma buf stop pos) := by
  rw [dropComma, skipComma, trimStart_ahead hstop]
  generalize skipWhitespace buf stop pos = p
  rcases Nat.lt_or_ge p stop with hlt | hge
  · rw [ahead_cons hstop hlt]
    by_cases hcomma : byteAt buf p = comma
    · rw [if_pos ⟨hlt, hcomma⟩]
      exact if_pos hcomma
    · rw [if_neg fun h => hcomma h.2, ahead_cons hstop hlt]
      exact if_neg hcomma
  · rw [if_neg fun h => absurd h.1 (Nat.not_lt.mpr hge), ahead_nil hge]

include hmasks

/-- So is a value. -/
theorem readValue_ahead (h : pos < stop) :
    readValue (ahead buf stop pos)
      = (scanRaw buf blocks stop pos).map fun r => (r.1, ahead buf stop r.2) := by
  have hcells := ahead_cons hstop h
  rw [hcells, readValue, scanRaw]
  dsimp only
  split
  · rw [splitQuote_ahead hstop hmasks, Option.map_map, Option.map_map]
    refine Option.map_congr fun valEnd hend => ?_
    have hbound := nextQuote_bounds hend
    simp only [Function.comp]
    rw [textOf_take_ahead (by omega)]
  · rw [← hcells]
    split
    · have hle := le_skipNested buf blocks stop .empty pos
      have hle' : skipNested buf blocks stop .empty pos ≤ stop :=
        skipNested_le .empty (Nat.le_of_lt h)
      have hn : (ahead buf stop pos).length
          - (ahead buf stop (skipNested buf blocks stop .empty pos)).length
          = skipNested buf blocks stop .empty pos - pos := by
        rw [length_ahead hstop, length_ahead hstop]
        omega
      rw [skipValue_ahead hstop hmasks .empty, hn, textOf_take_ahead hle', Option.map_some]
    · split
      · rw [readLiteral_ahead hstop (by omega)]
        split <;> rfl
      · split
        · rw [readLiteral_ahead hstop (by omega)]
          split <;> rfl
        · split
          · rw [readLiteral_ahead hstop (by omega)]
            split <;> rfl
          · have hle : skipBareValue buf stop pos ≤ stop := skipBareValue_le (Nat.le_of_lt h)
            rw [splitBare_ahead hstop, Option.map_some, textOf_take_ahead hle]

end Values

end FastForward.Core
