/-
The bitmasks of stage 1 are the byte automaton's answers: for every
buffer and every position, the stored words say whether the byte there
is an unescaped quote, and whether a brace or bracket there stands
outside strings.

A block is entered with the two carried words standing for an automaton
state (`Carries`). Within it the escape loop is followed by a frontier
below which the escaped positions are settled (`EscapeLoop`), and the
string interior is the running parity of the unescaped quotes, by the
doubling rule of Lib/Bits.
-/
import FastForward.Core.Reader

namespace FastForward.Core

open Lib List Ascii QuoteState StreamingClassifier

-- == single bits

/-- The word with one bit. -/
theorem getLsbD_one_shiftLeft {t : Nat} (ht : t < 64) (i : Nat) :
    (1#64 <<< t).getLsbD i = decide (i = t) := by
  rw [← BitVec.twoPow_eq, BitVec.getLsbD_twoPow]
  simp only [ht, decide_true, Bool.true_and, decide_eq_decide]
  omega

theorem getLsbD_clear (b : U64) {t : Nat} (ht : t < 64) (i : Nat) :
    (b &&& ~~~(1#64 <<< t)).getLsbD i = (b.getLsbD i && decide (i ≠ t)) := by
  rw [BitVec.getLsbD_and, BitVec.getLsbD_not, getLsbD_one_shiftLeft ht]
  by_cases hi : i < 64
  · simp only [hi, decide_true, Bool.true_and, decide_not]
  · simp only [BitVec.getLsbD_of_ge b i (by omega), Bool.false_and]

theorem getLsbD_set (b : U64) {t : Nat} (ht : t < 64) (i : Nat) :
    (b ||| (1#64 <<< t)).getLsbD i = (b.getLsbD i || decide (i = t)) := by
  rw [BitVec.getLsbD_or, getLsbD_one_shiftLeft ht]

/-- `(x >> 63) & 1 == 1` is the top bit. -/
theorem topBit_iff (x : U64) : (x >>> 63) &&& 1#64 = 1#64 ↔ x.getLsbD 63 := by
  have hbit : ∀ i, ((x >>> 63) &&& 1#64).getLsbD i = (decide (i = 0) && x.getLsbD 63) := by
    intro i
    by_cases hi : i = 0
    · simp [hi]
    · simp [hi]
  constructor
  · intro h
    have h0 := hbit 0
    rw [h] at h0
    simpa using h0.symm
  · intro h
    apply BitVec.eq_of_getLsbD_eq
    intro i _
    rw [hbit i, h]
    simp

/-- The test of one position reads one bit. -/
theorem testPos_eq (words : List U64) (pos : Nat) :
    testPos words pos = (words.getD (pos / 64) 0#64).getLsbD (pos % 64) := by
  have hmod : pos % 64 < 64 := Nat.mod_lt _ (by omega)
  rw [testPos]
  generalize words.getD (pos / 64) 0#64 = word
  cases hbit : word.getLsbD (pos % 64) with
  | true =>
    rw [bne_iff_ne]
    intro hzero
    have hone := congrArg (·.getLsbD (pos % 64)) hzero
    simp [hbit, getLsbD_one_shiftLeft hmod] at hone
  | false =>
    have hzero : word &&& (1#64 <<< (pos % 64)) = 0#64 := by
      apply BitVec.eq_of_getLsbD_eq
      intro i _
      rw [BitVec.getLsbD_and, getLsbD_one_shiftLeft hmod]
      by_cases hi : i = pos % 64
      · simp [hi, hbit]
      · simp [hi]
    simp [hzero]

theorem testPos₂_eq (a b : List U64) (pos : Nat) :
    testPos₂ a b pos = (testPos a pos || testPos b pos) := by
  have hword : testPos₂ a b pos
      = testPos [a.getD (pos / 64) 0#64 ||| b.getD (pos / 64) 0#64] (pos % 64) := by
    have hmod : pos % 64 / 64 = 0 := by omega
    simp [testPos₂, testPos]
  rw [hword, testPos_eq, testPos_eq, testPos_eq]
  have hmod : pos % 64 / 64 = 0 := by omega
  simp [hmod]

theorem getLsbD_findCharMask {block : Bytes} (hlen : block.length ≤ 64) (needle : UInt8)
    (i : Nat) : (findCharMask block needle).getLsbD i = (block[i]? == some needle) := by
  have hfold : ∀ (l : Bytes) (k : Nat) (acc : U64), k + l.length ≤ 64 → ((l.zipIdx k).foldl
        (fun mask p => if p.1 = needle then mask ||| (1#64 <<< p.2) else mask) acc).getLsbD i
      = (acc.getLsbD i || (decide (k ≤ i) && l[i - k]? == some needle)) := by
    intro l
    induction l with
    | nil => intro k acc _; simp
    | cons b l ih =>
      intro k acc hk
      simp only [length_cons] at hk
      rw [zipIdx_cons, foldl_cons, ih _ _ (by omega)]
      rcases Nat.lt_trichotomy i k with hlt | heq | hgt
      · have h1 : ¬ k ≤ i := by omega
        have h2 : ¬ k + 1 ≤ i := by omega
        split <;> simp [h1, h2]
      · subst heq
        have h2 : ¬ i + 1 ≤ i := by omega
        by_cases hb : b = needle
        · simp [getLsbD_set acc (show i < 64 by omega), hb]
        · simp [h2, hb]
      · obtain ⟨d, rfl⟩ : ∃ d, i = k + 1 + d := ⟨i - (k + 1), by omega⟩
        have h1 : k + 1 + d - k = d + 1 := by omega
        have h4 : k ≤ k + 1 + d := by omega
        split <;> simp [h1, h4]
  have hall := hfold block 0 0#64 (by omega)
  simpa [findCharMask] using hall

-- == escaped positions

/-- Position `n` is escaped: the one before is an unescaped backslash, or
it is the first and entered so. -/
def escapedAt (first : Bool) (bs : Nat → Bool) : Nat → Bool
  | 0 => first
  | n + 1 => bs n && !escapedAt first bs n

/-- The escape loop with everything below the frontier `p` settled: `b`
are the backslashes still to be looked at. -/
structure EscapeLoop (E bs : Nat → Bool) (p : Nat) (b escaped : U64) : Prop where
  low : ∀ i, i < p → b.getLsbD i = false
  here : p < 64 → b.getLsbD p = (bs p && !E p)
  high : ∀ i, p < i → i < 64 → b.getLsbD i = bs i
  settled : ∀ i, i ≤ p → i < 64 → escaped.getLsbD i = E i
  open_ : ∀ i, p < i → escaped.getLsbD i = false

section Escape

variable {first : Bool} {bs : Nat → Bool} {b escaped : U64} {p t : Nat}

/-- Without a backslash in between nothing is escaped. -/
theorem EscapeLoop.quiet (h : EscapeLoop (escapedAt first bs) bs p b escaped)
    (hb : ∀ i, p ≤ i → i < t → b.getLsbD i = false) (ht : t ≤ 64) :
    ∀ i, p < i → i ≤ t → escapedAt first bs i = false := by
  intro i hi hit
  obtain ⟨j, rfl⟩ : ∃ j, i = j + 1 := ⟨i - 1, by omega⟩
  have hzero := hb j (by omega) (by omega)
  rw [escapedAt]
  rcases Nat.lt_or_ge p j with hlt | hge
  · rw [← h.high j hlt (by omega), hzero]
    rfl
  · have hjp : j = p := by omega
    subst hjp
    rw [← h.here (by omega), hzero]

/-- The lowest backslash left stands at or behind the frontier. -/
theorem EscapeLoop.le_lowest {E : Nat → Bool}
    (h : EscapeLoop E bs p b escaped) (hset : b.getLsbD t) : p ≤ t := by
  rcases Nat.lt_or_ge t p with hlt | hge
  · rw [h.low t hlt] at hset
    cases hset
  · exact hge

variable (h : EscapeLoop (escapedAt first bs) bs p b escaped) (ht : t < 64)

include h ht

/-- The lowest backslash left is not escaped, so the next byte is. -/
theorem EscapeLoop.escapes_next
    (hset : b.getLsbD t) (hbelow : ∀ j, j < t → b.getLsbD j = false) :
    escapedAt first bs (t + 1) := by
  have hpt := h.le_lowest hset
  have hquiet := h.quiet (fun j _ hj => hbelow j hj) (by omega)
  rw [escapedAt]
  rcases Nat.lt_or_ge p t with hlt | hge
  · rw [← h.high t hlt ht, hset, hquiet t hlt (Nat.le_refl t)]
    rfl
  · have htp : t = p := by omega
    subst htp
    rw [← h.here ht, hset]

/-- Up to the lowest backslash left the word of escapes is final. -/
theorem EscapeLoop.settled_below
    (hbelow : ∀ j, j < t → b.getLsbD j = false) {j : Nat} (hj : j ≤ t) :
    escaped.getLsbD j = escapedAt first bs j := by
  have hquiet := h.quiet (fun j _ hj => hbelow j hj) (by omega)
  rcases Nat.lt_or_ge p j with hpj | hjp
  · rw [h.open_ j hpj, hquiet j hpj hj]
  · exact h.settled j hjp (by omega)

omit h ht

theorem clear_low (hbelow : ∀ j, j < t → b.getLsbD j = false) {j : Nat} (hj : j ≤ t) :
    (b &&& ~~~(1#64 <<< t)).getLsbD j = false := by
  rcases Nat.lt_or_ge j t with hlt | hge
  · simp [hbelow j hlt]
  · have hjt : j = t := by omega
    simp [hjt]

/-- One round of the loop: the escaped byte is marked, and if it is a
backslash itself it no longer counts as one. -/
theorem EscapeLoop.mark (h : EscapeLoop (escapedAt first bs) bs p b escaped) (hlast : t + 1 < 64)
    (hset : b.getLsbD t) (hbelow : ∀ j, j < t → b.getLsbD j = false) :
    EscapeLoop (escapedAt first bs) bs (t + 1)
      (b &&& ~~~(1#64 <<< t) &&& ~~~(1#64 <<< (t + 1))) (escaped ||| 1#64 <<< (t + 1)) := by
  have ht : t < 64 := by omega
  have hpt := h.le_lowest hset
  have hnext := h.escapes_next ht hset hbelow
  refine ⟨?_, ?_, ?_, ?_, ?_⟩
  · intro j hj
    rw [getLsbD_clear _ hlast, clear_low hbelow (by omega), Bool.false_and]
  · intro _
    rw [hnext]
    simp
  · intro j hj hj64
    have h1 : j ≠ t := by omega
    have h2 : j ≠ t + 1 := by omega
    rw [getLsbD_clear _ hlast, getLsbD_clear b ht, h.high j (by omega) hj64]
    simp [h1, h2]
  · intro j hj hj64
    rw [getLsbD_set _ hlast]
    rcases Nat.lt_or_ge t j with hlt | hge
    · have hjt : j = t + 1 := by omega
      subst hjt
      simp [hnext]
    · have h2 : j ≠ t + 1 := by omega
      simp [h2, h.settled_below ht hbelow hge]
  · intro j hj
    have h2 : j ≠ t + 1 := by omega
    rw [getLsbD_set _ hlast, h.open_ j (by omega)]
    simp [h2]

/-- A backslash in the last position escapes nothing in this block. -/
theorem EscapeLoop.markLast
    (h : EscapeLoop (escapedAt first bs) bs p b escaped) (ht : t < 64) (hlast : ¬ t + 1 < 64)
    (hset : b.getLsbD t) (hbelow : ∀ j, j < t → b.getLsbD j = false) :
    EscapeLoop (escapedAt first bs) bs 64 (b &&& ~~~(1#64 <<< t)) escaped := by
  have hpt := h.le_lowest hset
  refine ⟨?_, ?_, ?_, ?_, ?_⟩
  · intro j hj
    exact clear_low hbelow (by omega)
  · intro h64; omega
  · intro j hj hj64; omega
  · intro j _ hj64
    exact h.settled_below ht hbelow (by omega)
  · intro j hj
    exact h.open_ j (by omega)

/-- The loop settles every position. -/
theorem markEscaped_spec : ∀ (fuel p : Nat) (b escaped : U64),
    EscapeLoop (escapedAt first bs) bs p b escaped → 64 - p ≤ fuel →
    ∀ i, i < 64 → (markEscaped fuel b escaped).getLsbD i = escapedAt first bs i := by
  intro fuel
  induction fuel with
  | zero =>
    intro p b escaped h hfuel i hi
    exact h.settled i (by omega) hi
  | succ fuel ih =>
    intro p b escaped h hfuel i hi
    rw [markEscaped]
    by_cases hb : b = 0#64
    · rw [if_pos hb]
      exact h.settled_below hi (fun j _ => by rw [hb]; simp) (Nat.le_refl i)
    · rw [if_neg hb]
      obtain ⟨ht, hset, hbelow⟩ := trailingZeros_spec hb
      generalize trailingZeros b = t at ht hset hbelow
      have hpt := h.le_lowest hset
      by_cases hlast : t + 1 < 64
      · simp only [hlast]
        exact ih (t + 1) _ _ (h.mark hlast hset hbelow) (by omega) i hi
      · simp only [hlast]
        exact ih 64 _ _ (h.markLast ht hlast hset hbelow) (by omega) i hi

/-- The escaped positions of a block. -/
theorem getLsbD_escapedMask {bsBits prev : U64} {i : Nat} (hi : i < 64) :
    (escapedMask bsBits prev).getLsbD i = escapedAt (decide (prev ≠ 0#64)) bsBits.getLsbD i := by
  have hone : (1#64 : U64) = 1#64 <<< 0 := rfl
  rw [escapedMask]
  split
  next h =>
    refine markEscaped_spec 64 0 _ _ ⟨?_, ?_, ?_, ?_, ?_⟩ (by omega) i hi
    · intro j hj; omega
    · intro _
      simp [escapedAt, h]
    · intro j hj _
      rw [hone, getLsbD_clear _ (by omega)]
      simp [show j ≠ 0 by omega]
    · intro j hj _
      have hj0 : j = 0 := by omega
      simp [hj0, escapedAt, h]
    · intro j hj
      simp [show j ≠ 0 by omega]
  next h =>
    refine markEscaped_spec 64 0 _ _ ⟨?_, ?_, ?_, ?_, ?_⟩ (by omega) i hi
    · intro j hj; omega
    · intro _
      simp [escapedAt, h]
    · intro j _ _; rfl
    · intro j hj _
      have hj0 : j = 0 := by omega
      simp [hj0, escapedAt, h]
    · intro j _
      simp

end Escape

/-- Without backslashes nothing is escaped. -/
theorem escapedAt_none {first : Bool} {bs : Nat → Bool} {n : Nat} (hfirst : first = false)
    (hbs : ∀ i, i < n → bs i = false) : escapedAt first bs n = false := by
  cases n with
  | zero => exact hfirst
  | succ n => rw [escapedAt, hbs n (by omega)]; rfl

/-- The carry for an escape state. -/
def oddCarry (escaped : Bool) : U64 := if escaped then 1#64 else 0#64

theorem oddCarry_ne_zero (escaped : Bool) : decide (oddCarry escaped ≠ 0#64) = escaped := by
  cases escaped <;> decide

/-- `compute_real_quotes`: the unescaped quotes, and the carry. -/
theorem computeRealQuotes_spec (quoteBits bsBits : U64) (first : Bool) :
    let r := computeRealQuotes quoteBits bsBits (oddCarry first)
    let E := escapedAt first bsBits.getLsbD
    (∀ i, i < 64 → r.1.getLsbD i = (quoteBits.getLsbD i && !E i)) ∧ r.2 = oddCarry (E 64) := by
  rw [computeRealQuotes]
  split
  next h =>
    have hfirst : first = false := by
      have hne := oddCarry_ne_zero first
      rw [← hne]
      simp [h.2]
    have hnone : ∀ n, escapedAt first bsBits.getLsbD n = false :=
      fun n => escapedAt_none hfirst fun i _ => by rw [h.1]; simp
    refine ⟨fun i _ => by simp [hnone], ?_⟩
    rw [hnone, hfirst]
  next =>
    have hmask : ∀ i, i < 64 → (escapedMask bsBits (oddCarry first)).getLsbD i
        = escapedAt first bsBits.getLsbD i := by
      intro i hi
      rw [getLsbD_escapedMask hi, oddCarry_ne_zero]
    refine ⟨fun i hi => ?_, ?_⟩
    · rw [BitVec.getLsbD_and, BitVec.getLsbD_not, hmask i hi]
      simp only [hi, decide_true, Bool.true_and]
    · have hlast : escapedAt first bsBits.getLsbD 64
          = (bsBits.getLsbD 63 && !escapedAt first bsBits.getLsbD 63) := rfl
      rw [hlast]
      simp only [topBit_iff, hmask 63 (by omega)]
      cases bsBits.getLsbD 63 <;> cases escapedAt first bsBits.getLsbD 63 <;> simp [oddCarry]

-- == string interiors

variable {i : Nat}

theorem getLsbD_prefixXor (x : U64) (hi : i < 64) :
    (prefixXor x).getLsbD i = parity x.getLsbD (i + 1) := by
  have h1 := (WindowParity.one x).double
  have h2 := h1.double
  have h4 := h2.double
  have h8 := h4.double
  have h16 := h8.double
  have h32 := h16.double
  exact h32.full (by omega) hi

/-- The mask of the valid positions. -/
theorem getLsbD_lengthMask (n : Nat) (hi : i < 64) : (lengthMask n).getLsbD i = decide (i < n) := by
  rw [lengthMask]
  split
  next h =>
    rw [BitVec.getLsbD_allOnes]
    simp only [hi, show i < n by omega]
  next h =>
    have hn : n < 64 := by omega
    have hpow : 2 ^ n < 2 ^ 64 := Nat.pow_lt_pow_right (by omega) hn
    have hpos : 0 < 2 ^ n := Nat.two_pow_pos n
    have htwo : (1#64 <<< n).toNat = 2 ^ n := by
      have hone : (1#64).toNat = 1 := rfl
      rw [BitVec.toNat_shiftLeft, Nat.shiftLeft_eq, hone, Nat.one_mul, Nat.mod_eq_of_lt hpow]
    have hle : 1#64 ≤ 1#64 <<< n := by
      rw [BitVec.le_def, htwo]
      exact hpos
    rw [BitVec.getLsbD, BitVec.toNat_sub_of_le hle, htwo]
    exact Nat.testBit_two_pow_sub_one n i

-- == one block

/-- The carried words stand for a state. -/
structure Carries (c : StreamingClassifier) (s : QuoteState) : Prop where
  odd : c.prevOddBackslash = oddCarry s.escaped
  string : c.prevInString = if s.inString then BitVec.allOnes 64 else 0#64

theorem Carries.new : Carries .new .start := ⟨rfl, rfl⟩

section Block

variable {block : Bytes} (hlen : block.length = 64) (s : QuoteState)
include hlen

variable {j : Nat}

/-- Running over one more byte of the block. -/
theorem run_take_succ (hj : j < 64) :
    s.run (block.take (j + 1)) = (s.run (block.take j)).step (block.getD j 0) := by
  have hget : block[j]? = some (block.getD j 0) := by
    rw [getD_eq_getElem?_getD, getElem?_eq_getElem (by omega)]
    rfl
  rw [take_add_one, hget, run_append]
  rfl

theorem getElem?_beq (hj : j < 64) (c : UInt8) : (block[j]? == some c) = (block.getD j 0 == c) := by
  rw [getD_eq_getElem?_getD, getElem?_eq_getElem (by omega)]
  rfl

/-- The automaton's escape bit is the escape sequence of the block. -/
theorem escaped_run_take (hj : j ≤ 64) : (s.run (block.take j)).escaped
      = escapedAt s.escaped (findCharMask block backslash).getLsbD j := by
  induction j with
  | zero => rfl
  | succ j ih =>
    rw [run_take_succ hlen s (by omega), escapedAt, ← ih (by omega),
      getLsbD_findCharMask (by omega), getElem?_beq hlen (by omega)]
    rfl

def quoteAt (block : Bytes) (s : QuoteState) (j : Nat) : Bool :=
  block.getD j 0 == Ascii.quote && !(s.run (block.take j)).escaped

/-- The automaton's string bit is the parity of the unescaped quotes. -/
theorem inString_run_take (hj : j ≤ 64) :
    (s.run (block.take j)).inString = (s.inString ^^ parity (quoteAt block s) j) := by
  induction j with
  | zero => simp [parity]
  | succ j ih =>
    rw [run_take_succ hlen s (by omega), parity, ← Bool.xor_assoc, ← ih (by omega)]
    rfl

variable {c : StreamingClassifier} (hc : Carries c s) (blockLen : Nat)
include hc

/-- The unescaped quotes before masking. -/
theorem getLsbD_realQuotes (hj : j < 64) : (computeRealQuotes (findCharMask block Ascii.quote)
      (findCharMask block backslash) c.prevOddBackslash).1.getLsbD j
      = quoteAt block s j := by
  have hspec := (computeRealQuotes_spec (findCharMask block quote)
    (findCharMask block backslash) s.escaped).1 j hj
  rw [hc.odd, hspec, getLsbD_findCharMask (by omega), getElem?_beq hlen hj, quoteAt,
    escaped_run_take hlen s (by omega)]

/-- The string interior bits before the quotes are taken out: the state
behind each byte. -/
theorem getLsbD_rawStringBits (hj : j < 64) :
    (prefixXor (computeRealQuotes (findCharMask block Ascii.quote)
        (findCharMask block backslash) c.prevOddBackslash).1
      ^^^ c.prevInString).getLsbD j
      = (s.run (block.take (j + 1))).inString := by
  have hcarry : c.prevInString.getLsbD j = s.inString := by
    rw [hc.string]
    cases s.inString
    · simp
    · simp only [if_true, BitVec.getLsbD_allOnes, hj, decide_true]
  have hparity : parity (computeRealQuotes (findCharMask block quote)
      (findCharMask block backslash) c.prevOddBackslash).1.getLsbD (j + 1)
      = parity (quoteAt block s) (j + 1) :=
    parity_congr fun i hi => getLsbD_realQuotes hlen s hc (by omega)
  rw [BitVec.getLsbD_xor, getLsbD_prefixXor _ hj, hparity, hcarry,
    inString_run_take hlen s (by omega), Bool.xor_comm]

/-- The classifier carries the state behind the block. -/
theorem Carries.processBlock :
    Carries (c.processBlock (findStructuralChars block) blockLen).1 (s.run block) := by
  have hall : block.take 64 = block := take_of_length_le (by omega)
  have hodd := (computeRealQuotes_spec (findCharMask block quote)
    (findCharMask block backslash) s.escaped).2
  have hescaped := escaped_run_take hlen s (Nat.le_refl 64)
  have hstring := getLsbD_rawStringBits hlen s hc (j := 63) (by omega)
  rw [hall] at hescaped
  rw [hall] at hstring
  refine ⟨?_, ?_⟩
  · rw [hescaped, ← hodd, ← hc.odd]
    rfl
  · simp only [StreamingClassifier.processBlock, findStructuralChars, topBit_iff, hstring]

theorem processBlock_realQuotes (hj : j < 64) :
    (c.processBlock (findStructuralChars block) blockLen).2.realQuotes.getLsbD j
      = (quoteAt block s j && decide (j < blockLen)) := by
  simp only [processBlock, findStructuralChars, BitVec.getLsbD_and,
    getLsbD_realQuotes hlen s hc hj, getLsbD_lengthMask blockLen hj]

/-- The bits of any other character outside strings. -/
theorem getLsbD_outsideStrings {needle : UInt8} (hneedle : needle ≠ Ascii.quote) (hj : j < 64) :
    let realQ := (computeRealQuotes (findCharMask block Ascii.quote)
      (findCharMask block backslash) c.prevOddBackslash).1
    (findCharMask block needle &&& ~~~((prefixXor realQ ^^^ c.prevInString) &&& ~~~realQ)
        &&& lengthMask blockLen).getLsbD j
      = (block.getD j 0 == needle && !(s.run (block.take j)).inString
          && decide (j < blockLen)) := by
  intro realQ
  rw [BitVec.getLsbD_and, BitVec.getLsbD_and, BitVec.getLsbD_not, BitVec.getLsbD_and,
    BitVec.getLsbD_not, getLsbD_lengthMask blockLen hj, getLsbD_rawStringBits hlen s hc hj,
    getLsbD_realQuotes hlen s hc hj, getLsbD_findCharMask (by omega), getElem?_beq hlen hj]
  simp only [hj]
  by_cases hbyte : block.getD j 0 = needle
  · -- the byte is no quote, so the state does not change over it
    have hquote : quoteAt block s j = false := by
      rw [quoteAt, hbyte]
      simp [hneedle]
    have hsame : (s.run (block.take (j + 1))).inString = (s.run (block.take j)).inString := by
      rw [inString_run_take hlen s (by omega), inString_run_take hlen s (by omega), parity, hquote]
      simp
    rw [hquote, hsame]
    simp
  · have hne : (block.getD j 0 == needle) = false :=
      beq_eq_false_iff_ne.mpr hbyte
    rw [hne]
    simp

end Block

-- == the blocks of a buffer

@[simp] theorem length_blockAt (buf : Bytes) (k : Nat) : (blockAt buf k).length = 64 := by
  rw [blockAt]
  split
  next h => simp [slice]; omega
  next h => simp; omega

variable {buf : Bytes} {k j : Nat}

/-- As far as the buffer goes, a block is a piece of it. -/
theorem take_blockAt (hj : j ≤ 64) (hlen : k * 64 + j ≤ buf.length) :
    (blockAt buf k).take j = (buf.drop (k * 64)).take j := by
  rw [blockAt]
  split
  next h =>
    have hlen' : k * 64 + 64 - k * 64 = 64 := by omega
    rw [slice, hlen', take_take, Nat.min_eq_left hj]
  next h => rw [take_append_of_le_length (by simp; omega)]

theorem getD_blockAt (hj : j < 64)
    (hlen : k * 64 + j < buf.length) : (blockAt buf k).getD j 0 = byteAt buf (k * 64 + j) := by
  have htake := take_blockAt (by omega) (show k * 64 + (j + 1) ≤ buf.length by omega)
  have hget := congrArg (·[j]?) htake
  simp only [getElem?_take, Nat.lt_succ_self, if_true, getElem?_drop] at hget
  rw [byteAt, getD_eq_getElem?_getD, getD_eq_getElem?_getD, hget, getElem?_eq_getElem hlen]
  rfl

def blocksUpTo (buf : Bytes) (k : Nat) : Bytes := (List.range k).flatMap (blockAt buf)

theorem blocksUpTo_succ (buf : Bytes) (k : Nat) :
    blocksUpTo buf (k + 1) = blocksUpTo buf k ++ blockAt buf k := by
  simp [blocksUpTo, range_succ]

theorem blocksUpTo_eq_take (h : k * 64 ≤ buf.length) : blocksUpTo buf k = buf.take (k * 64) := by
  induction k with
  | zero => simp [blocksUpTo]
  | succ k ih =>
    have hblock := take_blockAt (Nat.le_refl _) (show k * 64 + 64 ≤ buf.length by omega)
    rw [take_of_length_le (by simp)] at hblock
    rw [blocksUpTo_succ, ih (by omega), hblock, Nat.succ_mul, take_add]

/-- The state before position `i`. -/
def stateAt (buf : Bytes) (i : Nat) : QuoteState := start.run (buf.take i)

theorem stateAt_block (hj : j ≤ 64) (hlen : k * 64 + j ≤ buf.length) :
    stateAt buf (k * 64 + j) = (start.run (blocksUpTo buf k)).run ((blockAt buf k).take j) := by
  rw [stateAt, take_add, run_append, blocksUpTo_eq_take (by omega), take_blockAt hj hlen]

def quoteMark (buf : Bytes) (i : Nat) : Bool :=
  byteAt buf i == Ascii.quote && !(stateAt buf i).escaped

/-- The byte is `needle` outside strings. -/
def charMark (buf : Bytes) (needle : UInt8) (i : Nat) : Bool :=
  byteAt buf i == needle && !(stateAt buf i).inString

/-- The first `k` words answer for the positions of the buffer in the
first `k` blocks. -/
structure Answers (buf : Bytes) (k : Nat) (words : List U64) (mark : Nat → Bool) : Prop where
  length : words.length = k
  bit : ∀ i, i < buf.length → i < k * 64 → testPos words i = mark i

theorem Answers.nil (buf : Bytes) (mark : Nat → Bool) : Answers buf 0 [] mark :=
  ⟨rfl, fun i _ hi => by omega⟩

/-- One more word answers for one more block. -/
theorem Answers.snoc {words : List U64} {mark : Nat → Bool}
    (h : Answers buf k words mark) {word : U64}
    (hword : ∀ j, j < 64 → k * 64 + j < buf.length → word.getLsbD j = mark (k * 64 + j)) :
    Answers buf (k + 1) (words ++ [word]) mark := by
  refine ⟨by simp [h.length], fun i hi hik => ?_⟩
  rw [testPos_eq]
  rcases Nat.lt_or_ge i (k * 64) with hlt | hge
  · have hdiv : i / 64 < words.length := by rw [h.length]; omega
    rw [getD_eq_getElem?_getD, getElem?_append_left hdiv, ← getD_eq_getElem?_getD, ← testPos_eq]
    exact h.bit i hi hlt
  · have hdiv : i / 64 = k := by omega
    have hi' : k * 64 + i % 64 = i := by omega
    have hbit := hword (i % 64) (by omega) (by omega)
    rw [hdiv, getD_eq_getElem?_getD,
      getElem?_append_right (Nat.le_of_eq h.length), h.length, Nat.sub_self,
      getElem?_cons_zero, Option.getD_some, hbit, hi']

/-- The first pass after `k` blocks. -/
structure PassInv (buf : Bytes) (k : Nat) (pass : BlockPass) : Prop where
  carries : Carries pass.classifier (start.run (blocksUpTo buf k))
  realQuotes : Answers buf k pass.blocks.realQuotes (quoteMark buf)
  openBrace : Answers buf k pass.blocks.openBrace (charMark buf Ascii.openBrace)
  closeBrace : Answers buf k pass.blocks.closeBrace (charMark buf Ascii.closeBrace)
  openBracket : Answers buf k pass.blocks.openBracket (charMark buf Ascii.openBracket)
  closeBracket : Answers buf k pass.blocks.closeBracket (charMark buf Ascii.closeBracket)

theorem PassInv.init (buf : Bytes) : PassInv buf 0 .init :=
  { carries := Carries.new
    realQuotes := .nil buf _
    openBrace := .nil buf _
    closeBrace := .nil buf _
    openBracket := .nil buf _
    closeBracket := .nil buf _ }

theorem PassInv.passBlock {pass : BlockPass}
    (h : PassInv buf k pass) : PassInv buf (k + 1) (passBlock buf pass k) := by
  have hlen := length_blockAt buf k
  have hvalid : ∀ {j : Nat}, j < 64 → k * 64 + j < buf.length →
      j < min (buf.length - k * 64) 64 := by
    intro j hj hlt
    omega
  -- a character other than the quote, in the block
  have hchar : ∀ (needle : UInt8) (j : Nat), j < 64 → k * 64 + j < buf.length →
      ((blockAt buf k).getD j 0 == needle
          && !((start.run (blocksUpTo buf k)).run
              ((blockAt buf k).take j)).inString
          && decide (j < min (buf.length - k * 64) 64))
        = charMark buf needle (k * 64 + j) := by
    intro needle j hj hlt
    rw [getD_blockAt hj hlt, ← stateAt_block (by omega) (by omega), charMark]
    simp only [hvalid hj hlt, decide_true, Bool.and_true]
  refine
    { carries := ?_
      realQuotes := h.realQuotes.snoc fun j hj hlt => ?_
      openBrace := h.openBrace.snoc fun j hj hlt => ?_
      closeBrace := h.closeBrace.snoc fun j hj hlt => ?_
      openBracket := h.openBracket.snoc fun j hj hlt => ?_
      closeBracket := h.closeBracket.snoc fun j hj hlt => ?_ }
  · rw [blocksUpTo_succ, run_append]
    exact h.carries.processBlock hlen _ (min (buf.length - k * 64) 64)
  · rw [processBlock_realQuotes hlen _ h.carries _ hj, quoteAt, getD_blockAt hj hlt,
      ← stateAt_block (by omega) (by omega), quoteMark]
    simp only [hvalid hj hlt, decide_true, Bool.and_true]
  all_goals
    rw [← hchar _ j hj hlt]
    exact getLsbD_outsideStrings hlen _ h.carries _ (by decide) hj

theorem passInv_blocks (buf : Bytes) (k : Nat) :
    PassInv buf k ((List.range k).foldl (passBlock buf) .init) := by
  induction k with
  | zero => exact .init buf
  | succ k ih =>
    rw [range_succ, foldl_append]
    exact ih.passBlock

theorem length_le_numBlocks (buf : Bytes) : buf.length ≤ numBlocks buf * 64 := by
  rw [numBlocks]
  omega

/-- The bitmasks kept for a buffer. -/
structure MasksOk (buf : Bytes) (blocks : StoredBitmasks) : Prop where
  covers : ∀ i, i < buf.length → i / 64 < blocks.realQuotes.length
  quote : ∀ i, i < buf.length → testPos blocks.realQuotes i = quoteMark buf i
  opening : ∀ i, i < buf.length → testPos₂ blocks.openBrace blocks.openBracket i
    = (charMark buf Ascii.openBrace i || charMark buf Ascii.openBracket i)
  closing : ∀ i, i < buf.length → testPos₂ blocks.closeBrace blocks.closeBracket i
    = (charMark buf Ascii.closeBrace i || charMark buf Ascii.closeBracket i)

/-- For every buffer the first pass keeps the automaton's answers. -/
theorem masksOk_firstPass (buf : Bytes) : MasksOk buf (firstPass buf).blocks := by
  have h := passInv_blocks buf (numBlocks buf)
  have hcover := length_le_numBlocks buf
  refine ⟨fun i hi => ?_, fun i hi => ?_, fun i hi => ?_, fun i hi => ?_⟩
  · have hlen := h.realQuotes.length
    rw [firstPass]
    omega
  · exact h.realQuotes.bit i hi (by omega)
  · rw [testPos₂_eq, firstPass, h.openBrace.bit i hi (by omega), h.openBracket.bit i hi (by omega)]
  · rw [testPos₂_eq, firstPass, h.closeBrace.bit i hi (by omega),
      h.closeBracket.bit i hi (by omega)]

end FastForward.Core
