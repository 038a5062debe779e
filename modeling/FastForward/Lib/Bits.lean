/-
Words as sets of positions: the lowest set bit, taking it off, the list
of set bits that repeated taking yields, and the running parity of a bit
sequence computed by doubling shifts.

Everything is stated through `getLsbD`, so that a development reads a
mask one position at a time.
-/

namespace FastForward.Lib

open List

variable {w : Nat}

-- == lowest set bit

/-- The number of zeros below the lowest set bit; the width for zero. -/
def trailingZeros (x : BitVec w) : Nat :=
  ((List.range w).find? x.getLsbD).getD w

variable {x : BitVec w}

/-- A nonzero word has a set bit. -/
theorem exists_getLsbD (h : x ≠ 0#w) : ∃ i, i < w ∧ x.getLsbD i := by
  apply Classical.byContradiction
  intro hnone
  apply h
  apply BitVec.eq_of_getLsbD_eq
  intro i hi
  rw [BitVec.getLsbD_zero]
  cases hx : x.getLsbD i with
  | false => rfl
  | true => exact absurd ⟨i, hi, hx⟩ hnone

/-- `trailingZeros` finds the lowest set bit. -/
theorem trailingZeros_spec (h : x ≠ 0#w) :
    trailingZeros x < w ∧ x.getLsbD (trailingZeros x)
      ∧ ∀ j, j < trailingZeros x → x.getLsbD j = false := by
  obtain ⟨i, hi, hbit⟩ := exists_getLsbD h
  cases hfind : (range w).find? x.getLsbD with
  | none =>
    have hno := find?_eq_none.mp hfind i (mem_range.mpr hi)
    exact absurd hbit hno
  | some t =>
    have hspec := find?_range_eq_some.mp hfind
    have ht : trailingZeros x = t := by rw [trailingZeros, hfind]; rfl
    rw [ht]
    exact ⟨mem_range.mp hspec.2.1, hspec.1, fun j hj => by simpa using hspec.2.2 j hj⟩

-- == taking off the lowest

variable {n t : Nat}

/-- Bits of one less than a number whose lowest set bit is `t`: it is
cleared, the ones below are set, the ones above stay. -/
theorem testBit_sub_one (hbit : n.testBit t)
    (hlow : ∀ j, j < t → n.testBit j = false) (j : Nat) :
    (n - 1).testBit j = if j < t then true else if j = t then false else n.testBit j := by
  -- write n as 2^t * (2 * m + 1)
  have hmod : n % 2 ^ t = 0 := by
    apply Nat.eq_of_testBit_eq
    intro i
    by_cases hi : i < t
    · simp [hlow i hi]
    · simp [hi]
  have hodd : n / 2 ^ t % 2 = 1 := by
    simpa [Nat.testBit, Nat.shiftRight_eq_div_pow] using hbit
  obtain ⟨m, hm⟩ : ∃ m, n / 2 ^ t = 2 * m + 1 := ⟨n / 2 ^ t / 2, by omega⟩
  have hn : n = 2 ^ t * (2 * m + 1) := by
    have hdiv := Nat.div_add_mod n (2 ^ t)
    rw [hm] at hdiv
    omega
  have hpred : n - 1 = 2 ^ (t + 1) * m + (2 ^ t - 1) := by
    rw [hn, Nat.pow_succ, Nat.mul_add, Nat.mul_assoc]
    omega
  have hsmall : 2 ^ t - 1 < 2 ^ (t + 1) := by
    omega
  have hn' : n = 2 ^ (t + 1) * m + 2 ^ t := by
    rw [hn, Nat.pow_succ, Nat.mul_add, Nat.mul_one, Nat.mul_assoc]
  have hone : 2 ^ t < 2 ^ (t + 1) := Nat.pow_lt_pow_right (by omega) (by omega)
  rw [hpred, Nat.testBit_two_pow_mul_add m hsmall]
  by_cases hlt : j < t
  · simp [hlt, show j < t + 1 by omega]
  · by_cases heq : j = t
    · simp [heq]
    · have hge : ¬ j < t + 1 := by omega
      rw [if_neg hge, if_neg hlt, if_neg heq, hn', Nat.testBit_two_pow_mul_add m hone, if_neg hge]

/-- `x & (x - 1)` clears the lowest set bit and nothing else. -/
theorem getLsbD_and_sub_one (h : x ≠ 0#w) (j : Nat) :
    (x &&& (x - 1#w)).getLsbD j = (x.getLsbD j && decide (j ≠ trailingZeros x)) := by
  obtain ⟨ht, hbit, hlow⟩ := trailingZeros_spec h
  have hpos : 0 < x.toNat := by
    rcases Nat.eq_zero_or_pos x.toNat with hz | hp
    · exact absurd (BitVec.eq_of_toNat_eq hz) h
    · exact hp
  have hw : 1 < 2 ^ w := Nat.one_lt_two_pow (by omega)
  have hsub : (x - 1#w).toNat = x.toNat - 1 := by
    have hone : 1#w ≤ x := by
      rw [BitVec.le_def, BitVec.toNat_ofNat, Nat.mod_eq_of_lt hw]
      omega
    rw [BitVec.toNat_sub_of_le hone, BitVec.toNat_ofNat, Nat.mod_eq_of_lt hw]
  have hdec := testBit_sub_one hbit hlow j
  rw [BitVec.getLsbD_and]
  have hprev : (x - 1#w).getLsbD j
      = if j < trailingZeros x then true
        else if j = trailingZeros x then false else x.getLsbD j := by
    rw [← hsub] at hdec
    exact hdec
  rw [hprev]
  by_cases hlt : j < trailingZeros x
  · simp [hlow j hlt]
  · by_cases heq : j = trailingZeros x
    · simp [heq]
    · simp [hlt, heq]

/-- The set bits, lowest first. -/
def setBits (x : BitVec w) : List Nat := (List.range w).filter x.getLsbD

/-- A range split at one of its elements. -/
theorem range_eq_append_cons (h : t < n) :
    List.range n = List.range t ++ t :: (List.range (n - (t + 1))).map (t + 1 + ·) := by
  obtain ⟨k, rfl⟩ : ∃ k, n = t + 1 + k := ⟨n - (t + 1), by omega⟩
  rw [range_add, range_succ]
  simp

/-- Taking off the lowest set bit takes the head off the list. -/
theorem setBits_eq_cons (h : x ≠ 0#w) :
    setBits x = trailingZeros x :: setBits (x &&& (x - 1#w)) := by
  obtain ⟨ht, hbit, hlow⟩ := trailingZeros_spec h
  have hsplit := range_eq_append_cons ht
  have hrest := getLsbD_and_sub_one h
  have hbelow : ∀ (y : BitVec w), (∀ j, j < trailingZeros x → y.getLsbD j = false) →
      (range (trailingZeros x)).filter y.getLsbD = [] := by
    intro y hy
    rw [filter_eq_nil_iff]
    intro j hj
    simp [hy j (mem_range.mp hj)]
  rw [setBits, setBits, hsplit, filter_append, filter_append,
    hbelow x hlow, hbelow _ (fun j hj => by simp [hlow j hj]),
    filter_cons_of_pos hbit, filter_cons_of_neg (by simp [hrest])]
  simp only [nil_append, cons.injEq, true_and]
  apply filter_congr
  intro j hj
  obtain ⟨i, _, rfl⟩ := mem_map.mp hj
  rw [hrest]
  have hne : trailingZeros x + 1 + i ≠ trailingZeros x := by omega
  simp [hne]

-- == running parity

/-- Parity of the first `n` bits of a sequence. -/
def parity (f : Nat → Bool) : Nat → Bool
  | 0 => false
  | n + 1 => parity f n ^^ f n

/-- `x` holds at each position the parity of the `n` bits of `f` that end
there (of all of them where there are fewer). -/
def WindowParity (f : Nat → Bool) (n : Nat) (x : BitVec w) : Prop :=
  ∀ i, i < w → x.getLsbD i = (parity f (i + 1) ^^ parity f (i + 1 - n))

theorem WindowParity.one (x : BitVec w) : WindowParity x.getLsbD 1 x := by
  intro i _
  simp only [parity, Nat.add_sub_cancel]
  cases parity x.getLsbD i <;> simp

variable {f : Nat → Bool}

/-- Shifting by the window's width doubles it. -/
theorem WindowParity.double
    (h : WindowParity f n x) : WindowParity f (2 * n) (x ^^^ (x <<< n)) := by
  intro i hi
  rw [BitVec.getLsbD_xor, BitVec.getLsbD_shiftLeft, h i hi]
  by_cases hn : i < n
  · have h1 : i + 1 - n = 0 := by omega
    have h2 : i + 1 - 2 * n = 0 := by omega
    simp [hn, h1, h2]
  · have hlt : i - n < w := by omega
    have h1 : i - n + 1 = i + 1 - n := by omega
    have h2 : i + 1 - n - n = i + 1 - 2 * n := by omega
    rw [h (i - n) hlt, h1, h2]
    simp only [hi, hn]
    cases parity f (i + 1) <;> cases parity f (i + 1 - n) <;> simp

/-- A window as wide as the word is the whole prefix. -/
theorem WindowParity.full (h : WindowParity f n x) (hn : w ≤ n) {i : Nat} (hi : i < w) :
    x.getLsbD i = parity f (i + 1) := by
  have hz : i + 1 - n = 0 := by omega
  rw [h i hi, hz]
  simp [parity]

theorem parity_congr {g : Nat → Bool} (h : ∀ i, i < n → f i = g i) : parity f n = parity g n := by
  induction n with
  | zero => rfl
  | succ n ih =>
    rw [parity, parity, ih fun i hi => h i (by omega), h n (by omega)]

end FastForward.Lib
