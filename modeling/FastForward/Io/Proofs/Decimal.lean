/-
Both writers append the decimal text of an integer, and the integer fast
path of the scanner reads it back.

The loop that writes is followed from the last digit to the first: the
zeros in front of a position are the digits still to come
(`writeDigits_eq`).
-/
import FastForward.Io.Decimal
import FastForward.Core.Proofs.PredicateSound

namespace FastForward.Io.Decimal

open Core List

-- == what is written

theorem countDigits_pos {n : Nat} (hn : n ≠ 0) : 0 < countDigits n := by
  rw [countDigits, if_neg hn]
  exact Nat.succ_pos _

/-- The digits of `n` take the place of the zeros behind `front`. -/
theorem writeDigits_eq (front back : Bytes) {pos n : Nat} (hn : n ≠ 0)
    (hpos : pos + 1 = front.length + countDigits n) :
    writeDigits (front ++ replicate (countDigits n) 0 ++ back) pos n
      = front ++ digitsText (decimalDigits n) ++ back := by
  induction n using Nat.strongRecOn generalizing pos back with
  | ind n ih =>
    have hdigit : Ascii.zero + UInt8.ofNat (n % 10) = digitByte (Fin.ofNat 10 n) := by
      rw [digitByte, UInt8.ofNat_add]
      rfl
    rw [countDigits, if_neg hn] at hpos ⊢
    obtain rfl : pos = front.length + countDigits (n / 10) := by omega
    have hset : (front ++ replicate (countDigits (n / 10) + 1) 0 ++ back).set
        (front.length + countDigits (n / 10)) (digitByte (Fin.ofNat 10 n))
          = front ++ replicate (countDigits (n / 10)) 0
            ++ (digitByte (Fin.ofNat 10 n) :: back) := by
      simp [replicate_succ']
    rw [writeDigits, if_neg hn, hdigit, hset, decimalDigits]
    by_cases hlast : n / 10 = 0
    · rw [hlast, writeDigits, if_pos rfl, countDigits, if_pos rfl, if_pos (by omega)]
      simp [digitsText]
    · have hcount := countDigits_pos hlast
      rw [ih (n / 10) (by omega) _ hlast (by rw [wrappingPred]; split <;> omega),
        if_neg (by omega)]
      simp [digitsText]

theorem writePositive_eq (out : Bytes) {n : Nat} (hn : n ≠ 0) :
    writePositive out n = out ++ digitsText (decimalDigits n) := by
  have hcount := countDigits_pos hn
  have hwrite := writeDigits_eq out [] hn (show out.length + countDigits n - 1 + 1 = _ by omega)
  rwa [append_nil, append_nil] at hwrite

/-- The text of a number is appended. -/
theorem writeU64ToBuf_eq (out : Bytes) (n : Nat) : writeU64ToBuf out n = out ++ renderInt n := by
  have hpos : ¬ (n : Int) < 0 := by omega
  rw [renderInt, if_neg hpos, Int.natAbs_natCast, writeU64ToBuf]
  split
  next hzero =>
    rw [hzero, decimalDigits]
    rfl
  next hn => exact writePositive_eq out hn

/-- The text of a number with its sign is appended. -/
theorem writeI64ToBuf_eq (out : Bytes) (n : Int) : writeI64ToBuf out n = out ++ renderInt n := by
  rw [writeI64ToBuf]
  split
  next hzero =>
    rw [hzero]
    exact writeU64ToBuf_eq out 0
  next hzero =>
    rw [renderInt]
    split
    next hneg =>
      split
      next hmin =>
        rw [hmin]
        simp [decimalDigits, digitsText]
        decide
      next =>
        rw [writePositive_eq _ (by omega), append_assoc, show (-n).toNat = n.natAbs by omega]
        rfl
    next =>
      rw [writePositive_eq _ (by omega), show n.toNat = n.natAbs by omega]

-- == reading back

/-- No leading zeros. -/
theorem head_decimalDigits (n : Nat) (h : (decimalDigits n).head? = some 0) : n = 0 := by
  fun_induction decimalDigits n with
  | case1 n hn =>
    have hzero := congrArg Fin.val (Option.some.inj h)
    simp at hzero
    omega
  | case2 n hn ih =>
    obtain ⟨d, ds, hds⟩ := exists_cons_of_ne_nil (decimalDigits_ne_nil (n / 10))
    rw [hds] at h ih
    have := ih h
    omega

/-- A number is read back from its text. -/
theorem parseIntFast_renderInt (n : Int) :
    parseIntFast (renderInt n) = if inI64 n then some n else none := by
  have hparse := parseIntFast_text (decide (n < 0)) (decimalDigits_ne_nil n.natAbs)
  have hvalue : digitsValue (decimalDigits n.natAbs) = n.natAbs := digitsFrom_decimalDigits _
  have hsigned : signed (decide (n < 0)) n.natAbs = n := by
    unfold signed
    grind
  rw [hvalue, hsigned] at hparse
  rw [← hparse, renderInt]
  by_cases hneg : n < 0 <;> simp [hneg]

/-- Both writers append the decimal text of the integer, which has no
leading zeros and a minus only for a negative one; the fast path reads it
back where it fits in 64 bits with a sign. -/
theorem decimal_round_trip (out : Bytes) (n : Int64) (m : UInt64) :
    (writeI64ToBuf out n.toInt = out ++ renderInt n.toInt
        ∧ parseIntFast (renderInt n.toInt) = some n.toInt)
      ∧ (writeU64ToBuf out m.toNat = out ++ renderInt m.toNat
        ∧ parseIntFast (renderInt m.toNat) = if m.toNat < 2 ^ 63 then some ↑m.toNat else none)
      ∧ ∀ k, (decimalDigits k).head? = some 0 → k = 0 := by
  have hin : ∀ k : Int, inI64 k ↔ -(2 ^ 63) ≤ k ∧ k < 2 ^ 63 := by
    intro k
    rw [inI64, Bool.and_eq_true, decide_eq_true_eq, decide_eq_true_eq]
  have hlow := n.le_toInt
  have hhigh := n.toInt_lt
  refine ⟨⟨writeI64ToBuf_eq out _, ?_⟩, ⟨writeU64ToBuf_eq out _, ?_⟩, head_decimalDigits⟩
  · rw [parseIntFast_renderInt, if_pos ((hin _).mpr ⟨hlow, hhigh⟩)]
  · rw [parseIntFast_renderInt]
    exact ite_congr (propext ((hin _).trans (by omega))) (fun _ => rfl) fun _ => rfl

end FastForward.Io.Decimal
