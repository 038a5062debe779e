/-
Which timestamps keep their instant on the way into the star schema. What
is written is nanoseconds, so the parser keeps an instant exactly if its
magnitude says that it is in nanoseconds.
-/
import FastForward.Arrow.StarSchema
import FastForward.Core.Proofs.PredicateSound

namespace FastForward.Arrow.StarSchema

open Core List

variable (ops : TextOps)

theorem nanosOfMagnitude_eq_self {n : Int} :
    nanosOfMagnitude n = some n ↔ n = 0 ∨ 100_000_000_000_000_000 < n.natAbs := by
  unfold nanosOfMagnitude checkedMul
  split
  next hlarge => exact iff_of_true rfl (.inr hlarge)
  next hsmall =>
    rw [or_iff_left hsmall]
    by_cases hzero : n = 0
    · rw [hzero]
      decide
    · refine iff_of_false ?_ hzero
      repeat' split
      all_goals simp only [reduceCtorEq, not_false_eq_true, Option.some.injEq]
      all_goals omega

theorem saturatingMul_of_fits {a b : Int} (h : inI64 (a * b)) : saturatingMul a b = a * b := by
  simp only [inI64, Bool.and_eq_true, decide_eq_true_eq] at h
  unfold saturatingMul
  omega

/-- A timestamp is written in nanoseconds, and those are read again. -/
theorem parseTimestampToNanos_strValueAt {v : Int} {unit : TimeUnit}
    (h : inI64 (v * unit.nanos)) :
    parseTimestampToNanos ops (strValueAt v unit) = nanosOfMagnitude (v * unit.nanos) := by
  have htext : strValueAt v unit = renderInt (v * unit.nanos) := by
    cases unit with
    | nanosecond => rw [strValueAt, TimeUnit.nanos, Int.mul_one]
    | _ => exact congrArg renderInt (saturatingMul_of_fits h)
  have hparse := parseI64_renderInt (v * unit.nanos)
  rw [if_pos h] at hparse
  have hne : (renderInt (v * unit.nanos)).isEmpty = false := by
    rw [isEmpty_eq_false_iff]
    intro hnil
    rw [hnil] at hparse
    cases hparse
  simp only [htext, parseTimestampToNanos, ops.trim_integer, hne, hparse, Bool.false_eq_true,
    if_false]

/-- **Typed timestamps.** A row keeps its instant exactly if it lies more
than `10 ^ 17` nanoseconds from the epoch, or on it. -/
theorem timeUnixNano_exact_iff (unit : TimeUnit) (column : List (Option Int)) (row : Nat)
    (v : Int) (hrow : column[row]? = some (some v)) (hfits : inI64 (v * unit.nanos)) :
    (timeUnixNano ops unit column)[row]? = some (some (v * unit.nanos))
      ↔ v = 0 ∨ 100_000_000_000_000_000 < (v * unit.nanos).natAbs := by
  have hzero : v = 0 ↔ v * unit.nanos = 0 := by
    cases unit <;> simp only [TimeUnit.nanos] <;> omega
  rw [hzero, ← nanosOfMagnitude_eq_self, ← parseTimestampToNanos_strValueAt ops hfits,
    timeUnixNano, getElem?_map, hrow]
  simp

/-- Texts that are not in the format of RFC 3339, without white space. -/
def plainOps : TextOps := ⟨id, fun _ => none, fun _ => rfl⟩

theorem recent_second_is_kept :
    (timeUnixNano plainOps .second [none, some 1_700_000_000])[1]?
      = some (some 1_700_000_000_000_000_000) :=
  (timeUnixNano_exact_iff plainOps .second _ 1 1_700_000_000 rfl rfl).mpr (.inr (by decide))

/-- One second after the epoch becomes a billion of them. -/
theorem first_second_is_misread :
    timeUnixNano plainOps .second [some 1] = [some 1_000_000_000_000_000_000] := by
  rw [timeUnixNano, map_singleton, Option.bind_some, parseTimestampToNanos_strValueAt _ rfl]
  rfl

end FastForward.Arrow.StarSchema
