/-
Strong Kleene logic, and two-valued filters that approximate it.

A filter that runs ahead of a condition may let through what the
condition rejects, but must not stop what the condition accepts. Under a
negation the two sides swap: there the filter must say no wherever the
condition is false. `Keeps` is that contract with the side as a
parameter, and it goes through the connectives: conjunction and
disjunction preserve either side, negation exchanges them.
-/
import Mathlib.Tactic.TypeStar

namespace FastForward.Lib

/-- True, false or not known. -/
inductive Truth
  | tt
  | ff
  | unknown
  deriving DecidableEq, Repr

namespace Truth

/-- What is known. -/
def ofBool : Bool → Truth
  | true => tt
  | false => ff

/-- What is unknown stays so. -/
def not : Truth → Truth
  | tt => ff
  | ff => tt
  | unknown => unknown

/-- False as soon as one side is. -/
def and : Truth → Truth → Truth
  | ff, _ => ff
  | tt, b => b
  | unknown, ff => ff
  | unknown, _ => unknown

/-- True as soon as one side is. -/
def or : Truth → Truth → Truth
  | tt, _ => tt
  | ff, b => b
  | unknown, tt => tt
  | unknown, _ => unknown

/-- A disjunction over a list. -/
def any {α : Type*} (f : α → Truth) (xs : List α) : Truth :=
  xs.foldr (fun x acc => (f x).or acc) ff

section Connectives

variable {a b : Truth}

/-- A negation holds where its operand fails. -/
theorem not_eq_tt : a.not = tt ↔ a = ff := by
  cases a <;> decide

theorem not_eq_ff : a.not = ff ↔ a = tt := by
  cases a <;> decide

/-- A conjunction holds if both sides do. -/
theorem and_eq_tt : a.and b = tt ↔ a = tt ∧ b = tt := by
  cases a <;> cases b <;> decide

/-- It fails if one side does, whatever the other. -/
theorem and_eq_ff : a.and b = ff ↔ a = ff ∨ b = ff := by
  cases a <;> cases b <;> decide

/-- A disjunction holds if one side does, whatever the other. -/
theorem or_eq_tt : a.or b = tt ↔ a = tt ∨ b = tt := by
  cases a <;> cases b <;> decide

/-- It fails if both sides do. -/
theorem or_eq_ff : a.or b = ff ↔ a = ff ∧ b = ff := by
  cases a <;> cases b <;> decide

theorem ofBool_eq_tt {x : Bool} : ofBool x = tt ↔ x = true := by
  cases x <;> decide

theorem ofBool_eq_ff {x : Bool} : ofBool x = ff ↔ x = false := by
  cases x <;> decide

end Connectives

/-- An `any` holds if some element does. -/
theorem any_eq_tt {α : Type*} {f : α → Truth} {xs : List α} :
    any f xs = tt ↔ ∃ x ∈ xs, f x = tt := by
  induction xs with
  | nil => simp [any]
  | cons x xs ih =>
    show (f x).or (any f xs) = tt ↔ _
    simp only [or_eq_tt, ih, List.mem_cons, exists_eq_or_imp]

/-- It fails only if every element does. -/
theorem any_eq_ff {α : Type*} {f : α → Truth} {xs : List α} :
    any f xs = ff ↔ ∀ x ∈ xs, f x = ff := by
  induction xs with
  | nil => simp [any]
  | cons x xs ih =>
    show (f x).or (any f xs) = ff ↔ _
    rw [or_eq_ff, ih, List.forall_mem_cons]

-- == filters

/-- The filter's verdict serves the condition on one side: `true` asks
that it accept what is true, `false` that it reject what is false. -/
def Keeps : Bool → Truth → Bool → Prop
  | true, t, kept => t = tt → kept = true
  | false, t, kept => t = ff → kept = false

section Keeps

variable {side : Bool} {s t : Truth} {x y : Bool}

/-- An exact answer may be trusted on either side. -/
theorem keeps_ofBool : Keeps side (ofBool x) x := by
  cases side with
  | true => exact ofBool_eq_tt.mp
  | false => exact ofBool_eq_ff.mp

/-- Where nothing is known, every answer will do. -/
theorem keeps_unknown : Keeps side unknown x := by
  cases side <;> exact nofun

/-- Under a negation the sides change places. -/
theorem keeps_not : Keeps side t.not (!x) ↔ Keeps (!side) t x := by
  cases side with
  | true =>
    show (t.not = tt → (!x)) ↔ (t = ff → x = false)
    rw [not_eq_tt, Bool.not_eq_true']
  | false =>
    show (t.not = ff → (!x) = false) ↔ (t = tt → x)
    rw [not_eq_ff, Bool.not_eq_false']

/-- Behind a conjunct that is rejected the next one is not asked. -/
theorem Keeps.and (hs : Keeps side s x) (ht : x = true → Keeps side t y) :
    Keeps side (s.and t) (x && y) := by
  cases side with
  | true =>
    intro h
    obtain ⟨hs', ht'⟩ := and_eq_tt.mp h
    rw [hs hs', ht (hs hs') ht']
    rfl
  | false =>
    intro h
    rcases and_eq_ff.mp h with hs' | ht'
    · rw [hs hs', Bool.false_and]
    · cases x with
      | false => rfl
      | true => exact ht rfl ht'

/-- Behind a disjunct that is accepted the next one is not asked. -/
theorem Keeps.or (hs : Keeps side s x) (ht : x = false → Keeps side t y) :
    Keeps side (s.or t) (x || y) := by
  cases side with
  | true =>
    intro h
    rcases or_eq_tt.mp h with hs' | ht'
    · rw [hs hs', Bool.true_or]
    · cases x with
      | true => rfl
      | false => exact ht rfl ht'
  | false =>
    intro h
    obtain ⟨hs', ht'⟩ := or_eq_ff.mp h
    rw [hs hs', ht (hs hs') ht']
    rfl

end Keeps

end Truth

end FastForward.Lib
