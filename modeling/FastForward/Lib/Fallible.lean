/-
Postconditions of code that can fail. `Meets post errors r` says that a
result `r` is a value with the postcondition `post` or one of the errors
`errors` allows; the rules follow the code: sequencing, branching and a
pass over a list. The last section says when code gives a value, and
which.
-/
import Mathlib.Data.List.Forall2

namespace FastForward.Lib

open List

variable {ε α β : Type} {errors : ε → Prop}

/-- A value with `post`, or an allowed error. -/
def Meets (post : α → Prop) (errors : ε → Prop) : Except ε α → Prop
  | .ok a => post a
  | .error e => errors e

namespace Meets

variable {post : α → Prop}

@[simp] theorem ok {a : α} :
    Meets post errors (.ok a : Except ε α) ↔ post a := Iff.rfl

@[simp] theorem error {e : ε} :
    Meets post errors (.error e : Except ε α) ↔ errors e := Iff.rfl

variable {r : Except ε α}

/-- A weaker condition on the result is met as well. -/
theorem mono {post' : α → Prop} (h : Meets post errors r)
    (hpost : ∀ a, post a → post' a) : Meets post' errors r := by
  cases r with
  | ok a => exact hpost a h
  | error e => exact h

variable {f : α → Except ε β}

/-- The rule for a sequence: what the first part gives, the second starts from. -/
theorem bind {post' : β → Prop}
    (h : Meets post errors r) (hf : ∀ a, post a → Meets post' errors (f a)) :
    Meets post' errors (r >>= f) := by
  cases r with
  | ok a => exact hf a h
  | error e => exact h

/-- The rule for a branch. -/
theorem ite {c : Prop} [Decidable c] {r' : Except ε α}
    (h : c → Meets post errors r) (h' : ¬c → Meets post errors r') :
    Meets post errors (if c then r else r') := by
  split
  next hc => exact h hc
  next hc => exact h' hc

/-- A pass over a list, where each step gives a known value. -/
theorem mapM {g : α → β} {xs : List α}
    (h : ∀ x ∈ xs, Meets (· = g x) errors (f x)) : Meets (· = xs.map g) errors (xs.mapM f) := by
  induction xs with
  | nil => exact rfl
  | cons x xs ih =>
    rw [mapM_cons]
    refine bind (h x mem_cons_self) fun y hy => ?_
    refine bind (ih fun x' hx' => h x' (mem_cons_of_mem x hx')) fun ys hys => ?_
    rw [map_cons, ← hy, ← hys]
    exact rfl

end Meets

-- == values given

variable {f : α → Except ε β} {y : β}

/-- A sequence succeeds if both parts do. -/
theorem bind_eq_ok_iff {x : Except ε α} : (x >>= f) = .ok y ↔ ∃ a, x = .ok a ∧ f a = .ok y := by
  cases x with
  | error e => exact ⟨nofun, nofun⟩
  | ok a =>
    refine ⟨fun h => ⟨a, rfl, h⟩, ?_⟩
    rintro ⟨a', heq, h⟩
    cases heq
    exact h

/-- Mapping the result does not change whether there is one. -/
theorem map_eq_ok_iff {f : α → β} {x : Except ε α} :
    x.map f = .ok y ↔ ∃ a, x = .ok a ∧ f a = y := by
  cases x <;> simp [Except.map]

/-- A loop succeeds if every element does. -/
theorem mapM_eq_ok_iff {xs : List α} {ys : List β} :
    xs.mapM f = .ok ys ↔ List.Forall₂ (fun x y => f x = .ok y) xs ys := by
  induction xs generalizing ys with
  | nil =>
    rw [forall₂_nil_left_iff]
    exact ⟨fun h => (Except.ok.inj h).symm, fun h => congrArg Except.ok h.symm⟩
  | cons x xs ih =>
    rw [mapM_cons, bind_eq_ok_iff, forall₂_cons_left_iff]
    constructor
    · rintro ⟨y, hy, h⟩
      obtain ⟨ys', hys, heq⟩ := bind_eq_ok_iff.mp h
      cases heq
      exact ⟨y, ys', hy, ih.mp hys, rfl⟩
    · rintro ⟨y, ys', hy, hys, rfl⟩
      exact ⟨y, hy, bind_eq_ok_iff.mpr ⟨ys', ih.mpr hys, rfl⟩⟩

/-- The code works exactly if `p`, and then gives `a`. -/
def Gives (x : Except ε α) (p : Prop) (a : α) : Prop := ∀ a', x = .ok a' ↔ p ∧ a' = a

namespace Gives

variable {x : Except ε α} {p q : Prop} {a : α} {b : β}

/-- Success, where the condition holds. -/
theorem ok (hp : p) : Gives (.ok a : Except ε α) p a :=
  fun _ => ⟨fun heq => ⟨hp, (Except.ok.inj heq).symm⟩, fun h => congrArg Except.ok h.2.symm⟩

/-- Success, with a result that is equal to the one stated. -/
theorem ok_of_eq {a' : α} (heq : a' = a) (hp : p) : Gives (.ok a' : Except ε α) p a :=
  heq ▸ ok hp

/-- Failure, where the condition does not hold. -/
theorem fail {e : ε} (hp : ¬p) : Gives (.error e : Except ε α) p a :=
  fun _ => ⟨nofun, fun h => absurd h.1 hp⟩

/-- A branch gives what both of its sides give. -/
theorem ite {c : Prop} [Decidable c] {y : Except ε α} (h : c → Gives x p a)
    (h' : ¬c → Gives y p a) : Gives (if c then x else y) p a := by
  split
  next hc => exact h hc
  next hc => exact h' hc

/-- The condition may be stated another way. -/
theorem congr (h : Gives x p a) (hpq : p ↔ q) : Gives x q a :=
  fun a' => (h a').trans (and_congr_left fun _ => hpq)

/-- In a sequence the conditions add up. -/
theorem bind (hx : Gives x p a) (hf : p → Gives (f a) q b) : Gives (x >>= f) (p ∧ q) b := by
  intro y
  rw [bind_eq_ok_iff, and_assoc]
  constructor
  · rintro ⟨a', ha', hy⟩
    obtain ⟨hp, rfl⟩ := (hx a').mp ha'
    exact ⟨hp, (hf hp y).mp hy⟩
  · rintro ⟨hp, hy⟩
    exact ⟨a, (hx a).mpr ⟨hp, rfl⟩, (hf hp y).mpr hy⟩

/-- A second part that cannot fail adds no condition. -/
theorem bind_ok (hx : Gives x p a) (hf : f a = .ok b) : Gives (x >>= f) p b :=
  (hx.bind fun _ => hf ▸ ok trivial).congr (and_iff_left trivial)

variable {g : α → β}

/-- Nor does a change of the result. -/
theorem bind_pure (hx : Gives x p a) :
    Gives (x >>= fun a => pure (g a)) p (g a) := hx.bind_ok rfl

/-- A pass over a list. -/
theorem mapM {works : α → Prop} {xs : List α} (h : ∀ x ∈ xs, Gives (f x) (works x) (g x)) :
    Gives (xs.mapM f) (∀ x ∈ xs, works x) (xs.map g) := by
  induction xs with
  | nil => exact ok nofun
  | cons x xs ih =>
    rw [mapM_cons]
    have hrest := ih fun x' hx' => h x' (mem_cons_of_mem x hx')
    refine congr (bind (h x mem_cons_self) fun _ => ?_) forall_mem_cons.symm
    exact hrest.bind_pure

end Gives

end FastForward.Lib
