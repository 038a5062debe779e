/-
A `loop { .. }` whose body either goes around again with a new state or
leaves with a final one.

`loop` runs the body under a bound on the number of passes, `Ends` says
without any bound where the loop leaves. A measure that every further
pass lowers makes the two agree (`loop_eq_of_ends`): a bound above the
measure is never what stops the loop. Proofs about a body then build an
`Ends` pass by pass and never mention the bound.
-/

namespace FastForward.Lib

universe u

variable {σ : Type u}

/-- What one pass through the body of a `loop` does. -/
inductive Pass (σ : Type u)
  /-- `continue`, or the end of the body. -/
  | again (s : σ)
  /-- `break`. -/
  | done (s : σ)

/-- At most so many passes of the body. -/
def loop (pass : σ → Pass σ) : Nat → σ → σ
  | 0, s => s
  | bound + 1, s =>
    match pass s with
    | .again s' => loop pass bound s'
    | .done s' => s'

/-- The loop, entered in the first state, leaves in the second. -/
inductive Ends (pass : σ → Pass σ) : σ → σ → Prop
  | done {s s' : σ} : pass s = .done s' → Ends pass s s'
  | again {s s₁ s' : σ} : pass s = .again s₁ → Ends pass s₁ s' → Ends pass s s'

variable {pass : σ → Pass σ} {μ : σ → Nat}

/-- A bound above a measure that every further pass lowers is never
reached. -/
theorem loop_eq_of_ends
    (hμ : ∀ s s', pass s = .again s' → μ s' < μ s) {s s' : σ} (h : Ends pass s s') :
    ∀ {bound : Nat}, μ s < bound → loop pass bound s = s' := by
  induction h with
  | @done s s' hpass =>
    rintro (_ | n) hlt
    · cases hlt
    rw [loop, hpass]
  | @again s s₁ s' hpass _ ih =>
    rintro (_ | n) hlt
    · cases hlt
    have hlow := hμ s s₁ hpass
    rw [loop, hpass]
    exact ih (by omega)

/-- With such a measure the loop leaves from every state. -/
theorem exists_ends
    (hμ : ∀ s s', pass s = .again s' → μ s' < μ s) (s : σ) : ∃ s', Ends pass s s' := by
  induction hn : μ s using Nat.strongRecOn generalizing s with
  | ind n ih =>
    cases hpass : pass s with
    | done s' => exact ⟨s', .done hpass⟩
    | again s₁ =>
      obtain ⟨s', hends⟩ := ih (μ s₁) (hn ▸ hμ s s₁ hpass) s₁ rfl
      exact ⟨s', .again hpass hends⟩

end FastForward.Lib
