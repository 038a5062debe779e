/-
Machines that read inputs one by one and write outputs.
-/
import FastForward.Lib.Segments

namespace FastForward.Lib.Transducer

open List

variable {σ ι ο : Type*} (step : σ → ι → σ × List ο)

/-- Read a list of inputs. -/
def run (s : σ) : List ι → σ × List ο
  | [] => (s, [])
  | x :: xs =>
    let r := step s x
    let t := run r.1 xs
    (t.1, r.2 ++ t.2)

@[simp] theorem run_nil (s : σ) : run step s [] = (s, []) := rfl

theorem run_cons (s : σ) (x : ι) (xs : List ι) :
    run step s (x :: xs)
      = ((run step (step s x).1 xs).1, (step s x).2 ++ (run step (step s x).1 xs).2) := rfl

theorem run_append (s : σ) (xs ys : List ι) :
    run step s (xs ++ ys)
      = ((run step (run step s xs).1 ys).1,
          (run step s xs).2 ++ (run step (run step s xs).1 ys).2) := by
  induction xs generalizing s with
  | nil => rfl
  | cons x xs ih =>
    rw [cons_append, run_cons, run_cons, ih]
    simp only [append_assoc]

/-- A machine whose steps are those of another one, state for state. -/
theorem run_embed {τ : Type*} (step' : τ → ι → τ × List ο) (f : σ → τ)
    (h : ∀ s x, step' (f s) x = (f (step s x).1, (step s x).2)) (s : σ) (xs : List ι) :
    run step' (f s) xs = (f (run step s xs).1, (run step s xs).2) := by
  induction xs generalizing s with
  | nil => rfl
  | cons x xs ih => rw [run_cons, run_cons, h, ih]

/-- What every step preserves, and says of its outputs, a run does. -/
theorem run_invariant (I : σ → Prop) (Q : ο → Prop) (ok : ι → Prop)
    (hstep : ∀ s x, I s → ok x → I (step s x).1 ∧ ∀ y ∈ (step s x).2, Q y)
    {s : σ} (hs : I s) {xs : List ι} (hxs : ∀ x ∈ xs, ok x) :
    I (run step s xs).1 ∧ ∀ y ∈ (run step s xs).2, Q y := by
  induction xs generalizing s with
  | nil => exact ⟨hs, fun _ h => absurd h not_mem_nil⟩
  | cons x xs ih =>
    obtain ⟨hnext, hout⟩ := hstep s x hs (hxs x mem_cons_self)
    obtain ⟨hrun, houts⟩ := ih hnext fun y hy => hxs y (mem_cons_of_mem x hy)
    refine ⟨hrun, fun y hy => ?_⟩
    rcases mem_append.mp hy with hy | hy
    · exact hout y hy
    · exact houts y hy

end FastForward.Lib.Transducer
