/-
What a step of the orchestrator can do.

`Steps` lists the seven things a step can be, guards and all; the
invariants of both modes are proved by cases on it.
-/
import FastForward.Io.S3.Orchestrator

namespace FastForward.Io.S3

open List

universe u

variable {κ : Type u} [LinearOrder κ]

/-- A list around one of its places. -/
theorem exists_split {α : Type u} {l : List α} {i : Nat} {x : α} (h : l[i]? = some x) :
    ∃ front back, front.length = i ∧ l = front ++ x :: back
      ∧ ∀ y, l.set i y = front ++ y :: back := by
  induction l generalizing i with
  | nil => cases h
  | cons a l ih =>
    cases i with
    | zero =>
      cases h
      exact ⟨[], l, rfl, rfl, fun _ => rfl⟩
    | succ i =>
      obtain ⟨front, back, hlen, hl, hset⟩ := ih h
      refine ⟨a :: front, back, by rw [length_cons, hlen], by rw [hl]; rfl, ?_⟩
      intro y
      rw [set_cons_succ, hset y]
      rfl

/-- A count after one element was replaced. -/
theorem countP_set_add {α : Type u} {l : List α} {i : Nat} {x : α} (h : l[i]? = some x)
    (p : α → Bool) (y : α) :
    (l.set i y).countP p + (if p x then 1 else 0) = l.countP p + if p y then 1 else 0 := by
  obtain ⟨front, back, _, hl, hset⟩ := exists_split h
  rw [hset, hl, countP_append, countP_append, countP_cons, countP_cons]
  omega

attribute [grind] Handler.isSkip Orchestrator.lastStage

namespace Orchestrator

inductive Steps (o : Orchestrator κ) : OrchestratorStep → Orchestrator κ → Prop
  | receive (work : ObjectWork κ) (rest : List (ObjectWork κ)) :
      o.queue = work :: rest → (∀ h ∈ o.handlers, h.isSkip = true → h.stage = .finished) →
      Steps o .receive
        { o with
          queue := rest
          fetchingKeys := insert work.key o.fetchingKeys
          handlers := o.handlers ++ [o.handlerOf work] }
  | fetched (i : Nat) (h : Handler κ) (success : Bool) :
      o.handlers[i]? = some h → h.stage = .fetching →
      Steps o (.fetched i success) (o.setHandler i
        { h with fetched := some success, stage := if success then .marking else .reporting })
  | mark (i : Nat) (h : Handler κ) : o.handlers[i]? = some h → h.stage = .marking →
      Steps o (.advance i) ((o.markSuccess h.work).setHandler i
        { h with stage := if h.isSkip then .settling else .reporting })
  | report (i : Nat) (h : Handler κ) : o.handlers[i]? = some h → h.stage = .reporting →
      Steps o (.advance i) ((o.report h).setHandler i { h with stage := .settling })
  | settle (i : Nat) (h : Handler κ) : o.handlers[i]? = some h → h.stage = .settling →
      Steps o (.advance i) ((o.takeOff h.work).setHandler i
        { h with stage := if o.isLast h.work then .checking else lastStage h })
  | check (i : Nat) (h : Handler κ) : o.handlers[i]? = some h → h.stage = .checking →
      Steps o (.advance i) ((o.deleteIfAll h.work).setHandler i { h with stage := lastStage h })
  | release (i : Nat) (h : Handler κ) : o.handlers[i]? = some h → h.stage = .releasing →
      Steps o (.advance i) ({ o with fetchingKeys := o.fetchingKeys.erase h.work.key }.setHandler i
        { h with stage := .finished })

theorem Steps.of_step {o o' : Orchestrator κ} {a : OrchestratorStep} (hstep : o.step a = some o') :
    Steps o a o' := by
  cases a with
  | receive =>
    simp only [step, Orchestrator.receive] at hstep
    split at hstep
    case isFalse => cases hstep
    case isTrue hfree =>
      split at hstep
      · cases hstep
      · next work rest hqueue =>
        cases hstep
        exact .receive work rest hqueue hfree
  | fetched i success =>
    simp only [step] at hstep
    split at hstep
    · cases hstep
    · next h hi =>
      split at hstep
      case isFalse => cases hstep
      case isTrue hstage =>
        cases hstep
        exact .fetched i h success hi hstage
  | advance i =>
    simp only [step] at hstep
    split at hstep
    · cases hstep
    · next h hi =>
      unfold advance at hstep
      split at hstep
      case h_1 => cases hstep
      case h_2 hstage =>
        cases hstep
        exact .mark i h hi hstage
      case h_3 hstage =>
        cases hstep
        exact .report i h hi hstage
      case h_4 hstage =>
        cases hstep
        exact .settle i h hi hstage
      case h_5 hstage =>
        cases hstep
        exact .check i h hi hstage
      case h_6 hstage =>
        cases hstep
        exact .release i h hi hstage
      case h_7 => cases hstep

end Orchestrator

end FastForward.Io.S3
