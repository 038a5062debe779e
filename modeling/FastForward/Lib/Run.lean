/-
Runs of a partial transition function `apply : α → σ → Option σ`: an
action either fires and yields the next state or is disabled.

`ReachableWhen` collects the states reached by runs whose every step
meets a side condition `ok` on the state BEFORE the step and the action;
`Reachable` is the unconditional case. The rules are
`ReachableWhen.invariant` (an inductive invariant holds in every reached
state) and `runList_reachable` (an executable trace ends in a reached
state). `StepsMeet` is the side condition of a whole trace, and
`runList_iff_stepsMeet` the rule for a property that exactly the steps
meeting it keep.
-/

namespace FastForward.Lib

universe u v

variable {σ : Type u} {α : Type v}

-- == growing lists

section Append

variable {xs : List α} {a : α} {i : Nat}

theorem getElem?_append_of_some (ys : List α) (h : xs[i]? = some a) : (xs ++ ys)[i]? = some a := by
  obtain ⟨hlt, -⟩ := getElem?_eq_some_iff.mp h
  rw [List.getElem?_append_left hlt, h]

theorem getElem?_append_singleton {b : α} (h : (xs ++ [b])[i]? = some a) :
    xs[i]? = some a ∨ i = xs.length ∧ b = a := by
  rcases Nat.lt_or_ge i xs.length with hlt | hge
  · rw [List.getElem?_append_left hlt] at h
    exact .inl h
  · rw [List.getElem?_append_right hge, List.getElem?_singleton] at h
    split at h
    · exact .inr ⟨by omega, Option.some.inj h⟩
    · cases h

end Append

-- == reached states

/-- States reached from `init` by enabled actions, each taken in a state
where `ok` allowed it. -/
inductive ReachableWhen (apply : α → σ → Option σ) (ok : σ → α → Prop)
    (init : σ) : σ → Prop
  | init : ReachableWhen apply ok init init
  | step {s s' : σ} (a : α) :
      ReachableWhen apply ok init s → ok s a → apply a s = some s' →
      ReachableWhen apply ok init s'

/-- States reached by any enabled actions at all. -/
abbrev Reachable (apply : α → σ → Option σ) (init : σ) : σ → Prop :=
  ReachableWhen apply (fun _ _ => True) init

variable {apply : α → σ → Option σ} {ok : σ → α → Prop}

/-- The invariant rule: what holds initially and survives every allowed
step holds in every reached state. -/
theorem ReachableWhen.invariant {init : σ} {I : σ → Prop} (h0 : I init)
    (hstep : ∀ (a : α) (s s' : σ), I s → ok s a → apply a s = some s' → I s')
    {s : σ} (hr : ReachableWhen apply ok init s) : I s := by
  induction hr with
  | init => exact h0
  | step a _ hok happ ih => exact hstep a _ _ ih hok happ

/-- One run after the other. -/
theorem ReachableWhen.trans
    {s s' s'' : σ} (h : ReachableWhen apply ok s s') (h' : ReachableWhen apply ok s' s'') :
    ReachableWhen apply ok s s'' := by
  induction h' with
  | init => exact h
  | step a _ hok happ ih => exact .step a ih hok happ

-- == executable traces

/-- Run a list of actions, failing on the first disabled one. -/
def runList (apply : α → σ → Option σ) (s : σ) : List α → Option σ
  | [] => some s
  | a :: rest =>
    match apply a s with
    | some s' => runList apply s' rest
    | none => none

theorem runList_cons_eq_some {a : α} {rest : List α} {s s' : σ}
    (h : runList apply s (a :: rest) = some s') :
    ∃ t, apply a s = some t ∧ runList apply t rest = some s' := by
  rw [runList] at h
  split at h
  next t ha => exact ⟨t, ha, h⟩
  next => cases h

/-- A trace that runs through ends in a reached state. -/
theorem runList_reachable {init : σ} :
    ∀ (as : List α) {s s' : σ}, Reachable apply init s →
      runList apply s as = some s' → Reachable apply init s' := by
  intro as
  induction as with
  | nil =>
    intro s s' hr h
    cases h
    exact hr
  | cons a rest ih =>
    intro s s' hr h
    obtain ⟨t, ha, h⟩ := runList_cons_eq_some h
    exact ih (.step a hr trivial ha) h

/-- Run a trace, as long as its steps meet `ok`. -/
def runWhen (apply : α → σ → Option σ) (ok : σ → α → Prop) [∀ s a, Decidable (ok s a)] (s : σ) :
    List α → Option σ
  | [] => some s
  | a :: rest =>
    if ok s a then
      match apply a s with
      | none => none
      | some s' => runWhen apply ok s' rest
    else none

/-- Every step of a trace meets `ok` in the state it starts from. -/
def StepsMeet (apply : α → σ → Option σ) (ok : σ → α → Prop) :
    σ → List α → Prop
  | _, [] => True
  | s, a :: rest =>
    ok s a ∧ ∀ s', apply a s = some s' → StepsMeet apply ok s' rest

/-- A trace whose steps meet `ok` ends in a state reached under `ok`. -/
theorem StepsMeet.reachableWhen {init : σ} :
    ∀ (as : List α) {s s' : σ}, StepsMeet apply ok s as → ReachableWhen apply ok init s →
      runList apply s as = some s' → ReachableWhen apply ok init s' := by
  intro as
  induction as with
  | nil =>
    intro s s' _ hr h
    cases h
    exact hr
  | cons a rest ih =>
    intro s s' hmeet hr h
    obtain ⟨t, ha, h⟩ := runList_cons_eq_some h
    exact ih (hmeet.2 t ha) (.step a hr hmeet.1 ha) h

/-- A run that checks its steps is a run whose steps meet `ok`. -/
theorem runWhen_eq_some [∀ s a, Decidable (ok s a)] :
    ∀ (as : List α) {s s' : σ}, runWhen apply ok s as = some s' →
      StepsMeet apply ok s as ∧ runList apply s as = some s' := by
  intro as
  induction as with
  | nil => exact fun h => ⟨trivial, h⟩
  | cons a rest ih =>
    intro s s' h
    rw [runWhen] at h
    split at h
    case isFalse => cases h
    case isTrue hok =>
      rw [runList]
      cases ha : apply a s with
      | none => rw [ha] at h; cases h
      | some t =>
        rw [ha] at h
        obtain ⟨hmeets, hrun⟩ := ih h
        refine ⟨⟨hok, fun s₁ h₁ => ?_⟩, hrun⟩
        rw [ha] at h₁
        cases h₁
        exact hmeets

/-- It ends in a state reached under `ok`. -/
theorem runWhen_reachable
    [∀ s a, Decidable (ok s a)] {s s' : σ} (as : List α) (h : runWhen apply ok s as = some s') :
    ReachableWhen apply ok s s' :=
  (runWhen_eq_some as h).1.reachableWhen as .init (runWhen_eq_some as h).2

/-- When a step keeps `P` exactly if it meets `ok`, and nothing restores
`P`, a trace keeps `P` exactly if all its steps meet `ok`. -/
theorem runList_iff_stepsMeet {P : σ → Prop}
    (hstep : ∀ (a : α) (s s' : σ), apply a s = some s' → (P s' ↔ P s ∧ ok s a)) :
    ∀ (as : List α) {s s' : σ}, runList apply s as = some s' →
      (P s' ↔ P s ∧ StepsMeet apply ok s as) := by
  intro as
  induction as with
  | nil =>
    intro s s' h
    cases h
    simp [StepsMeet]
  | cons a rest ih =>
    intro s s' h
    obtain ⟨t, ha, h⟩ := runList_cons_eq_some h
    rw [ih h, hstep a s t ha, StepsMeet, ha]
    simp [and_assoc]

/-- When a step from a state with `P` leads to one exactly if it meets
`ok`, all states of a run have `P` exactly if all its steps meet `ok`. -/
theorem forall_states_iff_stepsMeet (step : σ → α → σ) (ok : σ → α → Prop) (P : σ → Prop)
    (hstep : ∀ (s : σ) (a : α), P s → (P (step s a) ↔ ok s a)) {s : σ} (hs : P s) (as : List α) :
    (∀ front, front <+: as → P (front.foldl step s))
      ↔ StepsMeet (fun a s => some (step s a)) ok s as := by
  induction as generalizing s with
  | nil =>
    refine ⟨fun _ => trivial, fun _ front hfront => ?_⟩
    rw [List.prefix_nil.mp hfront]
    exact hs
  | cons a rest ih =>
    have hsplit : (∀ front, front <+: a :: rest → P (front.foldl step s))
        ↔ P s ∧ ∀ front, front <+: rest → P (front.foldl step (step s a)) := by
      constructor
      · intro h
        refine ⟨h [] List.nil_prefix, fun front hfront => ?_⟩
        exact h (a :: front) ((List.prefix_cons_inj a).mpr hfront)
      · rintro ⟨h0, h⟩ front hfront
        cases front with
        | nil => exact h0
        | cons b front =>
          obtain ⟨rfl, hback⟩ := List.cons_prefix_cons.mp hfront
          exact h front hback
    rw [hsplit, StepsMeet]
    simp only [Option.some.injEq, forall_eq']
    constructor
    · rintro ⟨-, h⟩
      have hnext := h [] List.nil_prefix
      exact ⟨(hstep s a hs).mp hnext, (ih hnext).mp h⟩
    · rintro ⟨hok, h⟩
      exact ⟨hs, (ih ((hstep s a hs).mpr hok)).mpr h⟩

end FastForward.Lib
