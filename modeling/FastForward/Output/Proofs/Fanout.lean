/-
The fanout sink delivers to every child once.

The states of the children are what their answers for the current batch
make of them (`FanoutRun.Follows`): a child is pending until it has
answered Ok or Rejected, and is not attempted after that. This holds
however calls end, since a state is set when the answer comes and before
the next await. The result of a call can then be read off the answers.
-/
import FastForward.Output.Sink

namespace FastForward.Output

open Lib List SendResult Option

-- == answers

/-- The state an answer puts a child into, unless it stays pending. -/
def SendResult.terminal? : SendResult → Option ChildState
  | .ok => some .ok
  | .rejected reason => some (.rejected reason)
  | .ioError _ | .retryAfter _ => none

/-- The answer is final for the batch. -/
def SendResult.IsTerminal (r : SendResult) : Prop := r.terminal? ≠ none

theorem mergeChildSendResult_fst (r : SendResult) (u : Unsettled) :
    (mergeChildSendResult r u).1 = r.terminal? := by
  cases r <;> rfl

variable {state : ChildState}

theorem SendResult.terminal?_ne_pending {r : SendResult}
    (h : r.terminal? = some state) : state ≠ .pending := by
  cases r <;> cases h <;> exact nofun

def finalAnswer (attempts : List Attempt) (i : Nat) : Option ChildState :=
  attempts.findSome? fun a => if a.1 = i then a.2.bind terminal? else none

/-- What the attempts make of a child. -/
def settled (attempts : List Attempt) (i : Nat) : ChildState :=
  (finalAnswer attempts i).getD .pending

@[simp] theorem finalAnswer_append (attempts more : List Attempt) (i : Nat) :
    finalAnswer (attempts ++ more) i = (finalAnswer attempts i).or (finalAnswer more i) := by
  rw [finalAnswer, findSome?_append]
  rfl

theorem finalAnswer_cons (a : Attempt) (attempts : List Attempt) (i : Nat) :
    finalAnswer (a :: attempts) i
      = (if a.1 = i then a.2.bind terminal? else none).or (finalAnswer attempts i) := by
  rw [finalAnswer, findSome?_cons]
  cases (if a.1 = i then a.2.bind terminal? else none) <;> rfl

variable {i : Nat}

theorem finalAnswer_eq_some {attempts : List Attempt} (h : finalAnswer attempts i = some state) :
    ∃ r, (i, some r) ∈ attempts ∧ r.terminal? = some state := by
  obtain ⟨⟨j, answer⟩, hmem, hanswer⟩ := exists_of_findSome?_eq_some h
  split at hanswer
  next heq =>
    obtain rfl : j = i := heq
    obtain ⟨r, rfl, hr⟩ := bind_eq_some_iff.mp hanswer
    exact ⟨r, hmem, hr⟩
  next => cases hanswer

theorem finalAnswer_eq_none {attempts : List Attempt} :
    finalAnswer attempts i = none ↔ ∀ r, (i, some r) ∈ attempts → r.terminal? = none := by
  rw [finalAnswer, findSome?_eq_none_iff]
  constructor
  · intro h r hmem
    have := h _ hmem
    rwa [if_pos rfl] at this
  · rintro h ⟨j, answer⟩ hmem
    split
    next heq =>
      obtain rfl : j = i := heq
      cases answer with
      | none => rfl
      | some r => exact h r hmem
    next => rfl

theorem settled_eq_pending {attempts : List Attempt} :
    settled attempts i = .pending ↔ finalAnswer attempts i = none := by
  rw [settled]
  cases h : finalAnswer attempts i with
  | none => exact iff_of_true rfl rfl
  | some state =>
    obtain ⟨r, -, hr⟩ := finalAnswer_eq_some h
    exact iff_of_false (terminal?_ne_pending hr) nofun

-- == gathering

/-- What is gathered from one attempt. -/
def gather (u : Unsettled) (a : Attempt) : Unsettled :=
  match a.2 with
  | some r => (mergeChildSendResult r u).2
  | none => u

def gathered (attempts : List Attempt) : Unsettled := attempts.foldl gather {}

/-- Some child has given such an answer. -/
def Answered (attempts : List Attempt) (P : SendResult → Prop) : Prop :=
  ∃ i r, (i, some r) ∈ attempts ∧ P r

@[simp] theorem answered_nil (P : SendResult → Prop) : ¬ Answered [] P :=
  fun ⟨_, _, h, _⟩ => not_mem_nil h

@[simp] theorem answered_cons_none (i : Nat) (attempts : List Attempt) (P : SendResult → Prop) :
    Answered ((i, none) :: attempts) P ↔ Answered attempts P := by
  simp [Answered]

@[simp] theorem answered_cons_some (i : Nat) (r : SendResult) (attempts : List Attempt)
    (P : SendResult → Prop) : Answered ((i, some r) :: attempts) P ↔ P r ∨ Answered attempts P := by
  constructor
  · rintro ⟨j, r', hmem, hP⟩
    rcases mem_cons.mp hmem with heq | hrest
    · cases heq
      exact .inl hP
    · exact .inr ⟨j, r', hrest, hP⟩
  · rintro (hP | ⟨j, r', hmem, hP⟩)
    · exact ⟨i, r, mem_cons_self, hP⟩
    · exact ⟨j, r', mem_cons_of_mem _ hmem, hP⟩

theorem foldl_gather_anyPending (attempts : List Attempt) (u : Unsettled) :
    (attempts.foldl gather u).anyPending
      ↔ u.anyPending ∨ Answered attempts (·.terminal? = none) := by
  induction attempts generalizing u with
  | nil => simp
  | cons a attempts ih =>
    obtain ⟨i, answer⟩ := a
    rw [foldl_cons, ih]
    cases answer with
    | none => simp [gather]
    | some r => cases r <;> simp [gather, mergeChildSendResult, terminal?]

/-- The delays that were asked for. -/
def delays (attempts : List Attempt) : List Duration :=
  attempts.filterMap fun
    | (_, some (.retryAfter d)) => some d
    | _ => none

theorem mem_delays {attempts : List Attempt} {d : Duration} :
    d ∈ delays attempts ↔ ∃ i, (i, some (.retryAfter d)) ∈ attempts := by
  rw [delays, mem_filterMap]
  constructor
  · rintro ⟨⟨i, answer⟩, hmem, hd⟩
    cases answer with
    | none => cases hd
    | some r =>
      cases r with
      | retryAfter d' =>
        cases hd
        exact ⟨i, hmem⟩
      | ok | ioError _ | rejected _ => cases hd
  · rintro ⟨i, hmem⟩
    exact ⟨_, hmem, rfl⟩

/-- A delay that a child asks for replaces a shorter one. -/
theorem mergeChildSendResult_maxRetry (d : Duration) (u : Unsettled) :
    (mergeChildSendResult (.retryAfter d) u).2.maxRetry
      = some ((u.maxRetry.map (max · d)).getD d) := by
  rw [mergeChildSendResult]
  cases u.maxRetry with
  | none => rfl
  | some previous =>
    rw [all_some, map_some, getD_some]
    by_cases h : previous < d
    · rw [decide_eq_true h, if_pos rfl, Nat.max_eq_right (Nat.le_of_lt h)]
    · rw [decide_eq_false h, if_neg Bool.false_ne_true, Nat.max_eq_left (Nat.le_of_not_lt h)]

theorem foldl_gather_maxRetry (attempts : List Attempt) (u : Unsettled) :
    (attempts.foldl gather u).maxRetry = (u.maxRetry.toList ++ delays attempts).max? := by
  induction attempts generalizing u with
  | nil => cases h : u.maxRetry <;> simp [h, delays]
  | cons a attempts ih =>
    obtain ⟨i, answer⟩ := a
    rw [foldl_cons, ih]
    cases answer with
    | none => rfl
    | some r =>
      cases r with
      | ok | rejected reason | ioError e => rfl
      | retryAfter d =>
        rw [gather, mergeChildSendResult_maxRetry]
        cases u.maxRetry with
        | none | some previous => rfl

-- == one call

/-- What the loop does with the children from `i` on: `f` gives their
states before it. -/
structure LoopSpec (i k : Nat) (f : Nat → ChildState) (u : Unsettled)
    (states : List ChildState) (attempts : List Attempt) (result : Option Unsettled) : Prop where
  states_eq : states
    = (List.range' i k).map fun j => if f j = .pending then settled attempts j else f j
  attempted : ∀ a ∈ attempts, i ≤ a.1 ∧ a.1 < i + k ∧ f a.1 = .pending
  increasing : attempts.Pairwise fun a b => a.1 < b.1
  completed : ∀ u', result = some u' → u' = attempts.foldl gather u
    ∧ ∀ j, i ≤ j → j < i + k → f j = .pending → ∃ r, (j, some r) ∈ attempts

theorem settled_of_not_attempted {attempts : List Attempt}
    (h : ∀ a ∈ attempts, a.1 ≠ i) : settled attempts i = .pending := by
  rw [settled_eq_pending, finalAnswer_eq_none]
  exact fun r hmem => absurd rfl (h _ hmem)

theorem sendLoop_spec (answers : Nat → Option SendResult) (i k : Nat) (f : Nat → ChildState)
    (u : Unsettled) :
    let (states, attempts, result) :=
      AsyncFanoutSink.sendLoop answers i ((List.range' i k).map f) u
    LoopSpec i k f u states attempts result := by
  induction k generalizing i u with
  | zero =>
    refine ⟨rfl, fun _ h => absurd h not_mem_nil, .nil, fun u' h => ?_⟩
    cases h
    exact ⟨rfl, fun j _ _ => by omega⟩
  | succ k ih =>
    rw [range'_succ, map_cons, AsyncFanoutSink.sendLoop]
    by_cases hstate : f i = .pending
    · rw [if_neg (not_not_intro hstate)]
      cases hanswer : answers i with
      | none =>
        refine ⟨?_, ?_, pairwise_singleton _ _, fun u' h => nomatch h⟩
        · rw [range'_succ, map_cons]
          have hpending : ∀ j, settled [(i, none)] j = .pending := by
            intro j
            rw [settled_eq_pending, finalAnswer_eq_none]
            exact fun r hmem => absurd hmem (by simp)
          simp only [hpending]
          congr 1
          · rw [if_pos hstate, hstate]
          · refine map_congr_left fun j _ => ?_
            split
            next h => exact h
            next => rfl
        · intro a ha
          rw [mem_singleton.mp ha]
          exact ⟨Nat.le_refl i, by omega, hstate⟩
      | some r =>
        dsimp only
        have hrest := ih (i + 1) (mergeChildSendResult r u).2
        generalize AsyncFanoutSink.sendLoop answers (i + 1) ((range' (i + 1) k).map f)
          (mergeChildSendResult r u).2 = rest at hrest ⊢
        obtain ⟨states, attempts, result⟩ := rest
        have hlater : ∀ a ∈ attempts, i < a.1 := fun a ha =>
          (hrest.attempted a ha).1
        have hsettled : ∀ j, settled ((i, some r) :: attempts) j
            = if i = j then r.terminal?.getD .pending else settled attempts j := by
          intro j
          rw [settled, finalAnswer_cons]
          by_cases hij : i = j
          · rw [if_pos hij, if_pos hij, bind_some]
            have hnone : finalAnswer attempts j = none := by
              rw [← settled_eq_pending]
              refine settled_of_not_attempted fun a ha => ?_
              have := hlater a ha
              omega
            rw [hnone, or_none]
          · rw [if_neg hij, if_neg hij]
            rfl
        refine ⟨?_, ?_, ?_, ?_⟩
        · rw [range'_succ, map_cons, mergeChildSendResult_fst, hrest.states_eq]
          congr 1
          · rw [if_pos hstate, hsettled, if_pos rfl, hstate]
          · refine map_congr_left fun j hj => ?_
            have hlt := (mem_range'_1.mp hj).1
            have hne : ¬ i = j := by omega
            rw [hsettled, if_neg hne]
        · intro a ha
          rcases mem_cons.mp ha with rfl | ha
          · exact ⟨Nat.le_refl i, by show i < _; omega, hstate⟩
          · obtain ⟨hle, hlt, hpending⟩ := hrest.attempted a ha
            exact ⟨by omega, by omega, hpending⟩
        · exact pairwise_cons.mpr ⟨hlater, hrest.increasing⟩
        · intro u' hu'
          obtain ⟨hgather, hall⟩ := hrest.completed u' hu'
          refine ⟨hgather, fun j hle hlt hpending => ?_⟩
          by_cases hij : i = j
          · exact ⟨r, hij ▸ mem_cons_self⟩
          · obtain ⟨r', hmem⟩ := hall j (by omega) (by omega) hpending
            exact ⟨r', mem_cons_of_mem _ hmem⟩
    · rw [if_pos hstate]
      have hrest := ih (i + 1) u
      refine ⟨?_, ?_, hrest.increasing, ?_⟩
      · rw [range'_succ, map_cons, if_neg hstate, hrest.states_eq]
      · intro a ha
        obtain ⟨hle, hlt, hpending⟩ := hrest.attempted a ha
        exact ⟨by omega, by omega, hpending⟩
      · intro u' hu'
        obtain ⟨hgather, hall⟩ := hrest.completed u' hu'
        refine ⟨hgather, fun j hle hlt hpending => ?_⟩
        by_cases hij : i = j
        · exact absurd (hij ▸ hpending) hstate
        · exact hall j (by omega) (by omega) hpending

/-- The loop comes to its end exactly if every pending child answers. -/
theorem sendLoop_isSome (answers : Nat → Option SendResult) (states : List ChildState) (i : Nat)
    (u : Unsettled) :
    (AsyncFanoutSink.sendLoop answers i states u).2.2.isSome
      ↔ ∀ j, states[j]? = some .pending → (answers (i + j)).isSome := by
  induction states generalizing i u with
  | nil => exact iff_of_true rfl nofun
  | cons state states ih =>
    have hcons : (∀ j, (state :: states)[j]? = some .pending → (answers (i + j)).isSome)
        ↔ (state = .pending → (answers i).isSome)
          ∧ ∀ j, states[j]? = some .pending → (answers (i + 1 + j)).isSome := by
      rw [← Nat.and_forall_add_one]
      simp only [getElem?_cons_zero, getElem?_cons_succ, some.injEq, Nat.add_zero,
        Nat.add_right_comm i 1, Nat.add_assoc]
    rw [hcons, AsyncFanoutSink.sendLoop]
    by_cases hstate : state = .pending
    · rw [if_neg (not_not_intro hstate), forall_prop_of_true hstate]
      cases answers i with
      | none => exact iff_of_false nofun fun h => nomatch h.1
      | some r => exact (ih _ _).trans (and_iff_right rfl).symm
    · rw [if_pos hstate]
      exact (ih _ _).trans (and_iff_right fun h => absurd h hstate).symm

-- == runs

/-- The child has given a final answer. -/
def Settles (attempts : List Attempt) (i : Nat) : Prop :=
  ∃ r : SendResult, (i, some r) ∈ attempts ∧ r.IsTerminal

/-- No child is attempted after its final answer. -/
def AttemptedOnce (attempts : List Attempt) : Prop :=
  attempts.Pairwise fun a b => a.1 = b.1 → ∀ r : SendResult, a.2 = some r → ¬ r.IsTerminal

theorem not_settles_iff {attempts : List Attempt} :
    ¬ Settles attempts i ↔ settled attempts i = .pending := by
  rw [settled_eq_pending, finalAnswer_eq_none]
  constructor
  · intro h r hmem
    exact Decidable.byContradiction fun hterminal => h ⟨r, hmem, hterminal⟩
  · rintro h ⟨r, hmem, hterminal⟩
    exact hterminal (h r hmem)

theorem settled_append (attempts more : List Attempt) (i : Nat) :
    settled (attempts ++ more) i
      = if settled attempts i = .pending then settled more i else settled attempts i := by
  by_cases h : settled attempts i = .pending
  · rw [if_pos h, settled, finalAnswer_append, settled_eq_pending.mp h]
    rfl
  · rw [if_neg h, settled, finalAnswer_append]
    cases hanswer : finalAnswer attempts i with
    | none => exact absurd (settled_eq_pending.mpr hanswer) h
    | some state => rw [settled, hanswer]; rfl

/-- A child that is attempted once has but one final answer. -/
theorem AttemptedOnce.settled_eq {attempts : List Attempt} (h : AttemptedOnce attempts)
    {r : SendResult} (hmem : (i, some r) ∈ attempts)
    (hr : r.terminal? = some state) : settled attempts i = state := by
  obtain ⟨before, after, rfl⟩ := append_of_mem hmem
  have hbefore : settled before i = .pending := by
    rw [← not_settles_iff]
    rintro ⟨r', hmem', hterminal⟩
    have hcross := (pairwise_append.mp h).2.2 _ hmem' _ mem_cons_self
    exact hcross rfl r' rfl hterminal
  rw [settled_append, if_pos hbefore, settled, finalAnswer_cons, if_pos rfl, bind_some, hr]
  rfl

theorem AttemptedOnce.not_rejected {attempts : List Attempt} (h : AttemptedOnce attempts)
    (hok : (i, some .ok) ∈ attempts) (reason : String) :
    (i, some (.rejected reason)) ∉ attempts := by
  intro hrejected
  have hstate : settled attempts i = .ok := h.settled_eq hok rfl
  cases hstate.symm.trans (h.settled_eq hrejected rfl)

/-- The states of the children are what the attempts make of them. -/
structure FanoutRun.Follows (n : Nat) (s : FanoutRun) : Prop where
  states_eq : s.sink.states = (List.range n).map (settled s.attempts)
  attemptedOnce : AttemptedOnce s.attempts

/-- A call attempts pending children only, and all of them if it is
completed; the states after it follow the attempts again. -/
structure CallSpec (n : Nat) (s : FanoutRun) (sink : AsyncFanoutSink) (attempts : List Attempt)
    (result : Option SendResult) : Prop where
  follows : FanoutRun.Follows n { sink, attempts := s.attempts ++ attempts }
  pending : ∀ a ∈ attempts, a.1 < n ∧ ¬ Settles s.attempts a.1
  increasing : attempts.Pairwise fun a b => a.1 < b.1
  completed : ∀ r, result = some r → r = finalizeFanoutOutcome sink.states (gathered attempts)
    ∧ ∀ i < n, ¬ Settles s.attempts i → ∃ r, (i, some r) ∈ attempts

theorem FanoutRun.Follows.sendBatch {n : Nat} {s : FanoutRun} (h : s.Follows n)
    (answers : Nat → Option SendResult) :
    let (sink, attempts, result) := s.sink.sendBatch answers
    CallSpec n s sink attempts result := by
  have hloop := sendLoop_spec answers 0 n (settled s.attempts) {}
  rw [← range_eq_range', ← h.states_eq] at hloop
  rw [AsyncFanoutSink.sendBatch]
  generalize AsyncFanoutSink.sendLoop answers 0 s.sink.states {} = out at hloop ⊢
  obtain ⟨states, attempts, u⟩ := out
  have hpending : ∀ a ∈ attempts, a.1 < n ∧ ¬ Settles s.attempts a.1 := by
    intro a ha
    obtain ⟨-, hlt, hstate⟩ := hloop.attempted a ha
    exact ⟨by omega, not_settles_iff.mpr hstate⟩
  refine ⟨⟨?_, ?_⟩, hpending, hloop.increasing, ?_⟩
  · rw [hloop.states_eq, ← range_eq_range']
    exact map_congr_left fun j _ => (settled_append _ _ j).symm
  · refine pairwise_append.mpr ⟨h.attemptedOnce, ?_, ?_⟩
    · refine hloop.increasing.imp fun hlt heq => ?_
      omega
    · intro a ha b hb heq r hr hterminal
      refine (hpending b hb).2 ⟨r, ?_, hterminal⟩
      rw [← heq, ← hr]
      exact ha
  · intro r hr
    obtain ⟨u', rfl, rfl⟩ := map_eq_some_iff.mp hr
    obtain ⟨hgather, hall⟩ := hloop.completed u' rfl
    refine ⟨by rw [hgather]; rfl, fun i hlt hopen => ?_⟩
    exact hall i (Nat.zero_le i) (by omega) (not_settles_iff.mp hopen)

theorem FanoutRun.Follows.completes {n : Nat} {s : FanoutRun} (h : s.Follows n)
    (answers : Nat → Option SendResult) :
    (s.sink.sendBatch answers).2.2.isSome
      ↔ ∀ i < n, ¬ Settles s.attempts i → (answers i).isSome := by
  rw [AsyncFanoutSink.sendBatch, isSome_map, sendLoop_isSome, h.states_eq]
  refine forall_congr' fun i => ?_
  rw [Nat.zero_add, not_settles_iff]
  by_cases hlt : i < n
  · rw [getElem?_map, getElem?_range hlt, forall_prop_of_true hlt, map_some, some.injEq]
  · rw [getElem?_eq_none (by rw [length_map, length_range]; omega)]
    exact iff_of_true nofun fun h => absurd h hlt

theorem FanoutRun.Follows.fresh (n : Nat) {sink : AsyncFanoutSink}
    (h : sink.states = List.replicate n .pending) :
    FanoutRun.Follows n { sink, attempts := [] } := by
  refine ⟨?_, .nil⟩
  rw [h]
  have : settled [] = fun _ => .pending := rfl
  rw [this, map_const', length_range]

theorem FanoutRun.Follows.step {n : Nat} {op : FanoutOp} {s s' : FanoutRun} (h : s.Follows n)
    (hstep : FanoutRun.step op s = some s') : s'.Follows n := by
  cases op with
  | beginBatch =>
    cases hstep
    refine .fresh n ?_
    rw [AsyncFanoutSink.beginBatch, map_const', h.states_eq, length_map, length_range]
  | sendBatch answers =>
    cases hstep
    exact (h.sendBatch answers).follows

theorem FanoutRun.Follows.of_reachable {n : Nat} {s : FanoutRun}
    (hr : Reachable FanoutRun.step (.start n) s) : s.Follows n :=
  hr.invariant (.fresh n rfl) fun _ _ _ h _ hstep => h.step hstep

-- == results

section Result

variable {n : Nat} {s : FanoutRun} {sink : AsyncFanoutSink} {attempts : List Attempt}
  {r : SendResult}

/-- A call attempts a child at most once. -/
theorem CallSpec.attempt_unique {result : Option SendResult}
    (h : CallSpec n s sink attempts result) {a b : Attempt} (ha : a ∈ attempts)
    (hb : b ∈ attempts) (heq : a.1 = b.1) : a = b := by
  obtain ⟨i, hi, rfl⟩ := getElem_of_mem ha
  obtain ⟨j, hj, rfl⟩ := getElem_of_mem hb
  have hlt := pairwise_iff_getElem.mp h.increasing
  rcases Nat.lt_trichotomy i j with hij | rfl | hji
  · have := hlt i j hi hj hij
    omega
  · rfl
  · have := hlt j i hj hi hji
    omega

variable (h : CallSpec n s sink attempts (some r))

include h

/-- Something is left to gather exactly when a child stays pending. -/
theorem CallSpec.anyPending_iff :
    (gathered attempts).anyPending ↔ ∃ i < n, ¬ Settles (s.attempts ++ attempts) i := by
  rw [gathered, foldl_gather_anyPending]
  constructor
  · rintro (hfalse | ⟨i, r', hmem, hr'⟩)
    · cases hfalse
    · obtain ⟨hlt, hbefore⟩ := h.pending _ hmem
      refine ⟨i, hlt, ?_⟩
      rintro ⟨r'', hmem'', hterminal⟩
      rcases mem_append.mp hmem'' with hold | hnew
      · exact hbefore ⟨r'', hold, hterminal⟩
      · cases h.attempt_unique hmem hnew rfl
        exact hterminal hr'
  · rintro ⟨i, hlt, hi⟩
    obtain ⟨-, hall⟩ := h.completed r rfl
    obtain ⟨r', hmem⟩ := hall i hlt fun ⟨r'', hold, hterminal⟩ =>
      hi ⟨r'', mem_append_left _ hold, hterminal⟩
    refine .inr ⟨i, r', hmem, ?_⟩
    exact Decidable.byContradiction fun hterminal =>
      hi ⟨r', mem_append_right _ hmem, hterminal⟩

/-- A child has answered so exactly when its state says so. -/
theorem CallSpec.mem_states (state : ChildState) (hne : state ≠ .pending) :
    state ∈ sink.states ↔
      ∃ i < n, ∃ r : SendResult,
        (i, some r) ∈ s.attempts ++ attempts ∧ r.terminal? = some state := by
  rw [h.follows.states_eq, List.mem_map]
  constructor
  · rintro ⟨i, hi, hstate⟩
    refine ⟨i, mem_range.mp hi, ?_⟩
    cases hanswer : finalAnswer (s.attempts ++ attempts) i with
    | none => exact absurd ((settled_eq_pending.mpr hanswer).symm.trans hstate).symm hne
    | some state' =>
      rw [settled, hanswer] at hstate
      exact finalAnswer_eq_some (hstate ▸ hanswer)
  · rintro ⟨i, hlt, r', hmem, hr'⟩
    exact ⟨i, mem_range.mpr hlt, h.follows.attemptedOnce.settled_eq hmem hr'⟩

/-- With children pending the result asks for another attempt. -/
theorem CallSpec.result_of_pending (hpending : ∃ i < n, ¬ Settles (s.attempts ++ attempts) i) :
    (∃ d, r = .retryAfter d ∧ (∃ i, (i, some (.retryAfter d)) ∈ attempts)
        ∧ ∀ i d', (i, some (.retryAfter d')) ∈ attempts → d' ≤ d)
      ∨ (∃ e, r = .ioError e) ∧ ∀ i d, (i, some (.retryAfter d)) ∉ attempts := by
  obtain ⟨hr, -⟩ := h.completed r rfl
  rw [finalizeFanoutOutcome, if_pos (h.anyPending_iff.mpr hpending)] at hr
  have hmax : (gathered attempts).maxRetry = (delays attempts).max? :=
    foldl_gather_maxRetry attempts {}
  rw [hmax] at hr
  cases hd : (delays attempts).max? with
  | some d =>
    rw [hd] at hr
    obtain ⟨hmem, hle⟩ := max?_eq_some_iff.mp hd
    exact .inl ⟨d, hr, mem_delays.mp hmem, fun i d' hi => hle d' (mem_delays.mpr ⟨i, hi⟩)⟩
  | none =>
    rw [hd] at hr
    refine .inr ⟨⟨_, hr⟩, fun i d hi => ?_⟩
    have hmem := mem_delays.mpr ⟨i, hi⟩
    rw [max?_eq_none_iff.mp hd] at hmem
    exact not_mem_nil hmem

/-- Without, it is what the children have answered. -/
theorem CallSpec.result_of_settled (hsettled : ∀ i < n, Settles (s.attempts ++ attempts) i) :
    (∃ reason, r = .rejected reason
        ∧ ∃ i < n, (i, some (.rejected reason)) ∈ s.attempts ++ attempts)
      ∨ r = .ok ∧ ∀ i < n, (i, some .ok) ∈ s.attempts ++ attempts := by
  obtain ⟨hr, -⟩ := h.completed r rfl
  have hnone : ¬ (gathered attempts).anyPending := fun hany => by
    obtain ⟨i, hlt, hi⟩ := h.anyPending_iff.mp hany
    exact hi (hsettled i hlt)
  rw [finalizeFanoutOutcome, if_neg hnone] at hr
  dsimp only at hr
  split at hr
  next reason hfirst =>
    obtain ⟨state, hmem, hreason⟩ := exists_of_findSome?_eq_some hfirst
    cases state with
    | pending | ok => cases hreason
    | rejected reason' =>
      cases hreason
      obtain ⟨i, hlt, r', hmem', hr'⟩ := (h.mem_states (.rejected reason) nofun).mp hmem
      cases r' <;> cases hr'
      exact .inl ⟨reason, hr, i, hlt, hmem'⟩
  next hfirst =>
    refine .inr ⟨hr, fun i hlt => ?_⟩
    obtain ⟨r', hmem, hterminal⟩ := hsettled i hlt
    cases r' with
    | ok => exact hmem
    | rejected reason =>
      have hstate := (h.mem_states (.rejected reason) nofun).mpr ⟨i, hlt, _, hmem, rfl⟩
      cases findSome?_eq_none_iff.mp hfirst _ hstate
    | ioError _ | retryAfter _ => exact absurd rfl hterminal

omit h

theorem settles_or_pending (n : Nat) (attempts : List Attempt) :
    (∀ i < n, Settles attempts i) ∨ ∃ i < n, ¬ Settles attempts i := by
  by_cases h : ∃ i < n, ¬ Settles attempts i
  · exact .inr h
  · exact .inl fun i hlt => Classical.byContradiction fun hi => h ⟨i, hlt, hi⟩

end Result

/-- The fanout delivers to every child once. A call returns exactly if
every child that is still pending answers it. -/
theorem FanoutRun.delivers_to_every_child_once (n : Nat) {s : FanoutRun}
    (hr : Reachable FanoutRun.step (.start n) s) :
    AttemptedOnce s.attempts
      ∧ (∀ answers, (s.sink.sendBatch answers).2.2.isSome = true
          ↔ ∀ i < n, ¬ Settles s.attempts i → (answers i).isSome = true)
      ∧ ∀ answers sink attempts r, s.sink.sendBatch answers = (sink, attempts, some r) →
        ((attempts.map Prod.fst).Nodup
          ∧ ∀ i, i ∈ attempts.map Prod.fst ↔ i < n ∧ ¬ Settles s.attempts i)
        ∧ (r = .ok ↔ ∀ i < n, (i, some .ok) ∈ s.attempts ++ attempts)
        ∧ (r.isRejected = true ↔ (∀ i < n, Settles (s.attempts ++ attempts) i)
            ∧ ∃ i < n, ∃ reason, (i, some (.rejected reason)) ∈ s.attempts ++ attempts)
        ∧ ((∃ i < n, ¬ Settles (s.attempts ++ attempts) i) →
            (∃ d, r = .retryAfter d ∧ (∃ i, (i, some (.retryAfter d)) ∈ attempts)
                ∧ ∀ i d', (i, some (.retryAfter d')) ∈ attempts → d' ≤ d)
              ∨ (∃ e, r = .ioError e) ∧ ∀ i d, (i, some (.retryAfter d)) ∉ attempts) := by
  have hfollows := Follows.of_reachable hr
  refine ⟨hfollows.attemptedOnce, hfollows.completes, fun answers sink attempts r hcall => ?_⟩
  have h : CallSpec n s sink attempts (some r) := by
    have := hfollows.sendBatch answers
    rw [hcall] at this
    exact this
  have honce : AttemptedOnce (s.attempts ++ attempts) := h.follows.attemptedOnce
  refine ⟨⟨?_, fun i => ⟨?_, ?_⟩⟩, ⟨?_, ?_⟩, ⟨?_, ?_⟩, h.result_of_pending⟩
  · exact pairwise_map.mpr (h.increasing.imp Nat.ne_of_lt)
  · intro hi
    obtain ⟨a, ha, rfl⟩ := mem_map.mp hi
    exact h.pending a ha
  · rintro ⟨hlt, hopen⟩
    obtain ⟨r', hmem⟩ := (h.completed r rfl).2 i hlt hopen
    exact mem_map_of_mem hmem
  · rintro rfl
    rcases settles_or_pending n (s.attempts ++ attempts) with hall | hopen
    · rcases h.result_of_settled hall with ⟨reason, hok, -⟩ | ⟨-, hok⟩
      · cases hok
      · exact hok
    · rcases h.result_of_pending hopen with ⟨d, hok, -⟩ | ⟨⟨e, hok⟩, -⟩ <;> cases hok
  · intro hok
    have hall : ∀ i < n, Settles (s.attempts ++ attempts) i := fun i hlt => ⟨.ok, hok i hlt, nofun⟩
    rcases h.result_of_settled hall with ⟨reason, -, i, hlt, hrejected⟩ | ⟨hr, -⟩
    · exact absurd hrejected (honce.not_rejected (hok i hlt) reason)
    · exact hr
  · intro hr
    rcases settles_or_pending n (s.attempts ++ attempts) with hall | hopen
    · rcases h.result_of_settled hall with ⟨reason, -, i, hlt, hrejected⟩ | ⟨rfl, -⟩
      · exact ⟨hall, i, hlt, reason, hrejected⟩
      · cases hr
    · rcases h.result_of_pending hopen with ⟨d, rfl, -⟩ | ⟨⟨e, rfl⟩, -⟩ <;> cases hr
  · rintro ⟨hall, i, hlt, reason, hrejected⟩
    rcases h.result_of_settled hall with ⟨reason', rfl, -⟩ | ⟨-, hok⟩
    · rfl
    · exact absurd hrejected (honce.not_rejected (hok i hlt) reason)

/-- A call that is abandoned at the last of three children, and the next,
which is completed. -/
theorem FanoutRun.abandoned_call_is_completed :
    let s : FanoutRun :=
      { sink := ⟨[.ok, .pending, .pending]⟩
        attempts := [(0, some .ok), (1, some (.retryAfter 5)), (2, none)] }
    Reachable FanoutRun.step (.start 3) s ∧ AttemptedOnce s.attempts
      ∧ s.sink.sendBatch (fun _ => some .ok)
          = (⟨[.ok, .ok, .ok]⟩, [(1, some .ok), (2, some .ok)], some .ok)
      ∧ ∀ i < 3, (i, some .ok) ∈ s.attempts ++ [(1, some .ok), (2, some .ok)] := by
  intro s
  have hreachable : Reachable step (.start 3) s :=
    .step (.sendBatch fun i => [some .ok, some (.retryAfter 5)].getD i none) .init trivial rfl
  obtain ⟨honce, -, hcalls⟩ := delivers_to_every_child_once 3 hreachable
  exact ⟨hreachable, honce, rfl, (hcalls (fun _ => some .ok) _ _ _ rfl).2.1.mp rfl⟩

end FastForward.Output
