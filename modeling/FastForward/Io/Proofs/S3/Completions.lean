/-
Completions against work items, in list mode.

Every work item received is owed one completion until its task has sent
it. A duplicate is owed one for ever: the orchestrator skips it and sends
nothing. So when nothing is left to do, the completions sent are those of
the items received exactly if no item was received as a duplicate, and
the same holds for the keys that only wait for the cursor.
-/
import FastForward.Io.Proofs.S3.Discovery
import FastForward.Io.Proofs.S3.Orchestrator

namespace FastForward.Io.S3

open List Option

universe u

variable {κ : Type u} [LinearOrder κ]

/-- Before the completion is sent. -/
@[grind] def Stage.isUnreported : Stage → Bool
  | .fetching | .marking | .reporting => true
  | .settling | .checking | .releasing | .finished => false

/-- The completion of the item is still to be sent, or never will be. -/
@[grind] def Handler.isOwed (h : Handler κ) : Bool := h.isSkip || h.stage.isUnreported

/-- Items of a key whose completion is still to be sent. -/
def Orchestrator.owed (o : Orchestrator κ) (key : κ) : Nat :=
  o.handlers.countP fun h => h.work.key = key ∧ h.isOwed

/-- Answers the discovery still waits for. -/
def ListSystem.owed (s : ListSystem κ) (key : κ) : Nat :=
  s.orch.queue.countP (·.key = key) + s.orch.owed key + s.channel.countP (·.key = key)

/-- The items received are those answered and those owed an answer. -/
structure Orchestrator.Accounted (o : Orchestrator κ) : Prop where
  reports : o.reports = true
  skips : ∀ h ∈ o.handlers, h.isSkip = true → h.stage ≠ .fetching ∧ h.stage ≠ .reporting
  received : ∀ key, o.handlers.countP (·.work.key = key)
    = o.completions.countP (·.key = key) + o.owed key

namespace Orchestrator

variable {o o' : Orchestrator κ}

/-- What a step keeps: an item is in the queue, with its handler or among
the completions. -/
def Keeps (o o' : Orchestrator κ) : Prop :=
  o'.Accounted ∧ o.completions <+: o'.completions ∧ ∀ key,
    o'.queue.countP (·.key = key) + o'.owed key + o'.completions.countP (·.key = key)
      = o.queue.countP (·.key = key) + o.owed key + o.completions.countP (·.key = key)

/-- A handler goes from `c` to `b` and sends what it is owed no more. -/
theorem Accounted.moves (h : o.Accounted) {i : Nat} {c b : Handler κ}
    (sent : List (KeyCompletion κ)) (hc : o.handlers[i]? = some c)
    (hhandlers : o'.handlers = o.handlers.set i b)
    (hcompletions : o'.completions = o.completions ++ sent)
    (hsent : ∀ key, sent.countP (·.key = key) + (if c.work.key = key ∧ b.isOwed then 1 else 0)
      = if c.work.key = key ∧ c.isOwed then 1 else 0)
    (hqueue : o'.queue = o.queue) (hreports : o'.reports = o.reports) (hwork : b.work = c.work)
    (hskip : b.isSkip → b.stage ≠ .fetching ∧ b.stage ≠ .reporting) : o.Keeps o' := by
  have howed : ∀ key, o'.owed key + sent.countP (·.key = key) = o.owed key := by
    intro key
    have hcount := countP_set_add hc (fun h => h.work.key = key ∧ h.isOwed) b
    have hkey := hsent key
    simp only [hwork, decide_eq_true_eq] at hcount
    unfold owed
    rw [hhandlers]
    omega
  refine ⟨⟨hreports.trans h.reports, ?_, ?_⟩, ⟨sent, hcompletions.symm⟩, ?_⟩
  · intro e he
    rw [hhandlers] at he
    rcases mem_or_eq_of_mem_set he with he | rfl
    · exact h.skips e he
    · exact hskip
  · intro key
    have hcount := countP_set_add hc (·.work.key = key) b
    have hkey := howed key
    have hold := h.received key
    rw [hwork, ← hhandlers] at hcount
    rw [hcompletions, countP_append]
    omega
  · intro key
    have hkey := howed key
    rw [hqueue, hcompletions, countP_append]
    omega

variable {a : OrchestratorStep}

theorem Accounted.step (h : o.Accounted) (hstep : Steps o a o') : o.Keeps o' := by
  cases hstep with
  | receive work rest hqueue hfree =>
    have hnew : (o.handlerOf work).work = work ∧ (o.handlerOf work).isOwed
        ∧ ((o.handlerOf work).isSkip → (o.handlerOf work).stage ≠ .fetching
          ∧ (o.handlerOf work).stage ≠ .reporting) := by
      unfold handlerOf
      grind
    have howed : ∀ key, (o.handlers ++ [o.handlerOf work]).countP
        (fun h => h.work.key = key ∧ h.isOwed) = o.owed key + if work.key = key then 1 else 0 := by
      intro key
      simp [owed, hnew.1, hnew.2.1]
    refine ⟨⟨h.reports, ?_, fun key => ?_⟩, prefix_rfl, fun key => ?_⟩
    · have hold := h.skips
      grind
    · have hold := h.received key
      have hkey := howed key
      simp only [countP_append, countP_singleton, hnew.1, owed, decide_eq_true_eq]
        at hkey hold ⊢
      omega
    · have hkey := howed key
      rw [hqueue, countP_cons]
      simp only [owed, decide_eq_true_eq] at hkey ⊢
      omega
  | fetched i c success hc hstage =>
    have hskip := h.skips c (mem_of_getElem? hc)
    refine h.moves [] hc rfl (append_nil _).symm (fun key => ?_) rfl rfl rfl ?_ <;> grind
  | mark i c hc hstage | settle i c hc hstage | check i c hc hstage | release i c hc hstage =>
    refine h.moves [] hc rfl (append_nil _).symm (fun key => ?_) rfl rfl rfl ?_ <;> grind
  | report i c hc hstage =>
    have hskip := h.skips c (mem_of_getElem? hc)
    have hsent : (o.report c).completions
        = o.completions ++ [⟨c.work.key, c.fetched == some true⟩] := by
      simp [report, h.reports]
    refine h.moves _ hc rfl hsent (fun key => ?_) rfl rfl rfl ?_ <;> grind

/-- No item was received as a duplicate. -/
def NoSkips (o : Orchestrator κ) : Prop := ∀ h ∈ o.handlers, h.isSkip = false

/-- A step receives no duplicate exactly if it adds none. -/
theorem noSkips_step (hstep : Steps o a o') : o'.NoSkips ↔ o.NoSkips ∧ o.TakesNew a := by
  -- a handler that moves on is a duplicate as much as before
  have hset : ∀ {i : Nat} {c b : Handler κ}, o.handlers[i]? = some c →
      o'.handlers = o.handlers.set i b → b.isSkip = c.isSkip →
      (o'.NoSkips ↔ o.NoSkips ∧ True) := by
    intro i c b hc hhandlers hb
    obtain ⟨front, back, _, hl, hset⟩ := exists_split hc
    simp only [NoSkips]
    grind
  cases hstep with
  | receive work rest hqueue _ =>
    have hnew : (o.handlerOf work).isSkip = false ↔ work.key ∉ o.fetchingKeys := by
      unfold handlerOf
      split <;> simp_all [Handler.isSkip]
    simp only [NoSkips, TakesNew]
    grind
  | fetched i c success hc _ | mark i c hc _ | report i c hc _ | settle i c hc _ | check i c hc _ =>
    exact hset hc rfl rfl
  | release i c hc _ => exact hset hc rfl rfl

end Orchestrator

-- == the system

namespace ListSystem

variable {s s' : ListSystem κ}

/-- The accounts of the orchestrator, and the sets of the discovery
against what it is owed. -/
structure Accounted (s : ListSystem κ) : Prop where
  orch : s.orch.Accounted
  taken_le : s.taken ≤ s.orch.completions.length
  tracked : Tracked s.disc s.owed

/-- The completions received are behind the discovery. -/
theorem owed_add (s : ListSystem κ) (key : κ) :
    s.owed key + (s.orch.completions.take s.taken).countP (·.key = key)
      = s.orch.queue.countP (·.key = key) + s.orch.owed key
        + s.orch.completions.countP (·.key = key) := by
  have hsplit := congrArg (countP (·.key = key)) (take_append_drop s.taken s.orch.completions)
  rw [countP_append] at hsplit
  unfold owed channel
  omega

theorem Accounted.orchestrator (h : s.Accounted) {a : OrchestratorStep} {o : Orchestrator κ}
    (hstep : s.orch.step a = some o) : Accounted { s with orch := o } := by
  obtain ⟨hacc, ⟨more, hmore⟩, hkeeps⟩ := h.orch.step (.of_step hstep)
  have howed : owed { s with orch := o } = s.owed := by
    funext key
    have hnew := owed_add { s with orch := o } key
    have hold := s.owed_add key
    simp only [← hmore, take_append_of_le_length h.taken_le] at hnew
    rw [hmore, hkeeps key] at hnew
    omega
  refine ⟨hacc, ?_, howed ▸ h.tracked⟩
  have hle := h.taken_le
  show s.taken ≤ o.completions.length
  rw [← hmore, length_append]
  omega

theorem Accounted.discovery (h : s.Accounted) {m : Move κ} {d : Discovery κ} (hnext : s.IsNext m)
    (hmove : s.disc.apply m = some d) :
    Accounted { disc := d, orch := s.handOver m, taken := s.takenAfter m } := by
  have hother : m ≠ .send → (∀ kc, m ≠ .complete kc) →
      Accounted { disc := d, orch := s.orch, taken := s.taken } :=
    fun hm hm' => ⟨h.orch, h.taken_le, h.tracked.apply hm hm' hmove⟩
  cases m with
  | list keys | listFailed | object | finishPage more => exact hother nofun nofun
  | send =>
    obtain ⟨key, rest, last, hphase, rfl⟩ := Discovery.apply_send hmove
    have hover : s.handOver .send = { s.orch with queue := s.orch.queue ++ [⟨key, none⟩] } := by
      simp only [handOver, hphase]
    rw [hover]
    refine ⟨⟨h.orch.reports, h.orch.skips, h.orch.received⟩, h.taken_le, ?_⟩
    have howed : ∀ d : Discovery κ,
        owed ⟨d, { s.orch with queue := s.orch.queue ++ [⟨key, none⟩] }, s.taken⟩
          = Function.update s.owed key (s.owed key + 1) := by
      intro d
      funext k
      simp only [owed, channel, Orchestrator.owed,
        Function.update_apply]
      grind
    exact (howed _).symm ▸ h.tracked.send hphase
  | complete kc =>
    obtain ⟨_, rfl⟩ := Discovery.apply_complete hmove
    replace hnext : s.channel.head? = some kc := hnext
    obtain ⟨rest, hchannel⟩ : ∃ rest, s.channel = kc :: rest := by
      cases hc : s.channel <;> simp_all
    have hrest : s.orch.completions.drop (s.taken + 1) = rest := by
      have htail := congrArg tail hchannel
      rwa [channel, tail_drop] at htail
    have hlt : s.taken + 1 ≤ s.orch.completions.length := by
      have hlen := congrArg length hchannel
      rw [channel, length_drop, length_cons] at hlen
      omega
    have howed : ∀ d : Discovery κ, owed ⟨d, s.orch, s.taken + 1⟩
        = Function.update s.owed kc.key (s.owed kc.key - 1) := by
      intro d
      funext k
      unfold channel at hchannel
      simp only [owed, channel, Function.update_apply]
      grind
    refine ⟨h.orch, hlt, ?_⟩
    show Tracked _ (owed ⟨_, s.orch, s.taken + 1⟩)
    rw [howed]
    apply h.tracked.handleCompletion
    simp [owed, hchannel]

variable {a : ListStep κ}

theorem accounted_step (h : s.Accounted) (happ : s.apply a = some s') : s'.Accounted := by
  cases a with
  | discovery m =>
    simp only [apply] at happ
    split at happ
    case isFalse => cases happ
    case isTrue hnext =>
      obtain ⟨d, hmove, rfl⟩ := map_eq_some_iff.mp happ
      exact h.discovery hnext hmove
  | orchestrator step =>
    obtain ⟨o, hstep, rfl⟩ := map_eq_some_iff.mp happ
    exact h.orchestrator hstep

theorem accounted_new (startAfterInit : Option κ) : (new startAfterInit).Accounted where
  orch := ⟨rfl, nofun, fun _ => rfl⟩
  taken_le := Nat.le_refl _
  tracked := .new startAfterInit

theorem noSkips_apply (happ : s.apply a = some s') :
    s'.orch.NoSkips ↔ s.orch.NoSkips ∧ s.TakesNew a := by
  cases a with
  | discovery m =>
    simp only [apply] at happ
    split at happ
    case isFalse => cases happ
    case isTrue =>
      obtain ⟨d, _, rfl⟩ := map_eq_some_iff.mp happ
      have hhandlers : (s.handOver m).handlers = s.orch.handlers := by
        unfold handOver
        split
        · split <;> rfl
        · rfl
      simp only [Orchestrator.NoSkips, hhandlers, TakesNew, and_true]
  | orchestrator step =>
    obtain ⟨o, hstep, rfl⟩ := map_eq_some_iff.mp happ
    exact Orchestrator.noSkips_step (.of_step hstep)

/-- In an idle state only duplicates are owed an answer. -/
theorem owed_idle (hidle : s.orch.IsIdle) (key : κ) :
    s.orch.owed key = s.orch.handlers.countP fun h => h.work.key = key ∧ h.isSkip := by
  apply countP_congr
  intro h hmem
  simp [Handler.isOwed, Stage.isUnreported, hidle.2 h hmem]

end ListSystem

open Lib (runList StepsMeet)

/-- When no work waits and no task is running, as many completions have
been sent for every key as work items were received exactly if no item
was received while its key was being fetched; and once the discovery has
received them all, every key in flight is done, exactly then. -/
theorem completions_answer_work (startAfterInit : Option κ) (trace : List (ListStep κ))
    {s : ListSystem κ} (hrun : runList ListSystem.apply (.new startAfterInit) trace = some s)
    (hidle : s.orch.IsIdle) :
    ((∀ key, s.answered key = s.received key)
        ↔ StepsMeet ListSystem.apply ListSystem.TakesNew (.new startAfterInit) trace)
      ∧ (s.channel = [] → s.disc.phase.waiting = none →
          ((∀ key ∈ s.disc.inFlight, key ∈ s.disc.completedSet)
            ↔ StepsMeet ListSystem.apply ListSystem.TakesNew (.new startAfterInit) trace)) := by
  have hacc : s.Accounted :=
    (Lib.runList_reachable trace .init hrun).invariant
      (ListSystem.accounted_new startAfterInit)
      fun _ _ _ h _ happ => ListSystem.accounted_step h happ
  have hmeets : StepsMeet ListSystem.apply ListSystem.TakesNew (.new startAfterInit) trace
      ↔ s.orch.NoSkips := by
    have hsteps : s.orch.NoSkips ↔ (ListSystem.new startAfterInit).orch.NoSkips
        ∧ StepsMeet ListSystem.apply ListSystem.TakesNew (.new startAfterInit) trace :=
      Lib.runList_iff_stepsMeet
        (fun _ _ _ happ => ListSystem.noSkips_apply happ) trace hrun
    rw [hsteps]
    exact (and_iff_right (nofun : (ListSystem.new startAfterInit).orch.NoSkips)).symm
  have hskips : s.orch.NoSkips ↔ ∀ key, s.orch.owed key = 0 := by
    simp only [ListSystem.owed_idle hidle, countP_eq_zero]
    exact ⟨fun h _ c hc hkey => by simp [h c hc] at hkey,
      fun h c hc => by simpa using h c.work.key c hc⟩
  rw [hmeets, hskips]
  constructor
  · refine forall_congr' fun key => ?_
    have hkey := hacc.orch.received key
    unfold ListSystem.answered ListSystem.received
    omega
  · intro hchannel hphase
    have howed : ∀ key, s.owed key = s.orch.owed key := by
      intro key
      simp [ListSystem.owed, hchannel, hidle.1]
    have hdone := hacc.tracked.done
    have hone := hacc.tracked.owed_one
    have hwaits := hacc.tracked.waits
    grind

/-- A key whose fetch fails is listed again once its task has released it,
and fetched. -/
theorem released_key_is_answered :
    ∃ s, runList ListSystem.apply (.new none)
        [.discovery (.list ["a"]), .discovery .object, .discovery .send, .orchestrator .receive,
          .orchestrator (.fetched 0 false), .orchestrator (.advance 0), .orchestrator (.advance 0),
          .orchestrator (.advance 0), .discovery (.complete ⟨"a", false⟩),
          .discovery (.finishPage false), .discovery (.list ["a"]), .discovery .object,
          .discovery .send, .orchestrator .receive, .orchestrator (.fetched 1 true),
          .orchestrator (.advance 1), .orchestrator (.advance 1), .orchestrator (.advance 1),
          .orchestrator (.advance 1)] = some s
      ∧ s.received "a" = 2 ∧ s.orch.IsIdle ∧ ∀ key, s.answered key = s.received key := by
  suffices hall : ∀ trace, (Lib.runWhen ListSystem.apply ListSystem.TakesNew (.new none) trace).map
      (fun s => (s.received "a", s.orch.queue, s.orch.handlers.map (·.stage)))
        = some (2, [], [.finished, .finished]) →
      ∃ s, runList ListSystem.apply (.new none) trace = some s ∧ s.received "a" = 2
        ∧ s.orch.IsIdle ∧ ∀ key, s.answered key = s.received key from hall _ (by decide +kernel)
  intro trace hrun
  obtain ⟨s, hs, hproj⟩ := map_eq_some_iff.mp hrun
  obtain ⟨hreceived, hqueue, hstages⟩ : _ ∧ _ ∧ _ := by simpa using hproj
  obtain ⟨hmeets, hlist⟩ := Lib.runWhen_eq_some _ hs
  have hidle : s.orch.IsIdle := by
    refine ⟨hqueue, fun h hh => ?_⟩
    have hmem := mem_map_of_mem (f := (·.stage)) hh
    rw [hstages] at hmem
    exact (mem_pair.mp hmem).elim id id
  exact ⟨s, hlist, hreceived, hidle, (completions_answer_work none _ hlist hidle).1.mpr hmeets⟩

/-- A failed key is listed and dispatched again before its task has
released it: the second item is never answered, and the key stays in
flight. -/
theorem redispatched_key_is_not_answered :
    (runList ListSystem.apply (.new none)
        [.discovery (.list ["a"]), .discovery .object, .discovery .send,
          .orchestrator .receive, .orchestrator (.fetched 0 false), .orchestrator (.advance 0),
          .discovery (.complete ⟨"a", false⟩), .discovery (.finishPage false),
          .discovery (.list ["a"]), .discovery .object, .discovery .send, .orchestrator .receive,
          .orchestrator (.advance 0), .orchestrator (.advance 0)]).map
      (fun s => ((s.orch.queue.length, s.orch.handlers.map (·.stage), s.channel.length),
        (s.received "a", s.answered "a"),
        decide (s.disc.inFlight = {"a"} ∧ s.disc.completedSet = ∅)))
      = some ((0, [Stage.finished, Stage.finished], 0), (2, 1), true) := by
  decide +kernel

end FastForward.Io.S3
