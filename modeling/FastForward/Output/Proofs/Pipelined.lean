/-
What "Ok" of the pipelined sink means.

Buffers are conserved (`Conserves`): what the calls have handed over is,
in this order, what was passed to `write`, the buffer that is being
written and the buffers that are queued. A call that has returned Ok has
handed over its bytes, once, and has not heard of their write. So the
error of a failed write, which a LATER call looks up, is never the
result of the call it belongs to, and a run keeps the promise of Ok
exactly when none of its writes fails.
-/
import FastForward.Output.Proofs.PipelinedSteps

namespace FastForward.Output.Pipelined

open Core Lib List WriterMsg Pipeline

-- == conservation

/-- The buffer that is being written. -/
def Writer.current : Writer → List (Nat × Bytes)
  | .writing call buf => [(call, buf)]
  | _ => []

def WriterMsg.data? : WriterMsg → Option (Nat × Bytes)
  | .data call buf => some (call, buf)
  | .control _ => none

/-- The buffers handed over so far, each with its call. -/
def Pipeline.handed (s : Pipeline) : List (Nat × Bytes) :=
  s.writes.map (fun w => (w.call, w.buf))
    ++ (s.writer.current ++ s.filled.filterMap data?)

/-- Where the caller is in the call it is in. -/
def CallerFits (calls : List (Except IoError Bytes)) (outcomes : List Outcome) : Caller → Prop
  | .idle | .requesting _ | .awaitingAck _ => calls.length = outcomes.length
  | .acquiring serialized =>
    ∃ earlier, calls = earlier ++ [serialized] ∧ earlier.length = outcomes.length
  | .sending buf outcome => ∃ earlier serialized, calls = earlier ++ [serialized]
      ∧ earlier.length = outcomes.length ∧ (buf, outcome) = prepared serialized

/-- The call that handed the buffer over has serialized into it, and has
ended as one that knows nothing of the write. -/
def HandedBy (calls : List (Except IoError Bytes)) (outcomes : List Outcome)
    (handed : Nat × Bytes) : Prop :=
  ∃ serialized, calls[handed.1]? = some serialized
    ∧ (handed.2, outcomes[handed.1]?) = ((prepared serialized).1, some (prepared serialized).2)

/-- Buffers are handed over in the order of the calls, at most one by each
call, and exactly one by a call that ends with Ok. -/
structure Conserves (s : Pipeline) : Prop where
  callerFits : CallerFits s.calls s.outcomes s.caller
  handedBy : ∀ p ∈ s.handed, HandedBy s.calls s.outcomes p
  increasing : s.handed.Pairwise fun p q => p.1 < q.1
  ok_handed : ∀ i, s.outcomes[i]? = some .ok →
    ∃ buf, s.calls[i]? = some (.ok buf) ∧ (i, buf) ∈ s.handed

theorem HandedBy.mono {calls : List (Except IoError Bytes)} {outcomes : List Outcome}
    {p : Nat × Bytes} (h : HandedBy calls outcomes p) (moreCalls : List (Except IoError Bytes))
    (moreOutcomes : List Outcome) : HandedBy (calls ++ moreCalls) (outcomes ++ moreOutcomes) p := by
  obtain ⟨serialized, hcall, heq⟩ := h
  obtain ⟨hbuf, houtcome⟩ := Prod.mk.inj heq
  refine ⟨serialized, getElem?_append_of_some _ hcall, ?_⟩
  rw [hbuf, getElem?_append_of_some _ houtcome]

section Conserves

variable {s s' : Pipeline}

/-- Steps that leave the calls alone. -/
theorem Conserves.frame (h : Conserves s) (hhanded : s'.handed = s.handed)
    (hcalls : s'.calls = s.calls) (houtcomes : s'.outcomes = s.outcomes)
    (hcaller : CallerFits s.calls s.outcomes s'.caller) : Conserves s' := by
  refine ⟨?_, ?_, ?_, ?_⟩
  · rw [hcalls, houtcomes]
    exact hcaller
  · rw [hhanded, hcalls, houtcomes]
    exact h.handedBy
  · rw [hhanded]
    exact h.increasing
  · rw [hhanded, hcalls, houtcomes]
    exact h.ok_handed

theorem Conserves.begin (h : Conserves s) (serialized : Except IoError Bytes)
    (hcaller : s.calls.length = s.outcomes.length) :
    Conserves { s with calls := s.calls ++ [serialized], caller := .acquiring serialized } where
  callerFits := ⟨s.calls, rfl, hcaller⟩
  handedBy := fun p hp => by
    have := (h.handedBy p hp).mono [serialized] []
    rwa [append_nil] at this
  increasing := h.increasing
  ok_handed := fun i hi => by
    obtain ⟨buf, hcall, hmem⟩ := h.ok_handed i hi
    exact ⟨buf, getElem?_append_of_some _ hcall, hmem⟩

variable {outcome : Outcome}

/-- A call ends with no buffer handed over. -/
theorem Conserves.finish (h : Conserves s) (hne : outcome ≠ .ok)
    (hcaller : s.calls.length = s.outcomes.length + 1) : Conserves (s.finish outcome) where
  callerFits := by
    show s.calls.length = (s.outcomes ++ [outcome]).length
    rw [hcaller, length_append, length_singleton]
  handedBy := fun p hp => by
    have := (h.handedBy p hp).mono [] [outcome]
    rwa [append_nil] at this
  increasing := h.increasing
  ok_handed := fun i hi => by
    rcases getElem?_append_singleton hi with hi | ⟨-, heq⟩
    · exact h.ok_handed i hi
    · exact absurd heq hne

theorem handed_push (s : Pipeline) (buf : Bytes) (outcome : Outcome) :
    ({ s with filled := s.filled ++ [data s.outcomes.length buf] }.finish outcome).handed
      = s.handed ++ [(s.outcomes.length, buf)] := by
  simp [handed, finish, data?]

/-- A call ends with its buffer handed over. -/
theorem Conserves.handOver (h : Conserves s) {buf : Bytes}
    (hcaller : s.caller = .sending buf outcome) :
    Conserves
      ({ s with filled := s.filled ++ [data s.outcomes.length buf] }.finish outcome) := by
  have hfits := h.callerFits
  rw [hcaller] at hfits
  obtain ⟨earlier, serialized, hcalls, hlength, hprepared⟩ := hfits
  have hbuf : buf = (prepared serialized).1 := congrArg Prod.fst hprepared
  have houtcome : outcome = (prepared serialized).2 := congrArg Prod.snd hprepared
  have hcall : s.calls[s.outcomes.length]? = some serialized := by
    rw [hcalls, ← hlength, getElem?_concat_length]
  refine ⟨?_, ?_, ?_, ?_⟩
  · show s.calls.length = (s.outcomes ++ [outcome]).length
    rw [hcalls, length_append, length_append, hlength]
    rfl
  · rw [handed_push]
    intro p hp
    rcases mem_append.mp hp with hold | hnew
    · have := (h.handedBy p hold).mono [] [outcome]
      rwa [append_nil] at this
    · rw [mem_singleton.mp hnew]
      refine ⟨serialized, hcall, ?_⟩
      show (buf, (s.outcomes ++ [outcome])[s.outcomes.length]?) = _
      rw [getElem?_concat_length, hbuf, houtcome]
  · rw [handed_push]
    refine pairwise_append.mpr ⟨h.increasing, pairwise_singleton _ _, ?_⟩
    intro p hp q hq
    rw [mem_singleton.mp hq]
    -- an earlier buffer is of a call that has ended
    obtain ⟨_, -, heq⟩ := h.handedBy p hp
    exact (List.getElem?_eq_some_iff.mp (Prod.mk.inj heq).2).1
  · rw [handed_push]
    intro i hi
    rcases getElem?_append_singleton hi with hi | ⟨rfl, rfl⟩
    · obtain ⟨buf', hcall', hmem⟩ := h.ok_handed i hi
      exact ⟨buf', hcall', mem_append_left _ hmem⟩
    · refine ⟨buf, ?_, mem_append_right _ (mem_singleton.mpr rfl)⟩
      cases serialized with
      | ok buf' =>
        rw [hbuf]
        exact hcall
      | error e => cases houtcome

theorem CallerFits.length_of_busy {calls : List (Except IoError Bytes)} {outcomes : List Outcome}
    {earlier : List (Except IoError Bytes)} {serialized : Except IoError Bytes}
    (hcalls : calls = earlier ++ [serialized]) (hlength : earlier.length = outcomes.length) :
    calls.length = outcomes.length + 1 := by
  rw [hcalls, length_append, hlength, length_singleton]

theorem Conserves.transition (h : Conserves s) {a : Action} (ht : Transition s a s') :
    Conserves s' := by
  have hfits := h.callerFits
  cases ht with
  | reported serialized failure errors hcaller herrors =>
    rw [hcaller] at hfits
    have hbegun := h.begin serialized hfits
    have htaken : Conserves
        { s with calls := s.calls ++ [serialized], caller := .acquiring serialized, errors } :=
      hbegun.frame rfl rfl rfl hbegun.callerFits
    exact htaken.finish nofun (CallerFits.length_of_busy rfl hfits)
  | began serialized hcaller =>
    rw [hcaller] at hfits
    exact h.begin serialized hfits
  | acquired serialized hcaller =>
    rw [hcaller] at hfits
    obtain ⟨earlier, hcalls, hlength⟩ := hfits
    exact h.frame rfl rfl rfl ⟨earlier, serialized, hcalls, hlength, rfl⟩
  | notAcquired serialized e hcaller =>
    rw [hcaller] at hfits
    obtain ⟨earlier, hcalls, hlength⟩ := hfits
    exact h.finish nofun (CallerFits.length_of_busy hcalls hlength)
  | handedOver buf outcome hcaller hwriter => exact h.handOver hcaller
  | notHandedOver buf outcome outcome' hcaller houtcome =>
    rw [hcaller] at hfits
    obtain ⟨earlier, serialized, hcalls, hlength, -⟩ := hfits
    exact h.finish houtcome.1 (CallerFits.length_of_busy hcalls hlength)
  | requested _ hcaller | controlFailed _ _ hcaller | acked _ _ hcaller _ =>
    rw [hcaller] at hfits
    exact h.frame rfl rfl rfl hfits
  | controlSent request hcaller hwriter =>
    rw [hcaller] at hfits
    refine h.frame ?_ rfl rfl hfits
    simp [handed, data?]
  | dropped hcaller => exact h.frame rfl rfl rfl hfits
  | tookData call buf filled hwriter hfilled =>
    refine h.frame ?_ rfl rfl hfits
    simp [handed, Writer.current, data?, hwriter, hfilled]
  | tookControl request filled hwriter hfilled =>
    refine h.frame ?_ rfl rfl hfits
    rw [handed, Pipeline.handed, hwriter, hfilled]
    rfl
  | wrote call buf error hwriter =>
    refine h.frame ?_ rfl rfl hfits
    cases error <;> simp [Pipeline.handed, Pipeline.write, Writer.current, hwriter]
  | reportedFailure _ hwriter | recycled hwriter | exited hwriter _ =>
    refine h.frame ?_ rfl rfl hfits
    simp [Pipeline.handed, report, recycle, Writer.current, hwriter]
  | acknowledged request hwriter =>
    refine h.frame ?_ rfl rfl hfits
    cases request <;> simp [Pipeline.handed, acknowledge, Writer.current, hwriter]

end Conserves

-- == reports

/-- A write has failed so. -/
def Failed (writes : List Write) (failure : WriteError) : Prop :=
  ∃ buf, { call := failure.call, buf, error := some failure.error } ∈ writes

theorem Failed.mono {writes : List Write} {failure : WriteError} (h : Failed writes failure)
    (more : List Write) : Failed (writes ++ more) failure := by
  obtain ⟨buf, hmem⟩ := h
  exact ⟨buf, mem_append_left _ hmem⟩

/-- Every error that is on its way is one of a failed write, and so is
every error that a call has returned, which is a later call. -/
structure Reports (s : Pipeline) : Prop where
  queued : ∀ failure ∈ s.errors, Failed s.writes failure
  reporting : ∀ failure, s.writer = .reporting failure → Failed s.writes failure
  returned : ∀ j failure, s.outcomes[j]? = some (.writeFailed failure) →
    Failed s.writes failure ∧ failure.call < j

section Reports

variable {s s' : Pipeline}

theorem mem_handed_of_mem_writes {w : Write} (hw : w ∈ s.writes) : (w.call, w.buf) ∈ s.handed :=
  mem_append_left _ (mem_map_of_mem hw)

/-- A write is of a call that has ended. -/
theorem Conserves.call_lt (h : Conserves s) {failure : WriteError}
    (hf : Failed s.writes failure) : failure.call < s.outcomes.length := by
  obtain ⟨buf, hmem⟩ := hf
  obtain ⟨_, -, heq⟩ := h.handedBy _ (mem_handed_of_mem_writes hmem)
  exact (List.getElem?_eq_some_iff.mp (Prod.mk.inj heq).2).1

/-- Steps of the writer thread that leave errors and writes alone. -/
theorem Reports.frame (h : Reports s) (herrors : s'.errors = s.errors)
    (hwrites : s'.writes = s.writes) (houtcomes : s'.outcomes = s.outcomes)
    (hwriter : ∀ failure, s'.writer = .reporting failure → s.writer = .reporting failure) :
    Reports s' where
  queued := by
    rw [herrors, hwrites]
    exact h.queued
  reporting := fun failure hf => by
    rw [hwrites]
    exact h.reporting failure (hwriter failure hf)
  returned := by
    rw [hwrites, houtcomes]
    exact h.returned

/-- A call ends that is not told of a failure. -/
theorem Reports.finish (h : Reports s) {outcome : Outcome}
    (hne : ∀ failure, outcome ≠ .writeFailed failure) : Reports (s.finish outcome) where
  queued := h.queued
  reporting := h.reporting
  returned := fun j failure hj => by
    rcases getElem?_append_singleton hj with hj | ⟨-, heq⟩
    · exact h.returned j failure hj
    · exact absurd heq (hne failure)

theorem Reports.transition (h : Reports s) (hc : Conserves s) {a : Action}
    (ht : Transition s a s') : Reports s' := by
  cases ht with
  | reported serialized failure errors hcaller herrors =>
    have hfailed : ∀ f ∈ failure :: errors, Failed s.writes f := herrors ▸ h.queued
    refine ⟨fun f hf => hfailed f (mem_cons_of_mem _ hf), h.reporting, fun j f hj => ?_⟩
    rcases getElem?_append_singleton hj with hj | ⟨rfl, heq⟩
    · exact h.returned j f hj
    · cases heq
      have hf := hfailed failure mem_cons_self
      exact ⟨hf, hc.call_lt hf⟩
  | began | acquired | requested | controlSent | controlFailed | acked | dropped =>
    exact h.frame rfl rfl rfl fun _ hf => hf
  | notAcquired serialized e hcaller => exact h.finish nofun
  | handedOver buf outcome hcaller hwriter =>
    have hfits := hc.callerFits
    rw [hcaller] at hfits
    obtain ⟨_, serialized, -, -, hprepared⟩ := hfits
    have hfilled : Reports { s with filled := s.filled ++ [data s.outcomes.length buf] } :=
      h.frame rfl rfl rfl fun _ hf => hf
    refine hfilled.finish fun failure heq => ?_
    cases serialized <;> cases hprepared <;> cases heq
  | notHandedOver buf outcome outcome' hcaller houtcome =>
    have hfits := hc.callerFits
    rw [hcaller] at hfits
    obtain ⟨_, serialized, -, -, hprepared⟩ := hfits
    refine h.finish fun failure heq => ?_
    rcases houtcome.2 with rfl | ⟨e, rfl⟩
    · cases serialized <;> cases hprepared <;> cases heq
    · cases heq
  | tookData | tookControl | recycled | exited => exact h.frame rfl rfl rfl nofun
  | wrote call buf error hwriter =>
    refine ⟨fun f hf => (h.queued f hf).mono _, fun f hf => ?_, fun j f hj => ?_⟩
    · cases error with
      | none => cases hf
      | some e =>
        cases hf
        exact ⟨buf, mem_append_right _ (mem_singleton.mpr rfl)⟩
    · obtain ⟨hfailed, hlt⟩ := h.returned j f hj
      exact ⟨hfailed.mono _, hlt⟩
  | reportedFailure failure hwriter =>
    refine ⟨fun f hf => ?_, nofun, h.returned⟩
    rw [report] at hf
    split at hf
    · rcases mem_append.mp hf with hold | hnew
      · exact h.queued f hold
      · rw [mem_singleton.mp hnew]
        exact h.reporting failure hwriter
    · exact h.queued f hf
  | acknowledged request hwriter =>
    refine h.frame rfl rfl rfl fun f hf => ?_
    cases request <;> cases hf

end Reports

-- == runs

/-- What `write` returned in a step. -/
def Action.returned : Action → List (Option IoError)
  | .write error => [error]
  | _ => []

variable {s s' : Pipeline} {a : Action}

theorem step_writes (h : s.step a = some s') :
    s'.writes.map Write.error = s.writes.map Write.error ++ a.returned := by
  cases step_transition h with
  | wrote call buf error hwriter => exact map_append
  | _ => exact (append_nil _).symm

structure Invariant (s : Pipeline) : Prop where
  conserves : Conserves s
  reports : Reports s
  orderly : Orderly s

theorem Invariant.step (h : Invariant s) (hstep : s.step a = some s') : Invariant s' := by
  have ht := step_transition hstep
  exact ⟨h.conserves.transition ht, h.reports.transition h.conserves ht, h.orderly.transition ht⟩

variable {numBuffers : Nat}

theorem Invariant.new (h : Pipeline.new numBuffers = some s) : Invariant s := by
  rw [Pipeline.new] at h
  split at h
  · cases h
  · cases h
    exact ⟨⟨rfl, nofun, .nil, nofun⟩, ⟨nofun, nofun, nofun⟩,
      .free nofun rfl nofun nofun nofun⟩

variable {trace : List Action}

/-- The invariants of a run, and what `write` returned in it. -/
theorem runList_invariant (h : Invariant s) (hrun : runList step s trace = some s') :
    Invariant s' ∧ s'.writes.map Write.error
      = s.writes.map Write.error ++ trace.flatMap Action.returned := by
  induction trace generalizing s with
  | nil =>
    cases hrun
    exact ⟨h, (append_nil _).symm⟩
  | cons a rest ih =>
    obtain ⟨s₁, hstep, hrun⟩ := runList_cons_eq_some hrun
    obtain ⟨hinv, hwrites⟩ := ih (h.step hstep) hrun
    refine ⟨hinv, ?_⟩
    rw [hwrites, step_writes hstep, flatMap_cons, append_assoc]

theorem mem_flatMap_returned {error : Option IoError} :
    error ∈ trace.flatMap Action.returned ↔ .write error ∈ trace := by
  rw [mem_flatMap]
  constructor
  · rintro ⟨a, ha, herror⟩
    cases a with
    | write error' =>
      rw [mem_singleton.mp herror]
      exact ha
    | _ => cases herror
  · exact fun h => ⟨_, h, mem_singleton.mpr rfl⟩

theorem new_writes (h : Pipeline.new numBuffers = some s) : s.writes = [] := by
  rw [new] at h
  split at h <;> cases h
  rfl

/-- With nothing in flight, Ok means written exactly when no write has
failed. -/
theorem deliveredMeansWritten_of_drained (h : Invariant s) (hdrained : s.Drained) :
    DeliveredMeansWritten s ↔ ∀ w ∈ s.writes, w.error = none := by
  have hhanded : s.handed = s.writes.map fun w => (w.call, w.buf) := by
    obtain ⟨hfilled, hwriter | hwriter⟩ := hdrained <;>
      simp [handed, hfilled, hwriter, Writer.current]
  constructor
  · intro hdelivered w hw
    cases herror : w.error with
    | none => rfl
    | some e =>
      -- the call has ended without knowing of the write
      obtain ⟨serialized, -, heq⟩ := h.conserves.handedBy _ (mem_handed_of_mem_writes hw)
      have hended := (Prod.mk.inj heq).2
      rw [hdelivered.failure_reported w hw e herror] at hended
      cases serialized <;> cases hended
  · intro hnone
    have hfailed : ∀ failure, ¬ Failed s.writes failure := by
      rintro failure ⟨buf, hmem⟩
      cases hnone _ hmem
    refine ⟨fun i hi => ?_, fun w hw error herror => ?_, fun i failure hi => ?_⟩
    · obtain ⟨buf, hcall, hmem⟩ := h.conserves.ok_handed i hi
      rw [hhanded] at hmem
      obtain ⟨w, hw, heq⟩ := mem_map.mp hmem
      obtain ⟨rfl, rfl⟩ := Prod.mk.inj heq
      refine ⟨w.buf, hcall, ?_⟩
      have := hnone w hw
      rw [← this]
      exact hw
    · exact absurd (herror.symm.trans (hnone w hw)) nofun
    · exact absurd (h.reports.returned i failure hi).1 (hfailed failure)

/-- From every state of a run the writer thread gets through its queue,
and then Ok means written exactly when no write of the run has failed. -/
theorem Pipeline.deliveredMeansWritten_iff {numBuffers : Nat} {s₀ s : Pipeline}
    {trace : List Action} (hnew : Pipeline.new numBuffers = some s₀)
    (hrun : runList step s₀ trace = some s) :
    (∃ more s', (∀ a ∈ more, Action.ofWriter a = true)
        ∧ runList step s more = some s' ∧ s'.Drained)
      ∧ (s.Drained → (DeliveredMeansWritten s ↔ ∀ e, .write (some e) ∉ trace)) := by
  obtain ⟨hinv, hwrites⟩ := runList_invariant (.new hnew) hrun
  refine ⟨drains s hinv.orderly, fun hdrained => ?_⟩
  rw [deliveredMeansWritten_of_drained hinv hdrained]
  rw [new_writes hnew, map_nil, nil_append] at hwrites
  constructor
  · intro hnone e hmem
    rw [← mem_flatMap_returned, ← hwrites] at hmem
    obtain ⟨w, hw, herror⟩ := mem_map.mp hmem
    exact absurd ((hnone w hw).symm.trans herror) nofun
  · intro hnone w hw
    cases herror : w.error with
    | none => rfl
    | some e =>
      refine absurd ?_ (hnone e)
      rw [← mem_flatMap_returned, ← hwrites, ← herror]
      exact mem_map_of_mem hw

/-- A batch is accepted, its write fails, and the next batch is told. -/
theorem Pipeline.next_batch_is_told_of_failure :
    let e : IoError := ⟨.other, "No space left on device"⟩
    ∃ s₀ s, Pipeline.new 3 = some s₀
      ∧ runList step s₀ [.sendBatch (.ok [1]), .acquireBuffer, .sendFilled, .receive,
          .write (some e), .report, .recycle, .sendBatch (.ok [2])] = some s
      ∧ s.Drained ∧ s.outcomes.map Outcome.sendResult = [.ok, .ioError e]
      ∧ ¬ DeliveredMeansWritten s := by
  intro e
  refine ⟨_, _, rfl, rfl, ⟨rfl, .inl rfl⟩, rfl, fun h => ?_⟩
  cases h.reported_own 1 { call := 0, error := e } rfl

/-- Two batches of which the second is handed over while the first is
being written. -/
theorem Pipeline.overlapping_batches_are_written :
    let trace : List Action := [.sendBatch (.ok [1]), .acquireBuffer, .sendFilled, .receive,
      .sendBatch (.ok [2]), .acquireBuffer, .sendFilled, .write none, .recycle, .receive,
      .write none, .recycle]
    let s : Pipeline :=
      { numBuffers := 3, caller := .idle, connected := true, filled := [], emptyBuffers := 3,
        errors := [], ack := false, writer := .receiving, calls := [.ok [1], .ok [2]],
        outcomes := [.ok, .ok], writes := [⟨0, [1], none⟩, ⟨1, [2], none⟩] }
    (Pipeline.new 3).bind (runList step · trace) = some s ∧ s.Drained
      ∧ DeliveredMeansWritten s := by
  intro trace s
  have hdrained : s.Drained := ⟨rfl, .inl rfl⟩
  obtain ⟨s₀, hnew, hrun⟩ : ∃ s₀, new 3 = some s₀
      ∧ runList step s₀ trace = some s := ⟨_, rfl, rfl⟩
  refine ⟨rfl, hdrained, ((deliveredMeansWritten_iff hnew hrun).2 hdrained).mpr ?_⟩
  intro e hmem
  simp [trace] at hmem

end FastForward.Output.Pipelined
