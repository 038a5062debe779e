/-
The steps of the pipelined sink.

`Transition` says once what a step can do. A control message is the last
in the queue, since the caller awaits its ack (`Orderly`), so nothing is
queued behind a writer thread that has exited, and the writer thread needs
no help to get through its queue (`drains`).
-/
import FastForward.Output.Pipelined

namespace FastForward.Output.Pipelined

open Core Lib List Pipeline

-- == transitions

/-- The buffer a batch is serialized into, and how its call ends once the
buffer is handed over. -/
def prepared : Except IoError Bytes → Bytes × Outcome
  | .ok buf => (buf, .ok)
  | .error e => ([], .unserializable e)

/-- What a step can do. -/
inductive Transition (s : Pipeline) : Action → Pipeline → Prop
  | reported (serialized : Except IoError Bytes) (failure : WriteError) (errors : List WriteError)
      (hcaller : s.caller = .idle) (herrors : s.errors = failure :: errors) :
      Transition s (.sendBatch serialized)
        ({ s with calls := s.calls ++ [serialized], errors }.finish (.writeFailed failure))
  | began (serialized : Except IoError Bytes) (hcaller : s.caller = .idle) :
      Transition s (.sendBatch serialized)
        { s with calls := s.calls ++ [serialized], caller := .acquiring serialized }
  | acquired (serialized : Except IoError Bytes) (hcaller : s.caller = .acquiring serialized) :
      Transition s .acquireBuffer { s with
        emptyBuffers := s.emptyBuffers - 1
        caller := .sending (prepared serialized).1 (prepared serialized).2 }
  | notAcquired (serialized : Except IoError Bytes) (e : IoError)
      (hcaller : s.caller = .acquiring serialized) :
      Transition s .acquireBuffer (s.finish (.disconnected e))
  | handedOver (buf : Bytes) (outcome : Outcome) (hcaller : s.caller = .sending buf outcome)
      (hwriter : s.writer ≠ .exited) :
      Transition s .sendFilled
        ({ s with filled := s.filled ++ [WriterMsg.data s.outcomes.length buf] }.finish outcome)
  | notHandedOver (buf : Bytes) (outcome outcome' : Outcome)
      (hcaller : s.caller = .sending buf outcome)
      (houtcome : outcome' ≠ .ok ∧ (outcome' = outcome ∨ ∃ e, outcome' = .disconnected e)) :
      Transition s .sendFilled (s.finish outcome')
  | requested (request : Control) (hcaller : s.caller = .idle) :
      Transition s (.control request) { s with caller := .requesting request }
  | controlSent (request : Control) (hcaller : s.caller = .requesting request)
      (hwriter : s.writer ≠ .exited) :
      Transition s .sendControl { s with
        filled := s.filled ++ [.control request], caller := .awaitingAck request }
  | controlFailed (request : Control) (connected : Bool)
      (hcaller : s.caller = .requesting request) :
      Transition s .sendControl { s with caller := .idle, connected }
  | acked (request : Control) (connected : Bool) (hcaller : s.caller = .awaitingAck request)
      (hack : s.ack = true) :
      Transition s .receiveAck { s with ack := false, caller := .idle, connected }
  | dropped (hcaller : s.caller = .idle) : Transition s .drop { s with connected := false }
  | tookData (call : Nat) (buf : Bytes) (filled : List WriterMsg) (hwriter : s.writer = .receiving)
      (hfilled : s.filled = .data call buf :: filled) :
      Transition s .receive { s with filled, writer := .writing call buf }
  | tookControl (request : Control) (filled : List WriterMsg) (hwriter : s.writer = .receiving)
      (hfilled : s.filled = .control request :: filled) :
      Transition s .receive { s with filled, writer := .controlling request }
  | wrote (call : Nat) (buf : Bytes) (error : Option IoError)
      (hwriter : s.writer = .writing call buf) :
      Transition s (.write error) (s.write call buf error)
  | reportedFailure (failure : WriteError) (hwriter : s.writer = .reporting failure) :
      Transition s .report (s.report failure)
  | recycled (hwriter : s.writer = .recycling) : Transition s .recycle s.recycle
  | acknowledged (request : Control) (hwriter : s.writer = .controlling request) :
      Transition s .acknowledge (s.acknowledge request)
  | exited (hwriter : s.writer = .receiving) (hfilled : s.filled = []) :
      Transition s .exit { s with writer := .exited }

theorem push_ok {s : Pipeline} {msg : WriterMsg} {filled : List WriterMsg}
    (h : s.push msg = some (.ok filled)) : s.writer ≠ .exited ∧ filled = s.filled ++ [msg] := by
  rw [push] at h
  by_cases hconnected : (!s.connected)
  · rw [if_pos hconnected] at h
    cases h
  · rw [if_neg hconnected] at h
    by_cases hwriter : s.writer = .exited
    · rw [if_pos hwriter] at h
      cases h
    · rw [if_neg hwriter] at h
      split at h
      · cases h
        exact ⟨hwriter, rfl⟩
      · cases h

theorem acquireBuffer_transition {s s' : Pipeline} {serialized : Except IoError Bytes}
    (hcaller : s.caller = .acquiring serialized) (h : s.acquireBuffer serialized = some s') :
    Transition s .acquireBuffer s' := by
  rw [acquireBuffer] at h
  split at h
  next =>
    split at h
    · cases h
      exact .notAcquired serialized _ hcaller
    · cases h
  next =>
    cases serialized with
    | ok buf =>
      cases h
      exact .acquired (.ok buf) hcaller
    | error e =>
      cases h
      exact .acquired (.error e) hcaller

theorem sendFilled_transition {s s' : Pipeline} {buf : Bytes} {outcome : Outcome}
    (hcaller : s.caller = .sending buf outcome) (h : s.sendFilled buf outcome = some s') :
    Transition s .sendFilled s' := by
  obtain ⟨pushed, hpush, rfl⟩ := Option.map_eq_some_iff.mp h
  cases pushed with
  | ok filled =>
    obtain ⟨hwriter, rfl⟩ := push_ok hpush
    exact .handedOver buf outcome hcaller hwriter
  | error e =>
    cases outcome with
    | ok => exact .notHandedOver buf .ok _ hcaller ⟨nofun, .inr ⟨e, rfl⟩⟩
    | writeFailed _ | unserializable _ | disconnected _ =>
      exact .notHandedOver buf _ _ hcaller ⟨nofun, .inl rfl⟩

theorem sendControl_transition {s s' : Pipeline} {request : Control}
    (hcaller : s.caller = .requesting request) (h : s.sendControl request = some s') :
    Transition s .sendControl s' := by
  obtain ⟨pushed, hpush, rfl⟩ := Option.map_eq_some_iff.mp h
  cases pushed with
  | ok filled =>
    obtain ⟨hwriter, rfl⟩ := push_ok hpush
    exact .controlSent request hcaller hwriter
  | error e => exact .controlFailed request _ hcaller

theorem receiveAck_transition {s s' : Pipeline} {request : Control}
    (hcaller : s.caller = .awaitingAck request) (h : s.receiveAck request = some s') :
    Transition s .receiveAck s' := by
  unfold receiveAck at h
  by_cases hack : s.ack
  · rw [if_pos hack] at h
    cases request with
    | flush =>
      cases h
      exact .acked .flush s.connected hcaller hack
    | shutdown =>
      dsimp only at h
      split at h
      · cases h
        exact .acked .shutdown false hcaller hack
      · cases h
  · rw [if_neg hack] at h
    cases h

theorem receive_transition {s s' : Pipeline} (hwriter : s.writer = .receiving)
    (h : s.receive = some s') : Transition s .receive s' := by
  rw [receive] at h
  split at h
  next => cases h
  next call buf filled hfilled =>
    cases h
    exact .tookData call buf filled hwriter hfilled
  next request filled hfilled =>
    cases h
    exact .tookControl request filled hwriter hfilled

theorem step_transition {action : Action} {s s' : Pipeline} (h : s.step action = some s') :
    Transition s action s' := by
  unfold step at h
  split at h
  next serialized hcaller =>
    cases h
    rw [sendBatch]
    split
    next failure errors herrors => exact .reported serialized failure errors hcaller herrors
    next => exact .began serialized hcaller
  next hcaller => exact acquireBuffer_transition hcaller h
  next hcaller => exact sendFilled_transition hcaller h
  next request hcaller =>
    cases h
    exact .requested request hcaller
  next hcaller => exact sendControl_transition hcaller h
  next hcaller => exact receiveAck_transition hcaller h
  next hcaller =>
    cases h
    exact .dropped hcaller
  next hwriter => exact receive_transition hwriter h
  next error call buf hwriter =>
    cases h
    exact .wrote call buf error hwriter
  next failure hwriter =>
    cases h
    exact .reportedFailure failure hwriter
  next hwriter =>
    cases h
    exact .recycled hwriter
  next request hwriter =>
    cases h
    exact .acknowledged request hwriter
  next hwriter =>
    rw [exit] at h
    split at h
    next hclosed =>
      cases h
      exact .exited hwriter hclosed.2
    next => cases h
  next => cases h

-- == draining

def AllData (msgs : List WriterMsg) : Prop := ∀ request, .control request ∉ msgs

/-- Where a control message is while the caller awaits its ack, with
nothing queued behind it. -/
inductive Orderly (s : Pipeline) : Prop
  | free (hcaller : ∀ request, s.caller ≠ .awaitingAck request) (hack : s.ack = false)
      (hfilled : AllData s.filled) (hwriter : ∀ request, s.writer ≠ .controlling request)
      (hexited : s.writer = .exited → s.filled = [])
  | queued (request : Control) (datas : List WriterMsg)
      (hcaller : s.caller = .awaitingAck request) (hack : s.ack = false) (hdatas : AllData datas)
      (hfilled : s.filled = datas ++ [.control request])
      (hwriter : ∀ request, s.writer ≠ .controlling request) (hexited : s.writer ≠ .exited)
  | served (request : Control) (hcaller : s.caller = .awaitingAck request) (hack : s.ack = false)
      (hfilled : s.filled = []) (hwriter : s.writer = .controlling request)
  | acknowledged (request : Control) (hcaller : s.caller = .awaitingAck request)
      (hack : s.ack = true) (hfilled : s.filled = [])
      (hwriter : ∀ request, s.writer ≠ .controlling request)

section Orderly

variable {s s' : Pipeline} {msgs : List WriterMsg}

theorem AllData.push (h : AllData msgs) (call : Nat) (buf : Bytes) :
    AllData (msgs ++ [.data call buf]) := by
  intro request hmem
  rcases mem_append.mp hmem with hold | hnew
  · exact h request hold
  · cases mem_singleton.mp hnew

theorem Orderly.free_of_caller (h : Orderly s)
    (hcaller : ∀ request, s.caller ≠ .awaitingAck request) :
    s.ack = false ∧ AllData s.filled ∧ (∀ request, s.writer ≠ .controlling request)
      ∧ (s.writer = .exited → s.filled = []) := by
  cases h with
  | free _ hack hfilled hwriter hexited => exact ⟨hack, hfilled, hwriter, hexited⟩
  | queued request _ hawait | served request hawait | acknowledged request hawait =>
    exact absurd hawait (hcaller request)

/-- Steps of a caller that is free before and after. -/
theorem Orderly.step_free (h : Orderly s) (hcaller : ∀ request, s.caller ≠ .awaitingAck request)
    (hcaller' : ∀ request, s'.caller ≠ .awaitingAck request) (hack : s'.ack = s.ack)
    (hwriter : s'.writer = s.writer)
    (hfilled : s'.filled = s.filled ∨ s.writer ≠ .exited ∧
      ∃ call buf, s'.filled = s.filled ++ [.data call buf]) : Orderly s' := by
  obtain ⟨hfree, hdata, hserving, hexited⟩ := h.free_of_caller hcaller
  refine .free hcaller' (hack.trans hfree) ?_ (hwriter ▸ hserving) ?_
  · rcases hfilled with heq | ⟨-, call, buf, heq⟩
    · rw [heq]
      exact hdata
    · rw [heq]
      exact hdata.push call buf
  · rw [hwriter]
    intro hexit
    rcases hfilled with heq | ⟨hne, -⟩
    · rw [heq]
      exact hexited hexit
    · exact absurd hexit hne

/-- Steps of the writer thread that take no message. -/
theorem Orderly.step_writer (h : Orderly s) (hcaller : s'.caller = s.caller) (hack : s'.ack = s.ack)
    (hfilled : s'.filled = s.filled) (hwriter : ∀ request, s.writer ≠ .controlling request)
    (hwriter' : ∀ request, s'.writer ≠ .controlling request)
    (hexited : s'.writer = .exited → s.filled = []) : Orderly s' := by
  rw [← hfilled] at hexited
  cases h with
  | free hc ha hf _ _ => exact .free (hcaller ▸ hc) (hack.trans ha) (hfilled ▸ hf) hwriter' hexited
  | queued request datas hc ha hd hf _ _ =>
    refine .queued request datas (hcaller.trans hc) (hack.trans ha) hd (hfilled.trans hf) hwriter'
      fun hexit => ?_
    have hnil := hexited hexit
    rw [hfilled, hf] at hnil
    cases append_eq_nil_iff.mp hnil |>.2
  | served request _ _ _ hw => exact absurd hw (hwriter request)
  | acknowledged request hc ha hf _ =>
    exact .acknowledged request (hcaller.trans hc) (hack.trans ha) (hfilled.trans hf) hwriter'

theorem AllData.of_cons {msg : WriterMsg} (h : AllData (msg :: msgs)) :
    AllData msgs := fun request hmem => h request (mem_cons_of_mem _ hmem)

variable {filled : List WriterMsg}

variable (h : Orderly s)

include h

/-- The writer thread takes a buffer. -/
theorem Orderly.takeData {call : Nat} {buf : Bytes}
    (hfilled : s.filled = .data call buf :: filled) :
    Orderly { s with filled, writer := .writing call buf } := by
  cases h with
  | free hc ha hf _ _ =>
    rw [hfilled] at hf
    exact .free hc ha hf.of_cons nofun nofun
  | queued request datas hc ha hd hf _ _ =>
    rw [hfilled] at hf
    cases datas with
    | nil => cases hf
    | cons msg datas =>
      obtain ⟨rfl, rfl⟩ := cons.inj hf
      exact .queued request datas hc ha hd.of_cons rfl nofun nofun
  | served _ _ _ hf _ | acknowledged _ _ _ hf _ =>
    rw [hfilled] at hf
    cases hf

/-- It takes a control message. -/
theorem Orderly.takeControl {request : Control}
    (hfilled : s.filled = .control request :: filled) :
    Orderly { s with filled, writer := .controlling request } := by
  cases h with
  | free _ _ hf _ _ => exact absurd (hfilled ▸ mem_cons_self) (hf request)
  | queued request' datas hc ha hd hf _ _ =>
    rw [hfilled] at hf
    cases datas with
    | nil =>
      cases hf
      exact .served request hc ha rfl rfl
    | cons msg datas =>
      obtain ⟨rfl, -⟩ := cons.inj hf
      exact absurd mem_cons_self (hd request)
  | served _ _ _ hf _ | acknowledged _ _ _ hf _ =>
    rw [hfilled] at hf
    cases hf

theorem Orderly.acknowledge {request : Control}
    (hwriter : s.writer = .controlling request) : Orderly (s.acknowledge request) := by
  cases h with
  | free _ _ _ hw _ | queued _ _ _ _ _ _ hw _ | acknowledged _ _ _ _ hw =>
    exact absurd hwriter (hw request)
  | served request' hc _ hf _ =>
    refine .acknowledged request' hc rfl hf fun request'' => ?_
    cases request <;> exact nofun

theorem Orderly.transition {a : Action} (ht : Transition s a s') : Orderly s' := by
  cases ht with
  | reported _ _ _ hcaller | began _ hcaller | acquired _ hcaller | notAcquired _ _ hcaller
  | notHandedOver _ _ _ hcaller | requested _ hcaller | controlFailed _ _ hcaller =>
    exact h.step_free (hcaller ▸ nofun) nofun rfl rfl (.inl rfl)
  | dropped hcaller =>
    have hfree : ∀ request, s.caller ≠ .awaitingAck request := hcaller ▸ nofun
    exact h.step_free hfree hfree rfl rfl (.inl rfl)
  | handedOver buf outcome hcaller hwriter =>
    exact h.step_free (hcaller ▸ nofun) nofun rfl rfl (.inr ⟨hwriter, _, _, rfl⟩)
  | controlSent request hcaller hwriter =>
    obtain ⟨hack, hdata, hserving, -⟩ := h.free_of_caller (hcaller ▸ nofun)
    exact .queued request s.filled rfl hack hdata rfl hserving hwriter
  | acked request connected hcaller hack =>
    cases h with
    | free hc => exact absurd hcaller (hc request)
    | queued _ _ _ ha | served _ _ ha => exact absurd (ha.symm.trans hack) nofun
    | acknowledged _ _ _ hf hw =>
      exact .free nofun rfl (hf ▸ fun _ => not_mem_nil) hw fun _ => hf
  | tookData call buf filled hwriter hfilled => exact h.takeData hfilled
  | tookControl request filled hwriter hfilled => exact h.takeControl hfilled
  | wrote call buf error hwriter =>
    refine h.step_writer rfl rfl rfl (hwriter ▸ nofun) ?_ ?_ <;> cases error <;> exact nofun
  | reportedFailure failure hwriter | recycled hwriter =>
    exact h.step_writer rfl rfl rfl (hwriter ▸ nofun) nofun nofun
  | acknowledged request hwriter => exact h.acknowledge hwriter
  | exited hwriter hfilled =>
    exact h.step_writer rfl rfl rfl (hwriter ▸ nofun) nofun fun _ => hfilled

/-- Nothing is queued behind a writer thread that has exited. -/
theorem Orderly.filled_of_exited (hexited : s.writer = .exited) :
    s.filled = [] := by
  cases h with
  | free _ _ _ _ hf => exact hf hexited
  | queued _ _ _ _ _ _ _ hne => exact absurd hexited hne
  | served _ _ _ hf _ | acknowledged _ _ _ hf _ => exact hf

end Orderly

section Draining

variable {s s' : Pipeline}

/-- The steps the writer thread has to take, at most. -/
def Pipeline.work (s : Pipeline) : Nat :=
  3 * s.filled.length + match s.writer with
    | .receiving | .exited => 0
    | .recycling | .controlling _ => 1
    | .reporting _ | .writing _ _ => 2

/-- The writer thread has a step to take, in which no write fails. -/
theorem exists_writer_step (h : Orderly s) (hbusy : ¬ s.Drained) :
    ∃ a s', Action.ofWriter a ∧ (∀ e, a ≠ .write (some e)) ∧ s.step a = some s'
      ∧ s'.work < s.work := by
  have hwork := s.work.le_refl
  unfold work at hwork ⊢
  cases hwriter : s.writer with
  | receiving =>
    cases hfilled : s.filled with
    | nil => exact absurd ⟨hfilled, .inl hwriter⟩ hbusy
    | cons msg filled =>
      cases msg with
      | data call buf =>
        refine ⟨.receive, { s with filled, writer := .writing call buf }, rfl, nofun, ?_, ?_⟩
        · simp only [step, hwriter, receive, hfilled]
        · simp only [length_cons]
          omega
      | control request =>
        refine ⟨.receive, { s with filled, writer := .controlling request }, rfl, nofun, ?_, ?_⟩
        · simp only [step, hwriter, receive, hfilled]
        · simp only [length_cons]
          omega
  | writing call buf =>
    refine ⟨.write none, s.write call buf none, rfl, nofun, ?_, ?_⟩
    · simp only [step, hwriter]
    · simp only [write]
      omega
  | reporting failure =>
    refine ⟨.report, s.report failure, rfl, nofun, ?_, ?_⟩
    · simp only [step, hwriter]
    · simp only [report]
      omega
  | recycling =>
    refine ⟨.recycle, s.recycle, rfl, nofun, ?_, ?_⟩
    · simp only [step, hwriter]
    · simp only [recycle]
      omega
  | controlling request =>
    refine ⟨.acknowledge, s.acknowledge request, rfl, nofun, ?_, ?_⟩
    · simp only [step, hwriter]
    · cases request <;> simp only [acknowledge] <;> omega
  | exited => exact absurd ⟨h.filled_of_exited hwriter, .inr hwriter⟩ hbusy

/-- The writer thread gets through its queue. -/
theorem drains (s : Pipeline) (h : Orderly s) : ∃ more s', (∀ a ∈ more, Action.ofWriter a)
    ∧ runList step s more = some s' ∧ s'.Drained := by
  by_cases hdrained : s.Drained
  · exact ⟨[], s, nofun, rfl, hdrained⟩
  · obtain ⟨a, s₁, hwriter, -, hstep, hless⟩ := exists_writer_step h hdrained
    obtain ⟨more, s', hmore, hrun, hend⟩ :=
      drains s₁ (h.transition (step_transition hstep))
    refine ⟨a :: more, s', forall_mem_cons.mpr ⟨hwriter, hmore⟩, ?_, hend⟩
    rw [runList, hstep]
    exact hrun
termination_by s.work

end Draining

end FastForward.Output.Pipelined
