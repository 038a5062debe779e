/-
Ordered commit over whole runs: in every state of every run the
committed checkpoint of a source is the checkpoint of its greatest batch
up to which everything sent has had a receipt applied, and there is none
exactly when no batch qualifies.

`RunInv` is the invariant: the maps represent the history's ledger
(`Tracks`), every id handed out is below the counter, every ticket and
receipt stands for a batch that was sent, and no id is held twice. Each
operation preserves it; the receipt case is `Tracks.apply` and the send
cases are `Tracks.send` and `Tracks.resend`.
-/
import FastForward.Pipeline.Proofs.Tracks
import FastForward.Pipeline.Run

namespace FastForward.Pipeline

open Lib List PipelineMachine.Running

universe u

variable {C : Type u} {s : RunState C}

/-- The ids of the tickets and receipts in users' hands. -/
def RunState.heldIds (s : RunState C) : List BatchId :=
  s.sending.map (·.id) ++ s.requeued.map (·.id) ++ s.receipts.map (·.batchId)

structure RunInv (s : RunState C) : Prop where
  tracks : Tracks s.machine.tracking s.ledger
  functional : s.ledger.Functional
  below : ∀ b ∈ s.sent, b.id < s.machine.nextBatchId
  sending_sent : ∀ t ∈ s.sending, t.batch ∈ s.sent
  requeued_sent : ∀ t ∈ s.requeued, t.batch ∈ s.sent
  receipts_sent : ∀ r ∈ s.receipts, ∃ c, ⟨r.source, r.batchId, c⟩ ∈ s.sent
  applied_receipt : ∀ k ∈ s.applied, k ∈ s.receipts.map (·.batchId)
  nodup : s.heldIds.Nodup

theorem RunInv.init : RunInv (RunState.init (C := C)) := by
  refine ⟨?_, ?_, ?_, ?_, ?_, ?_, ?_, ?_⟩
  · have hempty : (RunState.init (C := C)).ledger = .empty := by
      simp [RunState.ledger, RunState.init, Ledger.empty]
    rw [hempty]
    exact .init
  · simp [Ledger.Functional, RunState.ledger, RunState.init]
  all_goals simp [RunState.init, RunState.heldIds]

-- == ids and lists

variable {k : BatchId}

/-- Ids with a receipt applied are held as receipts. -/
theorem RunInv.mem_receipts (hi : RunInv s) (hk : k ∈ s.applied) :
    ∃ r ∈ s.receipts, r.batchId = k := by
  simpa using hi.applied_receipt k hk

theorem RunInv.applied_lt (hi : RunInv s) (hk : k ∈ s.applied) : k < s.machine.nextBatchId := by
  obtain ⟨r, hr, rfl⟩ := hi.mem_receipts hk
  obtain ⟨c, hc⟩ := hi.receipts_sent r hr
  exact hi.below _ hc

/-- Held ids are below the counter. -/
theorem RunInv.heldIds_lt (hi : RunInv s) (hk : k ∈ s.heldIds) : k < s.machine.nextBatchId := by
  simp only [RunState.heldIds, mem_append, mem_map] at hk
  rcases hk with (⟨t, ht, rfl⟩ | ⟨t, ht, rfl⟩) | ⟨r, hr, rfl⟩
  · exact hi.below _ (hi.sending_sent t ht)
  · exact hi.below _ (hi.requeued_sent t ht)
  · obtain ⟨c, hc⟩ := hi.receipts_sent r hr
    exact hi.below _ hc

variable {i : Nat}

/-- Taking one element out of a list and mapping: a permutation. -/
theorem map_eraseIdx_perm {α β : Type*} (f : α → β) {l : List α} {x : α}
    (h : l[i]? = some x) : (f x :: (l.eraseIdx i).map f).Perm (l.map f) := by
  obtain ⟨hi, rfl⟩ := List.getElem?_eq_some_iff.mp h
  exact (getElem_cons_eraseIdx_perm hi).map f

-- == the operations

variable (hi : RunInv s)

include hi

variable {m : PipelineMachine .running C}

variable (hm : s.machine = .running m) (source : SourceId) (checkpoint : C)

include hm

/-- The batch a submit registers is new, so the ledger grows at the
top. -/
theorem RunInv.submit :
    RunInv { s with
      machine := .running
        (beginSend (createBatch m source checkpoint).1 (createBatch m source checkpoint).2).1
      sending := s.sending ++ [(BatchTicket.new m.nextBatchId source checkpoint).beginSend]
      sent := s.sent ++ [⟨source, m.nextBatchId, checkpoint⟩] } := by
  have hnext : s.machine.nextBatchId = m.nextBatchId := by rw [hm]; rfl
  have hnew : ∀ b ∈ s.sent, b.id ≠ m.nextBatchId := fun b hb =>
    ne_of_lt (hnext ▸ hi.below b hb)
  have happ : m.nextBatchId ∉ s.applied := fun h =>
    absurd (hi.applied_lt h) (by rw [hnext]; exact lt_irrefl _)
  have hledger : ∀ b : Batch C,
      ({ s with sent := s.sent ++ [b] } : RunState C).ledger = s.ledger.send b :=
    fun b => Ledger.send_concat s.sent _ b
  have huniq : ∀ b' ∈ s.ledger.sent, b'.id = m.nextBatchId →
      b' = ⟨source, m.nextBatchId, checkpoint⟩ := fun b' hb' h =>
    absurd h (hnew b' hb')
  refine ⟨?_, ?_, ?_, ?_, ?_, ?_, ?_, ?_⟩
  · have ht := hi.tracks
    rw [hm] at ht
    show Tracks _ ({ s with sent := s.sent ++ [_] } : RunState C).ledger
    rw [hledger]
    exact ht.send (b := ⟨source, m.nextBatchId, checkpoint⟩) huniq happ fun a ha _ => by
        obtain ⟨c, hc⟩ := ha
        exact hnext ▸ hi.below _ hc
  · show ({ s with sent := s.sent ++ [_] } : RunState C).ledger.Functional
    rw [hledger]
    exact hi.functional.send huniq
  · intro b hb
    rcases mem_append.mp hb with h | h
    · exact Nat.lt_succ_of_lt (hnext ▸ hi.below b h)
    · rw [mem_singleton] at h
      subst h
      exact Nat.lt_succ_self _
  · intro t ht
    rcases mem_append.mp ht with h | h
    · exact mem_append_left _ (hi.sending_sent t h)
    · rw [mem_singleton] at h
      subst h
      exact mem_append_right _ (mem_singleton.mpr rfl)
  · intro t ht
    exact mem_append_left _ (hi.requeued_sent t ht)
  · intro r hr
    obtain ⟨c, hc⟩ := hi.receipts_sent r hr
    exact ⟨c, mem_append_left _ hc⟩
  · exact hi.applied_receipt
  · -- the new id is above every held one
    have hfresh : m.nextBatchId ∉ s.heldIds := fun h =>
      absurd (hi.heldIds_lt h) (by rw [hnext]; exact lt_irrefl _)
    have hperm : (m.nextBatchId :: s.heldIds).Perm (({ s with sending := s.sending
            ++ [(BatchTicket.new m.nextBatchId source checkpoint).beginSend] }
          : RunState C).heldIds) := by
      simp only [RunState.heldIds, map_append,
        append_assoc]
      exact perm_middle.symm
    exact hperm.nodup_iff.mp (nodup_cons.mpr ⟨hfresh, hi.nodup⟩)

/-- A dropped queued ticket only leaves a gap in the ids. -/
theorem RunInv.dropQueued :
    RunInv { s with
      machine := .running
        (createBatch m source checkpoint).1 } := by
  have ht := hi.tracks
  have hb := hi.below
  rw [hm] at ht hb
  refine ⟨ht, hi.functional, fun b hb' => ?_, hi.sending_sent, hi.requeued_sent,
    hi.receipts_sent, hi.applied_receipt, hi.nodup⟩
  exact Nat.lt_succ_of_lt (hb b hb')

omit hm

variable {t : BatchTicket .sending C}

/-- Failing a ticket moves its id from sending to requeued. -/
theorem RunInv.fail (ht : s.sending[i]? = some t) :
    RunInv { s with
      sending := s.sending.eraseIdx i
      requeued := s.requeued ++ [t.fail] } := by
  refine ⟨hi.tracks, hi.functional, hi.below, ?_, ?_, hi.receipts_sent, hi.applied_receipt, ?_⟩
  · intro x hx
    exact hi.sending_sent x (mem_of_mem_eraseIdx hx)
  · intro x hx
    rcases mem_append.mp hx with h | h
    · exact hi.requeued_sent x h
    · rw [mem_singleton] at h
      subst h
      exact hi.sending_sent t (mem_of_getElem? ht)
  · have hp := map_eraseIdx_perm BatchTicket.id ht
    refine Perm.nodup_iff ?_ |>.mp hi.nodup
    simp only [RunState.heldIds, map_append]
    refine .append_right _ ?_
    rw [← append_assoc]
    refine (hp.symm.append_right _).trans ?_
    exact (perm_append_singleton t.id ((s.sending.eraseIdx i).map BatchTicket.id
        ++ s.requeued.map BatchTicket.id)).symm

/-- Sending a failed ticket again registers a batch still in flight. -/
theorem RunInv.resend (hm : s.machine = .running m) {t : BatchTicket .queued C}
    (ht : s.requeued[i]? = some t) :
    RunInv { s with
      machine := .running (beginSend m t).1
      requeued := s.requeued.eraseIdx i
      sending := s.sending ++ [t.beginSend]
      sent := s.sent ++ [t.batch] } := by
  have hsent : t.batch ∈ s.sent := hi.requeued_sent t (mem_of_getElem? ht)
  have hopen : t.id ∉ s.applied := by
    intro h
    obtain ⟨r, hr, hrid⟩ := hi.mem_receipts h
    have hdis := (nodup_append.mp hi.nodup).2.2
    refine hdis t.id ?_ t.id ?_ rfl
    · exact mem_append_right _ (mem_map_of_mem (mem_of_getElem? ht))
    · rw [← hrid]
      exact mem_map_of_mem hr
  have hmem : ∀ b, b ∈ s.sent ++ [t.batch] ↔ b ∈ s.sent := by
    intro b
    rw [mem_append, mem_singleton]
    exact ⟨fun h => h.elim id fun h => h ▸ hsent, .inl⟩
  have hledger : ({ s with sent := s.sent ++ [t.batch] } : RunState C).ledger = s.ledger := by
    unfold RunState.ledger
    simp only [hmem]
  refine ⟨?_, ?_, ?_, ?_, ?_, ?_, hi.applied_receipt, ?_⟩
  · have htr := hi.tracks
    rw [hm] at htr
    show Tracks _ ({ s with sent := s.sent ++ [_] } : RunState C).ledger
    rw [hledger]
    exact htr.resend hi.functional hsent hopen
  · show ({ s with sent := s.sent ++ [_] } : RunState C).ledger.Functional
    rw [hledger]
    exact hi.functional
  · intro b hb
    have hb' := hi.below b ((hmem b).mp hb)
    rw [hm] at hb'
    exact hb'
  · intro x hx
    rcases mem_append.mp hx with h | h
    · exact (hmem _).mpr (hi.sending_sent x h)
    · rw [mem_singleton] at h
      subst h
      exact (hmem _).mpr hsent
  · intro x hx
    exact (hmem _).mpr (hi.requeued_sent x (mem_of_mem_eraseIdx hx))
  · intro r hr
    obtain ⟨c, hc⟩ := hi.receipts_sent r hr
    exact ⟨c, (hmem _).mpr hc⟩
  · have hp := map_eraseIdx_perm BatchTicket.id ht
    refine Perm.nodup_iff ?_ |>.mp hi.nodup
    simp only [RunState.heldIds, map_append]
    refine .append_right _ ?_
    rw [append_assoc]
    exact .append_left _ hp.symm

/-- Handing out a receipt moves its id from sending to receipts. -/
theorem RunInv.takeReceipt (ht : s.sending[i]? = some t)
    {r : AckReceipt C} (hsrc : r.source = t.source) (hid : r.batchId = t.id) :
    RunInv { s with
      sending := s.sending.eraseIdx i
      receipts := s.receipts ++ [r] } := by
  refine ⟨hi.tracks, hi.functional, hi.below, ?_, hi.requeued_sent, ?_, ?_, ?_⟩
  · intro x hx
    exact hi.sending_sent x (mem_of_mem_eraseIdx hx)
  · intro x hx
    rcases mem_append.mp hx with h | h
    · exact hi.receipts_sent x h
    · rw [mem_singleton] at h
      subst h
      refine ⟨t.checkpoint, ?_⟩
      rw [hsrc, hid]
      exact hi.sending_sent t (mem_of_getElem? ht)
  · intro k hk
    rw [map_append]
    exact mem_append_left _ (hi.applied_receipt k hk)
  · have hp := map_eraseIdx_perm BatchTicket.id ht
    refine Perm.nodup_iff ?_ |>.mp hi.nodup
    simp only [RunState.heldIds, map_append, map_cons, hid]
    rw [← append_assoc]
    refine (((hp.symm.append_right _).append_right _).trans ?_)
    exact (perm_append_singleton t.id ((s.sending.eraseIdx i).map BatchTicket.id
        ++ s.requeued.map BatchTicket.id
        ++ s.receipts.map AckReceipt.batchId)).symm

theorem RunInv.applyReceipt {r : AckReceipt C} (hr : s.receipts[i]? = some r) :
    RunInv { s with
      machine := (s.machine.applyAck r).1
      applied := s.applied ++ [r.batchId] } := by
  have hmem := mem_of_getElem? hr
  obtain ⟨c, hc⟩ := hi.receipts_sent r hmem
  have hledger : ({ s with applied := s.applied ++ [r.batchId] }
      : RunState C).ledger = s.ledger.apply r.batchId :=
    Ledger.apply_concat _ s.applied r.batchId
  refine ⟨?_, hi.functional, ?_, hi.sending_sent, hi.requeued_sent, hi.receipts_sent, ?_, hi.nodup⟩
  · show Tracks (s.machine.applyAck r).1.tracking
      ({ s with applied := s.applied ++ [r.batchId] } : RunState C).ledger
    rw [hledger, Live.applyAck_tracking]
    exact hi.tracks.apply hi.functional hc
  · intro b hb
    rw [Live.applyAck_nextBatchId]
    exact hi.below b hb
  · intro k hk
    rcases mem_append.mp hk with h | h
    · exact hi.applied_receipt k h
    · rw [mem_singleton] at h
      subst h
      exact mem_map_of_mem hmem

theorem RunInv.beginDrain (hm : s.machine = .running m) :
    RunInv { s with
      machine := .draining (PipelineMachine.Running.beginDrain m) } := by
  have ht := hi.tracks
  have hb := hi.below
  rw [hm] at ht hb
  exact ⟨ht, hi.functional, hb, hi.sending_sent, hi.requeued_sent,
    hi.receipts_sent, hi.applied_receipt, hi.nodup⟩

-- == whole runs

/-- Every operation preserves the invariant. -/
theorem RunInv.step {op : Op C} {s' : RunState C} (hstep : op.apply s = some s') : RunInv s' := by
  cases op with
  | submit source checkpoint =>
    simp only [Op.apply] at hstep
    split at hstep
    next m hm => cases hstep; exact hi.submit hm source checkpoint
    next => cases hstep
  | dropQueued source checkpoint =>
    simp only [Op.apply] at hstep
    split at hstep
    next m hm => cases hstep; exact hi.dropQueued hm source checkpoint
    next => cases hstep
  | fail i =>
    simp only [Op.apply] at hstep
    split at hstep
    next t ht => cases hstep; exact hi.fail ht
    next => cases hstep
  | resend i =>
    simp only [Op.apply] at hstep
    split at hstep
    next m t hm ht => cases hstep; exact hi.resend hm ht
    next => cases hstep
  | ack i | reject i =>
    simp only [Op.apply, Pipeline.takeReceipt] at hstep
    split at hstep
    next t ht => cases hstep; exact hi.takeReceipt ht rfl rfl
    next => cases hstep
  | applyReceipt i =>
    simp only [Op.apply] at hstep
    split at hstep
    next r hr => cases hstep; exact hi.applyReceipt hr
    next => cases hstep
  | beginDrain =>
    simp only [Op.apply] at hstep
    split at hstep
    next m hm => cases hstep; exact hi.beginDrain hm
    next => cases hstep

omit hi

theorem runInv_reachable (hr : Reachable Op.apply RunState.init s) : RunInv s :=
  hr.invariant RunInv.init fun _ _ _ hi _ happ => hi.step happ

/-- The history's reading of the ledger's committable set. -/
theorem committable_iff_ledger {source : SourceId} {b : Batch C}
    (hb : b ∈ s.sent) (hsrc : b.source = source) :
    s.Committable source b ↔ b.id ∈ committable (s.ledger.ids source) s.ledger.applied := by
  constructor
  · rintro ⟨-, -, hall⟩
    refine ⟨⟨b.checkpoint, hsrc ▸ hb⟩, ?_⟩
    rintro k ⟨c, hc⟩ hkb
    exact hall _ hc rfl hkb
  · rintro ⟨-, hset⟩
    refine ⟨hb, hsrc, fun b' hb' hsrc' hle => ?_⟩
    exact hset b'.id ⟨b'.checkpoint, hsrc' ▸ hb'⟩ hle

/-- Ordered commit: in every state of every run, a source's committed
checkpoint is the checkpoint with which its greatest committable batch
was sent, and there is a committed checkpoint as soon as any batch is
committable. -/
theorem ordered_commit (hr : Reachable Op.apply RunState.init s)
    (source : SourceId) (c : C) :
    s.committedCheckpoint source = some c
      ↔ ∃ b, b.checkpoint = c ∧ s.Committable source b
        ∧ ∀ b', s.Committable source b' → b'.id ≤ b.id := by
  have hi := runInv_reachable hr
  rw [RunState.committedCheckpoint, Live.committedCheckpoint_eq, hi.tracks.committed]
  constructor
  · rintro ⟨k, hk, hmem⟩
    refine ⟨⟨source, k, c⟩, rfl, (committable_iff_ledger hmem rfl).mpr hk.1, ?_⟩
    intro b' hb'
    exact hk.2 ((committable_iff_ledger hb'.1 hb'.2.1).mp hb')
  · rintro ⟨b, rfl, hb, hmax⟩
    have hsent := hb.1
    obtain rfl := hb.2.1
    refine ⟨b.id, ⟨(committable_iff_ledger hsent rfl).mp hb, ?_⟩, hsent⟩
    rintro k hk
    obtain ⟨d, hd⟩ := hk.1
    exact hmax ⟨b.source, k, d⟩ ((committable_iff_ledger hd rfl).mpr hk)

/-- Three batches of one source, the last acked first, the first one
failed and sent again before its ack: the commit waits for the first
batch and then stops below the second, which has no receipt. -/
def outOfOrderRun : List (Op Nat) :=
  [.submit 0 1000, .submit 0 2000, .submit 0 3000, .ack 2, .applyReceipt 0,
   .fail 0, .resend 0, .ack 1, .applyReceipt 1, .applyReceipt 1, .beginDrain]

theorem ordered_commit_outOfOrderRun :
    ∃ s, runList Op.apply RunState.init outOfOrderRun = some s
      ∧ s.committedCheckpoint 0 = some 1000
      ∧ ∃ b, b.checkpoint = 1000 ∧ s.Committable 0 b
        ∧ ∀ b', s.Committable 0 b' → b'.id ≤ b.id := by
  have h : (runList Op.apply .init outOfOrderRun).map
      (·.committedCheckpoint 0) = some (some 1000) := by
    decide +kernel
  obtain ⟨s, hrun, hc⟩ := Option.map_eq_some_iff.mp h
  refine ⟨s, hrun, hc, ?_⟩
  exact (ordered_commit (runList_reachable _ .init hrun) 0 1000).mp hc

end FastForward.Pipeline
