/-
Acknowledgement confluence and drain completeness: for a set of batches
sent through one machine, applying exactly one receipt for each of them
ends in the same committed map whatever the order, wherever
`begin_drain` falls among them, and whether a batch was acked or
rejected, with nothing in flight, nothing pending, and `stop` accepted.
Before that, `stop` refuses exactly while some sent batch has no
receipt.

The closed form is the ledger: after any list of receipts the maps
represent the ledger whose acknowledged ids are that list's ids
(`tracks_settleAll`), so two orders of the same receipts represent the
same ledger and equal ledgers have equal commits. The same reading gives
the whole-run forms, where sends and receipts interleave.
-/
import FastForward.Pipeline.Proofs.OrderedCommit

namespace FastForward.Pipeline

open Lib List PipelineMachine.Draining BTreeMap Ledger PipelineMachine.Running

universe u

variable {C : Type u}

-- == closed-form consequences

variable {L : Ledger C} {t : Tracking C}

/-- A pending ack is held back by an in-flight batch of its source. -/
theorem Tracks.pending_has_inFlight (ht : Tracks t L) {s : SourceId} {k : BatchId} {c : C}
    (h : lookup₂ t.pendingAcks s k = some c) :
    ∃ j d, lookup₂ t.inFlight s j = some d := by
  obtain ⟨hmem, hka, hn⟩ := (ht.pending _ _ _).mp h
  by_contra hnone
  refine hn ⟨⟨c, hmem⟩, fun x hx hxk => ?_⟩
  obtain ⟨d, hd⟩ := hx
  by_contra hxa
  exact hnone ⟨x, d, (ht.inFlight _ _ _).mpr ⟨hd, hxa⟩⟩

/-- No entry is left in flight exactly when every sent batch has a
receipt. -/
theorem Tracks.inFlight_none_iff (ht : Tracks t L) :
    (∀ s k, lookup₂ t.inFlight s k = none) ↔ ∀ b ∈ L.sent, b.id ∈ L.applied := by
  constructor
  · intro h b hb
    by_contra hn
    have hfl := (ht.inFlight b.source b.id b.checkpoint).mpr ⟨hb, hn⟩
    rw [h] at hfl
    cases hfl
  · intro h s k
    cases hk : lookup₂ t.inFlight s k with
    | none => rfl
    | some c =>
      obtain ⟨hmem, hn⟩ := (ht.inFlight _ _ _).mp hk
      exact absurd (h _ hmem) hn

/-- With nothing in flight nothing is pending. -/
theorem Tracks.pending_none (ht : Tracks t L) (h : ∀ s k, lookup₂ t.inFlight s k = none) :
    ∀ s k, lookup₂ t.pendingAcks s k = none := by
  intro s k
  cases hk : lookup₂ t.pendingAcks s k with
  | none => rfl
  | some c =>
    obtain ⟨j, d, hj⟩ := ht.pending_has_inFlight hk
    rw [h] at hj
    cases hj

variable {m : PipelineMachine .draining C}

/-- A draining machine is drained exactly when every sent batch has a
receipt. -/
theorem isDrained_iff (ht : Tracks m.toTracking L) :
    isDrained m ↔ ∀ b ∈ L.sent, b.id ∈ L.applied := by
  rw [isDrained, Bool.and_eq_true, values_all_isEmpty_iff, values_all_isEmpty_iff]
  constructor
  · intro h
    exact ht.inFlight_none_iff.mp h.1
  · intro h
    have hi := ht.inFlight_none_iff.mpr h
    exact ⟨hi, ht.pending_none hi⟩

/-- Machines that represent one ledger have the same commits. -/
theorem Tracks.committed_eq {t t' : Tracking C}
    (ht : Tracks t L) (ht' : Tracks t' L) : t.committed = t'.committed := by
  refine Std.ExtTreeMap.ext_getElem? fun s => ?_
  refine Option.ext fun c => ?_
  rw [ht.committed, ht'.committed]

-- == whole runs

/-- Two runs that sent the same batches and acknowledged the same ids,
in whatever order, have committed the same checkpoints. -/
theorem reachable_committed_eq {s s' : RunState C} (hr : Reachable Op.apply RunState.init s)
    (hr' : Reachable Op.apply RunState.init s')
    (hsent : ∀ b, b ∈ s.sent ↔ b ∈ s'.sent) (happlied : ∀ k, k ∈ s.applied ↔ k ∈ s'.applied) :
    s.machine.tracking.committed = s'.machine.tracking.committed := by
  have hledger : s.ledger = s'.ledger := by
    unfold RunState.ledger
    congr 1
    · exact Set.ext hsent
    · exact Set.ext happlied
  have ht := (runInv_reachable hr).tracks
  rw [hledger] at ht
  exact ht.committed_eq (runInv_reachable hr').tracks

/-- Two batches, acknowledged in either order. -/
theorem reachable_committed_eq_swapped :
    ∃ s s' : RunState Nat, s.applied = [0, 1] ∧ s'.applied = [1, 0]
      ∧ s.machine.tracking.committed = s'.machine.tracking.committed :=
  ⟨_, _, by rfl, by rfl, reachable_committed_eq
    (runList_reachable [.submit 0 5, .submit 0 7, .ack 0, .applyReceipt 0, .ack 0,
      .applyReceipt 1] .init rfl)
    (runList_reachable [.submit 0 5, .submit 0 7, .ack 1, .applyReceipt 0, .ack 0,
      .applyReceipt 1] .init rfl)
    (fun _ => by rfl) fun k => by show k ∈ [0, 1] ↔ k ∈ [1, 0]; simp [or_comm]⟩

/-- A draining machine of any run is drained exactly when every batch
sent in the run has had a receipt applied. -/
theorem reachable_isDrained_iff {s : RunState C} (hr : Reachable Op.apply RunState.init s)
    (hm : s.machine = .draining m) :
    isDrained m ↔ ∀ b ∈ s.sent, s.Acked b := by
  have ht := (runInv_reachable hr).tracks
  rw [hm] at ht
  exact isDrained_iff ht

/-- Two batches are acknowledged after the drain began, the later one
first. -/
theorem reachable_isDrained_iff_outOfOrder :
    ∃ (s : RunState Nat) (m : PipelineMachine .draining Nat), s.machine = .draining m
      ∧ s.sent.map (·.id) = [0, 1] ∧ s.applied = [1, 0] ∧ isDrained m := by
  have hrun : ∀ s : RunState Nat, runList Op.apply RunState.init [.submit 0 5, .submit 0 7,
      .beginDrain, .ack 1, .applyReceipt 0, .ack 0, .applyReceipt 1] = some s →
      ∃ m : PipelineMachine .draining Nat, s.machine = .draining m
        ∧ s.sent.map (·.id) = [0, 1] ∧ s.applied = [1, 0] ∧ isDrained m := by
    intro s hs
    have hr := runList_reachable _ .init hs
    cases hs
    refine ⟨_, rfl, rfl, rfl, (reachable_isDrained_iff hr rfl).mpr fun b hb => ?_⟩
    have hid : b.id ∈ [0, 1] := mem_map_of_mem (f := (·.id)) hb
    show b.id ∈ [1, 0]
    simpa [or_comm] using hid
  exact ⟨_, hrun _ rfl⟩

-- == sending a set

def createAll (m : PipelineMachine .running C) :
    List (SourceId × C) → PipelineMachine .running C × List (BatchTicket .queued C)
  | [] => (m, [])
  | (source, checkpoint) :: rest =>
    let created := createBatch m source checkpoint
    let others := createAll created.1 rest
    (others.1, created.2 :: others.2)

/-- The ids `create_batch` hands out start at the counter and increase. -/
theorem createAll_ids (specs : List (SourceId × C)) :
    ∀ m : PipelineMachine .running C,
      (createAll m specs).2.map (·.id) = List.range' m.nextBatchId specs.length := by
  induction specs with
  | nil => intro m; rfl
  | cons spec rest ih =>
    intro m
    rw [createAll, map_cons, ih]
    rfl

/-- So no two tickets of one machine share an id. -/
theorem createAll_ids_nodup (m : PipelineMachine .running C)
    (specs : List (SourceId × C)) : ((createAll m specs).2.map (·.id)).Nodup := by
  rw [createAll_ids]
  exact nodup_range'

def sendAll (m : PipelineMachine .running C) (queued : List (BatchTicket .queued C)) :
    PipelineMachine .running C :=
  queued.foldl (fun m t => (beginSend m t).1) m

/-- The ledger of a list of tickets, none acknowledged. -/
def sentLedger (queued : List (BatchTicket .queued C)) : Ledger C :=
  ⟨{b | ∃ t ∈ queued, t.batch = b}, ∅⟩

theorem sentLedger_functional {queued : List (BatchTicket .queued C)}
    (hids : (queued.map (·.id)).Nodup) : (sentLedger queued).Functional := by
  intro b hb b' hb' hid
  obtain ⟨t, ht, rfl⟩ := hb
  obtain ⟨t', ht', rfl⟩ := hb'
  have htt : t = t' := inj_on_of_nodup_map hids ht ht' hid
  rw [htt]

/-- Sending in any order represents the set of what was sent: while
nothing is acknowledged the order of the ids does not matter. -/
theorem tracks_sendAll (queued : List (BatchTicket .queued C)) :
    ∀ (m : PipelineMachine .running C) (pre : List (BatchTicket .queued C)),
      ((pre ++ queued).map (·.id)).Nodup →
      Tracks m.toTracking (sentLedger pre) →
      Tracks (sendAll m queued).toTracking (sentLedger (pre ++ queued)) := by
  induction queued with
  | nil =>
    intro m pre _ ht
    rw [append_nil]
    exact ht
  | cons t rest ih =>
    intro m pre hnd ht
    have hsplit : pre ++ t :: rest = (pre ++ [t]) ++ rest := by simp
    rw [hsplit] at hnd ⊢
    refine ih _ _ hnd ?_
    have hledger : sentLedger (pre ++ [t]) = (sentLedger pre).send t.batch := by
      unfold sentLedger send
      congr 1
      ext b
      simp only [mem_append, mem_singleton]
      constructor
      · intro h
        obtain ⟨x, hx | rfl, rfl⟩ := h
        · exact .inr ⟨x, hx, rfl⟩
        · exact .inl rfl
      · intro h
        rcases h with rfl | ⟨x, hx, rfl⟩
        · exact ⟨t, .inr rfl, rfl⟩
        · exact ⟨x, .inl hx, rfl⟩
    rw [hledger]
    refine ht.send (b := t.batch) ?_ (Set.notMem_empty _)
      fun a _ ha => absurd ha (Set.notMem_empty a)
    intro b hb hid
    obtain ⟨x, hx, rfl⟩ := hb
    rw [map_append] at hnd
    have hxt : x = t := inj_on_of_nodup_map (nodup_append.mp hnd).1
      (mem_append_left _ hx) (mem_append_right _ (by simp)) hid
    rw [hxt]

-- == settling the set

/-- Apply some receipts while running, drain, apply the others. -/
def settleAll (m : PipelineMachine .running C) (before after : List (AckReceipt C)) :
    PipelineMachine .draining C :=
  after.foldl (fun m r => (applyAck m r).1)
    (beginDrain
      (before.foldl (fun m r => (applyAck m r).1) m))

def Ledger.applyAll (L : Ledger C) (rs : List (AckReceipt C)) : Ledger C :=
  { L with applied := {k | k ∈ L.applied ∨ ∃ r ∈ rs, r.batchId = k} }

def ForSent (L : Ledger C) (rs : List (AckReceipt C)) : Prop :=
  ∀ r ∈ rs, ∃ c, ⟨r.source, r.batchId, c⟩ ∈ L.sent

theorem Ledger.apply_applyAll (L : Ledger C) (r : AckReceipt C) (rs : List (AckReceipt C)) :
    (L.apply r.batchId).applyAll rs = L.applyAll (r :: rs) := by
  unfold applyAll apply
  congr 1
  ext k
  simp only [Set.mem_insert_iff, Set.mem_ofPred_eq, mem_cons, exists_eq_or_imp]
  tauto

theorem Ledger.applyAll_append (L : Ledger C) (rs rs' : List (AckReceipt C)) :
    (L.applyAll rs).applyAll rs' = L.applyAll (rs ++ rs') := by
  unfold applyAll
  congr 1
  ext k
  simp only [mem_append, or_and_right, exists_or]
  exact or_assoc

theorem tracks_foldl {σ : Type u} (tracking : σ → Tracking C) (step : σ → AckReceipt C → σ)
    (hstep : ∀ m r, tracking (step m r) = (recordAckAndAdvance (tracking m) r).1)
    (rs : List (AckReceipt C)) :
    ∀ (m : σ) (L : Ledger C), L.Functional → ForSent L rs →
      Tracks (tracking m) L → Tracks (tracking (rs.foldl step m)) (L.applyAll rs) := by
  induction rs with
  | nil =>
    intro m L _ _ ht
    have hnil : L.applyAll [] = L := by simp [applyAll]
    rw [hnil]
    exact ht
  | cons r rs ih =>
    intro m L hf hsent ht
    obtain ⟨c, hc⟩ := hsent r (mem_cons_self ..)
    rw [← apply_applyAll]
    refine ih _ _ hf (fun x hx => hsent x (mem_cons_of_mem _ hx)) ?_
    rw [hstep]
    exact ht.apply hf hc

/-- After receipts before and after the drain the maps represent the
ledger of all of them. -/
theorem tracks_settleAll {m : PipelineMachine .running C}
    (hf : L.Functional) (ht : Tracks m.toTracking L)
    {before after : List (AckReceipt C)} (hsent : ForSent L (before ++ after)) :
    Tracks (settleAll m before after).toTracking (L.applyAll (before ++ after)) := by
  rw [← applyAll_append]
  refine tracks_foldl (σ := PipelineMachine .draining C)
    PipelineMachine.toTracking _ (fun _ _ => rfl) after _ _ hf
    (fun r hr => hsent r (mem_append_right _ hr)) ?_
  exact tracks_foldl (σ := PipelineMachine .running C)
    PipelineMachine.toTracking _ (fun _ _ => rfl) before _ _ hf
    (fun r hr => hsent r (mem_append_left _ hr)) ht

-- == the theorem

/-- The receipt of a sending ticket: acked or rejected. -/
def receiptOf (t : BatchTicket .sending C) (delivered : Bool) : AckReceipt C :=
  if delivered then t.ack else t.reject

theorem receiptOf_ids (t : BatchTicket .sending C) (d : Bool) :
    (receiptOf t d).source = t.source ∧ (receiptOf t d).batchId = t.id := by
  cases d <;> exact ⟨rfl, rfl⟩

/-- Exactly one receipt for each of the tickets, in any order, some
applied before `begin_drain` and the others after. -/
structure Settlement (tickets : List (BatchTicket .sending C)) where
  before : List (AckReceipt C)
  after : List (AckReceipt C)
  one_each : ∃ order : List (BatchTicket .sending C × Bool),
    (order.map Prod.fst).Perm tickets
      ∧ before ++ after = order.map fun x => receiptOf x.1 x.2

/-- The tickets in users' hands once a list of queued tickets was sent. -/
def sendingTickets (queued : List (BatchTicket .queued C)) :
    List (BatchTicket .sending C) :=
  queued.map BatchTicket.beginSend

/-- The machine that sent the tickets, from a new pipeline. -/
def sentMachine (queued : List (BatchTicket .queued C)) : PipelineMachine .running C :=
  sendAll (PipelineMachine.new (C := C)).start queued

variable {queued : List (BatchTicket .queued C)}

theorem tracks_sentMachine (hids : (queued.map (·.id)).Nodup) :
    Tracks (sentMachine queued).toTracking (sentLedger queued) := by
  have hempty : sentLedger ([] : List (BatchTicket .queued C)) = empty := by
    simp [sentLedger, empty]
  have h := tracks_sendAll queued (PipelineMachine.new).start []
    (by simpa using hids) (by rw [hempty]; exact .init)
  exact h

variable (σ : Settlement (sendingTickets queued))

/-- A settlement's receipts are for the tickets and cover them. -/
theorem Settlement.mem_iff (s : SourceId) (k : BatchId) :
    (∃ r ∈ σ.before ++ σ.after, r.source = s ∧ r.batchId = k)
      ↔ ∃ t ∈ queued, t.source = s ∧ t.id = k := by
  obtain ⟨order, hperm, heq⟩ := σ.one_each
  rw [heq]
  constructor
  · intro h
    obtain ⟨r, hr, rfl, rfl⟩ := h
    obtain ⟨⟨t, d⟩, hx, rfl⟩ := mem_map.mp hr
    have ht := hperm.mem_iff.mp (mem_map_of_mem hx)
    obtain ⟨q, hq, rfl⟩ := mem_map.mp ht
    obtain ⟨hs, hk⟩ := receiptOf_ids q.beginSend d
    exact ⟨q, hq, hs.symm, hk.symm⟩
  · intro h
    obtain ⟨q, hq, rfl, rfl⟩ := h
    have ht := hperm.mem_iff.mpr (mem_map_of_mem hq)
    obtain ⟨⟨t, d⟩, hx, htq⟩ := mem_map.mp ht
    obtain ⟨hs, hk⟩ := receiptOf_ids t d
    have htq' : t = q.beginSend := htq
    subst htq'
    exact ⟨_, mem_map_of_mem hx, hs, hk⟩

theorem Settlement.forSent {rs : List (AckReceipt C)} (hrs : rs <+: σ.before ++ σ.after) :
    ForSent (sentLedger queued) rs := by
  intro r hr
  obtain ⟨q, hq, hs, hk⟩ :=
    (σ.mem_iff r.source r.batchId).mp ⟨r, hrs.subset hr, rfl, rfl⟩
  refine ⟨q.checkpoint, q, hq, ?_⟩
  rw [← hs, ← hk]
  rfl

/-- The ledger a complete settlement ends in does not depend on it. -/
theorem Settlement.ledger_eq :
    (sentLedger queued).applyAll (σ.before ++ σ.after)
      = { sentLedger queued with applied := {k | ∃ t ∈ queued, t.id = k} } := by
  unfold applyAll
  congr 1
  ext k
  have hnone : k ∉ (sentLedger queued).applied := Set.notMem_empty k
  simp only [hnone, false_or, Set.mem_ofPred_eq]
  constructor
  · intro h
    obtain ⟨r, hr, hk⟩ := h
    obtain ⟨q, hq, -, hqk⟩ := (σ.mem_iff r.source k).mp ⟨r, hr, rfl, hk⟩
    exact ⟨q, hq, hqk⟩
  · intro h
    obtain ⟨q, hq, hk⟩ := h
    obtain ⟨r, hr, -, hrk⟩ := (σ.mem_iff q.source k).mpr ⟨q, hq, rfl, hk⟩
    exact ⟨r, hr, hrk⟩

def refused {ε α : Type*} (r : Except ε α) : Prop := ∃ e, r = .error e

/-- Acknowledgement confluence and drain completeness. For tickets with
distinct ids (`createAll_ids_nodup`: all that `create_batch` makes) sent
through one machine and any two settlements of them, the committed maps
agree, nothing is left in flight or pending, the machine is drained and
`stop` succeeds; and after any initial part of a settlement, drained
anywhere within it, `stop` is refused exactly while some sent batch has no
receipt, and a source with a pending ack has an in-flight batch. -/
theorem settlement_confluent (hids : (queued.map (·.id)).Nodup)
    (σ τ : Settlement (sendingTickets queued)) :
    let final := settleAll (sentMachine queued) σ.before σ.after
    final.committed = (settleAll (sentMachine queued) τ.before τ.after).committed
      ∧ final.inFlight = ∅ ∧ final.pendingAcks = ∅
      ∧ isDrained final = true
      ∧ stop final = .ok (final.become .stopped false)
      ∧ ∀ before after, before ++ after <+: σ.before ++ σ.after →
          let mid := settleAll (sentMachine queued) before after
          (refused (stop mid) ↔ ∃ t ∈ queued, ∀ r ∈ before ++ after, r.batchId ≠ t.id)
          ∧ ∀ s k c, lookup₂ mid.pendingAcks s k = some c →
              ∃ j d, lookup₂ mid.inFlight s j = some d := by
  have hf := sentLedger_functional hids
  have h0 := tracks_sentMachine hids
  have hσ := tracks_settleAll hf h0 (σ.forSent (prefix_refl _))
  have hτ := tracks_settleAll hf h0 (τ.forSent (prefix_refl _))
  rw [σ.ledger_eq] at hσ
  rw [τ.ledger_eq] at hτ
  have hall : ∀ b ∈ (sentLedger queued).sent, ∃ t ∈ queued, t.id = b.id := by
    intro b hb
    obtain ⟨t, ht, rfl⟩ := hb
    exact ⟨t, ht, rfl⟩
  have hdrained := (isDrained_iff hσ).mpr hall
  have hnone := hσ.inFlight_none_iff.mpr hall
  refine ⟨hσ.committed_eq hτ, hσ.inFlight_noEmpty.eq_empty hnone,
    hσ.pending_noEmpty.eq_empty (hσ.pending_none hnone), hdrained, ?_, ?_⟩
  · rw [stop, hdrained]
    rfl
  · intro before after hpre
    have hmid := tracks_settleAll hf h0 (σ.forSent hpre)
    refine ⟨?_, fun s k c h => hmid.pending_has_inFlight h⟩
    have hstop : refused (stop (settleAll (sentMachine queued) before after))
        ↔ ¬ isDrained
          (settleAll (sentMachine queued) before after) = true := by
      unfold refused stop
      cases isDrained
        (settleAll (sentMachine queued) before after) with
      | true | false => simp
    rw [hstop, isDrained_iff hmid]
    constructor
    · intro h
      by_contra hno
      refine h fun b hb => ?_
      obtain ⟨t, ht, htb⟩ := hall b hb
      by_contra hbn
      refine hno ⟨t, ht, fun r hr hrt => hbn ?_⟩
      exact .inr ⟨r, hr, hrt.trans htb⟩
    · intro h hcov
      obtain ⟨t, ht, hun⟩ := h
      rcases hcov t.batch ⟨t, ht, rfl⟩ with h | ⟨r, hr, hrt⟩
      · exact Set.notMem_empty _ h
      · exact hun r hr hrt

/-- Two sources, three batches: acked in order before the drain, or
last first with a rejection and `begin_drain` after the first receipt. -/
def threeTickets : List (BatchTicket .queued Nat) :=
  (createAll (PipelineMachine.new (C := Nat)).start
    [(0, 1000), (1, 500), (0, 2000)]).2

def ackedInOrder : Settlement (sendingTickets threeTickets) where
  before := (sendingTickets threeTickets).map BatchTicket.ack
  after := []
  one_each := ⟨(sendingTickets threeTickets).map fun t => (t, true),
    by decide, by decide⟩

def settledInReverse : Settlement (sendingTickets threeTickets) where
  before := [⟨2, 0, 2000, true⟩]
  after := [⟨1, 1, 500, true⟩, ⟨0, 0, 1000, false⟩]
  one_each := ⟨[(⟨2, 0, 2000, 0⟩, true), (⟨1, 1, 500, 0⟩, true),
    (⟨0, 0, 1000, 0⟩, false)], by decide, by decide⟩

theorem settlement_confluent_threeTickets :
    (settleAll (sentMachine threeTickets) ackedInOrder.before
        ackedInOrder.after).committed
      = (settleAll (sentMachine threeTickets) settledInReverse.before
        settledInReverse.after).committed
    ∧ refused (stop
        (settleAll (sentMachine threeTickets) [⟨2, 0, 2000, true⟩] [])) := by
  have hids : (threeTickets.map (·.id)).Nodup := createAll_ids_nodup _ _
  refine ⟨(settlement_confluent hids ackedInOrder settledInReverse).1, ?_⟩
  have hmid := (settlement_confluent hids settledInReverse
    ackedInOrder).2.2.2.2.2 [⟨2, 0, 2000, true⟩] [] (by decide)
  exact hmid.1.mpr (by decide)

end FastForward.Pipeline
