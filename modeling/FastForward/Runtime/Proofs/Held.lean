/-
Held batches block durable progress.

`SeamInv` ties the pipeline to the history: the machine represents the
ledger of what was sent and resolved, and every ticket the seam has
handed out is either outstanding, held or resolved, never two of them. A
held ticket therefore stays unresolved, and the machine commits nothing
at or above an unresolved batch (`IsCommit.lt_of_open`). The invariant
is proved for one ticket and carried over lists of tickets, operations
and runs.
-/
import FastForward.Pipeline.Proofs.Tracks
import FastForward.Runtime.DeliveryRun

namespace FastForward.Runtime

open Lib Pipeline List DeliveryOp PipelineMachine.Running

def historyLedger (sent : List (Batch Nat)) (applied : List BatchId) : Ledger Nat :=
  ⟨{b | b ∈ sent}, {k | k ∈ applied}⟩

-- == commits and holds

/-- An advance reports the commit it made. -/
theorem recordAck_advance {t : Tracking Nat} (r : AckReceipt Nat) :
    (recordAckAndAdvance t r).2.source = r.source
      ∧ (recordAckAndAdvance t r).2.checkpoint
        = (recordAckAndAdvance t r).1.committed[r.source]? := by
  cases h : BTreeMap.lookup₂ t.inFlight r.source r.batchId with
  | none =>
    rw [recordAck_miss h]
    exact ⟨rfl, rfl⟩
  | some c =>
    have hit := recordAck_hit h
    exact ⟨hit.source, hit.checkpoint⟩

/-- A commit lies below every batch of its source without a receipt. -/
theorem IsCommit.lt_of_open {L : Ledger Nat} {s : SourceId} {c : Nat} (h : L.IsCommit s c) :
    ∃ b ∈ L.sent, b.source = s ∧ b.checkpoint = c ∧ b.id ∈ L.applied
      ∧ ∀ b' ∈ L.sent, b'.source = s → b'.id ∉ L.applied → b.id < b'.id := by
  obtain ⟨k, hk, hmem⟩ := h
  refine ⟨⟨s, k, c⟩, hmem, rfl, rfl, committable_mem_acked hk.1, ?_⟩
  intro b' hb' hsrc hopen
  refine settled_iff_lt_open.mp hk.1.2 b'.id ?_ hopen
  rw [← hsrc]
  exact Ledger.mem_ids hb'

-- == the invariant

/-- The invariant, with the tickets outstanding as a list. -/
structure SeamInv (p : PipelineState) (sent : List (Batch Nat))
    (applied : List BatchId) (out : List (BatchTicket .sending Nat)) : Prop where
  tracks : ∀ m, p.machine = some m → Tracks m.toTracking (historyLedger sent applied)
  below : ∀ m, p.machine = some m → ∀ b ∈ sent, b.id < m.nextBatchId
  functional : (historyLedger sent applied).Functional
  out_sent : ∀ t ∈ out, t.batch ∈ sent
  held_sent : ∀ t ∈ p.heldTickets, t.batch ∈ sent
  applied_sent : ∀ k ∈ applied, ∃ b ∈ sent, b.id = k
  nodup : (out.map (·.id) ++ p.heldTickets.map (·.id) ++ applied).Nodup

section Inv

variable {p : PipelineState} {sent : List (Batch Nat)} {applied : List BatchId}
  {out : List (BatchTicket .sending Nat)}

/-- Outstanding tickets in another order. -/
theorem SeamInv.perm (hi : SeamInv p sent applied out)
    {out' : List (BatchTicket .sending Nat)} (h : out'.Perm out) : SeamInv p sent applied out' :=
  { hi with
    out_sent := fun t ht => hi.out_sent t (h.mem_iff.mp ht)
    nodup := ((((h.map (·.id)).append_right _).append_right _).nodup_iff).mpr hi.nodup }

/-- A held ticket has no receipt. -/
theorem SeamInv.held_open (hi : SeamInv p sent applied out)
    {t : BatchTicket .queued Nat} (ht : t ∈ p.heldTickets) : t.id ∉ applied := by
  intro hk
  have hdisj := (nodup_append.mp hi.nodup).2.2
  exact hdisj _ (mem_append_right _ (mem_map_of_mem ht)) _ hk rfl

variable {t : BatchTicket .sending Nat} (hi : SeamInv p sent applied (t :: out))

include hi

variable {m : PipelineMachine .running Nat}

/-- A receipt for an outstanding ticket settles it: its id moves to the
applied ones. -/
theorem SeamInv.applyReceipt (hm : p.machine = some m)
    {receipt : AckReceipt Nat} (hid : receipt.batchId = t.id) (hsrc : receipt.source = t.source) :
    SeamInv
      { p with
        machine := some (applyAck m receipt).1
        checkpointStore := p.checkpointStore.map
          (· ++ (advancedTo (applyAck m receipt).2).toList) }
      sent (applied ++ [t.id]) out := by
  have htsent := hi.out_sent t (mem_cons_self ..)
  have hledger : historyLedger sent (applied ++ [t.id])
      = (historyLedger sent applied).apply receipt.batchId := by
    rw [hid]
    exact Ledger.apply_concat _ applied t.id
  refine ⟨?_, ?_, hi.functional, ?_, hi.held_sent, ?_, ?_⟩
  · intro m' hm'
    cases hm'
    rw [hledger]
    refine (hi.tracks m hm).apply hi.functional (c := t.checkpoint) ?_
    rw [hid, hsrc]
    exact htsent
  · intro m' hm'
    cases hm'
    exact hi.below m hm
  · intro x hx
    exact hi.out_sent x (mem_cons_of_mem _ hx)
  · intro k hk
    rcases mem_append.mp hk with hk | hk
    · exact hi.applied_sent k hk
    · exact ⟨t.batch, htsent, (mem_singleton.mp hk).symm⟩
  · refine (Perm.nodup_iff ?_).mpr hi.nodup
    rw [← append_assoc]
    exact perm_append_singleton _ _

/-- A held ticket stays sent; only its place changes. -/
theorem SeamInv.hold :
    SeamInv { p with heldTickets := p.heldTickets ++ [t.fail] } sent applied out := by
  refine { hi with
    out_sent := fun x hx => hi.out_sent x (mem_cons_of_mem _ hx)
    held_sent := ?_
    nodup := ?_ }
  · intro x hx
    rcases mem_append.mp hx with hx | hx
    · exact hi.held_sent x hx
    · rw [mem_singleton] at hx
      subst hx
      exact hi.out_sent t (mem_cons_self ..)
  · refine (Perm.nodup_iff ?_).mpr hi.nodup
    refine .append_right _ ?_
    rw [map_append, ← append_assoc]
    exact perm_append_singleton _ _

/-- An outstanding ticket may be dropped. -/
theorem SeamInv.drop : SeamInv p sent applied out := by
  refine { hi with
    out_sent := fun x hx => hi.out_sent x (mem_cons_of_mem _ hx)
    nodup := ?_ }
  have hnd := hi.nodup
  exact (nodup_cons.mp hnd).2

/-- Resolving the next ticket applies its receipt or holds it. -/
theorem SeamInv.ackTicket (d : TicketDisposition) :
    SeamInv (ackTicket d p t).1 sent (applied ++ resolvedIds d p [t]) out := by
  unfold Runtime.ackTicket resolvedIds
  cases hm : p.machine with
  | none =>
    -- the pipeline has stopped: the ticket is dropped
    simp only [Option.isSome_none, Bool.false_and, Bool.false_eq_true, if_false, append_nil]
    exact hi.drop
  | some m =>
    cases d with
    | ack | reject => exact hi.applyReceipt hm rfl rfl
    | hold =>
      simp only [Option.isSome_some, Bool.true_and, bne_self_eq_false,
        Bool.false_eq_true, if_false, append_nil]
      have hhold := hi.hold
      rw [hm] at hhold
      exact hhold

omit hi

/-- What a ticket persists is what the machine then has committed. -/
theorem ackTicket_update {d : TicketDisposition}
    {u : SourceCheckpoint} (hu : (Runtime.ackTicket d p t).2 = some u) :
    (Runtime.ackTicket d p t).1.committedCheckpoint u.sourceId = some u.offset := by
  unfold ackTicket at hu ⊢
  cases hm : p.machine with
  | none => rw [hm] at hu; cases hu
  | some m =>
    rw [hm] at hu
    cases hr : receiptFor d t with
    | none => rw [hr] at hu; cases hu
    | some receipt =>
      simp only [hr] at hu ⊢
      obtain ⟨hsrc, hck⟩ := recordAck_advance receipt
      unfold advancedTo at hu
      split at hu
      · obtain ⟨o, ho, hou⟩ := Option.map_eq_some_iff.mp hu
        subst hou
        show (recordAckAndAdvance m.toTracking receipt).1.committed[
          (recordAckAndAdvance m.toTracking receipt).2.source]? = some o
        rw [hsrc, ← hck]
        exact ho
      · cases hu

/-- A commit of the pipeline's machine belongs to a batch below every
held batch of its source. -/
theorem SeamInv.committed_below (hi : SeamInv p sent applied out) {s : SourceId}
    {c : Nat} (h : p.committedCheckpoint s = some c) :
    ∃ b ∈ sent, b.source = s ∧ b.checkpoint = c ∧ b.id ∈ applied
      ∧ ∀ t ∈ p.heldTickets, t.source = s → b.id < t.id := by
  obtain ⟨m, hm, hc⟩ := Option.bind_eq_some_iff.mp h
  obtain ⟨b, hb, hsrc, hck, happ, hopen⟩ :=
    IsCommit.lt_of_open (((hi.tracks m hm).committed s c).mp hc)
  refine ⟨b, hb, hsrc, hck, happ, fun t ht hts => ?_⟩
  exact hopen t.batch (hi.held_sent t ht) hts (hi.held_open ht)

variable (d : TicketDisposition)

/-- Holding only adds. -/
theorem ackTicket_held (p : PipelineState) (t : BatchTicket .sending Nat) :
    ∀ x ∈ p.heldTickets, x ∈ (Runtime.ackTicket d p t).1.heldTickets := by
  intro x hx
  unfold ackTicket
  split
  · exact hx
  · split
    · exact hx
    · exact mem_append_left _ hx

/-- Resolving one ticket keeps the pipeline running or stopped. -/
theorem ackTicket_isSome (p : PipelineState) (t : BatchTicket .sending Nat) :
    (Runtime.ackTicket d p t).1.machine.isSome = p.machine.isSome := by
  unfold ackTicket
  cases hm : p.machine with
  | none => simp only [hm]
  | some m =>
    cases receiptFor d t with
    | none | some receipt => rfl

theorem resolvedIds_cons (p : PipelineState)
    (t : BatchTicket .sending Nat) (ts : List (BatchTicket .sending Nat)) :
    resolvedIds d p (t :: ts)
      = resolvedIds d p [t] ++ resolvedIds d (Runtime.ackTicket d p t).1 ts := by
  unfold resolvedIds
  rw [ackTicket_isSome]
  split
  · rfl
  · rfl

-- == lists of tickets

/-- An entry of the log is the machine's commit and belongs to a batch
below the held ones of its source. -/
def EntryOk (sent : List (Batch Nat)) (held : List (BatchTicket .queued Nat))
    (e : Persisted) : Prop :=
  e.committed = some e.update.offset
    ∧ ∃ b ∈ sent, b.source = e.update.sourceId ∧ b.checkpoint = e.update.offset
      ∧ ∀ t ∈ held, t.source = e.update.sourceId → b.id < t.id

/-- Fewer held batches ask for less. -/
theorem EntryOk.mono {held held' : List (BatchTicket .queued Nat)} {e : Persisted}
    (h : EntryOk sent held' e) (hsub : ∀ t ∈ held, t ∈ held') : EntryOk sent held e := by
  obtain ⟨hc, b, hb, hsrc, hck, hlt⟩ := h
  exact ⟨hc, b, hb, hsrc, hck, fun t ht => hlt t (hsub t ht)⟩

variable (ts : List (BatchTicket .sending Nat))

theorem SeamInv.ackTickets :
    ∀ {p : PipelineState} {applied : List BatchId},
      SeamInv p sent applied (ts ++ out) →
      SeamInv (ackTickets d p ts).1 sent (applied ++ resolvedIds d p ts) out := by
  induction ts with
  | nil =>
    intro p applied hi
    have hnone : resolvedIds d p [] = [] := by simp [resolvedIds]
    rw [hnone, append_nil]
    exact hi
  | cons t ts ih =>
    intro p applied hi
    rw [resolvedIds_cons, ← append_assoc]
    exact ih (hi.ackTicket d)

theorem ackTickets_held :
    ∀ p : PipelineState, ∀ x ∈ p.heldTickets, x ∈ (Runtime.ackTickets d p ts).1.heldTickets := by
  induction ts with
  | nil => intro p x hx; exact hx
  | cons t ts ih =>
    intro p x hx
    exact ih _ x (ackTicket_held d p t x hx)

theorem SeamInv.ackLog_ok :
    ∀ {p : PipelineState} {applied : List BatchId},
      SeamInv p sent applied (ts ++ out) →
      ∀ e ∈ ackLog d p ts, EntryOk sent p.heldTickets e := by
  induction ts with
  | nil => intro p applied _ e he; cases he
  | cons t ts ih =>
    intro p applied hi e he
    have hi' := hi.ackTicket d
    rcases mem_append.mp he with he | he
    · obtain ⟨u, hu, rfl⟩ := mem_map.mp he
      have hcommit := ackTicket_update (Option.mem_toList.mp hu)
      obtain ⟨b, hb, hsrc, hck, -, hlt⟩ := hi'.committed_below hcommit
      refine ⟨hcommit, b, hb, hsrc, hck, fun x hx => ?_⟩
      exact hlt x (ackTicket_held d p t x hx)
    · exact (ih hi' e he).mono (ackTicket_held d p t)

/-- The store receives exactly what the log records. -/
theorem ackTickets_store :
    ∀ p : PipelineState, (Runtime.ackTickets d p ts).1.checkpointStore
      = p.checkpointStore.map (· ++ (ackLog d p ts).map (·.update)) := by
  induction ts with
  | nil => intro p; simp [ackTickets, ackLog]
  | cons t ts ih =>
    intro p
    have hone : (ackTicket d p t).1.checkpointStore
        = p.checkpointStore.map (· ++ (ackTicket d p t).2.toList) := by
      unfold ackTicket
      split
      · simp
      · split
        · rfl
        · simp
    rw [ackTickets, ih, hone, ackLog, Option.map_map]
    congr 1
    funext l
    simp [Function.comp_def]

-- == opening tickets

/-- A ticket created and sent: its id is above every one in use. -/
theorem SeamInv.createTicket
    (hi : SeamInv { p with machine := some m } sent applied out) (sid : SourceId)
    (offset : Nat) :
    SeamInv
      { p with machine := some (beginSend (createBatch m sid offset).1
        (createBatch m sid offset).2).1 }
      (sent ++ [⟨sid, m.nextBatchId, offset⟩]) applied
      (out ++ [(BatchTicket.new m.nextBatchId sid offset).beginSend]) := by
  have hbelow := hi.below m rfl
  have hfresh : ∀ b ∈ sent, b.id ≠ m.nextBatchId :=
    fun b hb => ne_of_lt (hbelow b hb)
  have happ : ∀ k ∈ applied, k < m.nextBatchId := by
    intro k hk
    obtain ⟨b, hb, rfl⟩ := hi.applied_sent k hk
    exact hbelow b hb
  have hledger : historyLedger (sent ++ [⟨sid, m.nextBatchId, offset⟩]) applied
      = (historyLedger sent applied).send ⟨sid, m.nextBatchId, offset⟩ :=
    Ledger.send_concat sent _ _
  have huniq : ∀ b' ∈ (historyLedger sent applied).sent,
      b'.id = (⟨sid, m.nextBatchId, offset⟩ : Batch Nat).id →
      b' = ⟨sid, m.nextBatchId, offset⟩ :=
    fun b' hb' hid => absurd hid (hfresh b' hb')
  refine ⟨?_, ?_, ?_, ?_, ?_, ?_, ?_⟩
  · intro m' hm'
    cases hm'
    rw [hledger]
    exact (hi.tracks m rfl).send huniq (fun h => absurd rfl (ne_of_lt (happ _ h)))
      fun a _ ha => happ a ha
  · intro m' hm' b hb
    cases hm'
    rcases mem_append.mp hb with hb | hb
    · exact Nat.lt_succ_of_lt (hbelow b hb)
    · rw [mem_singleton.mp hb]
      exact Nat.lt_succ_self _
  · rw [hledger]
    exact hi.functional.send huniq
  · intro t ht
    rcases mem_append.mp ht with ht | ht
    · exact mem_append_left _ (hi.out_sent t ht)
    · rw [mem_singleton.mp ht]
      exact mem_append_right _ (mem_singleton.mpr rfl)
  · intro t ht
    exact mem_append_left _ (hi.held_sent t ht)
  · intro k hk
    obtain ⟨b, hb, hid⟩ := hi.applied_sent k hk
    exact ⟨b, mem_append_left _ hb, hid⟩
  · have hnew : m.nextBatchId ∉ out.map (·.id) ++ p.heldTickets.map (·.id) ++ applied := by
      intro h
      simp only [mem_append, mem_map] at h
      rcases h with (⟨t, ht, hid⟩ | ⟨t, ht, hid⟩) | h
      · exact hfresh _ (hi.out_sent t ht) hid
      · exact hfresh _ (hi.held_sent t ht) hid
      · exact absurd rfl (ne_of_lt (happ _ h))
    have hnd := nodup_cons.mpr ⟨hnew, hi.nodup⟩
    refine (Perm.nodup_iff ?_).mp hnd
    rw [map_append, append_assoc, append_assoc, append_assoc]
    exact perm_middle.symm

/-- The tickets of a batch, each created and sent at once. -/
theorem SeamInv.createTickets (entries : List (SourceId × Nat)) :
    ∀ {m : PipelineMachine .running Nat} {sent : List (Batch Nat)}
      {out : List (BatchTicket .sending Nat)},
      SeamInv { p with machine := some m } sent applied out →
      SeamInv { p with machine := some (createTickets m entries).1 }
        (sent ++ (createTickets m entries).2.map BatchTicket.batch) applied
        (out ++ (createTickets m entries).2) := by
  induction entries with
  | nil =>
    intro m sent out hi
    simpa [Runtime.createTickets] using hi
  | cons entry rest ih =>
    intro m sent out hi
    obtain ⟨sid, offset⟩ := entry
    have hrest := ih (hi.createTicket sid offset)
    rw [append_assoc, append_assoc] at hrest
    exact hrest

theorem SeamInv.openTickets (hi : SeamInv p sent applied out) (entries : List (SourceId × Nat)) :
    SeamInv (openTickets p entries).1
      (sent ++ (openTickets p entries).2.map BatchTicket.batch) applied
      (out ++ (openTickets p entries).2) := by
  unfold Runtime.openTickets
  cases hm : p.machine with
  | none => simpa using hi
  | some m =>
    obtain ⟨machine, held, store⟩ := p
    cases hm
    exact .createTickets entries hi

variable (p : PipelineState) (entries : List (SourceId × Nat))

theorem openTickets_held :
    (Runtime.openTickets p entries).1.heldTickets = p.heldTickets := by
  unfold openTickets
  split <;> rfl

theorem openTickets_store :
    (Runtime.openTickets p entries).1.checkpointStore = p.checkpointStore := by
  unfold openTickets
  split <;> rfl

end Inv

-- == runs

section Run

variable {R : Type} {numRows : R → Nat} {hasStore : Bool} {r r' : DeliveryRun R}

/-- The invariant of a run: the seam's, with the unanswered items'
tickets outstanding, and the store holding what the log says. -/
structure DeliveryInv (hasStore : Bool) (r : DeliveryRun R) : Prop where
  seam : SeamInv r.pipeline r.sent r.applied (r.pool.flatMap (·.tickets))
  store : r.pipeline.checkpointStore
    = if hasStore then some (r.log.map (·.update)) else none

theorem DeliveryInv.init : DeliveryInv hasStore (DeliveryRun.init (R := R) hasStore) := by
  refine ⟨⟨?_, ?_, ?_, ?_, ?_, ?_, ?_⟩, ?_⟩
  · intro m hm
    cases hm
    have hempty : historyLedger [] [] = .empty := by
      simp [historyLedger, Ledger.empty]
    show Tracks _ (historyLedger [] [])
    rw [hempty]
    exact .init
  · intro m _ b hb
    cases hb
  · intro b hb
    cases hb
  · intro t ht
    cases ht
  · intro t ht
    cases ht
  · intro k hk
    cases hk
  · exact nodup_nil
  · rfl

/-- What every operation does: history only grows, held tickets stay
held, and new log entries respect them. -/
structure Extends (r r' : DeliveryRun R) : Prop where
  sent : ∀ b ∈ r.sent, b ∈ r'.sent
  held : ∀ t ∈ r.pipeline.heldTickets, t ∈ r'.pipeline.heldTickets
  log : ∃ later, r'.log = r.log ++ later
    ∧ ∀ e ∈ later, EntryOk r'.sent r.pipeline.heldTickets e

theorem Extends.refl (r : DeliveryRun R) : Extends r r :=
  ⟨fun _ h => h, fun _ h => h, [], by simp, by simp⟩

theorem EntryOk.sent_mono {sent sent' : List (Batch Nat)}
    {held : List (BatchTicket .queued Nat)} {e : Persisted}
    (h : EntryOk sent held e) (hsub : ∀ b ∈ sent, b ∈ sent') : EntryOk sent' held e := by
  obtain ⟨hc, b, hb, hrest⟩ := h
  exact ⟨hc, b, hsub b hb, hrest⟩

theorem Extends.trans {r₁ r₂ r₃ : DeliveryRun R} (h : Extends r₁ r₂)
    (h' : Extends r₂ r₃) : Extends r₁ r₃ := by
  obtain ⟨l, hl, hok⟩ := h.log
  obtain ⟨l', hl', hok'⟩ := h'.log
  refine ⟨fun b hb => h'.sent b (h.sent b hb), fun t ht => h'.held t (h.held t ht),
    l ++ l', by rw [hl', hl, append_assoc], fun e he => ?_⟩
  rcases mem_append.mp he with he | he
  · exact (hok e he).sent_mono h'.sent
  · exact (hok' e he).mono h.held

/-- The early paths resolve the tickets they opened; the last path hands
them to the pool. -/
theorem submitBatch_eq (numRows : R → Nat) (p : PipelineState)
    (entries : List (SourceId × Nat)) (batch : R) (stage : R → ProcessorStageResult R)
    (failpoint : Bool) :
    match earlyDisposition numRows stage batch failpoint with
    | some d => (submitBatch numRows stage failpoint p entries batch).state
        = (ackTickets d (openTickets p entries).1 (openTickets p entries).2).1
    | none => (submitBatch numRows stage failpoint p entries batch).state
          = (openTickets p entries).1
        ∧ (submitBatch numRows stage failpoint p entries batch).item.toList.flatMap
            (·.tickets) = (openTickets p entries).2 := by
  unfold earlyDisposition submitBatch
  by_cases hzero : (numRows batch == 0)
  · simp only [hzero]
    rfl
  · simp only [hzero]
    cases stage batch with
    | hold reason | permanentError reason | zeroRow reason | fatal reason | reject reason => rfl
    | forward result rows =>
      cases failpoint with
      | true => rfl
      | false => exact ⟨rfl, by simp⟩

theorem DeliveryInv.submit (hi : DeliveryInv hasStore r)
    {entries : List (SourceId × Nat)} {batch : R}
    {stage : R → ProcessorStageResult R} {failpoint : Bool}
    (h : apply numRows (.submit entries batch stage failpoint) r = some r') :
    DeliveryInv hasStore r' ∧ Extends r r' := by
  have hopen := hi.seam.openTickets entries
  have heq := submitBatch_eq numRows r.pipeline entries batch stage failpoint
  have hheld := openTickets_held r.pipeline entries
  have hstore := openTickets_store r.pipeline entries
  simp only [apply] at h
  cases hd : earlyDisposition numRows stage batch failpoint with
  | none =>
    rw [hd] at h heq
    obtain ⟨hstate, hitem⟩ := heq
    cases h
    refine ⟨⟨?_, ?_⟩, ⟨fun b hb => mem_append_left _ hb, ?_, [], by simp,
      by simp⟩⟩
    · rw [flatMap_append, hitem, hstate]
      exact hopen
    · rw [hstate, hstore]
      exact hi.store
    · intro t ht
      rw [hstate, hheld]
      exact ht
  | some d =>
    rw [hd] at h heq
    cases h
    have hperm := hopen.perm perm_append_comm
    refine ⟨⟨?_, ?_⟩, ⟨fun b hb => mem_append_left _ hb, ?_, _, rfl, ?_⟩⟩
    · rw [heq]
      exact hperm.ackTickets d _
    · rw [heq, ackTickets_store, hstore, hi.store, map_append]
      cases hasStore with
      | true | false => rfl
    · intro t ht
      rw [heq]
      refine ackTickets_held d _ _ t ?_
      rw [hheld]
      exact ht
    · rw [← hheld]
      exact hperm.ackLog_ok d _

theorem DeliveryInv.poolAck (hi : DeliveryInv hasStore r) {i : Nat}
    {outcome : DeliveryOutcome} (h : apply numRows (.poolAck i outcome) r = some r') :
    DeliveryInv hasStore r' ∧ Extends r r' := by
  simp only [apply] at h
  cases hitem : r.pool[i]? with
  | none => rw [hitem] at h; cases h
  | some item =>
    rw [hitem] at h
    cases h
    obtain ⟨hlt, hget⟩ := List.getElem?_eq_some_iff.mp hitem
    have hpool : (item.tickets ++ (r.pool.eraseIdx i).flatMap (·.tickets)).Perm
        (r.pool.flatMap (·.tickets)) := by
      rw [← hget]
      exact (getElem_cons_eraseIdx_perm hlt).flatMap_right (·.tickets)
    have hperm := hi.seam.perm hpool
    refine ⟨⟨hperm.ackTickets _ _, ?_⟩, ⟨fun b hb => hb,
      ackTickets_held _ _ r.pipeline, _, rfl, hperm.ackLog_ok _ _⟩⟩
    show (ackTickets _ r.pipeline item.tickets).1.checkpointStore = _
    rw [ackTickets_store, hi.store, map_append]
    cases hasStore with
    | true | false => rfl

/-- What stopping persists: the machine's commits. -/
theorem finishPipeline_update {p : PipelineState} {u : SourceCheckpoint}
    (hu : u ∈ (finishPipeline p).2) : p.committedCheckpoint u.sourceId = some u.offset := by
  unfold finishPipeline at hu
  cases hm : p.machine with
  | none => rw [hm] at hu; cases hu
  | some m =>
    rw [hm] at hu
    obtain ⟨⟨s, o⟩, he, rfl⟩ := mem_map.mp hu
    unfold PipelineState.committedCheckpoint
    rw [hm]
    -- a clean stop and a forced one report the same commits
    refine Eq.trans ?_ (Std.ExtTreeMap.mem_toList_iff_getElem?_eq_some.mp he)
    unfold PipelineMachine.Draining.stop
    cases PipelineMachine.Draining.isDrained
      (beginDrain m) with
    | true | false => rfl

theorem DeliveryInv.finish (hi : DeliveryInv hasStore r)
    (h : apply numRows .finish r = some r') :
    DeliveryInv hasStore r' ∧ Extends r r' := by
  cases h
  have hheld : (finishPipeline r.pipeline).1.heldTickets
      = r.pipeline.heldTickets := by
    unfold finishPipeline
    split <;> rfl
  have hgone : ∀ m, (finishPipeline r.pipeline).1.machine = some m →
      r.pipeline.machine = some m := by
    intro m hm
    unfold finishPipeline at hm
    split at hm
    · exact hm
    · cases hm
  have hstore : (finishPipeline r.pipeline).1.checkpointStore
      = r.pipeline.checkpointStore.map (· ++ (finishPipeline r.pipeline).2) := by
    unfold finishPipeline
    split
    · simp
    · rfl
  refine ⟨⟨?_, ?_⟩, ⟨fun b hb => hb, fun t ht => by rw [hheld]; exact ht, _, rfl, ?_⟩⟩
  · exact
      { tracks := fun m hm => hi.seam.tracks m (hgone m hm)
        below := fun m hm => hi.seam.below m (hgone m hm)
        functional := hi.seam.functional
        out_sent := hi.seam.out_sent
        held_sent := by rw [hheld]; exact hi.seam.held_sent
        applied_sent := hi.seam.applied_sent
        nodup := by rw [hheld]; exact hi.seam.nodup }
  · rw [hstore, hi.store]
    cases hasStore with
    | true => simp [Function.comp_def]
    | false => rfl
  · intro e he
    obtain ⟨u, hu, rfl⟩ := mem_map.mp he
    have hcommit := finishPipeline_update hu
    obtain ⟨b, hb, hsrc, hck, -, hlt⟩ := hi.seam.committed_below hcommit
    exact ⟨hcommit, b, hb, hsrc, hck, hlt⟩

/-- Every operation keeps the invariant and only extends the history. -/
theorem DeliveryInv.step (hi : DeliveryInv hasStore r) {op : DeliveryOp R}
    (h : op.apply numRows r = some r') : DeliveryInv hasStore r' ∧ Extends r r' := by
  cases op with
  | submit entries batch stage failpoint => exact hi.submit h
  | poolAck i outcome => exact hi.poolAck h
  | finish => exact hi.finish h

theorem deliveryInv_reachable (hr : Reachable (apply numRows) (DeliveryRun.init hasStore) r) :
    DeliveryInv hasStore r :=
  hr.invariant DeliveryInv.init fun _ _ _ hi _ happ => (hi.step happ).1

/-- Held batches block durable progress. From any state of a run on,
whatever is handed to the checkpoint store is what the machine has
committed at that moment and belongs to a batch below every batch of its
source that was held by then; and the store receives nothing else. -/
theorem held_blocks_progress (hr : Reachable (apply numRows) (DeliveryRun.init hasStore) r)
    (hr' : Reachable (apply numRows) r r') :
    (∃ later, r'.log = r.log ++ later ∧ ∀ e ∈ later,
        e.committed = some e.update.offset
        ∧ ∃ b ∈ r'.sent, b.source = e.update.sourceId
          ∧ b.checkpoint = e.update.offset
          ∧ ∀ t ∈ r.pipeline.heldTickets, t.source = e.update.sourceId →
              b.id < t.id)
      ∧ r'.pipeline.checkpointStore
        = if hasStore then some (r'.log.map (·.update)) else none := by
  have hi := deliveryInv_reachable hr
  have hinv : DeliveryInv hasStore r' ∧ Extends r r' :=
    hr'.invariant (I := fun x => DeliveryInv hasStore x ∧ Extends r x)
      ⟨hi, .refl r⟩ fun _ _ _ hx _ happ =>
        ⟨(hx.1.step happ).1, hx.2.trans (hx.1.step happ).2⟩
  exact ⟨hinv.2.log, hinv.1.store⟩

end Run

/-- Two batches of source 0, the second also of source 1; the first one
times out and is held. -/
def heldRun : List (DeliveryOp Nat) :=
  [.submit [(0, 1000)] 1 (fun b => .forward b b) false,
   .submit [(0, 2000), (1, 50)] 1 (fun b => .forward b b) false,
   .poolAck 0 .timedOut]

/-- Delivery of the second batch persists source 1 only. -/
theorem held_blocks_progress_heldRun :
    ∃ r r' : DeliveryRun Nat,
      runList (apply id) (DeliveryRun.init true) heldRun = some r
      ∧ runList (apply id) r [.poolAck 0 .delivered] = some r'
      ∧ r.pipeline.heldTickets.map (·.id) = [0]
      ∧ r'.log.map (·.update) = [⟨1, 50⟩]
      ∧ r'.pipeline.checkpointStore = some [⟨1, 50⟩] := by
  have h : (runList (apply id) (.init true) heldRun).map
      (fun r => (r.pipeline.heldTickets.map (·.id),
        (runList (apply id) r [.poolAck 0 .delivered]).map
          fun r' => r'.log.map (·.update))) = some ([0], some [⟨1, 50⟩]) := by
    decide +kernel
  obtain ⟨r, hrun, hr⟩ := Option.map_eq_some_iff.mp h
  obtain ⟨hheld, hlater⟩ := Prod.mk.inj hr
  obtain ⟨r', hrun', hlog⟩ := Option.map_eq_some_iff.mp hlater
  have hstore := (held_blocks_progress (runList_reachable _ .init hrun)
    (runList_reachable _ .init hrun')).2
  rw [hlog] at hstore
  exact ⟨r, r', hrun, hrun', hheld, hlog, hstore⟩

end FastForward.Runtime
