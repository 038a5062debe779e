/-
A dropped chunk and the commit.

The machine never hears of a dropped chunk, so it cannot hold anything
back for it: the commit of the source passes the chunk as soon as a batch
from behind it, and every batch of the source before that one, is acked
or rejected. `SourceInv` says how offsets and ids run together along a
source: later ids carry larger offsets, and no submitted offset falls
inside a dropped chunk. The ordered commit of the seam does the rest.
-/
import FastForward.Runtime.CpuWorker
import FastForward.Runtime.Proofs.Held

namespace FastForward.Runtime

open Lib Pipeline Io List SourceOp Std.ExtTreeMap

variable {α R : Type} {numRows : R → Nat} {source : SourceId}

-- == what an operation sends

/-- Tickets are opened for the entries, in order. -/
theorem createTickets_entries (entries : List (SourceId × Nat)) :
    ∀ m : PipelineMachine .running Nat,
      (createTickets m entries).2.map (fun t => (t.source, t.checkpoint)) = entries := by
  induction entries with
  | nil => intro m; rfl
  | cons e rest ih =>
    intro m
    rw [createTickets, map_cons, ih]
    rfl

variable {entries : List (SourceId × Nat)}

theorem openTickets_entries {p : PipelineState}
    {t : BatchTicket .sending Nat} (ht : t ∈ (openTickets p entries).2) :
    (t.source, t.checkpoint) ∈ entries := by
  unfold openTickets at ht
  split at ht
  · next m _ =>
      rw [← createTickets_entries entries m]
      exact mem_map_of_mem ht
  · cases ht

variable {stage : R → ProcessorStageResult R} {failpoint : Bool} {batch : R}

theorem submit_sent {r r' : DeliveryRun R}
    (h : DeliveryOp.apply numRows (.submit entries batch stage failpoint) r = some r') :
    r'.sent = r.sent ++ (openTickets r.pipeline entries).2.map BatchTicket.batch := by
  simp only [DeliveryOp.apply] at h
  split at h
  · cases h; rfl
  · cases h; rfl

/-- An operation that does not name the source sends nothing of it. -/
theorem sent_of_not_names {r r' : DeliveryRun R} {op : DeliveryOp R}
    (hn : op.names source = false) (h : op.apply numRows r = some r') {b : Batch Nat}
    (hb : b ∈ r'.sent) (hsrc : b.source = source) : b ∈ r.sent := by
  cases op with
  | submit entries batch stage failpoint =>
    rw [submit_sent h] at hb
    rcases mem_append.mp hb with hb | hb
    · exact hb
    · obtain ⟨t, ht, rfl⟩ := mem_map.mp hb
      have hmem := openTickets_entries ht
      simp only [DeliveryOp.names, any_eq_false, beq_iff_eq] at hn
      exact absurd hsrc (hn _ hmem)
  | poolAck i outcome =>
    simp only [DeliveryOp.apply] at h
    split at h
    · cases h; exact hb
    · cases h
  | finish =>
    cases h
    exact hb

variable {hasStore : Bool}

/-- What a submission of one entry sends: nothing once the machine has
stopped, else one batch with a new, largest id. -/
theorem submit_one {r r' : DeliveryRun R} (hi : DeliveryInv hasStore r) {k : Nat}
    (h : DeliveryOp.apply numRows (.submit [(source, k)] batch stage failpoint) r = some r') :
    r'.sent = r.sent ∨ ∃ id, r'.sent = r.sent ++ [⟨source, id, k⟩] ∧ ∀ b ∈ r.sent, b.id < id := by
  rw [submit_sent h]
  unfold openTickets
  cases hm : r.pipeline.machine with
  | none => exact .inl (append_nil _)
  | some m =>
    exact .inr ⟨m.nextBatchId, rfl, hi.seam.below m hm⟩

-- == the invariant

/-- Where a submitted offset can lie: not inside a dropped chunk. -/
def Outside (dropped : List DroppedChunk) (k : Nat) : Prop :=
  ∀ d ∈ dropped, k ≤ d.start ∨ d.stop < k

/-- The source's offsets: sent ones, ones in the channel (`offs`) and
dropped ranges. -/
structure SourceInv (source : SourceId) (r : SourceRun R) (offs : List Nat) :
    Prop where
  channel : r.channel.map (fun msg => msg.checkpoints.toList)
    = offs.map fun k => [(source, k)]
  increasing : offs.Pairwise (· < ·)
  sent_lt : ∀ b ∈ r.delivery.sent, b.source = source → ∀ k ∈ offs, b.checkpoint < k
  sent_le : ∀ b ∈ r.delivery.sent, b.source = source → b.checkpoint ≤ r.stop
  offs_le : ∀ k ∈ offs, k ≤ r.stop
  sent_mono : ∀ b ∈ r.delivery.sent, ∀ b' ∈ r.delivery.sent, b.source = source →
    b'.source = source → b.id < b'.id → b.checkpoint < b'.checkpoint
  dropped_le : ∀ d ∈ r.dropped, d.stop ≤ r.stop
  sent_outside : ∀ b ∈ r.delivery.sent, b.source = source →
    Outside r.dropped b.checkpoint
  offs_outside : ∀ k ∈ offs, Outside r.dropped k

theorem SourceInv.init (hasStore : Bool) (start : Nat) :
    SourceInv (R := R) source (.init hasStore start) [] := by
  refine ⟨rfl, .nil, ?_, ?_, ?_, ?_, ?_, ?_, ?_⟩
  · intro b hb; cases hb
  · intro b hb; cases hb
  · intro k hk; cases hk
  · intro b hb; cases hb
  · intro d hd; cases hd
  · intro b hb; cases hb
  · intro k hk; cases hk

section Step

variable {r r' : SourceRun R} {offs : List Nat} {msg : ProcessedBatch R}

/-- A chunk that is processed joins the channel behind everything. -/
theorem SourceInv.enqueue (hi : SourceInv source r offs) (n : Nat)
    (hmsg : msg.checkpoints.toList = [(source, r.stop + n + 1)]) :
    SourceInv source
      { r with channel := r.channel ++ [msg], stop := r.stop + n + 1 }
      (offs ++ [r.stop + n + 1]) := by
  have hnew : ∀ {k : Nat}, k ∈ offs ++ [r.stop + n + 1] → k ∈ offs ∨ k = r.stop + n + 1 := by
    intro k hk
    rcases mem_append.mp hk with hk | hk
    · exact .inl hk
    · exact .inr (mem_singleton.mp hk)
  refine ⟨?_, ?_, ?_, ?_, ?_, hi.sent_mono, ?_, hi.sent_outside, ?_⟩
  · rw [map_append, map_append, hi.channel, map_singleton, map_singleton, hmsg]
  · refine pairwise_append.mpr ⟨hi.increasing, pairwise_singleton _ _, ?_⟩
    intro k hk x hx
    rw [mem_singleton.mp hx]
    have := hi.offs_le k hk
    omega
  · intro b hb hs k hk
    rcases hnew hk with hk | rfl
    · exact hi.sent_lt b hb hs k hk
    · have := hi.sent_le b hb hs
      omega
  · intro b hb hs
    have := hi.sent_le b hb hs
    show b.checkpoint ≤ r.stop + n + 1
    omega
  · intro k hk
    show k ≤ r.stop + n + 1
    rcases hnew hk with hk | rfl
    · have := hi.offs_le k hk
      omega
    · exact le_refl _
  · intro d hd
    have := hi.dropped_le d hd
    show d.stop ≤ r.stop + n + 1
    omega
  · intro k hk d hd
    rcases hnew hk with hk | rfl
    · exact hi.offs_outside k hk d hd
    · have := hi.dropped_le d hd
      right
      omega

/-- A chunk that is dropped lies behind everything. -/
theorem SourceInv.drop (hi : SourceInv source r offs) (n : Nat) :
    SourceInv source
      { r with
        dropped := r.dropped ++ [⟨r.stop, r.stop + n + 1⟩]
        stop := r.stop + n + 1 } offs := by
  have hold : ∀ {k : Nat}, k ≤ r.stop → Outside r.dropped k →
      Outside (r.dropped ++ [⟨r.stop, r.stop + n + 1⟩]) k := by
    intro k hk hout d hd
    rcases mem_append.mp hd with hd | hd
    · exact hout d hd
    · rw [mem_singleton.mp hd]
      exact .inl hk
  refine ⟨hi.channel, hi.increasing, hi.sent_lt, ?_, ?_, hi.sent_mono, ?_, ?_, ?_⟩
  · intro b hb hs
    have := hi.sent_le b hb hs
    show b.checkpoint ≤ r.stop + n + 1
    omega
  · intro k hk
    have := hi.offs_le k hk
    show k ≤ r.stop + n + 1
    omega
  · intro d hd
    show d.stop ≤ r.stop + n + 1
    rcases mem_append.mp hd with hd | hd
    · have := hi.dropped_le d hd
      omega
    · rw [mem_singleton.mp hd]
  · intro b hb hs
    exact hold (hi.sent_le b hb hs) (hi.sent_outside b hb hs)
  · intro k hk
    exact hold (hi.offs_le k hk) (hi.offs_outside k hk)

variable {delivery : DeliveryRun R}

/-- Nothing of the source is sent: nothing changes. -/
theorem SourceInv.sent_subset (hi : SourceInv source r offs)
    (hsub : ∀ b ∈ delivery.sent, b.source = source → b ∈ r.delivery.sent) :
    SourceInv source { r with delivery } offs :=
  { hi with
    sent_lt := fun b hb hs => hi.sent_lt b (hsub b hb hs) hs
    sent_le := fun b hb hs => hi.sent_le b (hsub b hb hs) hs
    sent_mono := fun b hb b' hb' hs hs' =>
      hi.sent_mono b (hsub b hb hs) b' (hsub b' hb' hs') hs hs'
    sent_outside := fun b hb hs => hi.sent_outside b (hsub b hb hs) hs }

variable {k : Nat}

/-- The oldest batch of the channel leaves it. -/
theorem SourceInv.dequeue {rest : List (ProcessedBatch R)}
    (hi : SourceInv source r (k :: offs))
    (hch : r.channel = msg :: rest) :
    SourceInv source { r with channel := rest } offs := by
  have hchannel := hi.channel
  rw [hch] at hchannel
  exact
    { channel := (cons.inj hchannel).2
      increasing := (pairwise_cons.mp hi.increasing).2
      sent_lt := fun b hb hs j hj => hi.sent_lt b hb hs j (mem_cons_of_mem _ hj)
      sent_le := hi.sent_le
      offs_le := fun j hj => hi.offs_le j (mem_cons_of_mem _ hj)
      sent_mono := hi.sent_mono
      dropped_le := hi.dropped_le
      sent_outside := hi.sent_outside
      offs_outside := fun j hj => hi.offs_outside j (mem_cons_of_mem _ hj) }

/-- And is sent, with a larger id and a larger offset than all before. -/
theorem SourceInv.send (hi : SourceInv source r offs) (hlt : ∀ j ∈ offs, k < j) (hle : k ≤ r.stop)
    (hsent : ∀ b ∈ r.delivery.sent, b.source = source → b.checkpoint < k)
    (hout : Outside r.dropped k) {id : BatchId}
    (hd : delivery.sent = r.delivery.sent ++ [⟨source, id, k⟩])
    (hid : ∀ b ∈ r.delivery.sent, b.id < id) :
    SourceInv source { r with delivery } offs := by
  have hmem : ∀ {b : Batch Nat}, b ∈ delivery.sent → b ∈ r.delivery.sent ∨ b = ⟨source, id, k⟩ := by
    intro b hb
    rw [hd] at hb
    rcases mem_append.mp hb with hb | hb
    · exact .inl hb
    · exact .inr (mem_singleton.mp hb)
  refine ⟨hi.channel, hi.increasing, ?_, ?_, hi.offs_le, ?_, hi.dropped_le, ?_, hi.offs_outside⟩
  · intro b hb hs j hj
    rcases hmem hb with hb | rfl
    · exact hi.sent_lt b hb hs j hj
    · exact hlt j hj
  · intro b hb hs
    rcases hmem hb with hb | rfl
    · exact hi.sent_le b hb hs
    · exact hle
  · intro b hb b' hb' hs hs' hlt'
    rcases hmem hb with hb | rfl
    · rcases hmem hb' with hb' | rfl
      · exact hi.sent_mono b hb b' hb' hs hs' hlt'
      · exact hsent b hb hs
    · rcases hmem hb' with hb' | rfl
      · exact absurd hlt' (not_lt.mpr (le_of_lt (hid b' hb')))
      · exact absurd hlt' (lt_irrefl _)
  · intro b hb hs
    rcases hmem hb with hb | rfl
    · exact hi.sent_outside b hb hs
    · exact hout

/-- A processed batch carries its chunk's checkpoints. -/
theorem cpuWorkerItem_checkpoints {stages : CpuStages α R} {item : IoWorkItem α R}
    (h : cpuWorkerItem stages item = .ok msg) :
    msg.checkpoints = checkpointMap item.checkpoints := by
  unfold cpuWorkerItem at h
  cases hb : itemBatch stages item with
  | error e => rw [hb] at h; cases h
  | ok batch =>
    rw [hb] at h
    cases hx : stages.executeTransform batch with
    | error e =>
      simp only [bind, Except.bind, hx] at h
      cases h
    | ok result =>
      simp only [bind, Except.bind, hx] at h
      cases h
      rfl

theorem checkpointMap_singleton (s : SourceId) (k : Nat) :
    (checkpointMap [(s, k)]).toList = [(s, k)] := by
  have hlen : (checkpointMap [(s, k)]).toList.length = 1 := by
    simp [checkpointMap, size_insert]
  obtain ⟨x, hx⟩ := length_eq_one_iff.mp hlen
  have hget := mem_toList_iff_getElem?_eq_some.mp
    (show x ∈ (checkpointMap [(s, k)]).toList by rw [hx]; exact mem_singleton.mpr rfl)
  have hlookup : (checkpointMap [(s, k)])[x.1]? = if s = x.1 then some k else none := by
    show (insert (∅ : BTreeMap SourceId Nat) s k)[x.1]? = _
    rw [BTreeMap.getElem?_insert_eq]
    simp
  rw [hlookup] at hget
  split at hget
  · next hs =>
      rw [hx, singleton_inj]
      exact Prod.ext hs.symm (Option.some.inj hget).symm
  · cases hget

/-- Every operation keeps the offsets in order. -/
theorem SourceInv.step {hasStore : Bool} (hi : SourceInv source r offs)
    (hd : DeliveryInv hasStore r.delivery) {op : SourceOp α R}
    (h : op.apply numRows source r = some r') :
    DeliveryInv hasStore r'.delivery ∧ ∃ offs', SourceInv source r' offs' := by
  cases op with
  | chunk stages io n =>
    simp only [apply] at h
    split at h
    · next msg hmsg =>
        cases h
        refine ⟨hd, _, hi.enqueue n ?_⟩
        rw [cpuWorkerItem_checkpoints hmsg]
        exact checkpointMap_singleton source _
    · cases h
      exact ⟨hd, offs, hi.drop n⟩
  | receive stage failpoint =>
    simp only [apply] at h
    split at h
    · cases h
    · next msg rest hch =>
        obtain ⟨delivery, hsub, rfl⟩ := Option.map_eq_some_iff.mp h
        -- the channel is not empty, so neither is its list of offsets
        cases offs with
        | nil =>
          have hchannel := hi.channel
          rw [hch] at hchannel
          cases hchannel
        | cons k offs =>
          have hhead : msg.checkpoints.toList = [(source, k)] := by
            have hchannel := hi.channel
            rw [hch] at hchannel
            exact (cons.inj hchannel).1
          rw [hhead] at hsub
          have hi' := hi.dequeue hch
          refine ⟨(hd.step hsub).1, offs, ?_⟩
          rcases submit_one hd hsub with hsame | ⟨id, hsent, hid⟩
          · refine hi'.sent_subset fun b hb _ => ?_
            rw [hsame] at hb
            exact hb
          · exact hi'.send (pairwise_cons.mp hi.increasing).1 (hi.offs_le k (mem_cons_self ..))
              (fun b hb hs => hi.sent_lt b hb hs k (mem_cons_self ..))
              (hi.offs_outside k (mem_cons_self ..)) hsent hid
  | other op =>
    simp only [apply] at h
    split at h
    · cases h
    · next hn =>
        obtain ⟨delivery, hop, rfl⟩ := Option.map_eq_some_iff.mp h
        refine ⟨(hd.step hop).1, offs, hi.sent_subset fun b hb hs => ?_⟩
        exact sent_of_not_names (by simpa using hn) hop hb hs

end Step

/-- The invariant holds in every state of every run. -/
theorem sourceInv_reachable {start : Nat} {r : SourceRun R}
    (hr : Reachable (apply (α := α) numRows source) (.init hasStore start) r) :
    DeliveryInv hasStore r.delivery ∧ ∃ offs, SourceInv source r offs :=
  hr.invariant (I := fun r => DeliveryInv hasStore r.delivery ∧ ∃ offs, SourceInv source r offs)
    ⟨DeliveryInv.init, [], SourceInv.init hasStore start⟩
    fun _ _ _ hi _ happ => by
      obtain ⟨hd, offs, hs⟩ := hi
      exact hs.step hd happ

-- == the theorem

section Commit

variable {r : SourceRun R} {offs : List Nat}

/-- A commit of the source is the offset of a batch sent for it, below
which nothing is open. -/
theorem committed_batch {hasStore : Bool} (hd : DeliveryInv hasStore r.delivery)
    {c : Nat} (h : r.delivery.pipeline.committedCheckpoint source = some c) :
    ∃ b ∈ r.delivery.sent, b.source = source ∧ b.checkpoint = c
      ∧ ∀ b' ∈ r.delivery.sent, b'.source = source → b'.id ≤ b.id → b'.id ∈ r.delivery.applied := by
  obtain ⟨m, hm, hc⟩ := Option.bind_eq_some_iff.mp h
  obtain ⟨k, hk, hmem⟩ := ((hd.seam.tracks m hm).committed source c).mp hc
  refine ⟨⟨source, k, c⟩, hmem, rfl, rfl, fun b' hb' hs hle => ?_⟩
  exact hk.1.2 b'.id ⟨b'.checkpoint, hs ▸ hb'⟩ hle

/-- A batch with nothing open at or below it forces a commit at or
beyond its offset. -/
theorem committed_beyond {hasStore : Bool} (hd : DeliveryInv hasStore r.delivery)
    (hi : SourceInv source r offs)
    (hrun : r.delivery.pipeline.machine.isSome) {b : Batch Nat}
    (hb : b ∈ r.delivery.sent) (hsrc : b.source = source)
    (hall : ∀ b' ∈ r.delivery.sent, b'.source = source → b'.id ≤ b.id →
      b'.id ∈ r.delivery.applied) :
    ∃ c, r.delivery.pipeline.committedCheckpoint source = some c ∧ b.checkpoint ≤ c := by
  obtain ⟨m, hm⟩ := Option.isSome_iff_exists.mp hrun
  let L := historyLedger r.delivery.sent r.delivery.applied
  have hfin : (L.ids source).Finite := by
    refine Set.Finite.subset (r.delivery.sent.map (·.id)).finite_toSet fun k hk => ?_
    obtain ⟨d, hd'⟩ := hk
    exact mem_map.mpr ⟨_, hd', rfl⟩
  have hbc : b.id ∈ committable (L.ids source) L.applied := by
    refine ⟨⟨b.checkpoint, hsrc ▸ hb⟩, fun x hx hxb => ?_⟩
    obtain ⟨d, hxd⟩ := hx
    exact hall _ hxd rfl hxb
  obtain ⟨k, hk, hbk⟩ := exists_isGreatest_committable hfin hbc
  obtain ⟨c, hkc⟩ := hk.1.1
  refine ⟨c, ?_, ?_⟩
  · unfold PipelineState.committedCheckpoint
    rw [hm]
    exact ((hd.seam.tracks m hm).committed source c).mpr ⟨k, hk, hkc⟩
  · rcases eq_or_lt_of_le hbk with heq | hlt
    · have hsame := hd.seam.functional b hb _ hkc heq
      rw [hsame]
    · exact le_of_lt (hi.sent_mono b hb _ hkc hsrc rfl hlt)

/-- A dropped chunk is safe exactly as long as every batch submitted from
behind it is stuck: in every state of every run the commit of the source
has passed no dropped chunk if and only if each such batch has a batch of
the source at or before it that is neither acked nor rejected; and then a
restart from the commit reads the dropped chunks again. -/
theorem dropped_not_passed_iff {hasStore : Bool} {start : Nat}
    (hr : Reachable (apply (α := α) numRows source) (.init hasStore start) r) :
    (r.NotPassed source ↔ r.StuckBehindDrop source) ∧ (r.NotPassed source → r.Rereads source) := by
  obtain ⟨hd, offs, hi⟩ := sourceInv_reachable hr
  refine ⟨⟨?_, ?_⟩, ?_⟩
  · intro hnp hrun d hdrop b hb hsrc hlt
    by_contra hno
    obtain ⟨c, hc, hle⟩ := committed_beyond hd hi hrun hb hsrc fun b' hb' hs' hle => by
        by_contra hopen
        exact hno ⟨b', hb', hs', hle, hopen⟩
    have := hnp d hdrop c hc
    omega
  · intro hstuck d hdrop c hc
    obtain ⟨b, hb, hsrc, hck, hall⟩ := committed_batch hd hc
    have hrun : r.delivery.pipeline.machine.isSome = true := by
      obtain ⟨m, hm, -⟩ := Option.bind_eq_some_iff.mp hc
      rw [hm]
      rfl
    by_contra hpass
    obtain ⟨b', hb', hs', hle, hopen⟩ :=
      hstuck hrun d hdrop b hb hsrc (by rw [hck]; omega)
    exact hopen (hall b' hb' hs' hle)
  · intro hnp d hdrop c hc
    obtain ⟨b, hb, hsrc, hck, -⟩ := committed_batch hd hc
    have hle := hnp d hdrop c hc
    rcases hi.sent_outside b hb hsrc d hdrop with hout | hout
    · rw [hck] at hout
      exact hout
    · rw [hck] at hout
      omega

end Commit

/-- Stages that fail on an empty scan and pass everything else. -/
def lengthStages : CpuStages UInt8 Nat where
  scan := fun bytes => if bytes.isEmpty then .error "scan error" else .ok bytes.length
  sourceMetadataForBatch := fun b _ _ => .ok b
  criMetadataForBatch := fun b _ => .ok b
  executeTransform := .ok

def chunkOf (bytes : List UInt8) : IoChunk UInt8 where
  bytes := bytes
  checkpoints := []
  rowOrigins := []
  sourcePaths := ∅
  criMetadata := none
  inputIndex := 0

/-- The first chunk (offsets 0 to 10) is dropped; the second (10 to 20)
is delivered, or with `outcome` otherwise. -/
def dropThenDeliver (outcome : DeliveryOutcome) : List (SourceOp UInt8 Nat) :=
  [.chunk lengthStages (chunkOf []) 9, .chunk lengthStages (chunkOf [1]) 9,
   .receive (fun b => .forward b b) false, .other (.poolAck 0 outcome)]

/-- Delivery behind a dropped chunk commits past it. -/
theorem dropThenDeliver_passed :
    ∃ r, runList (apply id 0) (SourceRun.init true 0)
        (dropThenDeliver .delivered) = some r
      ∧ ¬ r.NotPassed 0 := by
  have h : (runList (apply id 0) (.init true 0) (dropThenDeliver .delivered)).map
      (fun r => (r.dropped, r.delivery.pipeline.committedCheckpoint 0))
      = some ([⟨0, 10⟩], some 20) := by
    decide +kernel
  obtain ⟨r, hrun, hr⟩ := Option.map_eq_some_iff.mp h
  obtain ⟨hdrop, hc⟩ := Prod.mk.inj hr
  refine ⟨r, hrun, fun hnp => ?_⟩
  have hle : 20 ≤ 10 :=
    hnp ⟨0, 10⟩ (by rw [hdrop]; exact mem_singleton.mpr rfl) 20 hc
  omega

/-- While the second chunk is held the first is not passed. -/
theorem dropped_not_passed_held :
    ∃ r, runList (apply id 0) (SourceRun.init true 0)
        (dropThenDeliver .timedOut) = some r
      ∧ r.dropped = [⟨0, 10⟩] ∧ r.StuckBehindDrop 0 := by
  have h : (runList (apply id 0) (.init true 0) (dropThenDeliver .timedOut)).map
      (fun r => (r.dropped, r.delivery.pipeline.committedCheckpoint 0))
      = some ([⟨0, 10⟩], none) := by
    decide +kernel
  obtain ⟨r, hrun, hr⟩ := Option.map_eq_some_iff.mp h
  obtain ⟨hdrop, hc⟩ := Prod.mk.inj hr
  refine ⟨r, hrun, hdrop, ?_⟩
  refine (dropped_not_passed_iff (runList_reachable _ .init hrun)).1.mp ?_
  intro d _ c hcc
  rw [hc] at hcc
  cases hcc

end FastForward.Runtime
