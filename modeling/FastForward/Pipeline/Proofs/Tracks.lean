/-
The machine refines the ledger: an empty machine represents the empty
ledger, registering a batch represents sending it, and applying a
receipt represents applying it, in any order, duplicates included.

The side condition of `Tracks.send` is the one fact about send order the
machine relies on: the batch being registered lies above every batch of
its source that already has a receipt. Ids handed out in increasing
order meet it, and so does any order while nothing is acknowledged.
-/
import FastForward.Pipeline.Ledger
import FastForward.Pipeline.Proofs.RecordAck

namespace FastForward.Pipeline

open Lib BTreeMap Set

universe u

variable {C : Type u} {t : Tracking C} {L : Ledger C}

theorem Tracks.init : Tracks (PipelineMachine.new (C := C)).toTracking Ledger.empty := by
  refine ⟨?_, ?_, ?_, .empty, .empty⟩
  · intro s k c
    exact ⟨fun h => (by cases h), fun h => absurd h.1 (notMem_empty _)⟩
  · intro s k c
    exact ⟨fun h => (by cases h), fun h => absurd h.1 (notMem_empty _)⟩
  · intro s c
    refine ⟨fun h => (by cases h), ?_⟩
    rintro ⟨k, -, hk⟩
    exact absurd hk (notMem_empty _)

-- == sending

variable {b : Batch C}

/-- A batch sent now is not among those with a receipt. -/
theorem Ledger.mem_send_of_applied {b' : Batch C} (hb : b.id ∉ L.applied)
    (hb' : b'.id ∈ L.applied) : b' ∈ (L.send b).sent ↔ b' ∈ L.sent := by
  constructor
  · intro hmem
    rcases mem_insert_iff.mp hmem with h | h
    · rw [h] at hb'
      exact absurd hb' hb
    · exact h
  · exact mem_insert_of_mem b

/-- Registering a batch above every acknowledged one of its source. -/
theorem Tracks.send (ht : Tracks t L)
    (huniq : ∀ b' ∈ L.sent, b'.id = b.id → b' = b) (hb : b.id ∉ L.applied)
    (htop : ∀ a ∈ L.ids b.source, a ∈ L.applied → a < b.id) :
    Tracks { t with
      inFlight := insert₂ t.inFlight b.source b.id b.checkpoint }
      (L.send b) := by
  have hcom : ∀ s, committable ((L.send b).ids s) L.applied = committable (L.ids s) L.applied := by
    intro s
    by_cases hs : s = b.source
    · rw [hs, Ledger.ids_send_same]
      exact committable_insert_top hb htop
    · rw [Ledger.ids_send_other L b hs]
  refine ⟨?_, ?_, ?_, ht.inFlight_noEmpty.insert₂ _ _ _, ht.pending_noEmpty⟩
  · intro s k c
    rw [lookup₂_insert₂]
    by_cases hsk : b.source = s ∧ b.id = k
    · rw [if_pos hsk]
      obtain ⟨rfl, rfl⟩ := hsk
      constructor
      · intro h
        cases h
        exact ⟨mem_insert _ _, hb⟩
      · rintro ⟨hmem, -⟩
        rcases mem_insert_iff.mp hmem with h | h
        · rw [← h]
        · rw [← huniq _ h rfl]
    · rw [if_neg hsk, ht.inFlight]
      constructor
      · rintro ⟨hmem, hk⟩
        exact ⟨mem_insert_of_mem _ hmem, hk⟩
      · rintro ⟨hmem, hk⟩
        rcases mem_insert_iff.mp hmem with h | h
        · refine absurd ⟨?_, ?_⟩ hsk
          · rw [← h]
          · rw [← h]
        · exact ⟨h, hk⟩
  · intro s k c
    show lookup₂ t.pendingAcks s k = some c ↔ _ ∧ _ ∧ k ∉ committable ((L.send b).ids s) L.applied
    rw [ht.pending, hcom]
    exact and_congr_left fun h => (Ledger.mem_send_of_applied hb h.1).symm
  · intro s c
    rw [ht.committed]
    show (∃ k, IsGreatest (committable (L.ids s) L.applied) k ∧ _)
      ↔ ∃ k, IsGreatest (committable ((L.send b).ids s) L.applied) k ∧ _
    rw [hcom]
    refine exists_congr fun k => and_congr_right fun hk => ?_
    exact (Ledger.mem_send_of_applied hb (committable_mem_acked hk.1)).symm

/-- Registering again a batch that is still in flight changes nothing. -/
theorem Tracks.resend (ht : Tracks t L) (hf : L.Functional)
    (hb : b ∈ L.sent) (hopen : b.id ∉ L.applied) :
    Tracks { t with
      inFlight := insert₂ t.inFlight b.source b.id b.checkpoint }
      L := by
  refine ⟨?_, ht.pending, ht.committed, ht.inFlight_noEmpty.insert₂ _ _ _, ht.pending_noEmpty⟩
  intro s k c
  rw [lookup₂_insert₂]
  by_cases hsk : b.source = s ∧ b.id = k
  · rw [if_pos hsk]
    obtain ⟨rfl, rfl⟩ := hsk
    constructor
    · intro h
      cases h
      exact ⟨hb, hopen⟩
    · rintro ⟨hmem, -⟩
      rw [hf _ hb _ hmem rfl]
  · rw [if_neg hsk]
    exact ht.inFlight s k c

-- == receipts

/-- Applying a receipt only concerns the source of its batch. -/
theorem committable_apply_other (hf : L.Functional) {s a : SourceId}
    {b : BatchId} {c : C} (hb : ⟨s, b, c⟩ ∈ L.sent) (ha : a ≠ s) :
    committable (L.ids a) (L.apply b).applied = committable (L.ids a) L.applied := by
  refine committable_congr fun x hx => ?_
  obtain ⟨d, hd⟩ := hx
  refine ⟨fun h => ?_, fun h => mem_insert_of_mem _ h⟩
  rcases mem_insert_iff.mp h with hxb | h
  · exact absurd (congrArg Batch.source (hf _ hd _ hb hxb)) ha
  · exact h

/-- A receipt whose batch already has one leaves the ledger alone. -/
theorem Ledger.apply_of_mem {k : BatchId} (h : k ∈ L.applied) : L.apply k = L := by
  unfold apply
  rw [insert_eq_of_mem h]

section Hit

variable {r : AckReceipt C} {c : C} (ht : Tracks t L)

include ht

variable {k : BatchId}

/-- The loop guard, read in the ledger after the receipt. -/
theorem blockedWithout_iff :
    BlockedWithout t r.source r.batchId k
      ↔ ∃ j ∈ L.ids r.source, j ∉ (L.apply r.batchId).applied ∧ j < k := by
  constructor
  · rintro ⟨j, hjb, hjk, d, hd⟩
    obtain ⟨hmem, hj⟩ := (ht.inFlight _ _ _).mp hd
    refine ⟨j, ⟨d, hmem⟩, fun h => ?_, hjk⟩
    rcases mem_insert_iff.mp h with h | h
    · exact hjb h
    · exact hj h
  · rintro ⟨j, ⟨d, hd⟩, hj, hjk⟩
    refine ⟨j, fun h => hj (h ▸ mem_insert _ _), hjk, d, ?_⟩
    exact (ht.inFlight _ _ _).mpr ⟨hd, fun h => hj (mem_insert_of_mem _ h)⟩

/-- An acknowledged batch is committable after the receipt exactly when
the guard lets it through. -/
theorem committable_apply_iff (hk : k ∈ L.ids r.source) (hka : k ∈ (L.apply r.batchId).applied) :
    k ∈ committable (L.ids r.source) (L.apply r.batchId).applied
      ↔ ¬ BlockedWithout t r.source r.batchId k := by
  rw [blockedWithout_iff ht, mem_committable, settled_iff_lt_open]
  constructor
  · rintro ⟨-, hlt⟩ ⟨j, hj, hjn, hjk⟩
    exact absurd (hlt j hj hjn) (not_lt.mpr (le_of_lt hjk))
  · intro hn
    refine ⟨hk, fun x hx hxn => ?_⟩
    rcases lt_trichotomy k x with h | h | h
    · exact h
    · exact absurd (h ▸ hka) hxn
    · exact absurd ⟨x, hx, hxn, h⟩ hn

/-- What the loop starts from: everything acknowledged, this receipt
included, that was not committable before it. -/
theorem bufferedWith_iff (hf : L.Functional)
    (hc : ⟨r.source, r.batchId, c⟩ ∈ L.sent) (hopen : r.batchId ∉ L.applied) {d : C} :
    bufferedWith t r.source r.batchId c k = some d
      ↔ ⟨r.source, k, d⟩ ∈ L.sent ∧ k ∈ (L.apply r.batchId).applied
        ∧ k ∉ committable (L.ids r.source) L.applied := by
  unfold bufferedWith
  by_cases hk : k = r.batchId
  · subst hk
    rw [if_pos rfl]
    constructor
    · intro h
      cases h
      exact ⟨hc, mem_insert _ _, fun h => hopen (committable_mem_acked h)⟩
    · rintro ⟨hd, -, -⟩
      exact congrArg (fun b => some b.checkpoint) (hf _ hc _ hd rfl)
  · rw [if_neg hk, ht.pending]
    constructor
    · rintro ⟨hd, ha, hn⟩
      exact ⟨hd, mem_insert_of_mem _ ha, hn⟩
    · rintro ⟨hd, ha, hn⟩
      rcases mem_insert_iff.mp ha with h | h
      · exact absurd h hk
      · exact ⟨hd, h, hn⟩

/-- The committed checkpoint after a receipt that was in flight. -/
theorem isCommit_apply (hf : L.Functional)
    (hc : ⟨r.source, r.batchId, c⟩ ∈ L.sent) (hopen : r.batchId ∉ L.applied)
    {res : Tracking C × CheckpointAdvance C} (hit : AckHit t r c res) (d : C) :
    res.1.committed[r.source]? = some d ↔ (L.apply r.batchId).IsCommit r.source d := by
  have hfa : (L.apply r.batchId).Functional := hf
  rcases hit.outcome with ⟨hall, hsame, -⟩ | ⟨k, e, hk, hfree, hmax, hres, -⟩
  · -- nothing became committable, so the commit stays where it was
    have heq : committable (L.ids r.source) (L.apply r.batchId).applied
        = committable (L.ids r.source) L.applied := by
      refine antisymm (fun x hx => ?_) (committable_mono (subset_insert _ _))
      by_contra hxn
      obtain ⟨e, he⟩ := hx.1
      have hxa := committable_mem_acked hx
      have hb := hall x e ((bufferedWith_iff ht hf hc hopen).mpr ⟨he, hxa, hxn⟩)
      exact (committable_apply_iff ht hx.1 hxa).mp hx hb
    rw [hsame, ht.committed]
    show _ ↔ ∃ k, IsGreatest (committable (L.ids r.source) (L.apply r.batchId).applied) k ∧ _
    rw [heq]
    rfl
  · -- `k` is above all that was committable and the greatest of the rest
    obtain ⟨hke, hka, hkn⟩ := (bufferedWith_iff ht hf hc hopen).mp hk
    have hkids : k ∈ L.ids r.source := ⟨e, hke⟩
    have hgreat : IsGreatest (committable ((L.apply r.batchId).ids r.source)
          (L.apply r.batchId).applied) k := by
      refine ⟨(committable_apply_iff ht hkids hka).mpr hfree, fun x hx => ?_⟩
      by_cases hxc : x ∈ committable (L.ids r.source) L.applied
      · exact Nat.le_of_lt (committable_lt hxc hkids hkn)
      · obtain ⟨e', he'⟩ := hx.1
        have hxa := committable_mem_acked hx
        exact hmax x e' ((bufferedWith_iff ht hf hc hopen).mpr ⟨he', hxa, hxc⟩)
          ((committable_apply_iff ht hx.1 hxa).mp hx)
    have hcommit : (L.apply r.batchId).IsCommit r.source e := ⟨k, hgreat, hke⟩
    rw [hres]
    constructor
    · intro h
      cases h
      exact hcommit
    · intro h
      rw [hcommit.unique hfa h]

theorem Tracks.apply_hit (hf : L.Functional)
    (hfl : lookup₂ t.inFlight r.source r.batchId = some c) :
    Tracks (recordAckAndAdvance t r).1 (L.apply r.batchId) := by
  obtain ⟨hc, hopen⟩ := (ht.inFlight _ _ _).mp hfl
  have hit := recordAck_hit hfl
  obtain ⟨hni, hnp⟩ := recordAck_noEmpty r ht.inFlight_noEmpty ht.pending_noEmpty
  refine ⟨?_, ?_, ?_, hni, hnp⟩
  · intro s k d
    rw [hit.inFlight]
    by_cases hsk : s = r.source ∧ k = r.batchId
    · rw [if_pos hsk]
      refine ⟨fun h => (by cases h), fun h => absurd ?_ h.2⟩
      rw [hsk.2]
      exact mem_insert _ _
    · rw [if_neg hsk, ht.inFlight]
      refine and_congr_right fun hmem => ⟨fun h hk => ?_, fun h hk => ?_⟩
      · rcases mem_insert_iff.mp hk with hk | hk
        · exact hsk ⟨congrArg Batch.source (hf _ hmem _ hc hk), hk⟩
        · exact h hk
      · exact h (mem_insert_of_mem _ hk)
  · intro s k d
    by_cases hs : s = r.source
    · subst hs
      by_cases hb : BlockedWithout t r.source r.batchId k
      · rw [hit.pending_blocked k hb, bufferedWith_iff ht hf hc hopen]
        refine and_congr_right fun hmem => and_congr_right fun hka => ?_
        refine ⟨fun _ h => ?_, fun h hk => ?_⟩
        · exact (committable_apply_iff ht ⟨d, hmem⟩ hka).mp h hb
        · exact h (committable_mono (subset_insert _ _) hk)
      · rw [hit.pending_free k hb]
        refine ⟨fun h => (by cases h), ?_⟩
        rintro ⟨hmem, hka, hn⟩
        exact absurd ((committable_apply_iff ht ⟨d, hmem⟩ hka).mpr hb) hn
    · rw [hit.pending_other s hs, ht.pending]
      show _ ↔ _ ∧ _ ∧ k ∉ committable (L.ids s) (L.apply r.batchId).applied
      rw [committable_apply_other hf hc hs]
      refine and_congr_right fun hmem => and_congr_left fun _ => ?_
      refine ⟨fun h => mem_insert_of_mem _ h, fun h => ?_⟩
      rcases mem_insert_iff.mp h with h | h
      · exact absurd (congrArg Batch.source (hf _ hmem _ hc h)) hs
      · exact h
  · intro s d
    by_cases hs : s = r.source
    · subst hs
      exact isCommit_apply ht hf hc hopen hit d
    · rw [hit.committed_other s hs, ht.committed]
      show _ ↔ ∃ k, IsGreatest (committable (L.ids s) (L.apply r.batchId).applied) k ∧ _
      rw [committable_apply_other hf hc hs]
      rfl

omit ht

end Hit

/-- Applying a receipt for a batch that was sent, whether it is still in
flight or already acknowledged. -/
theorem Tracks.apply (ht : Tracks t L) (hf : L.Functional) {r : AckReceipt C}
    {c : C} (hc : ⟨r.source, r.batchId, c⟩ ∈ L.sent) :
    Tracks (recordAckAndAdvance t r).1 (L.apply r.batchId) := by
  by_cases hopen : r.batchId ∈ L.applied
  · have hmiss : lookup₂ t.inFlight r.source r.batchId = none := by
      cases h : lookup₂ t.inFlight r.source r.batchId with
      | none => rfl
      | some d => exact absurd hopen ((ht.inFlight _ _ _).mp h).2
    rw [recordAck_miss hmiss, Ledger.apply_of_mem hopen]
    exact ht
  · exact ht.apply_hit hf ((ht.inFlight _ _ _).mpr ⟨hc, hopen⟩)

end FastForward.Pipeline
