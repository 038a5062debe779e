/-
What `record_ack_and_advance` does to the tracking maps, stated as
lookups, so that no proof above this file unfolds the loop or the nested
maps again.

The loop's guard `hasLower` is the predicate "some in-flight batch of
the source is below `k`"; since the loop visits pending ids in
increasing order and the guard is monotone in the id, it consumes
exactly the pending ids the guard lets through
(`consumePending_pending`) and leaves the checkpoint of the greatest of
them committed (`consumePending_outcome`).
-/
import FastForward.Pipeline.Lifecycle

namespace FastForward.Pipeline

open Lib BTreeMap Std.ExtTreeMap

universe u

variable {C : Type u}

-- == the loop guard

variable {flights : Option (BTreeMap BatchId C)} {k : BatchId}

/-- The guard, as a bound by some in-flight id. -/
theorem hasLower_iff : hasLower flights k ↔ ∃ f, flights = some f ∧ ∃ j ∈ f, j < k := by
  unfold hasLower
  cases flights with
  | none => simp
  | some f =>
    simp only [Option.bind_some, Option.some.injEq, exists_eq_left']
    cases hf : firstKey f with
    | none =>
      have he := firstKey_eq_none.mp hf
      subst he
      simp
    | some m =>
      obtain ⟨hm, hle⟩ := firstKey_eq_some.mp hf
      simp only [decide_eq_true_eq]
      constructor
      · intro hlt
        exact ⟨m, hm, hlt⟩
      · rintro ⟨j, hj, hjk⟩
        exact lt_of_le_of_lt (Nat.isLE_compare.mp (hle j hj)) hjk

theorem hasLower_mono {j : BatchId}
    (hkj : k ≤ j) (h : hasLower flights k) : hasLower flights j := by
  obtain ⟨f, hf, i, hi, hik⟩ := hasLower_iff.mp h
  exact hasLower_iff.mpr ⟨f, hf, i, hi, lt_of_lt_of_le hik hkj⟩

-- == the loop

variable (source : SourceId) (flights : Option (BTreeMap BatchId C))
  (committed : BTreeMap SourceId C) (pending : BTreeMap BatchId C) (advanced : Bool)

/-- The loop stops with exactly the guarded pending acks left. -/
theorem consumePending_pending (k : BatchId) :
    (consumePending source flights committed pending advanced).2.1[k]?
      = if hasLower flights k then pending[k]? else none := by
  fun_induction consumePending source flights committed pending advanced with
  | case1 committed pending advanced hfirst =>
    have he := firstKey_eq_none.mp hfirst
    subst he
    simp
  | case2 committed pending advanced lowest hfirst hlow =>
    obtain ⟨-, hle⟩ := firstKey_eq_some.mp hfirst
    by_cases hk : k ∈ pending
    · have hge : lowest ≤ k := Nat.isLE_compare.mp (hle k hk)
      rw [if_pos (hasLower_mono hge hlow)]
    · simp [getElem?_eq_none hk]
  | case3 committed pending advanced lowest hfirst hlow hnone =>
    obtain ⟨hmem, -⟩ := firstKey_eq_some.mp hfirst
    obtain ⟨v, hv⟩ := mem_iff_exists_getElem?.mp hmem
    rw [hnone] at hv
    cases hv
  | case4 committed pending advanced lowest hfirst hlow cp hcp ih =>
    rw [ih, getElem?_erase_eq]
    by_cases hk : lowest = k
    · subst hk
      simp [hlow]
    · rw [if_neg hk]

/-- The loop writes the acked source's checkpoint only. -/
theorem consumePending_committed_other {a : SourceId} (ha : a ≠ source) :
    (consumePending source flights committed pending advanced).1[a]? = committed[a]? := by
  fun_induction consumePending source flights committed pending advanced with
  | case1 | case2 | case3 => rfl
  | case4 committed pending advanced lowest hfirst hlow cp hcp ih =>
    rw [ih, getElem?_insert_eq, if_neg fun h => ha h.symm]

/-- The greatest pending ack the guard lets through, with its
checkpoint. -/
def GreatestFree (flights : Option (BTreeMap BatchId C))
    (pending : BTreeMap BatchId C) (k : BatchId) (c : C) : Prop :=
  pending[k]? = some c ∧ hasLower flights k = false
    ∧ ∀ j ∈ pending, hasLower flights j = false → j ≤ k

/-- The loop either finds every pending ack guarded and does nothing, or
leaves the checkpoint of the greatest free one committed. -/
theorem consumePending_outcome :
    let res := consumePending source flights committed pending advanced
    ((∀ k ∈ pending, hasLower flights k) ∧ res = (committed, pending, advanced))
      ∨ ∃ k c, GreatestFree flights pending k c ∧ res.1[source]? = some c ∧ res.2.2 := by
  fun_induction consumePending source flights committed pending advanced with
  | case1 committed pending advanced hfirst =>
    have he := firstKey_eq_none.mp hfirst
    subst he
    exact .inl ⟨fun k hk => absurd hk not_mem_empty, rfl⟩
  | case2 committed pending advanced lowest hfirst hlow =>
    obtain ⟨-, hle⟩ := firstKey_eq_some.mp hfirst
    refine .inl ⟨fun k hk => ?_, rfl⟩
    exact hasLower_mono (Nat.isLE_compare.mp (hle k hk)) hlow
  | case3 committed pending advanced lowest hfirst hlow hnone =>
    obtain ⟨hmem, -⟩ := firstKey_eq_some.mp hfirst
    obtain ⟨v, hv⟩ := mem_iff_exists_getElem?.mp hmem
    rw [hnone] at hv
    cases hv
  | case4 committed pending advanced lowest hfirst hlow cp hcp ih =>
    obtain ⟨-, hle⟩ := firstKey_eq_some.mp hfirst
    have hmem : ∀ j ∈ pending, j = lowest ∨ j ∈ pending.erase lowest := by
      intro j hj
      by_cases hjl : j = lowest
      · exact .inl hjl
      · rw [mem_erase]
        exact .inr ⟨fun hc => hjl (Std.LawfulEqOrd.compare_eq_iff_eq.mp hc).symm, hj⟩
    rcases ih with ⟨hall, hres⟩ | ⟨k, c, ⟨hk, hfree, hmax⟩, hc, hadv⟩
    · -- the rest is guarded: the id just consumed was the last free one
      refine .inr ⟨lowest, cp, ⟨hcp, Bool.eq_false_iff.mpr hlow, ?_⟩, ?_, ?_⟩
      · intro j hj hjf
        rcases hmem j hj with rfl | hj'
        · exact le_refl _
        · rw [hall j hj'] at hjf
          cases hjf
      · rw [hres, getElem?_insert_eq, if_pos rfl]
      · rw [hres]
    · have hkp : pending[k]? = some c ∧ lowest ≠ k := by
        rw [getElem?_erase_eq] at hk
        by_cases hlk : lowest = k
        · rw [if_pos hlk] at hk
          cases hk
        · rw [if_neg hlk] at hk
          exact ⟨hk, hlk⟩
      refine .inr ⟨k, c, ⟨hkp.1, hfree, ?_⟩, hc, hadv⟩
      intro j hj hjf
      rcases hmem j hj with rfl | hj'
      · exact Nat.isLE_compare.mp (hle k (mem_iff_exists_getElem?.mpr ⟨c, hkp.1⟩))
      · exact hmax j hj' hjf

-- == the whole function

/-- Some in-flight batch of `s` other than `b` is below `k`: what the
guard means once `b` has been taken out of flight. -/
def BlockedWithout (t : Tracking C) (s : SourceId) (b k : BatchId) : Prop :=
  ∃ j, j ≠ b ∧ j < k ∧ ∃ c, lookup₂ t.inFlight s j = some c

/-- The pending acks of `s` once batch `b` with checkpoint `c` joined
them. -/
def bufferedWith (t : Tracking C) (s : SourceId) (b : BatchId) (c : C)
    (k : BatchId) : Option C :=
  if k = b then some c else lookup₂ t.pendingAcks s k

variable {t : Tracking C} {r : AckReceipt C}

/-- A receipt for a batch that is not in flight changes nothing. -/
theorem recordAck_miss (h : lookup₂ t.inFlight r.source r.batchId = none) :
    recordAckAndAdvance t r = ignoreAck t r.source := by
  unfold recordAckAndAdvance
  cases hf : t.inFlight[r.source]? with
  | none => simp only [hf]
  | some flights =>
    rw [lookup₂_of_getElem? hf] at h
    simp only [hf, h]

/-- What a receipt for an in-flight batch does, one field at a time.
`outcome` names the two ways the loop can end: nothing pending was free
of lower in-flight batches, or `k` was the greatest such. -/
structure AckHit (t : Tracking C) (r : AckReceipt C) (c : C)
    (res : Tracking C × CheckpointAdvance C) : Prop where
  inFlight : ∀ a k, lookup₂ res.1.inFlight a k
    = if a = r.source ∧ k = r.batchId then none
      else lookup₂ t.inFlight a k
  pending_blocked : ∀ k, BlockedWithout t r.source r.batchId k →
    lookup₂ res.1.pendingAcks r.source k
      = bufferedWith t r.source r.batchId c k
  pending_free : ∀ k, ¬ BlockedWithout t r.source r.batchId k →
    lookup₂ res.1.pendingAcks r.source k = none
  pending_other : ∀ a, a ≠ r.source → ∀ k,
    lookup₂ res.1.pendingAcks a k = lookup₂ t.pendingAcks a k
  committed_other : ∀ a, a ≠ r.source → res.1.committed[a]? = t.committed[a]?
  source : res.2.source = r.source
  checkpoint : res.2.checkpoint = res.1.committed[r.source]?
  outcome :
    ((∀ k c', bufferedWith t r.source r.batchId c k = some c' →
        BlockedWithout t r.source r.batchId k)
      ∧ res.1.committed = t.committed ∧ res.2.advanced = false)
    ∨ ∃ k c', bufferedWith t r.source r.batchId c k = some c'
      ∧ ¬ BlockedWithout t r.source r.batchId k
      ∧ (∀ j d, bufferedWith t r.source r.batchId c j = some d →
          ¬ BlockedWithout t r.source r.batchId j → j ≤ k)
      ∧ res.1.committed[r.source]? = some c' ∧ res.2.advanced = true

variable {s : SourceId} {b : BatchId}

/-- The guard after the removal is `BlockedWithout`. -/
theorem hasLower_erase_iff {flights : BTreeMap BatchId C} (hf : t.inFlight[s]? = some flights) :
    hasLower (some (flights.erase b)) k ↔ BlockedWithout t s b k := by
  rw [hasLower_iff]
  constructor
  · rintro ⟨f, hfe, j, hj, hjk⟩
    cases hfe
    rw [mem_erase] at hj
    obtain ⟨v, hv⟩ := mem_iff_exists_getElem?.mp hj.2
    refine ⟨j, fun hjb => hj.1 ?_, hjk, v, ?_⟩
    · exact Std.LawfulEqOrd.compare_eq_iff_eq.mpr hjb.symm
    · rw [lookup₂_of_getElem? hf]
      exact hv
  · rintro ⟨j, hjb, hjk, v, hv⟩
    rw [lookup₂_of_getElem? hf] at hv
    refine ⟨_, rfl, j, ?_, hjk⟩
    rw [mem_erase]
    refine ⟨fun h => hjb ?_, mem_iff_exists_getElem?.mpr ⟨v, hv⟩⟩
    exact (Std.LawfulEqOrd.compare_eq_iff_eq.mp h).symm

variable {c : C}

/-- The pending map the loop starts from reads as `bufferedWith`. -/
theorem insert₂_pending {pending : BTreeMap BatchId C}
    (hp : (insert₂ t.pendingAcks s b c)[s]? = some pending)
    (k : BatchId) : pending[k]? = bufferedWith t s b c k := by
  rw [← lookup₂_of_getElem? hp, lookup₂_insert₂, bufferedWith]
  by_cases hk : k = b
  · rw [if_pos hk, if_pos ⟨rfl, hk.symm⟩]
  · rw [if_neg hk, if_neg fun h => hk h.2.symm]

variable (h : lookup₂ t.inFlight r.source r.batchId = some c)

include h

/-- The explicit result on a hit: the loop run on the two updated inner
maps, then the two clean-ups. -/
theorem recordAck_hit_eq :
    ∃ flights pending,
      t.inFlight[r.source]? = some flights
        ∧ (insert₂ t.pendingAcks r.source r.batchId c)[r.source]?
            = some pending
        ∧ recordAckAndAdvance t r
            = let res := consumePending r.source
                (some (flights.erase r.batchId)) t.committed pending false
              ({ committed := res.1
                 inFlight := dropEmpty
                   (t.inFlight.insert r.source (flights.erase r.batchId))
                   r.source
                 pendingAcks := dropEmpty
                   ((insert₂ t.pendingAcks r.source r.batchId
                      c).insert r.source res.2.1) r.source },
                { source := r.source, advanced := res.2.2,
                  checkpoint := res.1[r.source]? }) := by
  unfold recordAckAndAdvance
  cases hf : t.inFlight[r.source]? with
  | none =>
    rw [lookup₂_of_getElem?_none hf] at h
    cases h
  | some flights =>
    rw [lookup₂_of_getElem? hf] at h
    have hp : (insert₂ t.pendingAcks r.source r.batchId c)[r.source]?
        = some ((t.pendingAcks[r.source]?.getD ∅).insert r.batchId c) := by
      rw [insert₂, getElem?_insert_eq, if_pos rfl]
    refine ⟨flights, _, rfl, hp, ?_⟩
    simp only [hf, h, hp, getElem?_insert_eq, if_true]

/-- A receipt for an in-flight batch does what `AckHit` says. -/
theorem recordAck_hit :
    AckHit t r c (recordAckAndAdvance t r) := by
  obtain ⟨flights, pending, hf, hp, heq⟩ := recordAck_hit_eq h
  have hguard : ∀ k, hasLower (some (flights.erase r.batchId)) k
      ↔ BlockedWithout t r.source r.batchId k := fun k => hasLower_erase_iff hf
  have hbuf : ∀ k, pending[k]? = bufferedWith t r.source r.batchId c k :=
    insert₂_pending hp
  rw [heq]
  constructor
  · intro a k
    rw [lookup₂_dropEmpty, lookup₂_insert,
      getElem?_erase_eq]
    by_cases ha : r.source = a
    · subst ha
      rw [if_pos rfl, lookup₂_of_getElem? hf]
      by_cases hk : r.batchId = k
      · rw [if_pos hk, if_pos ⟨rfl, hk.symm⟩]
      · rw [if_neg hk, if_neg fun hc => hk hc.2.symm]
    · rw [if_neg ha, if_neg fun hc => ha hc.1.symm]
  · intro k hk
    rw [lookup₂_dropEmpty, lookup₂_insert, if_pos rfl,
      consumePending_pending, if_pos ((hguard k).mpr hk), hbuf]
  · intro k hk
    rw [lookup₂_dropEmpty, lookup₂_insert, if_pos rfl,
      consumePending_pending, if_neg fun hc => hk ((hguard k).mp hc)]
  · intro a ha k
    rw [lookup₂_dropEmpty, lookup₂_insert,
      if_neg fun hc => ha hc.symm, lookup₂_insert₂,
      if_neg fun hc => ha hc.1.symm]
  · intro a ha
    exact consumePending_committed_other _ _ _ _ _ ha
  · rfl
  · rfl
  · rcases consumePending_outcome r.source (some (flights.erase r.batchId))
      t.committed pending false with ⟨hall, hres⟩ | ⟨k, c', ⟨hk, hfree, hmax⟩, hc, ha⟩
    · refine .inl ⟨fun k c' hk => ?_, ?_⟩
      · rw [← hbuf] at hk
        exact (hguard k).mp (hall k (mem_iff_exists_getElem?.mpr ⟨c', hk⟩))
      · simp only [hres, and_self]
    · refine .inr ⟨k, c', (hbuf k).symm.trans hk, ?_, ?_, hc, ha⟩
      · intro hb
        rw [(hguard k).mpr hb] at hfree
        cases hfree
      · intro j d hj hjfree
        rw [← hbuf] at hj
        refine hmax j (mem_iff_exists_getElem?.mpr ⟨d, hj⟩) ?_
        exact Bool.eq_false_iff.mpr fun hb => hjfree ((hguard j).mp hb)

omit h

/-- The clean-ups leave no empty inner map behind. -/
theorem recordAck_noEmpty (r : AckReceipt C)
    (hi : BTreeMap.NoEmpty t.inFlight) (hp : BTreeMap.NoEmpty t.pendingAcks) :
    BTreeMap.NoEmpty (recordAckAndAdvance t r).1.inFlight
      ∧ BTreeMap.NoEmpty (recordAckAndAdvance t r).1.pendingAcks := by
  cases h : lookup₂ t.inFlight r.source r.batchId with
  | none =>
    rw [recordAck_miss h]
    exact ⟨hi, hp⟩
  | some c =>
    obtain ⟨flights, pending, -, -, heq⟩ := recordAck_hit_eq h
    rw [heq]
    exact ⟨hi.dropEmpty_insert _ _, (hp.insert₂ _ _ _).dropEmpty_insert _ _⟩

end FastForward.Pipeline
