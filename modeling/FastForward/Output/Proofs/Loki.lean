/-
When Loki timestamps are reused.

The payloads of a call hold strictly increasing timestamps of each
stream, all of them after the timestamp that the stream stood at
(`Prepared`). A call begins where the calls before it have ended on
every stream it writes (`Before`), so the timestamps of different calls
are apart as long as every stream stands at or after all timestamps
reserved on it (`Covered`). A rollback keeps that when nothing of the
stream was accepted, and breaks it when an earlier payload of the same
stream was.
-/
import FastForward.Output.Loki

namespace FastForward.Output.Loki

open Lib List

variable {Λ ρ : Type}

-- == timestamps

/-- The timestamp comes after the bound. -/
def Above (bound : Option Nat) (ts : Nat) : Prop := ∀ m, bound = some m → m < ts

/-- The timestamp does not come after the bound. -/
def Below (bound : Option Nat) (ts : Nat) : Prop := ∃ m, bound = some m ∧ ts ≤ m

theorem dedupFrom_spec (previous : Nat) (entries : List (LokiEntry ρ)) :
    (∀ e ∈ dedupFrom previous entries, previous < e.1)
      ∧ (dedupFrom previous entries).Pairwise fun e f => e.1 < f.1 := by
  induction entries generalizing previous with
  | nil => exact ⟨nofun, .nil⟩
  | cons entry entries ih =>
    obtain ⟨ts, row⟩ := entry
    have hcons : ∀ ts', previous < ts' → (∀ e ∈ (ts', row) :: dedupFrom ts' entries, previous < e.1)
          ∧ ((ts', row) :: dedupFrom ts' entries).Pairwise fun e f => e.1 < f.1 := by
      intro ts' hlt
      obtain ⟨habove, hpairwise⟩ := ih ts'
      refine ⟨fun e he => ?_, pairwise_cons.mpr ⟨habove, hpairwise⟩⟩
      rcases mem_cons.mp he with rfl | he
      · exact hlt
      · exact Nat.lt_trans hlt (habove e he)
    rw [dedupFrom]
    by_cases hle : ts ≤ previous
    · rw [if_pos hle]
      split
      · exact ⟨nofun, .nil⟩
      · exact hcons (previous + 1) (Nat.lt_succ_self previous)
    · rw [if_neg hle]
      exact hcons ts (Nat.lt_of_not_le hle)

theorem sortAndDedupTimestamps_spec (sort : List (LokiEntry ρ) → List (LokiEntry ρ))
    (entries : List (LokiEntry ρ)) (bound : Option Nat) :
    (∀ e ∈ sortAndDedupTimestamps sort entries bound, Above bound e.1)
      ∧ (sortAndDedupTimestamps sort entries bound).Pairwise fun e f => e.1 < f.1 := by
  unfold sortAndDedupTimestamps
  cases sort entries with
  | nil => exact ⟨nofun, .nil⟩
  | cons entry rest =>
    cases bound with
    | none =>
      obtain ⟨habove, hpairwise⟩ := dedupFrom_spec entry.1 rest
      refine ⟨fun e _ m hm => ?_, pairwise_cons.mpr ⟨habove, hpairwise⟩⟩
      cases hm
    | some minTs =>
      obtain ⟨habove, hpairwise⟩ := dedupFrom_spec minTs (entry :: rest)
      refine ⟨fun e he m hm => ?_, hpairwise⟩
      cases hm
      exact habove e he

-- == payloads

/-- The chunks of a stream hold its entries in order, none is empty, and
each knows its last timestamp. -/
theorem chunksFrom_spec (config : Config Λ ρ) (labels : Λ) (current : List (LokiEntry ρ))
    (encodedLen : Nat) (entries : List (LokiEntry ρ)) :
    (chunksFrom config labels current encodedLen entries).flatMap PreparedPayload.entries
        = current ++ entries
      ∧ ∀ p ∈ chunksFrom config labels current encodedLen entries,
        p.entries ≠ [] ∧ p = payloadOf labels p.entries := by
  induction entries generalizing current encodedLen with
  | nil =>
    rw [chunksFrom]
    cases current with
    | nil => exact ⟨rfl, nofun⟩
    | cons e current =>
      refine ⟨by simp [payloadOf], fun p hp => ?_⟩
      rw [mem_singleton.mp hp]
      exact ⟨nofun, rfl⟩
  | cons entry entries ih =>
    rw [chunksFrom]
    generalize (if current.isEmpty then 0 else 1) = sepLen
    split
    next hfull =>
      obtain ⟨hentries, hchunks⟩ := ih [entry] (config.valueLen entry)
      refine ⟨?_, fun p hp => ?_⟩
      · rw [flatMap_cons, hentries]
        rfl
      · rcases mem_cons.mp hp with rfl | hp
        · refine ⟨fun hnil => ?_, rfl⟩
          have hcurrent : current = [] := hnil
          simp [hcurrent] at hfull
        · exact hchunks p hp
    next =>
      obtain ⟨hentries, hchunks⟩ := ih (current ++ [entry]) _
      refine ⟨?_, hchunks⟩
      rw [hentries, append_assoc, singleton_append]

/-- What the payloads of a call have in common. -/
structure Prepared (previous : TimestampState Λ) (payloads : List (PreparedPayload Λ ρ)) :
    Prop where
  above : ∀ p ∈ payloads, ∀ e ∈ p.entries, Above (previous p.streamLabels) e.1
  last : ∀ p ∈ payloads, (∀ e ∈ p.entries, e.1 ≤ p.lastTimestampNs)
    ∧ ∃ e ∈ p.entries, e.1 = p.lastTimestampNs
  entries_increasing : ∀ p ∈ payloads, p.entries.Pairwise fun e f => e.1 < f.1
  increasing : payloads.Pairwise fun p q => p.streamLabels = q.streamLabels →
    ∀ e ∈ p.entries, ∀ f ∈ q.entries, e.1 < f.1

variable {previous : TimestampState Λ}

theorem Prepared.sublist {payloads fewer : List (PreparedPayload Λ ρ)}
    (h : Prepared previous payloads) (hsub : fewer.Sublist payloads) : Prepared previous fewer where
  above := fun p hp => h.above p (hsub.subset hp)
  last := fun p hp => h.last p (hsub.subset hp)
  entries_increasing := fun p hp => h.entries_increasing p (hsub.subset hp)
  increasing := h.increasing.sublist hsub

variable {entries : List (LokiEntry ρ)}

theorem payloadOf_last (labels : Λ) (hne : entries ≠ [])
    (h : entries.Pairwise fun e f => e.1 < f.1) :
    (∀ e ∈ entries, e.1 ≤ (payloadOf labels entries).lastTimestampNs)
      ∧ ∃ e ∈ entries, e.1 = (payloadOf labels entries).lastTimestampNs := by
  have hlast : (payloadOf labels entries).lastTimestampNs = (entries.getLast hne).1 := by
    rw [payloadOf, getLast?_eq_some_getLast hne]
    rfl
  rw [hlast]
  refine ⟨fun e he => ?_, _, getLast_mem hne, rfl⟩
  rw [← dropLast_concat_getLast hne] at h he
  rcases mem_append.mp he with he | he
  · exact Nat.le_of_lt ((pairwise_append.mp h).2.2 e he _ (mem_singleton.mpr rfl))
  · exact Nat.le_of_eq (congrArg Prod.fst (mem_singleton.mp he))

theorem serializeStreamChunks_prepared (config : Config Λ ρ) (labels : Λ)
    (previous : TimestampState Λ)
    (habove : ∀ e ∈ entries, Above (previous labels) e.1)
    (hincreasing : entries.Pairwise fun e f => e.1 < f.1) :
    Prepared previous (serializeStreamChunks config labels entries)
      ∧ ∀ p ∈ serializeStreamChunks config labels entries, p.streamLabels = labels := by
  obtain ⟨hentries, hchunks⟩ := chunksFrom_spec config labels [] 0 entries
  rw [nil_append] at hentries
  have hlabels : ∀ p ∈ serializeStreamChunks config labels entries, p.streamLabels = labels := by
    intro p hp
    rw [(hchunks p hp).2]
    rfl
  have hsorted := hincreasing
  rw [← hentries, pairwise_flatMap] at hsorted
  refine ⟨⟨fun p hp e he => ?_, fun p hp => ?_, hsorted.1, ?_⟩, hlabels⟩
  · rw [hlabels p hp]
    refine habove e ?_
    rw [← hentries]
    exact mem_flatMap.mpr ⟨p, hp, he⟩
  · obtain ⟨hne, hpayload⟩ := hchunks p hp
    have hlast := payloadOf_last labels hne (hsorted.1 p hp)
    rwa [← hpayload] at hlast
  · refine hsorted.2.imp ?_
    exact fun h _ => h

theorem preparePayloads_prepared (config : Config Λ ρ) {streamMap : StreamMap Λ ρ}
    (hmap : (streamMap.map Prod.fst).Nodup) (state : TimestampState Λ) :
    Prepared state (preparePayloads config streamMap state) := by
  have hstream : ∀ stream ∈ streamMap, _ := fun stream _ =>
    let spec := sortAndDedupTimestamps_spec config.sort stream.2 (state stream.1)
    serializeStreamChunks_prepared config stream.1 state spec.1 spec.2
  refine ⟨fun p hp => ?_, fun p hp => ?_, fun p hp => ?_, ?_⟩
  · obtain ⟨stream, hmem, hp⟩ := mem_flatMap.mp hp
    exact (hstream stream hmem).1.above p hp
  · obtain ⟨stream, hmem, hp⟩ := mem_flatMap.mp hp
    exact (hstream stream hmem).1.last p hp
  · obtain ⟨stream, hmem, hp⟩ := mem_flatMap.mp hp
    exact (hstream stream hmem).1.entries_increasing p hp
  · refine pairwise_flatMap.mpr ⟨fun stream h => (hstream stream h).1.increasing, ?_⟩
    rw [Nodup, pairwise_map] at hmap
    -- payloads of two streams have different labels
    refine hmap.imp_of_mem fun {a b} ha hb hne p hp q hq heq => absurd ?_ hne
    rw [← (hstream a ha).2 p hp, ← (hstream b hb).2 q hq]
    exact heq

-- == reservations

section Reservation

variable [DecidableEq Λ]

theorem insert_self (state : TimestampState Λ) (labels : Λ) (ts : Option Nat) :
    insert state labels ts labels = ts := if_pos rfl

variable {labels : Λ}

theorem insert_of_ne {labels' : Λ} (h : labels' ≠ labels) (state : TimestampState Λ)
    (ts : Option Nat) : insert state labels ts labels' = state labels' := if_neg h

/-- A stream stands where it stood, or at the last timestamp of one of its
payloads. -/
theorem reserve_cases (payloads : List (PreparedPayload Λ ρ)) (state : TimestampState Λ)
    (labels : Λ) :
    reserve state payloads labels = state labels
      ∨ ∃ p ∈ payloads, p.streamLabels = labels
        ∧ reserve state payloads labels = some p.lastTimestampNs := by
  induction payloads generalizing state with
  | nil => exact .inl rfl
  | cons p payloads ih =>
    rw [reserve]
    rcases ih (insert state p.streamLabels (some p.lastTimestampNs)) with
      heq | ⟨q, hq, hlabels, heq⟩
    · rw [heq]
      by_cases hlabels : labels = p.streamLabels
      · rw [hlabels, insert_self]
        exact .inr ⟨p, mem_cons_self, rfl, rfl⟩
      · rw [insert_of_ne hlabels]
        exact .inl rfl
    · exact .inr ⟨q, mem_cons_of_mem _ hq, hlabels, heq⟩

variable {payloads : List (PreparedPayload Λ ρ)}

theorem reserve_covers (h : Prepared previous payloads) (state : TimestampState Λ) :
    ∀ p ∈ payloads, Below (reserve state payloads p.streamLabels) p.lastTimestampNs := by
  induction payloads generalizing state with
  | nil => exact nofun
  | cons q payloads ih =>
    obtain ⟨hhead, -⟩ := pairwise_cons.mp h.increasing
    have hrest := h.sublist (sublist_cons_self q payloads)
    intro p hp
    rw [reserve]
    rcases mem_cons.mp hp with rfl | hp
    · rcases reserve_cases payloads (insert state p.streamLabels (some p.lastTimestampNs))
        p.streamLabels with heq | ⟨r, hr, hlabels, heq⟩
      · rw [heq, insert_self]
        exact ⟨_, rfl, Nat.le_refl _⟩
      · obtain ⟨-, e, he, hlast⟩ := h.last p mem_cons_self
        obtain ⟨-, f, hf, hlast'⟩ := hrest.last r hr
        have := hhead r hr hlabels.symm e he f hf
        exact ⟨_, heq, by omega⟩
    · exact ih hrest _ p hp

/-- Streams only go forward. -/
theorem reserve_mono {state : TimestampState Λ}
    (h : Prepared state payloads) {ts : Nat} (hts : Below (state labels) ts) :
    Below (reserve state payloads labels) ts := by
  rcases reserve_cases payloads state labels with heq | ⟨p, hp, rfl, heq⟩
  · rw [heq]
    exact hts
  · obtain ⟨-, e, he, hlast⟩ := h.last p hp
    obtain ⟨m, hm, hle⟩ := hts
    have := h.above p hp e he m hm
    exact ⟨_, heq, by omega⟩

/-- A stream goes back only from where a payload has put it. -/
theorem rollback_cases (previous : TimestampState Λ) (payloads : List (PreparedPayload Λ ρ))
    (state : TimestampState Λ) (labels : Λ) :
    rollback previous payloads state labels = state labels
      ∨ rollback previous payloads state labels = previous labels
        ∧ ∃ p ∈ payloads, p.streamLabels = labels ∧ state labels = some p.lastTimestampNs := by
  induction payloads generalizing state with
  | nil => exact .inl rfl
  | cons p payloads ih =>
    rw [rollback]
    by_cases hstands : state p.streamLabels = some p.lastTimestampNs
    · rw [if_pos hstands]
      by_cases hlabels : labels = p.streamLabels
      · refine .inr ⟨?_, p, mem_cons_self, hlabels.symm, hlabels ▸ hstands⟩
        rcases ih (insert state p.streamLabels (previous p.streamLabels)) with heq | ⟨heq, -⟩
        · rw [heq, hlabels, insert_self]
        · exact heq
      · rcases ih (insert state p.streamLabels (previous p.streamLabels)) with
          heq | ⟨heq, q, hq, hq', hstate⟩
        · rw [heq, insert_of_ne hlabels]
          exact .inl rfl
        · rw [insert_of_ne hlabels] at hstate
          exact .inr ⟨heq, q, mem_cons_of_mem _ hq, hq', hstate⟩
    · rw [if_neg hstands]
      rcases ih state with heq | ⟨heq, q, hq, hq', hstate⟩
      · exact .inl heq
      · exact .inr ⟨heq, q, mem_cons_of_mem _ hq, hq', hstate⟩

end Reservation

-- == calls

/-- The payloads of a call that are accepted or may still be. -/
def Call.payloads (c : Call Λ ρ) : List (PreparedPayload Λ ρ) := c.accepted ++ c.left

/-- On streams they share, a call comes before a later one. -/
def Before (c d : Call Λ ρ) : Prop :=
  ∀ p ∈ c.payloads, ∀ q ∈ d.payloads, p.streamLabels = q.streamLabels →
    ∀ e ∈ p.entries, Below (d.previous q.streamLabels) e.1

/-- Every stream stands at or after what was reserved on it. -/
def Covered (s : State Λ ρ) : Prop :=
  ∀ c ∈ s.calls, ∀ p ∈ c.payloads, Below (s.lastTimestampByStream p.streamLabels) p.lastTimestampNs

structure State.Invariant (s : State Λ ρ) : Prop where
  prepared : ∀ c ∈ s.calls, Prepared c.previous c.payloads
  before : s.calls.Pairwise Before
  covered : Covered s

/-- A call that has fewer payloads. -/
def Shrinks (c c' : Call Λ ρ) : Prop :=
  c'.previous = c.previous ∧ c'.payloads.Sublist c.payloads

theorem acceptedWith_sublist (c : Call Λ ρ) (accepted : Bool) :
    (c.acceptedWith accepted).Sublist c.payloads := by
  unfold Call.acceptedWith Call.payloads
  split
  · exact (take_sublist 1 c.left).append_left _
  · exact sublist_append_left _ _

/-- A call that is over. -/
theorem shrinks_acceptedWith (c : Call Λ ρ) (accepted : Bool) (result : Option SendResult) :
    Shrinks c { c with accepted := c.acceptedWith accepted, left := [], result } := by
  refine ⟨rfl, ?_⟩
  rw [Call.payloads, append_nil]
  exact acceptedWith_sublist c accepted

variable {d : Call Λ ρ}

theorem Before.shrinks {c c' d' : Call Λ ρ} (h : Before c d)
    (hc : c'.payloads.Sublist c.payloads) (hd : Shrinks d d') : Before c' d' := by
  intro p hp q hq hlabels e he
  rw [hd.1]
  exact h p (hc.subset hp) q (hd.2.subset hq) hlabels e he

/-- What shrinks in one place stays apart. -/
theorem pairwise_before_set {calls : List (Call Λ ρ)} (h : calls.Pairwise Before) {i : Nat}
    {c c' : Call Λ ρ} (hi : calls[i]? = some c) (hshrinks : Shrinks c c') :
    (calls.set i c').Pairwise Before := by
  induction calls generalizing i with
  | nil => cases hi
  | cons d calls ih =>
    obtain ⟨hhead, htail⟩ := pairwise_cons.mp h
    cases i with
    | zero =>
      cases hi
      refine pairwise_cons.mpr ⟨fun e he => ?_, htail⟩
      exact (hhead e he).shrinks hshrinks.2 ⟨rfl, .refl _⟩
    | succ i =>
      refine pairwise_cons.mpr ⟨fun e he => ?_, ih htail hi⟩
      rcases mem_or_eq_of_mem_set he with he | rfl
      · exact hhead e he
      · exact (hhead c (mem_of_getElem? hi)).shrinks (.refl _) hshrinks

section Steps

variable {s : State Λ ρ} (h : s.Invariant)

include h

variable {i : Nat} {c c' : Call Λ ρ}

/-- A call makes progress. -/
theorem State.Invariant.set
    (hi : s.calls[i]? = some c) (hshrinks : Shrinks c c') {state : TimestampState Λ}
    (hcovered : Covered { s with lastTimestampByStream := state, calls := s.calls.set i c' }) :
    State.Invariant { s with lastTimestampByStream := state, calls := s.calls.set i c' } where
  prepared := fun d hd => by
    rcases mem_or_eq_of_mem_set hd with hd | rfl
    · exact h.prepared d hd
    · rw [hshrinks.1]
      exact (h.prepared c (mem_of_getElem? hi)).sublist hshrinks.2
  before := pairwise_before_set h.before hi hshrinks
  covered := hcovered

/-- The streams stay where they are. -/
theorem State.Invariant.covered_set (hi : s.calls[i]? = some c) (hshrinks : Shrinks c c') :
    Covered { s with calls := s.calls.set i c' } := by
  intro d hd p hp
  rcases mem_or_eq_of_mem_set hd with hd | rfl
  · exact h.covered d hd p hp
  · exact h.covered c (mem_of_getElem? hi) p (hshrinks.2.subset hp)

theorem State.Invariant.before_of_lt {j : Nat} {d : Call Λ ρ}
    (hi : s.calls[i]? = some c) (hj : s.calls[j]? = some d) (hlt : i < j) : Before c d := by
  obtain ⟨hi', rfl⟩ := List.getElem?_eq_some_iff.mp hi
  obtain ⟨hj', rfl⟩ := List.getElem?_eq_some_iff.mp hj
  exact pairwise_iff_getElem.mp h.before i j hi' hj' hlt

variable {s' : State Λ ρ}

theorem State.Invariant.abandon {accepted : Bool}
    (hstep : s.abandon i accepted = some s') : s'.Invariant := by
  unfold State.abandon at hstep
  split at hstep
  · cases hstep
  next c hi =>
    split at hstep
    · cases hstep
    next =>
      cases hstep
      have hshrinks := shrinks_acceptedWith c accepted c.result
      exact h.set hi hshrinks (h.covered_set hi hshrinks)

variable [DecidableEq Λ]

/-- A call begins. -/
theorem State.Invariant.sendBatch (config : Config Λ ρ)
    {streamMap : StreamMap Λ ρ} (hmap : (streamMap.map Prod.fst).Nodup) :
    (s.sendBatch config streamMap).Invariant := by
  unfold State.sendBatch
  have hprepared := preparePayloads_prepared config hmap s.lastTimestampByStream
  generalize preparePayloads config streamMap s.lastTimestampByStream = payloads at hprepared
  have hprevious : ∀ p ∈ payloads,
      previousTimestamps s.lastTimestampByStream payloads p.streamLabels
        = s.lastTimestampByStream p.streamLabels := fun p hp =>
    if_pos (any_eq_true.mpr ⟨p, hp, decide_eq_true rfl⟩)
  refine ⟨fun c hc => ?_, ?_, fun c hc p hp => ?_⟩
  · rcases mem_append.mp hc with hc | hc
    · exact h.prepared c hc
    · rw [mem_singleton.mp hc]
      refine ⟨fun p hp => ?_, hprepared.last, hprepared.entries_increasing, hprepared.increasing⟩
      show ∀ e ∈ p.entries, Above (previousTimestamps _ payloads p.streamLabels) e.1
      rw [hprevious p hp]
      exact hprepared.above p hp
  · refine pairwise_append.mpr ⟨h.before, pairwise_singleton _ _, ?_⟩
    intro c hc d hd p hp q hq hlabels e he
    rw [mem_singleton.mp hd] at hq ⊢
    show Below (previousTimestamps _ payloads q.streamLabels) e.1
    rw [hprevious q hq, ← hlabels]
    obtain ⟨m, hm, hle⟩ := h.covered c hc p hp
    have := ((h.prepared c hc).last p hp).1 e he
    exact ⟨m, hm, by omega⟩
  · rcases mem_append.mp hc with hc | hc
    · exact reserve_mono hprepared (h.covered c hc p hp)
    · rw [mem_singleton.mp hc] at hp
      exact reserve_covers hprepared _ p hp

/-- A payload fails: a stream that goes back has nothing reserved after
the call, and nothing accepted in it. -/
theorem State.Invariant.covered_rollback
    (hi : s.calls[i]? = some c) (hshrinks : Shrinks c c')
    (hunsent : ∀ p ∈ c'.payloads, ∀ q ∈ c.left, p.streamLabels = q.streamLabels →
      s.lastTimestampByStream q.streamLabels ≠ some q.lastTimestampNs) :
    Covered
      { s with
        lastTimestampByStream := rollback c.previous c.left s.lastTimestampByStream
        calls := s.calls.set i c' } := by
  intro d hd p hp
  dsimp only at hd ⊢
  obtain ⟨j, hj⟩ := mem_iff_getElem?.mp hd
  have hplace : d = c' ∧ i = j ∨ i ≠ j ∧ s.calls[j]? = some d := by
    rw [getElem?_set] at hj
    split at hj
    next hij =>
      split at hj
      · exact .inl ⟨(Option.some.inj hj).symm, hij⟩
      · cases hj
    next hij => exact .inr ⟨hij, hj⟩
  rcases rollback_cases c.previous c.left s.lastTimestampByStream p.streamLabels with
    heq | ⟨heq, q, hq, hlabels, hstands⟩
  · rw [heq]
    rcases hplace with ⟨rfl, -⟩ | ⟨-, hj⟩
    · exact h.covered c (mem_of_getElem? hi) p (hshrinks.2.subset hp)
    · exact h.covered d (mem_of_getElem? hj) p hp
  · rw [heq]
    have hqc : q ∈ c.payloads := mem_append_right _ hq
    rcases hplace with ⟨rfl, -⟩ | ⟨hij, hj⟩
    · exact absurd (hlabels ▸ hstands) (hunsent p hp q hq hlabels.symm)
    · have hdc := mem_of_getElem? hj
      obtain ⟨hle, e, he, hlast⟩ := (h.prepared d hdc).last p hp
      rcases Nat.lt_or_gt_of_ne hij with hlt | hgt
      · -- a later call would have moved the stream on
        obtain ⟨-, f, hf, hlast'⟩ := (h.prepared c (mem_of_getElem? hi)).last q hqc
        obtain ⟨m, hm, hfm⟩ := h.before_of_lt hi hj hlt q hqc p hp hlabels f hf
        have hem := (h.prepared d hdc).above p hp e he m hm
        obtain ⟨v, hv, hpv⟩ := h.covered d hdc p hp
        rw [hstands] at hv
        cases hv
        omega
      · have hbelow := h.before_of_lt hj hi hgt p hp q hqc hlabels.symm e he
        rw [hlabels, hlast] at hbelow
        exact hbelow

omit h

variable {outcome : Except IoError SendResult} {accepted : Bool}

/-- What an answer does: an accepted payload is done, and any other answer
ends the call. -/
theorem State.respond_cases (hstep : s.respond i outcome accepted = some s') :
    ∃ c p left, s.calls[i]? = some c ∧ c.left = p :: left ∧ ∃ result,
      (outcome = .ok .ok ∧ s' = { s with
          calls := s.calls.set i { c with accepted := c.accepted ++ [p], left, result } })
        ∨ (outcome ≠ .ok .ok ∧ s' = { s with
          lastTimestampByStream := rollback c.previous c.left s.lastTimestampByStream
          calls := s.calls.set i
            { c with accepted := c.acceptedWith accepted, left := [], result } }) := by
  unfold respond at hstep
  split at hstep
  · cases hstep
  next c hi =>
    split at hstep
    · cases hstep
    next p left hleft =>
      cases hstep
      exact ⟨c, p, left, hi, hleft, _, .inl ⟨rfl, rfl⟩⟩
    next hnil hok =>
      cases hstep
      obtain ⟨p, left, hleft⟩ := exists_cons_of_ne_nil hnil
      exact ⟨c, p, left, hi, hleft, _, .inr ⟨hok p left hleft, rfl⟩⟩

theorem State.Invariant.respond (h : s.Invariant)
    (hunsent : RollsBackUnsent s (.respond i outcome accepted))
    (hstep : s.respond i outcome accepted = some s') : s'.Invariant := by
  obtain ⟨c, p, left, hi, hleft, result, ⟨-, rfl⟩ | ⟨hne, rfl⟩⟩ := respond_cases hstep
  · have hpayloads : (c.accepted ++ [p]) ++ left = c.payloads := by
      rw [Call.payloads, hleft, append_assoc, singleton_append]
    have hshrinks : Shrinks c { c with accepted := c.accepted ++ [p], left, result } :=
      ⟨rfl, hpayloads ▸ .refl c.payloads⟩
    exact h.set hi hshrinks (h.covered_set hi hshrinks)
  · have hshrinks := shrinks_acceptedWith c accepted result
    refine h.set hi hshrinks (h.covered_rollback hi hshrinks ?_)
    rw [Call.payloads, append_nil]
    exact hunsent hne c hi

theorem State.Invariant.step (h : s.Invariant) (config : Config Λ ρ) {action : Action Λ ρ}
    (hmap : action.IsMap) (hunsent : RollsBackUnsent s action)
    (hstep : s.step config action = some s') : s'.Invariant := by
  cases action with
  | sendBatch streamMap =>
    cases hstep
    exact h.sendBatch config hmap
  | respond i outcome accepted => exact h.respond hunsent hstep
  | abandon i accepted => exact h.abandon hstep

theorem State.Invariant.of_reachable (config : Config Λ ρ)
    (hreach : ReachableWhen (State.step config) (fun s a => a.IsMap ∧ RollsBackUnsent s a) .new s) :
    s.Invariant := by
  refine hreach.invariant ⟨nofun, .nil, nofun⟩ ?_
  intro action s s' h hok hstep
  exact h.step config hok.1 hok.2 hstep

end Steps

-- == reuse

variable {p q : PreparedPayload Λ ρ} {e f : LokiEntry ρ} {s : State Λ ρ}

theorem State.Invariant.lt_of_lt (h : s.Invariant) {i j : Nat} {c : Call Λ ρ}
    (hi : s.calls[i]? = some c) (hj : s.calls[j]? = some d) (hlt : i < j)
    (hp : p ∈ c.payloads) (hq : q ∈ d.payloads)
    (hlabels : p.streamLabels = q.streamLabels) (he : e ∈ p.entries)
    (hf : f ∈ q.entries) : e.1 < f.1 := by
  obtain ⟨m, hm, hle⟩ := h.before_of_lt hi hj hlt p hp q hq hlabels e he
  have := (h.prepared d (mem_of_getElem? hj)).above q hq f hf m hm
  omega

/-- Entries of one stream in one call. -/
theorem Prepared.eq_of_eq {payloads : List (PreparedPayload Λ ρ)}
    (h : Prepared previous payloads) (hp : p ∈ payloads)
    (hq : q ∈ payloads) (hlabels : p.streamLabels = q.streamLabels)
    (he : e ∈ p.entries) (hf : f ∈ q.entries) (heq : e.1 = f.1) : e = f := by
  obtain ⟨i, hi, rfl⟩ := mem_iff_getElem.mp hp
  obtain ⟨j, hj, rfl⟩ := mem_iff_getElem.mp hq
  have hacross := pairwise_iff_getElem.mp h.increasing
  rcases Nat.lt_trichotomy i j with hlt | rfl | hgt
  · have := hacross i j hi hj hlt hlabels e he f hf
    omega
  · -- within a payload
    obtain ⟨k, hk, rfl⟩ := mem_iff_getElem.mp he
    obtain ⟨l, hl, rfl⟩ := mem_iff_getElem.mp hf
    have hwithin := pairwise_iff_getElem.mp (h.entries_increasing _ hp)
    rcases Nat.lt_trichotomy k l with hlt | rfl | hgt
    · have := hwithin k l hk hl hlt
      omega
    · rfl
    · have := hwithin l k hl hk hgt
      omega
  · have := hacross j i hj hi hgt hlabels.symm f hf e he
    omega

theorem State.Invariant.neverReused (h : s.Invariant) : NeverReused s := by
  intro c hc d hd p hp q hq hlabels e he f hf heq
  have hp' : p ∈ c.payloads := mem_append_left _ hp
  have hq' : q ∈ d.payloads := mem_append_left _ hq
  obtain ⟨i, hi⟩ := mem_iff_getElem?.mp hc
  obtain ⟨j, hj⟩ := mem_iff_getElem?.mp hd
  rcases Nat.lt_trichotomy i j with hlt | rfl | hgt
  · have := h.lt_of_lt hi hj hlt hp' hq' hlabels he hf
    omega
  · rw [hi] at hj
    cases hj
    rw [(h.prepared c hc).eq_of_eq hp' hq' hlabels he hf heq]
  · have := h.lt_of_lt hj hi hgt hq' hp' hlabels.symm hf he
    omega

/-- One stream, whose values each fill a payload. -/
def largeValues : Config Unit Nat :=
  { sort := id, frameLen := fun _ => 0, valueLen := fun _ => 1000000 }

/-- Loki never gets two rows of a stream with one timestamp while no call
rolls back a stream that it has had a payload accepted on. -/
theorem timestamps_never_reused [DecidableEq Λ] (config : Config Λ ρ) (s : State Λ ρ)
    (hreach : ReachableWhen (State.step config) (fun s a => a.IsMap ∧ RollsBackUnsent s a) .new s) :
    NeverReused s :=
  (State.Invariant.of_reachable config hreach).neverReused

/-- Two batches at once: the second is to be retried, goes back to where the
first has left the stream, and is sent again. -/
theorem retried_timestamps_are_not_reused :
    ∃ s, runList (State.step largeValues) .new
        [.sendBatch [((), [(10, 0)])], .sendBatch [((), [(10, 1)])],
          .respond 1 (.ok (.retryAfter 1)) false, .respond 0 (.ok .ok) true,
          .sendBatch [((), [(10, 1)])], .respond 2 (.ok .ok) true] = some s
      ∧ (s.calls.map fun c => c.accepted.map PreparedPayload.entries)
        = [[[(10, 0)]], [], [[(11, 1)]]]
      ∧ NeverReused s := by
  have hmap : ∀ entries : List (LokiEntry Nat), Action.IsMap (.sendBatch [((), entries)]) :=
    fun entries => pairwise_singleton _ _
  have hok : ∀ (s : State Unit Nat) i, RollsBackUnsent s (.respond i (.ok .ok) true) :=
    fun s i hne => absurd rfl hne
  refine (Option.map_eq_some_iff.mp ?run).imp fun s hs => ⟨hs.1, hs.2,
    timestamps_never_reused largeValues s (StepsMeet.reachableWhen _ ?meets .init hs.1)⟩
  case run => decide +kernel
  case meets =>
    refine ⟨⟨hmap _, trivial⟩, fun s₁ h₁ => ⟨⟨hmap _, trivial⟩, fun s₂ h₂ =>
      ⟨⟨trivial, ?_⟩, fun _ _ => ⟨⟨trivial, hok _ _⟩, fun _ _ => ⟨⟨hmap _, trivial⟩, fun _ _ =>
        ⟨⟨trivial, hok _ _⟩, fun _ _ => trivial⟩⟩⟩⟩⟩⟩
    cases h₁
    cases h₂
    intro _ c hc
    cases hc
    exact nofun

/-- The first payload of a batch is accepted and the second is rejected;
the next batch begins at the timestamp of the first. -/
theorem rolled_back_timestamp_is_reused :
    let trace : List (Action Unit Nat) := [.sendBatch [((), [(10, 0), (20, 1)])],
      .respond 0 (.ok .ok) true, .respond 0 (.ok (.rejected "entry out of order")) false,
      .sendBatch [((), [(10, 2)])], .respond 1 (.ok .ok) true]
    (∀ a ∈ trace, a.IsMap)
      ∧ ∃ s, runList (State.step largeValues) .new trace = some s ∧ ¬ NeverReused s := by
  intro trace
  refine ⟨by simp [trace, Action.IsMap], ?_⟩
  have hrun : (runList (State.step largeValues) .new trace).map
      (fun s => s.calls.map fun c => c.accepted.map PreparedPayload.entries)
        = some [[[(10, 0)]], [[(10, 2)]]] := by decide +kernel
  obtain ⟨s, hs, hcalls⟩ := Option.map_eq_some_iff.mp hrun
  have haccepted : ∀ entries, [entries] ∈ [[[(10, 0)]], [[(10, 2)]]] →
      ∃ c ∈ s.calls, ∃ p ∈ c.accepted, p.entries = entries := by
    intro entries hmem
    rw [← hcalls] at hmem
    obtain ⟨c, hc, heq⟩ := mem_map.mp hmem
    exact ⟨c, hc, mem_map.mp (heq ▸ mem_cons_self)⟩
  obtain ⟨c, hc, p, hp, hentries⟩ := haccepted [(10, 0)] mem_cons_self
  obtain ⟨d, hd, q, hq, hentries'⟩ :=
    haccepted [(10, 2)] (mem_cons_of_mem _ mem_cons_self)
  refine ⟨s, hs, fun h => ?_⟩
  cases h c hc d hd p hp q hq rfl (10, 0) (hentries ▸ mem_cons_self) (10, 2)
    (hentries' ▸ mem_cons_self) rfl

end FastForward.Output.Loki
