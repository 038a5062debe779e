/-
What becomes of the rows of a Loki batch.

The greedy pass over the sorted entries gives each the least timestamp it
can have after the one before. That leaves the most room for the rest, so
the timestamps are the least ones there are, and as many entries are kept
as can be (`LeastTimestamps`). The payloads of a batch hold all rows that
are kept, and those behind a payload that fails are never sent.
-/
import FastForward.Output.Proofs.Loki
import Mathlib.Data.List.Perm.Subperm

namespace FastForward.Output.Loki

open List

variable {Λ ρ : Type}

-- == timestamps

/-- Timestamps for the first entries: each has 64 bits, is not before the
entry's own and comes after the one before it, the first after the bound. -/
def Assigns : Option Nat → List (LokiEntry ρ) → List Nat → Prop
  | _, _, [] => True
  | _, [], _ :: _ => False
  | bound, entry :: entries, t :: timestamps =>
    (entry.1 ≤ t ∧ Above bound t ∧ t ≤ u64Max) ∧ Assigns (some t) entries timestamps

/-- The entries that are kept have the least timestamps there are, and no
more of them could have any. -/
structure LeastTimestamps (bound : Option Nat) (entries kept : List (LokiEntry ρ)) : Prop where
  assigns : Assigns bound entries (kept.map Prod.fst)
  least : ∀ timestamps, Assigns bound entries timestamps →
    Forall₂ (· ≤ ·) ((kept.map Prod.fst).take timestamps.length) timestamps

variable {bound : Option Nat} {entries kept : List (LokiEntry ρ)} {entry : LokiEntry ρ} {t : Nat}

theorem Assigns.mono {t' : Nat} {timestamps : List Nat} (hle : t ≤ t')
    (h : Assigns (some t') entries timestamps) : Assigns (some t) entries timestamps := by
  cases timestamps with
  | nil => cases entries <;> trivial
  | cons s timestamps =>
    cases entries with
    | nil => exact h
    | cons entry entries =>
      obtain ⟨⟨hs, habove, hfits⟩, hrest⟩ := h
      refine ⟨⟨hs, fun m hm => ?_, hfits⟩, hrest⟩
      cases hm
      exact Nat.lt_of_le_of_lt hle (habove t' rfl)

theorem LeastTimestamps.nil (bound : Option Nat) :
    LeastTimestamps bound ([] : List (LokiEntry ρ)) [] where
  assigns := trivial
  least := fun timestamps hassigns => by
    cases timestamps with
    | nil => exact .nil
    | cons => exact hassigns.elim

/-- The least timestamp for the first entry, and then the least ones after
it. -/
theorem LeastTimestamps.cons (hle : entry.1 ≤ t) (habove : Above bound t) (hfits : t ≤ u64Max)
    (hleast : ∀ t', entry.1 ≤ t' → Above bound t' → t ≤ t')
    (h : LeastTimestamps (some t) entries kept) :
    LeastTimestamps bound (entry :: entries) ((t, entry.2) :: kept) where
  assigns := ⟨⟨hle, habove, hfits⟩, h.assigns⟩
  least := fun timestamps hassigns => by
    cases timestamps with
    | nil => exact .nil
    | cons t' timestamps =>
      obtain ⟨⟨hle', habove', -⟩, hrest⟩ := hassigns
      have htt' := hleast t' hle' habove'
      exact .cons htt' (h.least timestamps (hrest.mono htt'))

/-- Entries are only dropped from the end. -/
theorem dedupFrom_rows (previous : Nat) (entries : List (LokiEntry ρ)) :
    (dedupFrom previous entries).map Prod.snd <+: entries.map Prod.snd := by
  induction entries generalizing previous with
  | nil => exact prefix_refl _
  | cons entry entries ih =>
    rw [dedupFrom]
    split
    · split
      · exact nil_prefix
      · exact (prefix_cons_inj _).mpr (ih _)
    · exact (prefix_cons_inj _).mpr (ih _)

theorem sortAndDedupTimestamps_rows (sort : List (LokiEntry ρ) → List (LokiEntry ρ))
    (entries : List (LokiEntry ρ)) (bound : Option Nat) :
    (sortAndDedupTimestamps sort entries bound).map Prod.snd <+: (sort entries).map Prod.snd := by
  unfold sortAndDedupTimestamps
  cases sort entries with
  | nil => exact prefix_refl _
  | cons entry rest =>
    cases bound with
    | none => exact (prefix_cons_inj _).mpr (dedupFrom_rows _ rest)
    | some minTs => exact dedupFrom_rows minTs _

theorem dedupFrom_least {previous : Nat} (hprevious : previous ≤ u64Max)
    (hfits : ∀ e ∈ entries, e.1 ≤ u64Max) :
    LeastTimestamps (some previous) entries (dedupFrom previous entries) := by
  induction entries generalizing previous with
  | nil => exact .nil _
  | cons entry entries ih =>
    obtain ⟨hentry, hfits⟩ := forall_mem_cons.mp hfits
    rw [dedupFrom]
    by_cases hle : entry.1 ≤ previous
    · rw [if_pos hle]
      by_cases hmax : previous = u64Max
      · -- No timestamp is left.
        rw [if_pos hmax]
        refine ⟨trivial, fun timestamps hassigns => ?_⟩
        cases timestamps with
        | nil => exact .nil
        | cons t timestamps =>
          have := hassigns.1.2.1 previous rfl
          have := hassigns.1.2.2
          omega
      · rw [if_neg hmax]
        have hnext : previous + 1 ≤ u64Max := by omega
        refine .cons (Nat.le_succ_of_le hle) (fun m hm => ?_) hnext
          (fun t _ habove => habove previous rfl) (ih hnext hfits)
        cases hm
        exact Nat.lt_succ_self previous
    · rw [if_neg hle]
      refine .cons (Nat.le_refl _) (fun m hm => ?_) hentry (fun t ht _ => ht) (ih hentry hfits)
      cases hm
      exact Nat.lt_of_not_le hle

/-- What is asked of `sort_unstable_by_key`. -/
def SortsByTimestamp (sort : List (LokiEntry ρ) → List (LokiEntry ρ)) : Prop :=
  ∀ entries, (sort entries).Perm entries ∧ (sort entries).Pairwise fun e f => e.1 ≤ f.1

/-- The entries are sorted and get the least timestamps there are for
them; the last ones are dropped when there are none left. -/
theorem sortAndDedupCounted_least {sort : List (LokiEntry ρ) → List (LokiEntry ρ)}
    (hsort : SortsByTimestamp sort) (entries : List (LokiEntry ρ)) (bound : Option Nat)
    (hfits : ∀ e ∈ entries, e.1 ≤ u64Max) (hbound : ∀ m ∈ bound, m ≤ u64Max) :
    ∃ (kept sorted : List (LokiEntry ρ)),
      sortAndDedupCounted sort entries bound = (kept, kept.length)
        ∧ sorted.Perm entries ∧ (sorted.Pairwise fun e f => e.1 ≤ f.1)
        ∧ kept.map Prod.snd <+: sorted.map Prod.snd
        ∧ (kept.Pairwise fun e f => e.1 < f.1) ∧ (∀ e ∈ kept, Above bound e.1)
        ∧ LeastTimestamps bound sorted kept := by
  obtain ⟨hperm, hsorted⟩ := hsort entries
  obtain ⟨habove, hincreasing⟩ := sortAndDedupTimestamps_spec sort entries bound
  refine ⟨_, _, ?_, hperm, hsorted, sortAndDedupTimestamps_rows sort entries bound, hincreasing,
    habove, ?_⟩
  · unfold sortAndDedupCounted
    cases entries with
    | nil => simp [sortAndDedupTimestamps, hperm.eq_nil]
    | cons => rfl
  · have hfits : ∀ e ∈ sort entries, e.1 ≤ u64Max := fun e he => hfits e (hperm.subset he)
    unfold sortAndDedupTimestamps
    generalize sort entries = sorted at hfits
    cases bound with
    | some minTs =>
      have hleast := dedupFrom_least (hbound minTs rfl) hfits
      cases sorted <;> exact hleast
    | none =>
      cases sorted with
      | nil => exact .nil none
      | cons entry rest =>
        obtain ⟨hentry, hrest⟩ := forall_mem_cons.mp hfits
        exact .cons (Nat.le_refl _) nofun hentry (fun t ht _ => ht) (dedupFrom_least hentry hrest)

/-- Three rows at the end of the range: the second of the two that collide
takes the last timestamp, and the row that had it is dropped. -/
theorem sortAndDedupCounted_at_the_end :
    let sort := fun l : List (LokiEntry Nat) => l.mergeSort fun e f => e.1 ≤ f.1
    let entries := [(u64Max, 3), (u64Max - 1, 1), (u64Max - 1, 2)]
    let kept := [(u64Max - 1, 1), (u64Max, 2)]
    SortsByTimestamp sort
      ∧ sortAndDedupCounted sort entries (some 7) = (kept, kept.length)
      ∧ ∃ sorted : List (LokiEntry Nat), sorted.Perm entries
        ∧ LeastTimestamps (some 7) sorted kept := by
  intro sort entries kept
  have hsort : SortsByTimestamp sort := fun l =>
    ⟨mergeSort_perm l _, (pairwise_mergeSort (by grind) (by grind) l).imp of_decide_eq_true⟩
  obtain ⟨kept', sorted, heq, hperm, -, -, -, -, hleast⟩ :=
    sortAndDedupCounted_least hsort entries (some 7) (by decide) (by decide)
  have hsorted : sort entries = [(u64Max - 1, 1), (u64Max - 1, 2), (u64Max, 3)] := by
    simp [sort, entries, mergeSort, MergeSort.Internal.splitInTwo, u64Max]
  have hkept : sortAndDedupCounted sort entries (some 7) = (kept, kept.length) := by
    unfold sortAndDedupCounted sortAndDedupTimestamps
    rw [hsorted]
    decide
  cases hkept.symm.trans heq
  exact ⟨hsort, heq, sorted, hperm, hleast⟩

-- == rejections

def rowsOf (payloads : List (PreparedPayload Λ ρ)) : List ρ :=
  payloads.flatMap fun p => p.entries.map Prod.snd

def batchRows (streamMap : StreamMap Λ ρ) : List ρ :=
  streamMap.flatMap fun stream => stream.2.map Prod.snd

def isAccepted : Except IoError SendResult → Bool
  | .ok .ok => true
  | _ => false

/-- A call that does not return Ok has sent the payloads up to the first
that was not accepted. -/
theorem sendPayloads_spec {payloads sent : List (PreparedPayload Λ ρ)}
    {outcomes : List (Except IoError SendResult)} {result : SendResult}
    (h : sendPayloads payloads outcomes = some (sent, result)) (hne : result ≠ .ok) :
    sent <+: payloads ∧ sent.length = outcomes.findIdx (!isAccepted ·) + 1 := by
  induction payloads, outcomes using sendPayloads.induct generalizing sent with
  | case1 outcomes =>
    cases h
    exact absurd rfl hne
  | case2 p payloads => cases h
  | case3 p payloads outcomes ih =>
    obtain ⟨⟨sent', _⟩, hsent, heq⟩ := Option.map_eq_some_iff.mp h
    cases heq
    obtain ⟨hfront, hlength⟩ := ih hsent
    refine ⟨(prefix_cons_inj p).mpr hfront, ?_⟩
    simpa [findIdx_cons, isAccepted] using hlength
  | case4 p payloads other outcomes hother =>
    have hrefused : isAccepted (.ok other) = false := by
      cases other with
      | ok => exact absurd rfl hother
      | ioError | retryAfter | rejected => rfl
    rw [sendPayloads.eq_4 _ _ _ _ hother] at h
    cases h
    simp [findIdx_cons, hrefused]
  | case5 p payloads e outcomes =>
    cases h
    simp [findIdx_cons, isAccepted]

/-- The payloads hold rows of the batch, and all of them exactly when none
is dropped for want of a timestamp. -/
theorem preparePayloads_rows {config : Config Λ ρ} (hsort : ∀ l, (config.sort l).Perm l)
    (streamMap : StreamMap Λ ρ) (state : TimestampState Λ) :
    rowsOf (preparePayloads config streamMap state) <+~ batchRows streamMap
      ∧ ((rowsOf (preparePayloads config streamMap state)).length = (batchRows streamMap).length
        ↔ ∀ s ∈ streamMap,
          (sortAndDedupTimestamps config.sort s.2 (state s.1)).length = s.2.length) := by
  induction streamMap with
  | nil => exact ⟨.refl _, fun _ => nofun, fun _ => rfl⟩
  | cons s streamMap ih =>
    obtain ⟨ihsub, iheq⟩ := ih
    have hsub : (sortAndDedupTimestamps config.sort s.2 (state s.1)).map Prod.snd
        <+~ s.2.map Prod.snd :=
      (sortAndDedupTimestamps_rows config.sort s.2 _).sublist.subperm.trans
        ((hsort s.2).map _).subperm
    have hrows : rowsOf (preparePayloads config (s :: streamMap) state)
        = (sortAndDedupTimestamps config.sort s.2 (state s.1)).map Prod.snd
          ++ rowsOf (preparePayloads config streamMap state) := by
      have hchunks (kept : List (LokiEntry ρ)) :
          (serializeStreamChunks config s.1 kept).flatMap PreparedPayload.entries = kept :=
        (chunksFrom_spec config s.1 [] 0 kept).1
      rw [preparePayloads, flatMap_cons, rowsOf, flatMap_append, ← map_flatMap, hchunks]
      rfl
    have hle := hsub.length_le
    have hle' := ihsub.length_le
    rw [hrows, batchRows, flatMap_cons]
    refine ⟨hsub.append ihsub, ?_⟩
    rw [← batchRows, forall_mem_cons, ← iheq]
    simp only [length_append, length_map] at hle ⊢
    omega

/-- When a call returns Rejected, every row of the batch has been sent
exactly when the payload that was refused is the last and no row was
dropped for want of a timestamp. -/
theorem rejection_sends_all_iff (config : Config Λ ρ) (hsort : ∀ l, (config.sort l).Perm l)
    (streamMap : StreamMap Λ ρ) (state : TimestampState Λ)
    (outcomes : List (Except IoError SendResult)) (sent : List (PreparedPayload Λ ρ))
    (reason : String) (h : sendPayloads (preparePayloads config streamMap state) outcomes
      = some (sent, .rejected reason)) :
    (rowsOf sent).Perm (batchRows streamMap)
      ↔ outcomes.findIdx (!isAccepted ·) + 1 = (preparePayloads config streamMap state).length
        ∧ ∀ s ∈ streamMap,
          (sortAndDedupTimestamps config.sort s.2 (state s.1)).length = s.2.length := by
  obtain ⟨hsub, hall⟩ := preparePayloads_rows hsort streamMap state
  obtain ⟨⟨unsent, hunsent⟩, hlength⟩ := sendPayloads_spec h nofun
  rw [← hlength, ← hall]
  constructor
  · intro hperm
    have hnil : unsent = [] := by
      refine eq_nil_iff_forall_not_mem.mpr fun p hp => ?_
      have hmem : p ∈ preparePayloads config streamMap state := hunsent ▸ mem_append_right _ hp
      obtain ⟨s, -, hp'⟩ := mem_flatMap.mp hmem
      obtain ⟨hne, -⟩ := (chunksFrom_spec config s.1 [] 0 _).2 p hp'
      have hrow : 0 < (rowsOf unsent).length := by
        obtain ⟨e, he⟩ := exists_mem_of_ne_nil _ hne
        exact length_pos_of_mem (mem_flatMap.mpr ⟨p, hp, mem_map_of_mem he⟩)
      have hle := hsub.length_le
      rw [← hunsent, rowsOf, flatMap_append, length_append, ← rowsOf, ← rowsOf,
        hperm.length_eq] at hle
      omega
    rw [← hunsent, hnil, append_nil]
    exact ⟨rfl, hperm.length_eq⟩
  · intro ⟨hlast, hrows⟩
    have hsent := IsPrefix.eq_of_length ⟨unsent, hunsent⟩ hlast
    rw [hsent]
    exact hsub.perm_of_length_le (Nat.le_of_eq hrows.symm)

/-- The first of two streams is accepted and the second refused: the rows of
both were sent. -/
theorem refused_stream_was_sent :
    let sent := [payloadOf true [(1, 7), (2, 9)], payloadOf false [(1, 8)]]
    (rowsOf sent).Perm (batchRows [(true, [(1, 7), (1, 9)]), (false, [(1, 8)])]) := by
  intro sent
  exact (rejection_sends_all_iff { sort := id, frameLen := fun _ => 0, valueLen := fun _ => 0 }
    (fun _ => .refl _) [(true, [(1, 7), (1, 9)]), (false, [(1, 8)])] (fun _ => none)
    [.ok .ok, .ok (.rejected "HTTP 400")] sent "HTTP 400" rfl).mpr ⟨rfl, by decide⟩

/-- The first of two streams is refused, and the row of the other is given
up without having been sent. -/
theorem second_stream_is_given_up :
    let config : Config Bool Nat := { sort := id, frameLen := fun _ => 0, valueLen := fun _ => 0 }
    let streamMap := [(true, [(1, 7)]), (false, [(1, 8)])]
    sendPayloads (preparePayloads config streamMap fun _ => none) [.ok (.rejected "HTTP 400")]
        = some ([payloadOf true [(1, 7)]], .rejected "HTTP 400")
      ∧ 8 ∈ batchRows streamMap ∧ 8 ∉ rowsOf [payloadOf true [(1, 7)]] :=
  ⟨rfl, by decide, by decide⟩

end FastForward.Output.Loki
