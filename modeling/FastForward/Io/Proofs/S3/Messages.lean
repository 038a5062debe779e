/-
The messages that are deleted, in SQS mode.

`successes` counts the handlers of a message that are marked. A record
that duplicates a running fetch is marked at once, whatever becomes of
the fetch. So a message is deleted when all its records are received and
marked, and then they were fetched if every duplicate was received after
the fetch it duplicates had succeeded.
-/
import FastForward.Io.Proofs.S3.Orchestrator

namespace FastForward.Io.S3

open List

universe u

open Lib (ReachableWhen runList)

variable {κ : Type u}

-- == the handlers of a message

/-- The record is one of the message. -/
@[grind] def ObjectWork.isOf (m : Nat) (work : ObjectWork κ) : Bool :=
  work.messageTracker == some m

/-- A duplicate, or a record that was fetched. -/
@[grind] def Handler.isCovered (h : Handler κ) : Bool := h.isSkip || h.fetched == some true

/-- Counted among `successes`. -/
@[grind] def Handler.isMarked (h : Handler κ) : Bool :=
  h.isCovered && h.stage != .fetching && h.stage != .marking

/-- The stages a handler can be in. -/
structure Handler.Sound (h : Handler κ) : Prop where
  skip : h.isSkip = true → h.stage ≠ .fetching
  fetching : h.stage = .fetching → h.fetched = none
  marking : h.stage = .marking → h.isCovered = true

namespace Orchestrator

/-- All work items so far: those received and those in the channel. -/
def works (o : Orchestrator κ) : List (ObjectWork κ) := o.handlers.map (·.work) ++ o.queue

/-- The counters of a message; those of one still to come are 0. -/
def tracker (o : Orchestrator κ) (m : Nat) : MessageTracker := o.trackers.getD m ⟨0, 0, 0⟩

/-- What holds of the handlers and the trackers in every state. -/
structure Settles (o : Orchestrator κ) : Prop where
  sound : ∀ h ∈ o.handlers, h.Sound
  total : ∀ m, (o.tracker m).total = o.works.countP (·.isOf m)
  successes : ∀ m, (o.tracker m).successes
    = o.handlers.countP fun h => h.work.isOf m && h.isMarked
  deleted : ∀ m ∈ o.deleted, m < o.trackers.length ∧ (o.tracker m).total ≤ (o.tracker m).successes
  duplicates : ∀ h ∈ o.handlers, ∀ j, h.duplicateOf = some j → ∃ f, o.handlers[j]? = some f
    ∧ f.isSkip = false ∧ f.work.key = h.work.key ∧ f.fetched = some true

variable {o o' : Orchestrator κ} {work : ObjectWork κ}

/-- A work item with a tracker has one that exists. -/
theorem Settles.lt_length (h : o.Settles) (hw : work ∈ o.works) {m : Nat}
    (hof : work.isOf m) : m < o.trackers.length := by
  by_cases hlt : m < o.trackers.length
  · exact hlt
  · have hpos : 0 < o.works.countP (·.isOf m) := countP_pos_iff.mpr ⟨work, hw, hof⟩
    rw [← h.total m] at hpos
    simp [tracker, hlt] at hpos

/-- When a message is deleted, its records are received and marked. -/
theorem Settles.covered (h : o.Settles) {m : Nat} (hm : m ∈ o.deleted) :
    (∀ work ∈ o.queue, work.isOf m = false)
      ∧ ∀ c ∈ o.handlers, c.work.isOf m → c.isCovered := by
  have hle := (h.deleted m hm).2
  rw [h.total m, h.successes m, works, countP_append, countP_map] at hle
  have hsplit := countP_eq_countP_filter_add o.handlers (·.work.isOf m) (·.isMarked)
  simp only [countP_filter] at hsplit
  replace hle : o.handlers.countP (·.work.isOf m) + _ ≤ _ := hle
  have hqueue : o.queue.countP (·.isOf m) = 0 := by omega
  have hnone : o.handlers.countP (fun c => c.work.isOf m && !c.isMarked) = 0 := by omega
  exact ⟨by simpa using hqueue, fun c hc hof => by grind⟩

/-- A handler goes from `c` to `b`, and the counters of its message with
it. What was fetched stays so. -/
theorem Settles.moves (h : o.Settles) {i : Nat} {c b : Handler κ}
    (f : MessageTracker → MessageTracker) (hc : o.handlers[i]? = some c)
    (hhandlers : o'.handlers = o.handlers.set i b) (hworks : o'.works = o.works)
    (hdeleted : o'.deleted = o.deleted) (hlength : o'.trackers.length = o.trackers.length)
    (htracker : ∀ m, o'.tracker m
      = if c.work.isOf m ∧ m < o.trackers.length then f (o.tracker m) else o.tracker m)
    (hf : ∀ t, (f t).total = t.total ∧ (f t).successes + (if c.isMarked then 1 else 0)
      = t.successes + if b.isMarked then 1 else 0)
    (hwork : b.work = c.work) (hskip : b.duplicateOf = c.duplicateOf)
    (hfetched : c.fetched ≠ none → b.fetched = c.fetched)
    (hmarked : c.isMarked → b.isMarked) (hsound : b.Sound) : o'.Settles := by
  have hlt : ∀ m, c.work.isOf m → m < o.trackers.length :=
    fun m hof => h.lt_length (by grind [works]) hof
  constructor
  case sound => grind [h.sound]
  case total => grind [h.total]
  case successes =>
    intro m
    have hset := countP_set_add hc (fun h => h.work.isOf m && h.isMarked) b
    have hold := h.successes m
    have hown := hf (o.tracker m)
    rw [hwork, ← hhandlers] at hset
    rw [htracker]
    cases hof : c.work.isOf m with
    | true =>
      simp only [hof, Bool.true_and] at hset
      rw [if_pos ⟨rfl, hlt m hof⟩]
      omega
    | false =>
      simp only [hof, Bool.false_and] at hset
      rw [if_neg (by simp)]
      omega
  case deleted =>
    intro m hm
    rw [hdeleted] at hm
    obtain ⟨hlt, hle⟩ := h.deleted m hm
    grind
  case duplicates =>
    have hold := h.duplicates
    grind

theorem tracker_updateTracker (o : Orchestrator κ) (work : ObjectWork κ)
    (f : MessageTracker → MessageTracker) (m : Nat) :
    (o.updateTracker work f).tracker m
      = if work.isOf m ∧ m < o.trackers.length then f (o.tracker m) else o.tracker m := by
  unfold updateTracker tracker
  grind

variable [LinearOrder κ] {a : OrchestratorStep}

/-- A step loses no work item and adds none, and makes no tracker. -/
theorem works_step (hstep : Steps o a o') :
    o'.works = o.works ∧ o'.trackers.length = o.trackers.length := by
  have hset : ∀ {i : Nat} {c b : Handler κ}, o.handlers[i]? = some c → b.work = c.work →
      (o.handlers.set i b).map (·.work) ++ o.queue = o.works := by
    intro i c b hc hb
    obtain ⟨front, back, _, hl, hset⟩ := exists_split hc
    rw [hset b, works, hl]
    simp [hb]
  have hlength : ∀ (work : ObjectWork κ) (f : MessageTracker → MessageTracker),
      (o.updateTracker work f).trackers.length = o.trackers.length := by
    intro work f
    unfold updateTracker
    cases work.messageTracker <;> simp
  cases hstep with
  | receive work rest hqueue _ =>
    have hwork : (o.handlerOf work).work = work := by
      unfold handlerOf
      split <;> rfl
    simp [works, hqueue, hwork]
  | fetched i c success hc _ => exact ⟨hset hc rfl, rfl⟩
  | mark i c hc _ => exact ⟨hset hc rfl, hlength c.work _⟩
  | report i c hc _ => exact ⟨hset hc rfl, rfl⟩
  | settle i c hc _ => exact ⟨hset hc rfl, hlength c.work _⟩
  | check i c hc _ | release i c hc _ => exact ⟨hset hc rfl, rfl⟩

/-- The next item is received; if its key is being fetched, that fetch
has succeeded. -/
theorem Settles.receive (h : o.Settles) (hworks : o'.works = o.works)
    (hhandlers : o'.handlers = o.handlers ++ [o.handlerOf work])
    (htrackers : o'.trackers = o.trackers) (hdeleted : o'.deleted = o.deleted)
    (hok : work.key ∈ o.fetchingKeys →
      (o.handlers[o.running work.key]?).bind (·.fetched) = some true) : o'.Settles := by
  have htracker : ∀ m, o'.tracker m = o.tracker m := by simp [tracker, htrackers]
  have hnew : (o.handlerOf work).Sound ∧ ∀ m, (o.handlerOf work).work.isOf m →
      (o.handlerOf work).isMarked = false := by
    unfold handlerOf
    split <;> exact ⟨⟨by grind, by grind, by grind⟩, by grind⟩
  have hdup : ∀ j, (o.handlerOf work).duplicateOf = some j → ∃ f, o.handlers[j]? = some f
      ∧ f.isSkip = false ∧ f.work.key = (o.handlerOf work).work.key ∧ f.fetched = some true := by
    intro j hj
    unfold handlerOf at hj ⊢
    split at hj
    case isFalse => cases hj
    case isTrue hfetching =>
      cases hj
      obtain ⟨f, hf, hdone⟩ := Option.bind_eq_some_iff.mp (hok hfetching)
      obtain ⟨hlt, hget⟩ := List.getElem?_eq_some_iff.mp hf
      have hrun := findIdx_getElem (w := hlt)
      unfold running at hget
      rw [hget] at hrun
      simp only [Bool.and_eq_true, Bool.not_eq_true', beq_iff_eq] at hrun
      rw [if_pos hfetching]
      exact ⟨f, hf, hrun.1.1, hrun.1.2, hdone⟩
  constructor
  case sound => grind [h.sound]
  case total => grind [h.total]
  case successes =>
    intro m
    rw [htracker, h.successes m]
    grind
  case deleted => simpa [htracker, htrackers, hdeleted] using h.deleted
  case duplicates =>
    have hold := h.duplicates
    grind

/-- Every step keeps the accounts, if it receives no record as the
duplicate of a fetch that has not succeeded. -/
theorem Settles.step (h : o.Settles) (hstep : Steps o a o')
    (hok : a = .receive → ∀ work ∈ o.queue.head?, work.key ∈ o.fetchingKeys →
      (o.handlers[o.running work.key]?).bind (·.fetched) = some true) : o'.Settles := by
  obtain ⟨hworks, hlength⟩ := works_step hstep
  cases hstep with
  | receive work rest hqueue _ =>
    exact h.receive hworks rfl rfl rfl (hok rfl work (by simp [hqueue]))
  | fetched i c success hc hstage =>
    have hsound := h.sound c (mem_of_getElem? hc)
    have hnone := hsound.fetching hstage
    refine h.moves id hc rfl hworks rfl hlength (fun _ => (ite_self _).symm) (fun t => ⟨rfl, ?_⟩)
      rfl rfl ?_ ?_ ⟨?_, ?_, ?_⟩ <;> grind [hsound.skip]
  | mark i c hc hstage =>
    have hcovered := (h.sound c (mem_of_getElem? hc)).marking hstage
    refine h.moves (fun t => { t with successes := t.successes + 1 }) hc rfl hworks rfl hlength
      (tracker_updateTracker o c.work _) (fun t => ⟨rfl, ?_⟩) rfl rfl (fun _ => rfl) ?_
      ⟨?_, ?_, ?_⟩ <;> grind
  | report i c hc hstage | release i c hc hstage =>
    refine h.moves id hc rfl hworks rfl hlength (fun _ => (ite_self _).symm) (fun t => ⟨rfl, ?_⟩)
      rfl rfl (fun _ => rfl) ?_ ⟨?_, ?_, ?_⟩ <;> grind
  | settle i c hc hstage =>
    refine h.moves (fun t => { t with remaining := t.remaining - 1 }) hc rfl hworks rfl hlength
      (tracker_updateTracker o c.work _) (fun t => ⟨rfl, ?_⟩) rfl rfl (fun _ => rfl) ?_
      ⟨?_, ?_, ?_⟩ <;> grind
  | check i c hc hstage =>
    -- the message is deleted if its counters agree
    have hall : (o.deleteIfAll c.work).Settles := by
      refine ⟨h.sound, h.total, h.successes, fun m hm => ?_, h.duplicates⟩
      rcases mem_append.mp hm with hm | hm
      · exact h.deleted m hm
      · obtain ⟨_, hall⟩ := mem_filter.mp hm
        show m < o.trackers.length ∧ (o.tracker m).total ≤ (o.tracker m).successes
        unfold tracker
        grind
    refine hall.moves id hc rfl hworks rfl hlength (fun _ => (ite_self _).symm)
      (fun t => ⟨rfl, ?_⟩) rfl rfl (fun _ => rfl) ?_ ⟨?_, ?_, ?_⟩ <;> grind

end Orchestrator

-- == the system

namespace SqsSystem

variable {s s' : SqsSystem κ}

/-- The accounts of the orchestrator, and the records of every message
among the work items. -/
structure Accounted (s : SqsSystem κ) : Prop where
  settles : s.orch.Settles
  length : s.messages.length = s.orch.trackers.length
  records : ∀ m keys, s.messages[m]? = some keys →
    (s.orch.works.filter (·.isOf m)).map (·.key) = keys

theorem accounted_new : (new : SqsSystem κ).Accounted := by
  refine ⟨⟨nofun, fun m => ?_, fun m => ?_, nofun, nofun⟩, rfl, nofun⟩ <;>
    simp [new, Orchestrator.new, Orchestrator.works, Orchestrator.tracker]

/-- A message is received: its records are the work items with the new
tracker. -/
theorem Accounted.message (h : s.Accounted) (keys : List κ) : (s.message keys).Accounted := by
  unfold SqsSystem.message
  split
  case isTrue => exact h
  case isFalse =>
    obtain ⟨hsettles, hlength, hrecords⟩ := h
    obtain ⟨n, hn⟩ : ∃ n, n = s.orch.trackers.length := ⟨_, rfl⟩
    obtain ⟨new, hnew⟩ : ∃ new : List (ObjectWork κ), new = keys.map fun key => ⟨key, some n⟩ :=
      ⟨_, rfl⟩
    rw [← hn, ← hnew]
    have hkeys : new.map (·.key) = keys := by simp [hnew, Function.comp_def]
    have hnone : ∀ work ∈ s.orch.works, work.isOf n = false := by
      intro work hw
      have hlt := hsettles.lt_length hw (m := n)
      grind
    have hfilter : ∀ m, (s.orch.works ++ new).filter (·.isOf m)
        = if n = m then new else s.orch.works.filter (·.isOf m) := by
      intro m
      by_cases hm : n = m
      · have hold : s.orch.works.filter (·.isOf n) = [] := by simpa using hnone
        have hall : new.filter (·.isOf n) = new := by simp [hnew, ObjectWork.isOf]
        simp [← hm, hold, hall]
      · have hall : new.filter (·.isOf m) = [] := by simp [hnew, ObjectWork.isOf, hm]
        simp [hm, hall]
    let o' : Orchestrator κ := { s.orch with
        queue := s.orch.queue ++ new
        trackers := s.orch.trackers ++ [⟨keys.length, keys.length, 0⟩] }
    have htracker : ∀ m, o'.tracker m
          = if n = m then ⟨keys.length, keys.length, 0⟩ else s.orch.tracker m := by
      intro m
      unfold Orchestrator.tracker
      rcases lt_trichotomy m n with hm | hm | hm
      · have hlt : m < s.orch.trackers.length := by omega
        simp [o', getElem?_append_left hlt, hm.ne']
      · simp [o', hm, hn]
      · simp [o', hm.ne]
        grind
    have hworks : o'.works = s.orch.works ++ new := by simp [o', Orchestrator.works]
    refine ⟨⟨hsettles.sound, fun m => ?_, fun m => ?_, fun m hm => ?_, hsettles.duplicates⟩,
      by simp [hlength], fun m ks hks => ?_⟩
    · have hold := hsettles.total m
      grind
    · have hold := hsettles.successes m
      rw [htracker]
      split
      case isFalse => exact hold
      case isTrue hm =>
        symm
        rw [countP_eq_zero]
        grind [Orchestrator.works]
    · obtain ⟨hlt, hle⟩ := hsettles.deleted m hm
      rw [htracker, if_neg (by omega)]
      exact ⟨by grind, hle⟩
    · rw [hworks, hfilter]
      split
      case isTrue hm => exact hkeys.trans (by grind)
      case isFalse hm => exact hrecords m ks (by grind)

variable [LinearOrder κ]

theorem Accounted.step (h : s.Accounted) {a : SqsStep κ} (hok : s.SkipsFetched a)
    (happ : apply a s = some s') : s'.Accounted := by
  cases a with
  | message keys =>
    cases happ
    exact h.message keys
  | orchestrator a =>
    obtain ⟨o, ho, rfl⟩ := Option.map_eq_some_iff.mp happ
    have hsteps := Orchestrator.Steps.of_step ho
    obtain ⟨hworks, hlength⟩ := Orchestrator.works_step hsteps
    refine ⟨h.settles.step hsteps ?_, h.length.trans hlength.symm, ?_⟩
    · rintro rfl
      exact hok
    · intro m keys hkeys
      rw [hworks]
      exact h.records m keys hkeys

end SqsSystem

variable [LinearOrder κ]

/-- A message is deleted only after its records were received, and each
of them was fetched, by its own task or by the one that was fetching its
key when it was received: if no record is received as the duplicate of a
fetch that has not succeeded. -/
theorem deleted_message_was_fetched {s : SqsSystem κ}
    (hreach : ReachableWhen SqsSystem.apply SqsSystem.SkipsFetched .new s) {m : Nat}
    (hm : m ∈ s.orch.deleted) :
    s.messages[m]? = some ((s.orch.handlers.filter (·.work.isOf m)).map (·.work.key))
      ∧ ∀ (i : Nat) (h : Handler κ), s.orch.handlers[i]? = some h → h.work.isOf m = true →
        ∃ f, s.orch.handlers[h.duplicateOf.getD i]? = some f ∧ f.isSkip = false
          ∧ f.work.key = h.work.key ∧ f.fetched = some true := by
  have hacc : s.Accounted := hreach.invariant SqsSystem.accounted_new
    fun _ _ _ h hok happ => h.step hok happ
  obtain ⟨hqueue, hcovered⟩ := hacc.settles.covered hm
  have hlt := (hacc.settles.deleted m hm).1
  constructor
  · rw [← hacc.length] at hlt
    rw [getElem?_eq_getElem hlt, ← hacc.records m _ (getElem?_eq_getElem hlt)]
    have hnone : s.orch.queue.filter (·.isOf m) = [] := by simpa using hqueue
    rw [Orchestrator.works, filter_append, hnone, append_nil, filter_map, map_map]
    rfl
  · intro i h hi hof
    have hin := mem_of_getElem? hi
    cases hdup : h.duplicateOf with
    | some j => exact hacc.settles.duplicates h hin j hdup
    | none =>
      have hfetched : h.fetched = some true := by
        simpa [Handler.isCovered, Handler.isSkip, hdup] using hcovered h hin hof
      exact ⟨h, hi, by simp [Handler.isSkip, hdup], rfl, hfetched⟩

/-- A message that names a key twice: the second record is received when
the key has been fetched but is not released yet. -/
theorem fetched_message_is_deleted :
    ∃ s : SqsSystem String,
      ReachableWhen SqsSystem.apply SqsSystem.SkipsFetched .new s ∧ s.orch.deleted = [0]
      ∧ s.messages[0]? = some ((s.orch.handlers.filter (·.work.isOf 0)).map (·.work.key)) := by
  have hrun : (Lib.runWhen SqsSystem.apply SqsSystem.SkipsFetched (.new (κ := String))
      [.message ["a", "a"], .orchestrator .receive, .orchestrator (.fetched 0 true),
        .orchestrator .receive, .orchestrator (.advance 1), .orchestrator (.advance 1),
        .orchestrator (.advance 0), .orchestrator (.advance 0), .orchestrator (.advance 0),
        .orchestrator (.advance 0)]).map (·.orch.deleted) = some [0] := by
    decide +kernel
  obtain ⟨s, hs, hdeleted⟩ := Option.map_eq_some_iff.mp hrun
  have hreach := Lib.runWhen_reachable _ hs
  exact ⟨s, hreach, hdeleted, (deleted_message_was_fetched hreach (by simp [hdeleted])).1⟩

/-- A message is delivered again while the fetch of its key is running:
the second delivery is deleted, and then the fetch fails. -/
theorem redelivered_message_is_deleted :
    (runList SqsSystem.apply (SqsSystem.new (κ := String))
        [.message ["a"], .orchestrator .receive, .message ["a"], .orchestrator .receive,
          .orchestrator (.advance 1), .orchestrator (.advance 1), .orchestrator (.advance 1),
          .orchestrator (.fetched 0 false)]).map
      (fun s => (s.orch.deleted, s.orch.handlers.map fun h => (h.duplicateOf, h.fetched)))
      = some ([1], [(none, some false), (some 0, none)]) := by
  decide +kernel

end FastForward.Io.S3
