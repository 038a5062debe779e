/-
What the list-mode discovery tracks, for any answers it gets.

`Tracked d owed` ties the sets of the task to the work that is not
answered yet: a key in flight waits for its one answer, for its permit,
or for the cursor. Each move keeps it, whatever the listings show.
-/
import FastForward.Io.S3.Discovery

namespace FastForward.Io.S3

open Option

universe u

variable {κ : Type u} [LinearOrder κ] {d d' : Discovery κ}

namespace Discovery

-- == what a move can do

variable {keys : List κ}

theorem apply_list (h : d.apply (.list keys) = some d') :
    ∃ after, d.phase = .listing after ∧ keys.Pairwise (· < ·)
      ∧ (∀ key ∈ keys, IsBehind after key)
      ∧ d' = { d with phase := .page keys (keys.getLast?.or after) } := by
  simp only [apply] at h
  split at h
  · next after hphase =>
    split at h
    · next hkeys =>
      exact ⟨after, hphase, hkeys.1, hkeys.2, (some.inj h).symm⟩
    · cases h
  · cases h

theorem apply_listFailed (h : d.apply .listFailed = some d') :
    ∃ after, d.phase = .listing after ∧ d' = { d with phase := .listing d.startAfter } := by
  simp only [apply] at h
  split at h
  · next after hphase => exact ⟨after, hphase, (some.inj h).symm⟩
  · cases h

theorem apply_object (h : d.apply .object = some d') :
    ∃ key rest last, d.phase = .page (key :: rest) last
      ∧ ((key ∈ d.inFlight ∧ d' = { d with phase := .page rest last })
        ∨ (key ∉ d.inFlight ∧ d' = { d.track key with phase := .sending key rest last })) := by
  simp only [apply] at h
  split at h
  · next key rest last hphase =>
    refine ⟨key, rest, last, hphase, ?_⟩
    split at h
    · next hin => exact .inl ⟨hin, (some.inj h).symm⟩
    · next hin => exact .inr ⟨hin, (some.inj h).symm⟩
  · cases h

theorem apply_complete {kc : KeyCompletion κ} (h : d.apply (.complete kc) = some d') :
    ((∃ key rest last, d.phase = .sending key rest last) ∨ ∃ last, d.phase = .page [] last)
      ∧ d' = d.handleCompletion kc := by
  simp only [apply] at h
  split at h
  · next hphase => exact ⟨.inl ⟨_, _, _, hphase⟩, (some.inj h).symm⟩
  · next hphase => exact ⟨.inr ⟨_, hphase⟩, (some.inj h).symm⟩
  · cases h

theorem apply_send (h : d.apply .send = some d') :
    ∃ key rest last, d.phase = .sending key rest last
      ∧ d' = { d with phase := .page rest last } := by
  simp only [apply] at h
  split at h
  · next key rest last hphase => exact ⟨key, rest, last, hphase, (some.inj h).symm⟩
  · cases h

theorem apply_finishPage {more : Bool} (h : d.apply (.finishPage more) = some d') :
    ∃ last, d.phase = .page [] last
      ∧ d' = { d.advanceCursor with
                phase := .listing (if more then last else d.advanceCursor.startAfter) } := by
  simp only [apply] at h
  split at h
  · next last hphase => exact ⟨last, hphase, (some.inj h).symm⟩
  · cases h

-- == the watermark advance

/-- The keys the cursor passes leave every set together. -/
structure Popped (d d' : Discovery κ) (popped : List κ) : Prop where
  dispatched : d.dispatched = popped ++ d'.dispatched
  completed : ∀ key ∈ popped, key ∈ d.completedSet
  completedSet : ∀ key, key ∈ d'.completedSet ↔ key ∈ d.completedSet ∧ key ∉ popped
  dispatchedSet : ∀ key, key ∈ d'.dispatchedSet ↔ key ∈ d.dispatchedSet ∧ key ∉ popped
  inFlight : ∀ key, key ∈ d'.inFlight ↔ key ∈ d.inFlight ∧ key ∉ popped
  failureCounts : ∀ key, d'.failureCounts key ≤ d.failureCounts key
  startAfter : d'.startAfter = popped.getLast?.or d.startAfter

omit [LinearOrder κ] in
theorem Popped.refl (d : Discovery κ) : Popped d d [] where
  dispatched := rfl
  completed := fun _ h => nomatch h
  completedSet := by simp
  dispatchedSet := by simp
  inFlight := by simp
  failureCounts := fun _ => Nat.le_refl _
  startAfter := rfl

/-- One key more in front. -/
theorem Popped.cons {key : κ} {rest popped : List κ} (hfront : d.dispatched = key :: rest)
    (hdone : key ∈ d.completedSet) (h : Popped (d.popFront key rest) d' popped) :
    Popped d d' (key :: popped) := by
  obtain ⟨hdisp, hcompleted, hcs, hds, hfl, hcounts, hcursor⟩ := h
  simp only [popFront] at hdisp hcompleted hcs hds hfl
  simp only [popFront] at hcounts hcursor
  refine ⟨?_, ?_, ?_, ?_, ?_, ?_, ?_⟩
  case refine_1 =>
    rw [hfront, hdisp]
    rfl
  case refine_7 =>
    rw [hcursor, List.getLast?_cons]
    cases popped.getLast? <;> rfl
  all_goals grind

theorem exists_popped_advanceOver (h : d.dispatched = keys) :
    ∃ popped, Popped d (advanceOver keys d) popped := by
  induction keys generalizing d with
  | nil => exact ⟨[], .refl d⟩
  | cons key rest ih =>
    by_cases hdone : key ∈ d.completedSet
    · obtain ⟨popped, hpopped⟩ := ih (d := d.popFront key rest) rfl
      refine ⟨key :: popped, ?_⟩
      rw [advanceOver, if_pos hdone]
      exact .cons h hdone hpopped
    · rw [advanceOver, if_neg hdone]
      exact ⟨[], .refl d⟩

/-- The cursor passes some keys at the front that are done. -/
theorem exists_popped (d : Discovery κ) : ∃ popped, Popped d d.advanceCursor popped :=
  exists_popped_advanceOver rfl

end Discovery

-- == what is tracked

/-- The sets of the task, against the work not answered yet. -/
structure Tracked (d : Discovery κ) (owed : κ → Nat) : Prop where
  set_eq : ∀ key, key ∈ d.dispatchedSet ↔ key ∈ d.dispatched
  nodup : d.dispatched.Nodup
  /-- A key in flight has its place in the order. -/
  flying : ∀ key ∈ d.inFlight, key ∈ d.dispatched
  /-- A key that is done stays in flight until the cursor passes it. -/
  done : ∀ key ∈ d.completedSet, key ∈ d.inFlight ∧ owed key = 0
  /-- One answer at most is owed, for a key in flight. -/
  owed_one : ∀ key, owed key ≠ 0 → owed key = 1 ∧ key ∈ d.inFlight
  /-- A key waiting for its permit has nothing else to wait for. -/
  permit : ∀ key, d.phase.waiting = some key →
    key ∈ d.inFlight ∧ owed key = 0 ∧ key ∉ d.completedSet
  /-- A key in flight waits for something. -/
  waits : ∀ key ∈ d.inFlight,
    key ∈ d.completedSet ∨ owed key = 1 ∨ d.phase.waiting = some key

namespace Tracked

variable {owed : κ → Nat}

omit [LinearOrder κ] in
theorem new (startAfterInit : Option κ) : Tracked (.new startAfterInit) fun _ => 0 := by
  constructor <;> simp [Discovery.new, Phase.waiting]

omit [LinearOrder κ] in
/-- A move from one phase without a permit to another. -/
theorem withPhase (h : Tracked d owed) {phase : Phase κ} (hnow : d.phase.waiting = none)
    (hnext : phase.waiting = none) : Tracked { d with phase := phase } owed := by
  obtain ⟨hset, hnodup, hflying, hdone, hone, _, hwaits⟩ := h
  constructor <;> simp_all

variable {last : Option κ} {rest : List κ} {key : κ}

variable (h : Tracked d owed)

include h

/-- A key listed anew, or again after a failure. -/
theorem track (hnow : d.phase.waiting = none) (hkey : key ∉ d.inFlight) :
    Tracked { d.track key with phase := .sending key rest last } owed := by
  obtain ⟨hset, hnodup, hflying, hdone, hone, _, hwaits⟩ := h
  unfold Discovery.track
  split <;> constructor <;> grind [Phase.waiting]

/-- The permit: an answer is owed from now on. -/
theorem send (hphase : d.phase = .sending key rest last) :
    Tracked { d with phase := .page rest last } (Function.update owed key (owed key + 1)) := by
  obtain ⟨hset, hnodup, hflying, hdone, hone, hpermit, hwaits⟩ := h
  constructor <;> grind [Phase.waiting, Function.update_apply]

/-- An answer: the key is done, or may be listed again. -/
theorem handleCompletion {kc : KeyCompletion κ} (howed : owed kc.key ≠ 0) :
    Tracked (d.handleCompletion kc) (Function.update owed kc.key (owed kc.key - 1)) := by
  obtain ⟨hset, hnodup, hflying, hdone, hone, hpermit, hwaits⟩ := h
  unfold Discovery.handleCompletion
  split
  · constructor <;> grind [Function.update_apply]
  · dsimp only
    split <;> constructor <;> grind [Function.update_apply]

/-- The end of a page. -/
theorem advanceCursor (hnow : d.phase.waiting = none) {phase : Phase κ}
    (hnext : phase.waiting = none) : Tracked { d.advanceCursor with phase := phase } owed := by
  obtain ⟨popped, hdisp, hcompleted, hcs, hds, hfl, _, _⟩ := d.exists_popped
  obtain ⟨hset, hnodup, hflying, hdone, hone, _, hwaits⟩ := h
  constructor <;> grind

/-- A move that meets no other task keeps what is owed. -/
theorem apply {m : Move κ} (hm : m ≠ .send) (hm' : ∀ kc, m ≠ .complete kc)
    (happ : d.apply m = some d') : Tracked d' owed := by
  cases m with
  | list keys =>
    obtain ⟨_, hphase, _, _, rfl⟩ := Discovery.apply_list happ
    exact h.withPhase (by rw [hphase]; rfl) rfl
  | listFailed =>
    obtain ⟨_, hphase, rfl⟩ := Discovery.apply_listFailed happ
    exact h.withPhase (by rw [hphase]; rfl) rfl
  | object =>
    obtain ⟨key, rest, last, hphase, ⟨_, rfl⟩ | ⟨hkey, rfl⟩⟩ := Discovery.apply_object happ
    · exact h.withPhase (by rw [hphase]; rfl) rfl
    · exact h.track (by rw [hphase]; rfl) hkey
  | complete kc => exact absurd rfl (hm' kc)
  | send => exact absurd rfl hm
  | finishPage more =>
    obtain ⟨last, hphase, rfl⟩ := Discovery.apply_finishPage happ
    exact h.advanceCursor (by rw [hphase]; rfl) rfl

end Tracked

end FastForward.Io.S3
