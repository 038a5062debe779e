/-
The cursor of the list-mode discovery.

The order in which keys are dispatched is the order of the keys as long
as every listing only shows keys that are tracked already or lie behind
everything dispatched and behind the cursor (`AppendsOnly`). Then the
cursor passes keys in order (`Ordered`), and a key it has passed is never
taken for a new one. A key that appears before a dispatched one breaks
this: it is appended behind it, and the cursor returns to it.
-/
import Mathlib.Data.List.Pairwise
import FastForward.Io.Proofs.S3.Discovery

namespace FastForward.Io.S3

open List Discovery

universe u

variable {κ : Type u} [LinearOrder κ]

open Discovery (IsBehind)

-- == the condition

/-- A listing shows keys that are tracked, or new ones behind the cursor
and behind every dispatched key. -/
def AppendsOnly (s : ListRun κ) : Move κ → Prop
  | .list keys => ∀ key ∈ keys, key ∈ s.disc.dispatched
      ∨ (IsBehind s.disc.startAfter key ∧ ∀ k ∈ s.disc.dispatched, k < key)
  | _ => True

instance (s : ListRun κ) (m : Move κ) : Decidable (AppendsOnly s m) :=
  match m with
  | .list keys => inferInstanceAs (Decidable (∀ key ∈ keys, key ∈ s.disc.dispatched
      ∨ (IsBehind s.disc.startAfter key ∧ ∀ k ∈ s.disc.dispatched, k < key)))
  | .listFailed | .object | .complete _ | .send | .finishPage _ => .isTrue True.intro

/-- The cursor has not gone back. -/
def CursorLe (before after : Option κ) : Prop :=
  ∀ k ∈ before, ∃ k' ∈ after, k ≤ k'

-- == the invariant

/-- Keys are dispatched in their order, behind the cursor; those listed
are dispatched, still to be looked at, or settled. -/
structure Ordered (s : ListRun κ) : Prop where
  tracked : Tracked s.disc s.outstanding
  sorted : s.disc.dispatched.Pairwise (· < ·)
  ahead : ∀ key ∈ s.disc.dispatched, IsBehind s.disc.startAfter key
  rest_sorted : s.disc.phase.rest.Pairwise (· < ·)
  coming : ∀ key ∈ s.disc.phase.rest, key ∈ s.disc.dispatched
    ∨ (IsBehind s.disc.startAfter key ∧ ∀ k ∈ s.disc.dispatched, k < key)
  listed : ∀ key ∈ s.listed, key ∈ s.disc.dispatched ∨ key ∈ s.disc.phase.rest
    ∨ s.IsSettled key
  completed : ∀ key ∈ s.disc.completedSet, s.IsSettled key
  counts : ∀ key, s.disc.failureCounts key ≤ s.failures key
  succeeded : ∀ key ∈ s.succeeded, key ∈ s.disc.completedSet
    ∨ ∃ c ∈ s.disc.startAfter, key ≤ c

namespace Ordered

variable {s s' : ListRun κ}

theorem new (startAfterInit : Option κ) : Ordered (.new startAfterInit) where
  tracked := .new startAfterInit
  sorted := .nil
  ahead := nofun
  rest_sorted := .nil
  coming := nofun
  listed := by simp [ListRun.new]
  completed := by simp [ListRun.new, Discovery.new]
  counts := fun _ => Nat.le_refl _
  succeeded := by simp [ListRun.new]

-- == the moves

variable (h : Ordered s)

include h

variable {d : Discovery κ}

theorem list {keys : List κ} (hok : AppendsOnly s (.list keys))
    (happ : s.disc.apply (.list keys) = some d) :
    Ordered { s.note (.list keys) with disc := d } := by
  have htracked := h.tracked.apply (by simp) (by simp) happ
  obtain ⟨after, hphase, hsorted, _, rfl⟩ := apply_list happ
  have hlisted := h.listed
  refine { h with tracked := htracked, rest_sorted := hsorted, coming := hok, listed := ?_ }
  show ∀ key ∈ s.listed ∪ keys.toFinset, _ ∨ key ∈ keys ∨ s.IsSettled key
  grind [Phase.rest, mem_toFinset]

theorem listFailed (happ : s.disc.apply .listFailed = some d) : Ordered { s with disc := d } := by
  have htracked := h.tracked.apply (by simp) (by simp) happ
  obtain ⟨after, hphase, rfl⟩ := apply_listFailed happ
  have hlisted := h.listed
  rw [hphase] at hlisted
  exact { h with tracked := htracked, rest_sorted := .nil, coming := nofun, listed := hlisted }

/-- The next key of the page: passed over if it is in flight, else taken
up, for the first time or after a failure. A new key comes behind the
cursor and behind all others. -/
theorem object (happ : s.disc.apply .object = some d) : Ordered { s with disc := d } := by
  have htracked := h.tracked.apply (by simp) (by simp) happ
  obtain ⟨hold, hsorted, hahead, hrest, hcoming, hlisted, hcompleted, hcounts, hsucc⟩ := h
  obtain ⟨key, rest, last, hphase, hnext⟩ := apply_object happ
  rw [hphase] at hrest hcoming hlisted
  simp only [Phase.rest, pairwise_cons, mem_cons, forall_eq_or_imp] at hrest hcoming
  rcases hnext with ⟨hkey, rfl⟩ | ⟨_, rfl⟩
  · have hdisp := hold.flying key hkey
    refine ⟨htracked, hsorted, hahead, hrest.2, hcoming.2, ?_, hcompleted, hcounts, hsucc⟩
    grind [Phase.rest, ListRun.IsSettled]
  · have hset := hold.set_eq key
    unfold track at htracked ⊢
    split
    · next hin =>
      rw [if_pos hin] at htracked
      refine ⟨htracked, hsorted, hahead, hrest.2, hcoming.2, ?_, hcompleted, hcounts, hsucc⟩
      grind [Phase.rest, ListRun.IsSettled]
    · next hnew =>
      rw [if_neg hnew] at htracked
      refine ⟨htracked, ?_, ?_, hrest.2, ?_, ?_, hcompleted, hcounts, hsucc⟩
      · rw [pairwise_append]
        grind
      · grind
      · grind [Phase.rest, ListRun.IsSettled]
      · grind [Phase.rest, ListRun.IsSettled]

theorem complete {kc : KeyCompletion κ} (hanswer : 0 < s.outstanding kc.key) :
    Ordered { s.note (.complete kc) with disc := s.disc.handleCompletion kc } := by
  have htracked := h.tracked.handleCompletion (ne_of_gt hanswer)
  obtain ⟨hold, hsorted, hahead, hrest, hcoming, hlisted, hcompleted, hcounts, hsucc⟩ := h
  by_cases hsuccess : kc.success
  · simp only [handleCompletion, ListRun.note, hsuccess] at htracked ⊢
    constructor <;> grind [ListRun.IsSettled]
  · by_cases hmax : maxKeyFailures ≤ s.disc.failureCounts kc.key + 1 <;>
      simp only [handleCompletion, ListRun.note, hsuccess, hmax] at htracked ⊢ <;>
      constructor <;> grind [ListRun.IsSettled, Function.update_apply]

variable {last : Option κ} {rest : List κ} {key : κ}

/-- The permit. -/
theorem send (hphase : s.disc.phase = .sending key rest last) :
    Ordered { s.note .send with disc := { s.disc with phase := .page rest last } } := by
  have htracked := h.tracked.send hphase
  obtain ⟨hold, hsorted, hahead, hrest, hcoming, hlisted, hcompleted, hcounts, hsucc⟩ := h
  rw [hphase] at hrest hcoming hlisted
  simp only [ListRun.note, hphase]
  exact ⟨htracked, hsorted, hahead, hrest, hcoming, hlisted, hcompleted, hcounts, hsucc⟩

/-- The end of a page: the cursor passes the keys at the front that are
done, in their order. -/
theorem finishPage {more : Bool} (happ : s.disc.apply (.finishPage more) = some d) :
    Ordered { s with disc := d } ∧ CursorLe s.disc.startAfter d.startAfter := by
  have htracked := h.tracked.apply (by simp) (by simp) happ
  obtain ⟨last, hphase, rfl⟩ := apply_finishPage happ
  obtain ⟨popped, hdisp, hdone, hcs, _, _, hcount, hcursor⟩ := s.disc.exists_popped
  obtain ⟨_, hsorted, hahead, _, _, hlisted, hcompleted, hcounts, hsucc⟩ := h
  rw [hdisp, pairwise_append] at hsorted
  obtain ⟨hfront, hback, hbetween⟩ := hsorted
  have hreached : ∀ key ∈ popped, ∃ c ∈ s.disc.advanceCursor.startAfter, key ≤ c := by
    intro key hkey
    rw [hcursor, getLast?_eq_some_getLast (ne_nil_of_mem hkey)]
    exact ⟨_, rfl, (hfront.imp le_of_lt).rel_getLast hkey⟩
  -- the cursor is where it was, or at the last key passed
  have hlast : ∀ c ∈ s.disc.advanceCursor.startAfter,
      c ∈ popped ∨ (popped = [] ∧ c ∈ s.disc.startAfter) := by
    rw [hcursor]
    cases popped using reverseRecOn <;> simp
  have hforward : CursorLe s.disc.startAfter s.disc.advanceCursor.startAfter := by
    intro c hc
    cases popped with
    | nil => exact ⟨c, by rw [hcursor]; exact hc, le_rfl⟩
    | cons key rest =>
      obtain ⟨c', hc', hle⟩ := hreached key mem_cons_self
      have hkey := hahead key (by rw [hdisp]; exact mem_cons_self)
      exact ⟨c', hc', le_trans (le_of_lt (hkey c hc)) hle⟩
  refine ⟨⟨htracked, hback, ?_, .nil, nofun, ?_, ?_, ?_, ?_⟩, hforward⟩
  · intro key hkey c hc
    rcases hlast c hc with hpop | ⟨rfl, hold⟩
    · exact hbetween c hpop key hkey
    · exact hahead key (by rw [hdisp]; exact hkey) c hold
  · grind [Phase.rest, ListRun.IsSettled]
  · exact fun key hkey => hcompleted key ((hcs key).mp hkey).1
  · exact fun key => le_trans (hcount key) (hcounts key)
  · intro key hkey
    rcases hsucc key hkey with hin | ⟨c, hc, hle⟩
    · by_cases hpop : key ∈ popped
      · exact .inr (hreached key hpop)
      · exact .inl ((hcs key).mpr ⟨hin, hpop⟩)
    · obtain ⟨c', hc', hle'⟩ := hforward c hc
      exact .inr ⟨c', hc', le_trans hle hle'⟩

-- == the runs

/-- Every move under the condition. -/
theorem step {m : Move κ} (hok : AppendsOnly s m) (happ : s.apply m = some s') :
    Ordered s' ∧ CursorLe s.disc.startAfter s'.disc.startAfter := by
  unfold ListRun.apply at happ
  split at happ
  case isFalse => cases happ
  case isTrue hanswer =>
    obtain ⟨d, hmove, rfl⟩ := Option.map_eq_some_iff.mp happ
    have hsame : CursorLe s.disc.startAfter s.disc.startAfter := fun c hc => ⟨c, hc, le_rfl⟩
    cases m with
    | list keys =>
      have hnext := h.list hok hmove
      obtain ⟨_, _, _, _, rfl⟩ := apply_list hmove
      exact ⟨hnext, hsame⟩
    | listFailed =>
      have hnext := h.listFailed hmove
      obtain ⟨_, _, rfl⟩ := apply_listFailed hmove
      exact ⟨hnext, hsame⟩
    | object =>
      refine ⟨h.object hmove, ?_⟩
      obtain ⟨key, _, _, _, ⟨_, rfl⟩ | ⟨_, rfl⟩⟩ := apply_object hmove
      · exact hsame
      · show CursorLe _ (s.disc.track key).startAfter
        unfold track
        split <;> exact hsame
    | complete kc =>
      obtain ⟨_, rfl⟩ := apply_complete hmove
      refine ⟨h.complete hanswer, ?_⟩
      unfold handleCompletion
      split
      · exact hsame
      · dsimp only
        split <;> exact hsame
    | send =>
      obtain ⟨key, rest, last, hphase, rfl⟩ := apply_send hmove
      exact ⟨h.send hphase, hsame⟩
    | finishPage more => exact h.finishPage hmove

/-- A listed key the cursor has reached is settled. -/
theorem isSettled_of_le {c : κ} (hkey : key ∈ s.listed)
    (hc : c ∈ s.disc.startAfter) (hle : key ≤ c) : s.IsSettled key := by
  rcases h.listed key hkey with hdisp | hrest | hsettled
  · exact absurd (h.ahead key hdisp c hc) (not_lt_of_ge hle)
  · rcases h.coming key hrest with hdisp | ⟨hbehind, _⟩
    · exact absurd (h.ahead key hdisp c hc) (not_lt_of_ge hle)
    · exact absurd (hbehind c hc) (not_lt_of_ge hle)
  · exact hsettled

/-- A key about to be dispatched was not reported as a success. -/
theorem not_succeeded_of_sending
    (hphase : s.disc.phase = .sending key rest last) : key ∉ s.succeeded := by
  intro hsucc
  obtain ⟨hin, _, hopen⟩ := h.tracked.permit key (by rw [hphase]; rfl)
  rcases h.succeeded key hsucc with hdone | ⟨c, hc, hle⟩
  · exact hopen hdone
  · exact absurd (h.ahead key (h.tracked.flying key hin) c hc) (not_lt_of_ge hle)

omit h

end Ordered

open Lib (ReachableWhen runList)

/-- In every run whose listings only append: the cursor never goes back,
every listed key it has reached is settled, and a key reported as a
success is not dispatched again. -/
theorem cursor_moves_forward (startAfterInit : Option κ) {s : ListRun κ}
    (hreach : ReachableWhen ListRun.apply AppendsOnly (.new startAfterInit) s) :
    (∀ m s', AppendsOnly s m → s.apply m = some s' →
        CursorLe s.disc.startAfter s'.disc.startAfter)
      ∧ (∀ c ∈ s.disc.startAfter, ∀ key ∈ s.listed, key ≤ c → s.IsSettled key)
      ∧ ∀ key rest last, s.disc.phase = .sending key rest last → key ∉ s.succeeded := by
  have hordered : Ordered s :=
    hreach.invariant (.new startAfterInit)
      fun m s s' h hok happ => (h.step hok happ).1
  exact ⟨fun m s' hok happ => (hordered.step hok happ).2,
    fun c hc key hkey hle => hordered.isSettled_of_le hkey hc hle,
    fun key rest last hphase => hordered.not_succeeded_of_sending hphase⟩

/-- Two keys are dispatched; the second is done first, the first fails
once and is listed again. In the end the cursor is behind both. -/
theorem cursor_passes_two_keys :
    ∃ s, ReachableWhen ListRun.apply AppendsOnly (.new none) s
      ∧ s.disc.startAfter = some "b" ∧ s.IsSettled "a" := by
  have hrun : (Lib.runWhen ListRun.apply AppendsOnly (.new none)
      [.list ["a", "b"], .object, .send, .object, .send, .complete ⟨"b", true⟩,
        .complete ⟨"a", false⟩, .finishPage false, .list ["a", "b"], .object, .send, .object,
        .complete ⟨"a", true⟩, .finishPage false]).map
      (fun s => (s.disc.startAfter, s.listed)) = some (some "b", {"a", "b"}) := by
    decide +kernel
  obtain ⟨s, hs, hproj⟩ := Option.map_eq_some_iff.mp hrun
  obtain ⟨hcursor, hlisted⟩ := Prod.mk.inj hproj
  have hreach := Lib.runWhen_reachable _ hs
  refine ⟨s, hreach, hcursor, ?_⟩
  exact (cursor_moves_forward none hreach).2.1 "b" hcursor "a" (by rw [hlisted]; simp) (by decide)

/-- A key appears before one already dispatched: the cursor passes it
unprocessed, goes back to it when it is done, and the key in between is
dispatched a second time. -/
theorem late_key_turns_cursor_back :
    let first : List (Move String) := [.list ["a", "c"], .object, .send, .object, .send,
      .finishPage false, .list ["a", "b", "c"], .object, .object, .complete ⟨"a", true⟩,
      .complete ⟨"c", true⟩, .send, .object, .finishPage false]
    let second : List (Move String) := [.list [], .complete ⟨"b", true⟩, .finishPage false]
    let third : List (Move String) := [.list ["c"], .object]
    (∃ s, runList ListRun.apply (.new none) first = some s
        ∧ s.disc.startAfter = some "c" ∧ "b" ∈ s.listed ∧ ¬ s.IsSettled "b")
      ∧ (∃ s, runList ListRun.apply (.new none) (first ++ second) = some s
        ∧ s.disc.startAfter = some "b")
      ∧ ∃ s, runList ListRun.apply (.new none) (first ++ second ++ third) = some s
        ∧ s.disc.phase = .sending "c" [] (some "c") ∧ "c" ∈ s.succeeded := by
  intro first second third
  have hfirst : (runList ListRun.apply (.new none) first).map
      (fun s => (s.disc.startAfter, decide ("b" ∈ s.listed), decide ("b" ∈ s.succeeded),
        s.failures "b")) = some (some "c", true, false, 0) := by
    decide +kernel
  have hthird : (runList ListRun.apply (.new none) (first ++ second ++ third)).map
      (fun s => (s.disc.phase, decide ("c" ∈ s.succeeded)))
        = some (.sending "c" [] (some "c"), true) := by
    decide +kernel
  obtain ⟨s₁, hs₁, h₁⟩ := Option.map_eq_some_iff.mp hfirst
  obtain ⟨s₃, hs₃, h₃⟩ := Option.map_eq_some_iff.mp hthird
  simp only [Prod.mk.injEq, decide_eq_true_eq, decide_eq_false_iff_not] at h₁ h₃
  obtain ⟨hcursor, hlisted, hnot, hfailures⟩ := h₁
  refine ⟨⟨s₁, hs₁, hcursor, hlisted, ?_⟩,
    Option.map_eq_some_iff.mp (by decide +kernel), ⟨s₃, hs₃, h₃⟩⟩
  intro hsettled
  rcases hsettled with hin | hfail
  · exact hnot hin
  · rw [hfailures] at hfail
    exact absurd hfail (by decide)

end FastForward.Io.S3
