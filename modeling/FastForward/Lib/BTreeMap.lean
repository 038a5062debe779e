/-
Ordered maps, and ordered maps of ordered maps.

`BTreeMap κ β` is the extensional tree map of the standard library: two
maps with the same lookups are equal. The operations here are the ones
stateful code performs on a map of maps (insert through a defaulted
entry, remove through a borrowed inner map, drop an inner map once it is
empty), each with the equation its lookup satisfies.
-/
import Std.Data.ExtTreeMap

set_option linter.unusedSectionVars false

namespace FastForward.Lib

open Std.ExtTreeMap Option

universe u v w

/-- An ordered map, extensional in its lookups. -/
abbrev BTreeMap (κ : Type u) (β : Type v) [Ord κ] := Std.ExtTreeMap κ β compare

namespace BTreeMap

variable {κ : Type u} {ι : Type v} {β : Type w}
variable [Ord κ] [Std.TransOrd κ] [Std.LawfulEqOrd κ]
variable [Ord ι] [Std.TransOrd ι] [Std.LawfulEqOrd ι]

-- == least key

/-- The least key, as iterating the keys yields it first. -/
def firstKey (m : BTreeMap κ β) : Option κ := m.keys.head?

theorem firstKey_eq_minKey? (m : BTreeMap κ β) : firstKey m = m.minKey? :=
  Std.ExtTreeMap.minKey?_eq_head?_keys.symm

theorem firstKey_eq_none {m : BTreeMap κ β} : firstKey m = none ↔ m = ∅ := by
  rw [firstKey_eq_minKey?, minKey?_eq_none_iff]

theorem firstKey_eq_some {m : BTreeMap κ β} {k : κ} :
    firstKey m = some k ↔ k ∈ m ∧ ∀ j ∈ m, (compare k j).isLE := by
  rw [firstKey_eq_minKey?, minKey?_eq_some_iff_mem_and_forall]

/-- Removing a present key shrinks the map: what a loop that consumes a
map key by key terminates on. -/
theorem size_erase_lt {m : BTreeMap κ β} {k : κ} (hk : k ∈ m) : (m.erase k).size < m.size := by
  have hc : m.contains k := hk
  have hne : m.size ≠ 0 := by
    intro h0
    have he : m = ∅ := eq_empty_iff_size_eq_zero.mpr h0
    subst he
    exact absurd hk not_mem_empty
  rw [size_erase, if_pos hc]
  omega

theorem mem_iff_exists_getElem? {m : BTreeMap κ β} {k : κ} : k ∈ m ↔ ∃ v, m[k]? = some v := by
  rw [mem_iff_isSome_getElem?, isSome_iff_exists]

theorem eq_empty_iff_getElem? {m : BTreeMap κ β} : m = ∅ ↔ ∀ k : κ, m[k]? = none := by
  constructor
  · rintro rfl k
    exact getElem?_empty
  · intro h
    refine ext_getElem? fun k => ?_
    rw [h k, getElem?_empty]

/-- Lookup after an insertion, with the key comparison as an equation. -/
theorem getElem?_insert_eq [DecidableEq κ] (m : BTreeMap κ β) (k a : κ) (v : β) :
    (m.insert k v)[a]? = if k = a then some v else m[a]? := by
  rw [getElem?_insert]
  by_cases h : k = a
  · rw [if_pos (Std.LawfulEqOrd.compare_eq_iff_eq.mpr h), if_pos h]
  · rw [if_neg fun hc => h (Std.LawfulEqOrd.compare_eq_iff_eq.mp hc), if_neg h]

/-- Lookup after a removal, with the key comparison as an equation. -/
theorem getElem?_erase_eq [DecidableEq κ] (m : BTreeMap κ β) (k a : κ) :
    (m.erase k)[a]? = if k = a then none else m[a]? := by
  rw [getElem?_erase]
  by_cases h : k = a
  · rw [if_pos (Std.LawfulEqOrd.compare_eq_iff_eq.mpr h), if_pos h]
  · rw [if_neg fun hc => h (Std.LawfulEqOrd.compare_eq_iff_eq.mp hc), if_neg h]

/-- Searching the entries for a key is looking it up. -/
theorem find?_toList [DecidableEq κ] (m : BTreeMap κ β) (k : κ) :
    (m.toList.find? fun entry => entry.1 == k).map (·.2) = m[k]? := by
  cases hfind : m.toList.find? fun entry => entry.1 == k with
  | some entry =>
    obtain rfl : entry.1 = k := by simpa using List.find?_some hfind
    exact (mem_toList_iff_getElem?_eq_some.mp (List.mem_of_find?_eq_some hfind)).symm
  | none =>
    cases hm : m[k]? with
    | none => rfl
    | some v =>
      have hmem := mem_toList_iff_getElem?_eq_some.mpr hm
      exact absurd (beq_self_eq_true k) (List.find?_eq_none.mp hfind _ hmem)

theorem toList_pairwise (m : BTreeMap κ β) :
    m.toList.Pairwise fun entry entry' => entry.1 ≠ entry'.1 :=
  Std.ExtTreeMap.distinct_keys_toList.imp fun h heq =>
    h (Std.LawfulEqOrd.compare_eq_iff_eq.mpr heq)

-- == maps of maps

/-- Two-level lookup. -/
def lookup₂ (m : BTreeMap κ (BTreeMap ι β)) (s : κ) (k : ι) : Option β :=
  m[s]?.bind fun f => f[k]?

/-- Insert through a defaulted entry. -/
def insert₂ (m : BTreeMap κ (BTreeMap ι β)) (s : κ) (k : ι) (v : β) :
    BTreeMap κ (BTreeMap ι β) :=
  m.insert s ((m[s]?.getD ∅).insert k v)

/-- Drop the inner map at `s` when it is empty. -/
def dropEmpty (m : BTreeMap κ (BTreeMap ι β)) (s : κ) :
    BTreeMap κ (BTreeMap ι β) :=
  if (m[s]?.map fun f => f.isEmpty) = some true then m.erase s else m

def NoEmpty (m : BTreeMap κ (BTreeMap ι β)) : Prop :=
  ∀ (s : κ) (f : BTreeMap ι β), m[s]? = some f → f ≠ ∅

variable [DecidableEq κ] [DecidableEq ι]

variable {m : BTreeMap κ (BTreeMap ι β)}

theorem lookup₂_of_getElem? {s : κ} {f : BTreeMap ι β} (h : m[s]? = some f) (k : ι) :
    lookup₂ m s k = f[k]? := by
  rw [lookup₂, h, bind_some]

theorem lookup₂_of_getElem?_none {s : κ} (h : m[s]? = none) (k : ι) : lookup₂ m s k = none := by
  rw [lookup₂, h, bind_none]

theorem lookup₂_insert (m : BTreeMap κ (BTreeMap ι β)) (s a : κ) (f : BTreeMap ι β) (k : ι) :
    lookup₂ (m.insert s f) a k = if s = a then f[k]? else lookup₂ m a k := by
  unfold lookup₂
  rw [getElem?_insert_eq]
  by_cases h : s = a
  · rw [if_pos h, if_pos h, bind_some]
  · rw [if_neg h, if_neg h]

theorem lookup₂_insert₂ (m : BTreeMap κ (BTreeMap ι β)) (s a : κ) (k j : ι) (v : β) :
    lookup₂ (insert₂ m s k v) a j = if s = a ∧ k = j then some v else lookup₂ m a j := by
  rw [insert₂, lookup₂_insert]
  by_cases hs : s = a
  · subst hs
    rw [if_pos rfl, getElem?_insert_eq]
    by_cases hk : k = j
    · rw [if_pos hk, if_pos ⟨rfl, hk⟩]
    · rw [if_neg hk, if_neg fun h => hk h.2]
      cases hm : m[s]? with
      | none =>
        rw [lookup₂_of_getElem?_none hm]
        exact getElem?_empty
      | some f => rw [lookup₂_of_getElem? hm, getD_some]
  · rw [if_neg hs, if_neg fun h => hs h.1]

theorem lookup₂_dropEmpty (m : BTreeMap κ (BTreeMap ι β)) (s a : κ) (k : ι) :
    lookup₂ (dropEmpty m s) a k = lookup₂ m a k := by
  unfold dropEmpty
  split
  case isFalse => rfl
  case isTrue h =>
    obtain ⟨f, hf, hemp⟩ := map_eq_some_iff.mp h
    have hfe : f = ∅ := isEmpty_iff.mp hemp
    unfold lookup₂
    rw [getElem?_erase_eq]
    by_cases hs : s = a
    · subst hs
      rw [if_pos rfl, hf, hfe]
      exact getElem?_empty.symm
    · rw [if_neg hs]

-- == no empty inner

theorem NoEmpty.empty : NoEmpty (∅ : BTreeMap κ (BTreeMap ι β)) := by
  intro s f h
  cases h

theorem NoEmpty.insert₂ (hm : NoEmpty m) (s : κ) (k : ι) (v : β) : NoEmpty (insert₂ m s k v) := by
  intro a f hf
  rw [BTreeMap.insert₂, getElem?_insert_eq] at hf
  by_cases hs : s = a
  · rw [if_pos hs, some.injEq] at hf
    subst hf
    exact insert_ne_empty
  · rw [if_neg hs] at hf
    exact hm a f hf

/-- Replacing one inner map and then dropping it if empty leaves no empty
inner map behind. -/
theorem NoEmpty.dropEmpty_insert (hm : NoEmpty m) (s : κ) (f : BTreeMap ι β) :
    NoEmpty (dropEmpty (m.insert s f) s) := by
  intro a g hg
  unfold dropEmpty at hg
  rw [getElem?_insert_eq, if_pos rfl, map_some] at hg
  split at hg
  case isTrue h =>
    rw [getElem?_erase_eq] at hg
    by_cases hs : s = a
    · rw [if_pos hs] at hg
      cases hg
    · rw [if_neg hs, getElem?_insert_eq, if_neg hs] at hg
      exact hm a g hg
  case isFalse h =>
    rw [getElem?_insert_eq] at hg
    by_cases hs : s = a
    · rw [if_pos hs, some.injEq] at hg
      subst hg
      intro hfe
      subst hfe
      exact h (by rw [isEmpty_empty])
    · rw [if_neg hs] at hg
      exact hm a g hg

/-- Without empty inner maps, a map of maps with no entry is the empty
map. -/
theorem NoEmpty.eq_empty (hm : NoEmpty m) (h : ∀ s k, lookup₂ m s k = none) : m = ∅ := by
  refine eq_empty_iff_getElem?.mpr fun s => ?_
  cases hs : m[s]? with
  | none => rfl
  | some f =>
    refine absurd (eq_empty_iff_getElem?.mpr fun k => ?_) (hm s f hs)
    rw [← lookup₂_of_getElem? hs k]
    exact h s k

/-- Every inner map is empty exactly when there is no entry at all. -/
theorem values_all_isEmpty_iff : (m.toList.all fun e => e.2.isEmpty) = true
      ↔ ∀ s k, lookup₂ m s k = none := by
  rw [List.all_eq_true]
  constructor
  · intro h s k
    cases hs : m[s]? with
    | none => exact lookup₂_of_getElem?_none hs k
    | some f =>
      have hmem := mem_toList_iff_getElem?_eq_some.mpr hs
      have hfe : f = ∅ := isEmpty_iff.mp (h _ hmem)
      rw [lookup₂_of_getElem? hs, hfe]
      exact getElem?_empty
  · rintro h ⟨s, f⟩ hmem
    have hs := mem_toList_iff_getElem?_eq_some.mp hmem
    refine isEmpty_iff.mpr (eq_empty_iff_getElem?.mpr fun k => ?_)
    rw [← lookup₂_of_getElem? hs k]
    exact h s k

end BTreeMap

end FastForward.Lib
