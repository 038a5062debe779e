/-
The cache does what the reference does: its order is the reference's keys
and its map looks up the reference's entries, after every operation.
-/
import Mathlib.Data.List.Nodup
import FastForward.Transform.BoundedLru

namespace FastForward.Transform

open List

namespace Recency

variable {K V : Type} [DecidableEq K] {entries : Recency K V} {key k : K} {value : V}

/-- What is found is listed. -/
theorem isSome_lookup : (entries.lookup k).isSome ↔ k ∈ entries.map (·.1) := by
  simp [lookup_isSome_iff]

theorem lookup_eq_none : entries.lookup k = none ↔ k ∉ entries.map (·.1) := by
  rw [← isSome_lookup, Option.not_isSome_iff_eq_none]

theorem lookup_cons_eq (e : K × V) :
    lookup k (e :: entries) = if k = e.1 then some e.2 else entries.lookup k := by
  rw [lookup_cons]
  by_cases hk : k = e.1
  · rw [hk, beq_self_eq_true, if_pos rfl]
  · rw [beq_false_of_ne hk, if_neg hk]

/-- Leaving out a key's entry hides that key and no other. -/
theorem lookup_others : (entries.others key).lookup k = if k = key then none
    else entries.lookup k := by
  induction entries with
  | nil => exact (ite_self none).symm
  | cons e entries ih =>
    rw [others, filter_cons, ← others, lookup_cons_eq]
    split
    next he => grind [lookup_cons_eq]
    next he => grind

/-- The first entry hides its key and no other, if no key stands twice. -/
theorem lookup_tail {e : K × V} (h : e.1 ∉ entries.map (·.1)) :
    entries.lookup k = if k = e.1 then none else lookup k (e :: entries) := by
  rw [lookup_cons_eq]
  split
  next hk => rw [hk, lookup_eq_none.mpr h]
  next => rfl

/-- An entry that is added at the end is found if its key had none. -/
theorem lookup_snoc (h : entries.lookup key = none) : lookup k (entries ++ [(key, value)])
    = if k = key then some value else entries.lookup k := by
  rw [lookup_append, lookup_cons_eq]
  split
  next hk => rw [hk, h, Option.none_or]
  next => rw [lookup_nil, Option.or_none]

/-- The entry that was used last is found, and every other one as before. -/
theorem lookup_used : lookup k (entries.others key ++ [(key, value)])
    = if k = key then some value else entries.lookup k := by
  rw [lookup_snoc (by rw [lookup_others, if_pos rfl]), lookup_others]
  split <;> rfl

/-- The keys of the others, if no key stands twice. -/
theorem map_others (h : (entries.map (·.1)).Nodup) :
    (entries.others key).map (·.1) = (entries.map (·.1)).erase key := by
  rw [h.erase_eq_filter, filter_map]
  rfl

theorem others_eq_self (h : key ∉ entries.map (·.1)) : entries.others key = entries := by
  rw [others, filter_eq_self]
  intro e he
  exact bne_iff_ne.mpr fun heq => h (heq ▸ mem_map_of_mem he)

end Recency

variable {K V : Type} [DecidableEq K] [Hashable K]

namespace BoundedLruCache

variable {cache : BoundedLruCache K V} {places : Nat} {entries : Recency K V} {key : K} {value : V}

/-- A map and an order hold the reference's entries: the order is that of
their keys, none of which stands twice, and the map looks them up. -/
structure Holds (map : Std.HashMap K V) (lru : List K) (entries : Recency K V) : Prop where
  keys : lru = entries.map (·.1)
  nodup : lru.Nodup
  lookup : ∀ k, map[k]? = entries.lookup k
  size : map.size = lru.length

namespace Holds

variable {map : Std.HashMap K V} {lru : List K}

/-- The order lists the keys of the map. -/
theorem mem_iff (h : Holds map lru entries) : key ∈ map ↔ key ∈ lru := by
  rw [Std.HashMap.mem_iff_isSome_getElem?, h.lookup, Recency.isSome_lookup, h.keys]

theorem map_others (h : Holds map lru entries) :
    (entries.others key).map (·.1) = lru.erase key := by
  rw [Recency.map_others (h.keys ▸ h.nodup), ← h.keys]

theorem getElem?_insert (h : Holds map lru entries) (k : K) :
    (map.insert key value)[k]? = if k = key then some value else entries.lookup k := by
  rw [Std.HashMap.getElem?_insert, h.lookup]
  grind

/-- A new key is held once it is last in the order. -/
theorem snoc (h : Holds map lru entries) (hkey : key ∉ lru) :
    Holds (map.insert key value) (lru ++ [key]) (entries ++ [(key, value)]) where
  keys := by rw [h.keys, map_append]; rfl
  nodup := nodup_append'.mpr ⟨h.nodup, nodup_singleton key, disjoint_singleton.mpr hkey⟩
  lookup k := by
    rw [h.getElem?_insert, Recency.lookup_snoc (Recency.lookup_eq_none.mpr (h.keys ▸ hkey))]
  size := by
    rw [Std.HashMap.size_insert, if_neg (mt h.mem_iff.mp hkey), h.size, length_append]
    rfl

/-- Without the first key, the others are held. -/
theorem tail {oldest : K × V} {k : K} (h : Holds map (k :: lru) (oldest :: entries)) :
    Holds (map.erase k) lru entries := by
  obtain ⟨rfl, hlru⟩ := cons.inj h.keys
  obtain ⟨hfirst, hnodup⟩ := nodup_cons.mp h.nodup
  have hmem : oldest.1 ∈ map := h.mem_iff.mpr mem_cons_self
  exact
    { keys := hlru
      nodup := hnodup
      lookup := fun k => by
        have htail := Recency.lookup_tail (k := k) (hlru ▸ hfirst : oldest.1 ∉ entries.map (·.1))
        rw [Std.HashMap.getElem?_erase, h.lookup, htail]
        grind
      size := by rw [Std.HashMap.size_erase, if_pos hmem, h.size]; rfl }

end Holds

/-- The cache holds what the reference does, and there is a place for it. -/
structure Models (places : Nat) (cache : BoundedLruCache K V) (entries : Recency K V) : Prop where
  holds : Holds cache.entries cache.lru entries
  capacity : cache.capacity = places
  fits : cache.lru.length ≤ places

namespace Models

/-- A key in the order is moved to its end. -/
theorem touch_eq (cache : BoundedLruCache K V) (h : key ∈ cache.lru) :
    cache.touch key = { cache with lru := cache.lru.erase key ++ [key] } := by
  have hidx : cache.lru.idxOf? key = some (cache.lru.idxOf key) := by
    rw [idxOf?, findIdx?_eq_some_iff_findIdx_eq]
    exact ⟨idxOf_lt_length_iff.mpr h, rfl⟩
  rw [BoundedLruCache.touch, hidx]
  simp only [getElem?_idxOf h, eraseIdx_idxOf_eq_erase]

/-- A key that is used and stays in the cache becomes the last. -/
theorem touch (h : cache.Models places entries) (hkey : key ∈ cache.lru) {map : Std.HashMap K V}
    (hsize : map.size = cache.entries.size)
    (hmap : ∀ k, map[k]? = if k = key then some value else entries.lookup k) :
    Models places ({ cache with entries := map }.touch key)
      (entries.others key ++ [(key, value)]) := by
  have hlength : (cache.lru.erase key ++ [key]).length = cache.lru.length := by
    have hpos := length_pos_of_mem hkey
    rw [length_append, length_erase_of_mem hkey, length_singleton]
    omega
  rw [touch_eq { cache with entries := map } hkey]
  refine ⟨⟨?_, ?_, fun k => ?_, ?_⟩, h.capacity, hlength ▸ h.fits⟩
  · rw [map_append, h.holds.map_others]
    rfl
  · exact nodup_append'.mpr ⟨h.holds.nodup.erase key, nodup_singleton key,
      disjoint_singleton.mpr h.holds.nodup.not_mem_erase⟩
  · rw [hmap, Recency.lookup_used]
  · rw [hsize, h.holds.size, hlength]

/-- With room left, nothing is evicted. -/
theorem evict_of_le {map : Std.HashMap K V} {capacity : Nat} (h : map.size ≤ capacity)
    (lru : List K) : evict map capacity lru = { entries := map, lru, capacity } := by
  cases lru with
  | nil => rfl
  | cons k lru => rw [evict, if_neg (by omega)]

/-- A new key takes a free place or that of the first. -/
theorem insert_new (h : cache.Models places entries) (hplaces : 0 < places)
    (hkey : key ∉ cache.lru) :
    Models places (evict (cache.entries.insert key value) cache.capacity (cache.lru ++ [key]))
      ((if entries.length < places then entries else entries.tail) ++ [(key, value)]) := by
  have hholds : Holds (cache.entries.insert key value) _ _ := h.holds.snoc hkey
  have hlength : entries.length = cache.lru.length := by rw [h.holds.keys, length_map]
  have hsize : (cache.entries.insert key value).size = entries.length + 1 := by
    rw [hholds.size, length_append, hlength, length_singleton]
  have hfits := h.fits
  rw [h.capacity]
  by_cases hroom : entries.length < places
  · rw [if_pos hroom, evict_of_le (by omega)]
    exact ⟨hholds, rfl, by rw [length_append, length_singleton]; omega⟩
  · cases entries with
    | nil => exact absurd hplaces hroom
    | cons oldest entries =>
      have hlru : cache.lru = oldest.1 :: entries.map (·.1) := h.holds.keys
      rw [hlru, cons_append] at hholds ⊢
      rw [if_neg hroom]
      rw [length_cons] at hroom hsize hlength
      have hrest := hholds.tail.size
      rw [length_append, length_map, length_singleton] at hrest
      rw [evict, if_pos (by omega), evict_of_le (by omega)]
      exact ⟨hholds.tail, rfl, by rw [length_append, length_map, length_singleton]; omega⟩

/-- One operation: the same answer, and the two still hold the same. -/
theorem apply (h : cache.Models places entries) (hplaces : 0 < places) (op : CacheOp K V) :
    (cache.apply op).2 = (Recency.apply places entries op).2
      ∧ (cache.apply op).1.Models places (Recency.apply places entries op).1 := by
  cases op with
  | get key =>
    simp only [BoundedLruCache.apply, getCloned, Recency.apply, h.holds.lookup]
    cases hvalue : entries.lookup key with
    | none => exact ⟨rfl, h⟩
    | some value =>
      have hkey : key ∈ cache.lru := by
        rw [h.holds.keys, ← Recency.isSome_lookup, hvalue]
        rfl
      refine ⟨rfl, h.touch hkey rfl fun k => ?_⟩
      rw [h.holds.lookup]
      split
      next hk => rw [hk, hvalue]
      next => rfl
  | insert key value =>
    refine ⟨rfl, ?_⟩
    simp only [BoundedLruCache.apply, insert, Recency.apply, Std.HashMap.contains_iff_mem,
      h.holds.mem_iff]
    split
    next hkey =>
      -- the key gives up its own place, so that there is one left
      have hothers : (entries.others key).length < places := by
        have hkeys : (entries.others key).map (·.1) = _ := h.holds.map_others
        have hlength := congrArg length hkeys
        have hpos := length_pos_of_mem hkey
        have hfits := h.fits
        rw [length_map, length_erase_of_mem hkey] at hlength
        omega
      rw [if_pos hothers]
      refine h.touch hkey ?_ h.holds.getElem?_insert
      rw [Std.HashMap.size_insert, if_pos (h.holds.mem_iff.mpr hkey)]
    next hkey =>
      rw [Recency.others_eq_self (h.holds.keys ▸ hkey)]
      exact h.insert_new hplaces hkey

/-- A run of operations, by the operations. -/
theorem run (h : cache.Models places entries) (hplaces : 0 < places)
    (ops : List (CacheOp K V)) :
    (runOps BoundedLruCache.apply cache ops).2 = (runOps (Recency.apply places) entries ops).2
      ∧ (runOps BoundedLruCache.apply cache ops).1.Models places
        (runOps (Recency.apply places) entries ops).1 := by
  induction ops generalizing cache entries with
  | nil => exact ⟨rfl, h⟩
  | cons op ops ih =>
    obtain ⟨hout, hstep⟩ := h.apply hplaces op
    obtain ⟨houts, hrun⟩ := ih hstep
    exact ⟨congrArg₂ cons hout houts, hrun⟩

end Models

/-- A new cache is empty, as the reference. -/
theorem models_new (capacity : Nat) :
    (new capacity : BoundedLruCache K V).Models (max capacity 1) [] where
  holds := ⟨rfl, nodup_nil, fun _ => Std.HashMap.getElem?_empty, Std.HashMap.size_empty⟩
  capacity := rfl
  fits := Nat.zero_le _

/-- **The bounded cache.** Whatever is looked up and inserted, the cache
answers as the reference does; its order lists the keys of the map, each
once, and they are no more than it has places. -/
theorem cache_refines_recency (capacity : Nat) (ops : List (CacheOp K V)) :
    let cache := (runOps apply (new capacity : BoundedLruCache K V) ops).1
    (runOps apply (new capacity : BoundedLruCache K V) ops).2
        = (runOps (Recency.apply (max capacity 1)) [] ops).2
      ∧ cache.lru.Nodup ∧ (∀ key, key ∈ cache.lru ↔ key ∈ cache.entries)
      ∧ cache.entries.size ≤ max capacity 1 := by
  obtain ⟨houts, hmodels⟩ := (models_new (K := K) (V := V) capacity).run
    (Nat.lt_of_lt_of_le Nat.one_pos (Nat.le_max_right ..)) ops
  exact ⟨houts, hmodels.holds.nodup, fun key => hmodels.holds.mem_iff.symm,
    hmodels.holds.size ▸ hmodels.fits⟩

end BoundedLruCache
end FastForward.Transform
