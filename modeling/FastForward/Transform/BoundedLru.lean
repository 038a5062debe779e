/-
The cache of compiled patterns (`ffwd-transform/src/udf/bounded_lru.rs`):
a hash map, and beside it the order in which its keys were last used.

What it is for is said by a reference cache, one list of entries with the
least recently used one first.
-/
import Mathlib.Tactic.Ring

namespace FastForward.Transform

variable {K V : Type} [DecidableEq K] [Hashable K]

/-- `BoundedLruCache`; the front of `lru` is used least recently. -/
structure BoundedLruCache (K V : Type) [DecidableEq K] [Hashable K] where
  entries : Std.HashMap K V
  lru : List K
  capacity : Nat

namespace BoundedLruCache

/-- `new`: there is room for one entry at least. -/
def new (capacity : Nat) : BoundedLruCache K V where
  entries := ∅
  lru := []
  capacity := max capacity 1

/-- A key that has a place in the order moves to its end. -/
def touch (cache : BoundedLruCache K V) (key : K) : BoundedLruCache K V :=
  match cache.lru.idxOf? key with
  | some idx =>
    match cache.lru[idx]? with
    | some key => { cache with lru := cache.lru.eraseIdx idx ++ [key] }
    | none => cache
  | none => cache

/-- A lookup that succeeds marks its key as used. -/
def getCloned (cache : BoundedLruCache K V) (key : K) : BoundedLruCache K V × Option V :=
  match cache.entries[key]? with
  | some value => (cache.touch key, some value)
  | none => (cache, none)

/-- The `while` loop of `insert`, on what is left of the order. -/
def evict (entries : Std.HashMap K V) (capacity : Nat) : List K → BoundedLruCache K V
  | [] => { entries, lru := [], capacity }
  | evicted :: lru =>
    if entries.size > capacity then evict (entries.erase evicted) capacity lru
    else { entries, lru := evicted :: lru, capacity }

/-- A known key gets the new value; a new one may cost the oldest entry. -/
def insert (cache : BoundedLruCache K V) (key : K) (value : V) : BoundedLruCache K V :=
  if cache.entries.contains key then
    { cache with entries := cache.entries.insert key value }.touch key
  else evict (cache.entries.insert key value) cache.capacity (cache.lru ++ [key])

end BoundedLruCache

/-- What is done to a cache. -/
inductive CacheOp (K V : Type)
  | get (key : K)
  | insert (key : K) (value : V)

/-- An operation, and what it returns (an insertion returns nothing). -/
def BoundedLruCache.apply (cache : BoundedLruCache K V) :
    CacheOp K V → BoundedLruCache K V × Option V
  | .get key => cache.getCloned key
  | .insert key value => (cache.insert key value, none)

/-- The reference: entries by their last use, the oldest first. -/
abbrev Recency (K V : Type) := List (K × V)

namespace Recency

/-- The entries of the other keys. -/
def others (entries : Recency K V) (key : K) : Recency K V := entries.filter (·.1 != key)

/-- An operation on a reference of so many places. The entry that is read
or written becomes the last; a new one takes the place of the first if
there is none left. -/
def apply (places : Nat) (entries : Recency K V) : CacheOp K V → Recency K V × Option V
  | .get key =>
    match entries.lookup key with
    | some value => (entries.others key ++ [(key, value)], some value)
    | none => (entries, none)
  | .insert key value =>
    let others := entries.others key
    ((if others.length < places then others else others.tail) ++ [(key, value)], none)

end Recency

/-- A run of operations: the cache after it, and what each returned. -/
def runOps {S : Type} (apply : S → CacheOp K V → S × Option V) (s : S) :
    List (CacheOp K V) → S × List (Option V)
  | [] => (s, [])
  | op :: ops =>
    let (s, out) := apply s op
    let (s, outs) := runOps apply s ops
    (s, out :: outs)

end FastForward.Transform
