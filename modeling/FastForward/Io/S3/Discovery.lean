/-
The list-mode discovery of the S3 input (`run_list_discovery`).

The task lists the bucket page by page, dispatches the keys it does not
track yet and moves its cursor `start_after` over the keys that are
done. One machine step is one stretch of the task between two points
where it can meet another task: a listing that returns, the next object
of a page, a completion taken from the channel, a work item handed over,
the end of a page. Channel and completions belong to the environment.

The code compares no keys: only the service does, which lists them in
order. Keys are therefore any linearly ordered type. Prefix, object
sizes and pauses have no influence on the cursor.
-/
import Mathlib.Data.Finset.Basic
import Mathlib.Data.String.Basic
import FastForward.Lib.Run

namespace FastForward.Io.S3

universe u

structure KeyCompletion (κ : Type u) where
  key : κ
  success : Bool
  deriving DecidableEq, Repr

def maxKeyFailures : Nat := 5

/-- Where the task stands. -/
inductive Phase (κ : Type u)
  /-- About to list the keys behind the given one. -/
  | listing (after : Option κ)
  /-- Going through the objects of a page; a further page would start
  behind `last`. -/
  | page (rest : List κ) (last : Option κ)
  /-- Waiting for the permit to hand over the work for a key. -/
  | sending (key : κ) (rest : List κ) (last : Option κ)
  deriving DecidableEq, Repr

/-- The keys of the page still to be looked at. -/
def Phase.rest {κ : Type u} : Phase κ → List κ
  | .listing _ => []
  | .page rest _ => rest
  | .sending _ rest _ => rest

/-- The key that waits for its permit. -/
def Phase.waiting {κ : Type u} : Phase κ → Option κ
  | .sending key _ _ => some key
  | .listing _ | .page _ _ => none

/-- The variables of `run_list_discovery`. -/
structure Discovery (κ : Type u) where
  phase : Phase κ
  startAfter : Option κ
  dispatched : List κ
  dispatchedSet : Finset κ
  completedSet : Finset κ
  inFlight : Finset κ
  failureCounts : κ → Nat

/-- What the task can do next. -/
inductive Move (κ : Type u)
  /-- `list_objects_v2` returns a page. -/
  | list (keys : List κ)
  /-- `list_objects_v2` fails. -/
  | listFailed
  /-- The next object of the page. -/
  | object
  /-- A completion is received. -/
  | complete (kc : KeyCompletion κ)
  /-- The work for the key goes into the channel. -/
  | send
  /-- The end of the page, with or without a token for another one. -/
  | finishPage (more : Bool)
  deriving DecidableEq, Repr

variable {κ : Type u} [LinearOrder κ]

namespace Discovery

/-- The variables at the start of the task. -/
def new (startAfterInit : Option κ) : Discovery κ where
  phase := .listing startAfterInit
  startAfter := startAfterInit
  dispatched := []
  dispatchedSet := ∅
  completedSet := ∅
  inFlight := ∅
  failureCounts := fun _ => 0

/-- A completion taken from the channel: the same lines stand in the loop
for a permit, in its `select!` and before the watermark advances. -/
def handleCompletion (d : Discovery κ) (kc : KeyCompletion κ) : Discovery κ :=
  if kc.success then { d with completedSet := insert kc.key d.completedSet }
  else
    let count := d.failureCounts kc.key + 1
    let d := { d with failureCounts := Function.update d.failureCounts kc.key count }
    if maxKeyFailures ≤ count then { d with completedSet := insert kc.key d.completedSet }
    else { d with inFlight := d.inFlight.erase kc.key }

/-- A key that is not in flight becomes so. A failed key is still in
`dispatched` and keeps its place there. -/
def track (d : Discovery κ) (key : κ) : Discovery κ :=
  if key ∈ d.dispatchedSet then { d with inFlight := insert key d.inFlight }
  else
    { d with
      dispatched := d.dispatched ++ [key]
      dispatchedSet := insert key d.dispatchedSet
      inFlight := insert key d.inFlight }

/-- The front of `dispatched` is done. -/
def popFront (d : Discovery κ) (key : κ) (rest : List κ) : Discovery κ :=
  { d with
    dispatched := rest
    completedSet := d.completedSet.erase key
    dispatchedSet := d.dispatchedSet.erase key
    inFlight := d.inFlight.erase key
    failureCounts := Function.update d.failureCounts key 0
    startAfter := some key }

/-- `while let Some(front) = dispatched.front()`. -/
def advanceOver : List κ → Discovery κ → Discovery κ
  | [], d => d
  | key :: rest, d =>
    if key ∈ d.completedSet then advanceOver rest (d.popFront key rest) else d

/-- The watermark advance at the end of a page. -/
def advanceCursor (d : Discovery κ) : Discovery κ := advanceOver d.dispatched d

/-- Keys behind some key, or any keys. -/
def IsBehind (after : Option κ) (key : κ) : Prop := ∀ bound ∈ after, bound < key

instance (after : Option κ) (key : κ) : Decidable (IsBehind after key) :=
  match after with
  | none => .isTrue fun _ h => nomatch h
  | some bound => decidable_of_iff (bound < key) (by simp [IsBehind])

/-- One move of the task. A page is listed in order and behind the key
the request names; completions are taken while the task waits for a
permit and at the end of a page. -/
def apply : Move κ → Discovery κ → Option (Discovery κ)
  | .list keys, d =>
    match d.phase with
    | .listing after =>
      if keys.Pairwise (· < ·) ∧ ∀ key ∈ keys, IsBehind after key then
        some { d with phase := .page keys (keys.getLast?.or after) }
      else none
    | _ => none
  | .listFailed, d =>
    match d.phase with
    | .listing _ => some { d with phase := .listing d.startAfter }
    | _ => none
  | .object, d =>
    match d.phase with
    | .page (key :: rest) last =>
      if key ∈ d.inFlight then some { d with phase := .page rest last }
      else some { d.track key with phase := .sending key rest last }
    | _ => none
  | .complete kc, d =>
    match d.phase with
    | .sending _ _ _ => some (d.handleCompletion kc)
    | .page [] _ => some (d.handleCompletion kc)
    | _ => none
  | .send, d =>
    match d.phase with
    | .sending _ rest last => some { d with phase := .page rest last }
    | _ => none
  | .finishPage more, d =>
    match d.phase with
    | .page [] last =>
      let d := d.advanceCursor
      some { d with phase := .listing (if more then last else d.startAfter) }
    | _ => none

end Discovery

-- == discovery in its world

/-- A run of the discovery, with what its environment knows: how much
work for each key is not answered yet, and what has happened so far. -/
structure ListRun (κ : Type u) where
  disc : Discovery κ
  /-- Work handed over and not answered by a completion received. -/
  outstanding : κ → Nat
  /-- Every key a listing has shown. -/
  listed : Finset κ
  /-- Every key whose success was reported. -/
  succeeded : Finset κ
  /-- How often a failure of the key was reported. -/
  failures : κ → Nat

namespace ListRun

def new (startAfterInit : Option κ) : ListRun κ where
  disc := .new startAfterInit
  outstanding := fun _ => 0
  listed := ∅
  succeeded := ∅
  failures := fun _ => 0

/-- What a move adds to the history. -/
def note (s : ListRun κ) : Move κ → ListRun κ
  | .list keys => { s with listed := s.listed ∪ keys.toFinset }
  | .complete kc =>
    let s := { s with
      outstanding := Function.update s.outstanding kc.key (s.outstanding kc.key - 1) }
    if kc.success then { s with succeeded := insert kc.key s.succeeded }
    else { s with failures := Function.update s.failures kc.key (s.failures kc.key + 1) }
  | .send =>
    match s.disc.phase with
    | .sending key _ _ =>
      { s with outstanding := Function.update s.outstanding key (s.outstanding key + 1) }
    | _ => s
  | _ => s

/-- A completion answers work that was handed over. -/
def IsAnswer (s : ListRun κ) : Move κ → Prop
  | .complete kc => 0 < s.outstanding kc.key
  | _ => True

instance (s : ListRun κ) (m : Move κ) : Decidable (s.IsAnswer m) :=
  match m with
  | .complete kc => inferInstanceAs (Decidable (0 < s.outstanding kc.key))
  | .list _ | .listFailed | .object | .send | .finishPage _ => .isTrue True.intro

/-- The task makes a move, in any listing and with completions in any
order. -/
def apply (m : Move κ) (s : ListRun κ) : Option (ListRun κ) :=
  if s.IsAnswer m then
    (s.disc.apply m).map fun d => { s.note m with disc := d }
  else none

/-- The key was processed, or given up. -/
def IsSettled (s : ListRun κ) (key : κ) : Prop :=
  key ∈ s.succeeded ∨ maxKeyFailures ≤ s.failures key

end ListRun

end FastForward.Io.S3
