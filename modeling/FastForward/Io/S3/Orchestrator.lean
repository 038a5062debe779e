/-
The orchestrator of the S3 input (`run_orchestrator`) and its fetch
tasks.

The orchestrator takes work items from a channel. For a key that is not
being fetched it spawns a task; one that is is a duplicate and is
skipped. `Handler` is the code that answers for one work item: the
spawned task, or for a duplicate the orchestrator itself, which takes
the next item only when it is through. One step is one operation on
state that the tasks share: the counters of a message tracker, the
completion channel, the set of keys being fetched. The steps of all
handlers interleave freely.

The semaphore that bounds the number of tasks, the capacity of the
channels and the shutdown only take runs away and are left out; what the
fetch loop comes to is up to the environment.
-/
import FastForward.Io.S3.Discovery

namespace FastForward.Io.S3

universe u

/-- `ObjectWork`; a message tracker is named by its place among those
created. -/
structure ObjectWork (κ : Type u) where
  key : κ
  messageTracker : Option Nat
  deriving DecidableEq, Repr

structure MessageTracker where
  total : Nat
  remaining : Nat
  successes : Nat
  deriving DecidableEq, Repr

/-- What a handler does next. -/
inductive Stage
  /-- The fetch loop is running. -/
  | fetching
  /-- Count the record as a success. -/
  | marking
  /-- Send the completion. -/
  | reporting
  /-- Take the record off `remaining`. -/
  | settling
  /-- It was the last record: see whether all succeeded. -/
  | checking
  /-- Take the key off the set of keys being fetched. -/
  | releasing
  | finished
  deriving DecidableEq, Repr

/-- The code that answers for one work item received. -/
structure Handler (κ : Type u) where
  work : ObjectWork κ
  /-- For a duplicate, the handler that is fetching the key. -/
  duplicateOf : Option Nat
  stage : Stage
  /-- How the fetch loop ended. -/
  fetched : Option Bool
  deriving DecidableEq, Repr

/-- The state the orchestrator and its tasks share. -/
structure Orchestrator (κ : Type u) where
  /-- Is there a channel for completions? There is in list mode only. -/
  reports : Bool
  queue : List (ObjectWork κ)
  fetchingKeys : Finset κ
  /-- One for every item received so far. -/
  handlers : List (Handler κ)
  trackers : List MessageTracker
  /-- Every completion sent so far. -/
  completions : List (KeyCompletion κ)
  /-- Every message the orchestrator has asked to delete. -/
  deleted : List Nat

inductive OrchestratorStep
  /-- The next work item is received. -/
  | receive
  /-- The fetch loop of a handler ends. -/
  | fetched (handler : Nat) (success : Bool)
  /-- A handler takes its next step. -/
  | advance (handler : Nat)
  deriving DecidableEq, Repr

variable {κ : Type u} [LinearOrder κ]

/-- A duplicate has no fetch of its own. -/
def Handler.isSkip (h : Handler κ) : Bool := h.duplicateOf.isSome

namespace Orchestrator

def new (reports : Bool) : Orchestrator κ where
  reports := reports
  queue := []
  fetchingKeys := ∅
  handlers := []
  trackers := []
  completions := []
  deleted := []

/-- The handler that is fetching the key. -/
def running (o : Orchestrator κ) (key : κ) : Nat :=
  o.handlers.findIdx fun h => !h.isSkip && h.work.key == key && h.stage != .finished

/-- The handler of a work item. The duplicate of a key without a tracker
has nothing to do. -/
def handlerOf (o : Orchestrator κ) (work : ObjectWork κ) : Handler κ :=
  if work.key ∈ o.fetchingKeys then
    { work := work
      duplicateOf := some (o.running work.key)
      stage := if work.messageTracker.isSome then .marking else .finished
      fetched := none }
  else { work := work, duplicateOf := none, stage := .fetching, fetched := none }

/-- `work_rx.recv()` and the duplicate check. -/
def receive (o : Orchestrator κ) : Option (Orchestrator κ) :=
  if ∀ h ∈ o.handlers, h.isSkip = true → h.stage = .finished then
    match o.queue with
    | [] => none
    | work :: rest =>
      some { o with
        queue := rest
        fetchingKeys := insert work.key o.fetchingKeys
        handlers := o.handlers ++ [o.handlerOf work] }
  else none

/-- A handler after one of its steps. -/
def setHandler (o : Orchestrator κ) (i : Nat) (h : Handler κ) : Orchestrator κ :=
  { o with handlers := o.handlers.set i h }

/-- An operation on the tracker of a work item, if it has one. -/
def updateTracker (o : Orchestrator κ) (work : ObjectWork κ)
    (f : MessageTracker → MessageTracker) : Orchestrator κ :=
  { o with
    trackers := match work.messageTracker with
      | none => o.trackers
      | some m => o.trackers.modify m f }

/-- `tracker.successes.fetch_add(1)`. -/
def markSuccess (o : Orchestrator κ) (work : ObjectWork κ) : Orchestrator κ :=
  o.updateTracker work fun t => { t with successes := t.successes + 1 }

/-- `tracker.remaining.fetch_sub(1)`. -/
def takeOff (o : Orchestrator κ) (work : ObjectWork κ) : Orchestrator κ :=
  o.updateTracker work fun t => { t with remaining := t.remaining - 1 }

/-- `prev == 1`, for the record of this work item. -/
def isLast (o : Orchestrator κ) (work : ObjectWork κ) : Bool :=
  match work.messageTracker with
  | none => false
  | some m => (o.trackers[m]?.map (·.remaining)) == some 1

/-- `sqs.delete_message`, if all records of the message succeeded. -/
def deleteIfAll (o : Orchestrator κ) (work : ObjectWork κ) : Orchestrator κ :=
  { o with
    deleted := o.deleted ++ work.messageTracker.toList.filter fun m =>
      o.trackers[m]?.any fun t => t.successes == t.total }

/-- The completion of a task, if there is a channel for it. -/
def report (o : Orchestrator κ) (h : Handler κ) : Orchestrator κ :=
  { o with
    completions := if o.reports then
        o.completions ++ [⟨h.work.key, h.fetched == some true⟩]
      else o.completions }

/-- The end of a handler: a task still has its key to release. -/
def lastStage (h : Handler κ) : Stage := if h.isSkip then .finished else .releasing

/-- The next step of a handler. -/
def advance (o : Orchestrator κ) (i : Nat) (h : Handler κ) : Option (Orchestrator κ) :=
  match h.stage with
  | .fetching => none
  | .marking =>
    some ((o.markSuccess h.work).setHandler i
      { h with stage := if h.isSkip then .settling else .reporting })
  | .reporting => some ((o.report h).setHandler i { h with stage := .settling })
  | .settling =>
    some ((o.takeOff h.work).setHandler i
      { h with stage := if o.isLast h.work then .checking else lastStage h })
  | .checking => some ((o.deleteIfAll h.work).setHandler i { h with stage := lastStage h })
  | .releasing =>
    some ({ o with fetchingKeys := o.fetchingKeys.erase h.work.key }.setHandler i
      { h with stage := .finished })
  | .finished => none

def step : OrchestratorStep → Orchestrator κ → Option (Orchestrator κ)
  | .receive, o => o.receive
  | .fetched i success, o =>
    match o.handlers[i]? with
    | none => none
    | some h =>
      if h.stage = .fetching then
        some (o.setHandler i
          { h with
            fetched := some success
            stage := if success then .marking else .reporting })
      else none
  | .advance i, o =>
    match o.handlers[i]? with
    | none => none
    | some h => o.advance i h

/-- No work waits and no task is running. -/
def IsIdle (o : Orchestrator κ) : Prop :=
  o.queue = [] ∧ ∀ h ∈ o.handlers, h.stage = .finished

/-- The next work item is no duplicate. -/
def TakesNew (o : Orchestrator κ) : OrchestratorStep → Prop
  | .receive => ∀ work ∈ o.queue.head?, work.key ∉ o.fetchingKeys
  | _ => True

instance (o : Orchestrator κ) (a : OrchestratorStep) : Decidable (o.TakesNew a) :=
  match a with
  | .receive => inferInstanceAs (Decidable (∀ work ∈ o.queue.head?, work.key ∉ o.fetchingKeys))
  | .fetched _ _ | .advance _ => .isTrue True.intro

end Orchestrator

-- == list mode

/-- Discovery and orchestrator in list mode, with the number of
completions the discovery has received. -/
structure ListSystem (κ : Type u) where
  disc : Discovery κ
  orch : Orchestrator κ
  taken : Nat

/-- A step of one of the two tasks, or of a fetch task. -/
inductive ListStep (κ : Type u)
  | discovery (m : Move κ)
  | orchestrator (step : OrchestratorStep)
  deriving DecidableEq, Repr

namespace ListSystem

def new (startAfterInit : Option κ) : ListSystem κ where
  disc := .new startAfterInit
  orch := .new true
  taken := 0

def channel (s : ListSystem κ) : List (KeyCompletion κ) := s.orch.completions.drop s.taken

/-- The work item a move hands over. -/
def handOver (s : ListSystem κ) : Move κ → Orchestrator κ
  | .send =>
    match s.disc.phase with
    | .sending key _ _ => { s.orch with queue := s.orch.queue ++ [⟨key, none⟩] }
    | _ => s.orch
  | _ => s.orch

/-- A completion is received from the front of the channel. -/
def IsNext (s : ListSystem κ) : Move κ → Prop
  | .complete kc => s.channel.head? = some kc
  | _ => True

instance (s : ListSystem κ) (m : Move κ) : Decidable (s.IsNext m) :=
  match m with
  | .complete kc => inferInstanceAs (Decidable (s.channel.head? = some kc))
  | .list _ | .listFailed | .object | .send | .finishPage _ => .isTrue True.intro

def takenAfter (s : ListSystem κ) : Move κ → Nat
  | .complete _ => s.taken + 1
  | _ => s.taken

def apply : ListStep κ → ListSystem κ → Option (ListSystem κ)
  | .discovery m, s =>
    if s.IsNext m then
      (s.disc.apply m).map fun d => { disc := d, orch := s.handOver m, taken := s.takenAfter m }
    else none
  | .orchestrator step, s => (s.orch.step step).map fun o => { s with orch := o }

/-- Work items received for a key. -/
def received (s : ListSystem κ) (key : κ) : Nat :=
  s.orch.handlers.countP (·.work.key = key)

/-- Completions sent for a key. -/
def answered (s : ListSystem κ) (key : κ) : Nat :=
  s.orch.completions.countP (·.key = key)

/-- No duplicate is received. -/
def TakesNew (s : ListSystem κ) : ListStep κ → Prop
  | .discovery _ => True
  | .orchestrator step => s.orch.TakesNew step

instance (s : ListSystem κ) (a : ListStep κ) : Decidable (s.TakesNew a) :=
  match a with
  | .discovery _ => .isTrue True.intro
  | .orchestrator step => inferInstanceAs (Decidable (s.orch.TakesNew step))

end ListSystem

-- == SQS mode

/-- The orchestrator fed by `run_sqs_discovery`, with the keys that each
message names. -/
structure SqsSystem (κ : Type u) where
  orch : Orchestrator κ
  messages : List (List κ)

inductive SqsStep (κ : Type u)
  /-- A message is received, with the keys of its records. -/
  | message (keys : List κ)
  | orchestrator (step : OrchestratorStep)
  deriving DecidableEq, Repr

namespace SqsSystem

def new : SqsSystem κ := { orch := .new false, messages := [] }

/-- A message gets a tracker and its records become work items; as the
channel is a queue, they may as well be handed over together. A message
without records is deleted on the spot and never reaches the
orchestrator. -/
def message (s : SqsSystem κ) (keys : List κ) : SqsSystem κ :=
  if keys = [] then s
  else
    { orch := { s.orch with
        queue := s.orch.queue ++ keys.map fun key => ⟨key, some s.orch.trackers.length⟩
        trackers := s.orch.trackers
          ++ [{ total := keys.length, remaining := keys.length, successes := 0 }] }
      messages := s.messages ++ [keys] }

def apply : SqsStep κ → SqsSystem κ → Option (SqsSystem κ)
  | .message keys, s => some (s.message keys)
  | .orchestrator step, s => (s.orch.step step).map fun o => { s with orch := o }

/-- A duplicate is received only when the fetch it is a duplicate of has
succeeded already. -/
def SkipsFetched (s : SqsSystem κ) : SqsStep κ → Prop
  | .orchestrator .receive => ∀ work ∈ s.orch.queue.head?, work.key ∈ s.orch.fetchingKeys →
      (s.orch.handlers[s.orch.running work.key]?).bind (·.fetched) = some true
  | _ => True

instance (s : SqsSystem κ) (a : SqsStep κ) : Decidable (s.SkipsFetched a) :=
  match a with
  | .orchestrator .receive => inferInstanceAs (Decidable (∀ work ∈ s.orch.queue.head?,
      work.key ∈ s.orch.fetchingKeys →
        (s.orch.handlers[s.orch.running work.key]?).bind (·.fetched) = some true))
  | .message _ | .orchestrator (.fetched _ _) | .orchestrator (.advance _) => .isTrue True.intro

end SqsSystem

end FastForward.Io.S3
