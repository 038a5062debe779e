/-
Sinks (`sink.rs`): what sending a batch comes to, and the sink that
sends every batch to several others.

What a child sink answers is a parameter. The fanout awaits one child
after the other, and a call may be abandoned at any of these awaits (the
worker's timeout, or its cancellation): the child that is awaited then
has no answer, and the loop goes no further.
-/
import FastForward.Lib.Run

namespace FastForward.Output

/-- Kinds of `std::io::Error`, as far as the sinks create or tell them
apart. -/
inductive IoErrorKind
  | invalidInput
  | invalidData
  | brokenPipe
  | notConnected
  | other
  deriving DecidableEq, Repr

structure IoError where
  kind : IoErrorKind
  message : String
  deriving DecidableEq, Repr

/-- A duration, in nanoseconds. -/
abbrev Duration := Nat

/-- The outcome of a `send_batch` call. -/
inductive SendResult
  | ok
  | ioError (error : IoError)
  | retryAfter (delay : Duration)
  | rejected (reason : String)
  deriving DecidableEq, Repr

namespace SendResult

/-- Errors of the payload are permanent, all others transient. -/
def fromIoError (error : IoError) : SendResult :=
  match error.kind with
  | .invalidInput | .invalidData => .rejected error.message
  | _ => .ioError error

def isRejected : SendResult → Bool
  | .rejected _ => true
  | _ => false

end SendResult

-- == fanout

/-- Progress of one batch through one child sink. -/
inductive ChildState
  | pending
  | ok
  | rejected (reason : String)
  deriving DecidableEq, Repr

/-- What a call has gathered of the children that stay pending. -/
structure Unsettled where
  anyPending : Bool := false
  lastIoError : Option IoError := none
  maxRetry : Option Duration := none
  deriving DecidableEq, Repr

def mergeChildSendResult (result : SendResult) (u : Unsettled) : Option ChildState × Unsettled :=
  match result with
  | .ok => (some .ok, u)
  | .rejected reason => (some (.rejected reason), u)
  | .retryAfter d =>
    let maxRetry :=
      if u.maxRetry.all fun prev => decide (prev < d) then some d else u.maxRetry
    (none, { u with anyPending := true, maxRetry })
  | .ioError e => (none, { u with anyPending := true, lastIoError := some e })

def finalizeFanoutOutcome (states : List ChildState) (u : Unsettled) : SendResult :=
  if u.anyPending then
    match u.maxRetry with
    | some d => .retryAfter d
    | none =>
      .ioError (u.lastIoError.getD ⟨.other, "fanout: pending children with no error (bug)"⟩)
  else
    let firstRejection := states.findSome? fun
      | .rejected reason => some reason
      | _ => none
    match firstRejection with
    | some reason => .rejected reason
    | none => .ok

/-- The children are known by their place. -/
structure AsyncFanoutSink where
  states : List ChildState
  deriving DecidableEq, Repr

/-- A child that was sent the batch, and its answer unless the call was
abandoned before it came. -/
abbrev Attempt := Nat × Option SendResult

namespace AsyncFanoutSink

def new (numSinks : Nat) : AsyncFanoutSink := { states := List.replicate numSinks .pending }

def beginBatch (s : AsyncFanoutSink) : AsyncFanoutSink :=
  { states := s.states.map fun _ => .pending }

/-- The loop of `send_batch` from child `i` on: the states of these
children after it, the attempts, and what was gathered if the loop was not
abandoned. -/
def sendLoop (answers : Nat → Option SendResult) :
    Nat → List ChildState → Unsettled → List ChildState × List Attempt × Option Unsettled
  | _, [], u => ([], [], some u)
  | i, state :: states, u =>
    if state ≠ .pending then
      let (states, attempts, u) := sendLoop answers (i + 1) states u
      (state :: states, attempts, u)
    else
      match answers i with
      | none => (state :: states, [(i, none)], none)
      | some result =>
        let (nextState, u) := mergeChildSendResult result u
        let (states, attempts, u) := sendLoop answers (i + 1) states u
        (nextState.getD state :: states, (i, some result) :: attempts, u)

/-- An abandoned call has no result. -/
def sendBatch (answers : Nat → Option SendResult) (s : AsyncFanoutSink) :
    AsyncFanoutSink × List Attempt × Option SendResult :=
  let (states, attempts, u) := sendLoop answers 0 s.states {}
  ({ states }, attempts, u.map (finalizeFanoutOutcome states))

end AsyncFanoutSink

/-- A fanout sink with what was attempted for the current batch. -/
structure FanoutRun where
  sink : AsyncFanoutSink
  attempts : List Attempt
  deriving DecidableEq, Repr

inductive FanoutOp
  | beginBatch
  | sendBatch (answers : Nat → Option SendResult)

namespace FanoutRun

def start (numSinks : Nat) : FanoutRun := { sink := .new numSinks, attempts := [] }

def step (op : FanoutOp) (s : FanoutRun) : Option FanoutRun :=
  some <| match op with
    | .beginBatch => { sink := s.sink.beginBatch, attempts := [] }
    | .sendBatch answers =>
      let (sink, attempts, _) := s.sink.sendBatch answers
      { sink, attempts := s.attempts ++ attempts }

end FanoutRun

end FastForward.Output
