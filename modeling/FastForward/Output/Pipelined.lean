/-
The pipelined sink (`pipelined.rs`, behind `file_sink.rs`): `send_batch`
serializes into a buffer of a fixed pool and hands it to a writer
thread, which writes it, reports a failure on a bounded channel and puts
the buffer back.

# Interleaving

The caller and the writer are threads of their own. Each operation on
one of the three channels is a transition, and so is each return of the
writer's `write`, `flush` and `shutdown`; any that is enabled may come
next. `send_batch` awaits nothing, so the caller is not abandoned in it.

What `serialize` makes of a batch is given with the call, what `write`
returns with its step. Buffers and errors carry the number of their
call: the numbers, the calls and what was passed to `write` are history
that no transition reads.

A panic of the writer thread is left out, and so are the metrics.
-/
import FastForward.Core.Bytes
import FastForward.Output.Sink

namespace FastForward.Output.Pipelined

open Core

-- == messages

inductive Control
  | flush
  | shutdown
  deriving DecidableEq, Repr

/-- Messages to the writer thread. -/
inductive WriterMsg
  | data (call : Nat) (buf : Bytes)
  | control (request : Control)
  deriving DecidableEq, Repr

/-- Sent from the writer thread to signal a write failure. -/
structure WriteError where
  call : Nat
  error : IoError
  deriving DecidableEq, Repr

/-- How a `send_batch` call ended, with what made it end so. -/
inductive Outcome
  | ok
  | writeFailed (reported : WriteError)
  | unserializable (error : IoError)
  | disconnected (error : IoError)
  deriving DecidableEq, Repr

/-- What the call returns. -/
def Outcome.sendResult : Outcome → SendResult
  | .ok => .ok
  | .writeFailed reported => .fromIoError reported.error
  | .unserializable error => .fromIoError error
  | .disconnected error => .fromIoError error

def exitedUnexpectedly : IoError := ⟨.brokenPipe, "writer thread exited unexpectedly"⟩

def alreadyShutDown : IoError := ⟨.notConnected, "sink already shut down"⟩

-- == states

inductive Caller
  | idle
  /-- The batch, as it will be serialized, waits for a buffer. -/
  | acquiring (serialized : Except IoError Bytes)
  /-- A buffer is to be handed to the writer thread. -/
  | sending (buf : Bytes) (outcome : Outcome)
  | requesting (request : Control)
  | awaitingAck (request : Control)
  deriving Repr

/-- Where the writer thread is. -/
inductive Writer
  | receiving
  | writing (call : Nat) (buf : Bytes)
  | reporting (failure : WriteError)
  | recycling
  | controlling (request : Control)
  | exited
  deriving DecidableEq, Repr

/-- A return of `write`: for which call, with what buffer, and the error
if it failed. -/
structure Write where
  call : Nat
  buf : Bytes
  error : Option IoError
  deriving DecidableEq, Repr

structure Pipeline where
  numBuffers : Nat
  caller : Caller
  /-- The caller has not dropped `filled_tx`. -/
  connected : Bool
  filled : List WriterMsg
  emptyBuffers : Nat
  errors : List WriteError
  ack : Bool
  writer : Writer
  calls : List (Except IoError Bytes)
  outcomes : List Outcome
  writes : List Write

inductive Action
  | sendBatch (serialized : Except IoError Bytes)
  | acquireBuffer
  | sendFilled
  | control (request : Control)
  | sendControl
  | receiveAck
  | drop
  | receive
  | write (error : Option IoError)
  | report
  | recycle
  | acknowledge
  | exit

namespace Pipeline

/-- `num_buffers` is checked to be at least 1. -/
def new (numBuffers : Nat) : Option Pipeline :=
  if numBuffers = 0 then none
  else some
    { numBuffers, caller := .idle, connected := true, filled := [], emptyBuffers := numBuffers,
      errors := [], ack := false, writer := .receiving, calls := [], outcomes := [], writes := [] }

-- == caller

/-- The call returns. -/
def finish (s : Pipeline) (outcome : Outcome) : Pipeline :=
  { s with caller := .idle, outcomes := s.outcomes ++ [outcome] }

/-- `check_writer_error`, with which `send_batch` begins. -/
def sendBatch (serialized : Except IoError Bytes) (s : Pipeline) : Pipeline :=
  let s := { s with calls := s.calls ++ [serialized] }
  match s.errors with
  | reported :: errors => { s with errors }.finish (.writeFailed reported)
  | [] => { s with caller := .acquiring serialized }

/-- `acquire_buffer`, which waits for a buffer, and the serialization. -/
def acquireBuffer (serialized : Except IoError Bytes) (s : Pipeline) : Option Pipeline :=
  if s.emptyBuffers = 0 then
    if s.writer = .exited then some (s.finish (.disconnected exitedUnexpectedly)) else none
  else
    let s := { s with emptyBuffers := s.emptyBuffers - 1 }
    some <| match serialized with
      | .ok buf => { s with caller := .sending buf .ok }
      -- the buffer goes back to the pool through the writer thread
      | .error e => { s with caller := .sending [] (.unserializable e) }

/-- A send on the channel to the writer thread, which waits while the
channel is full: what the caller sees of a failure, and the messages. -/
def push (s : Pipeline) (msg : WriterMsg) : Option (Except IoError (List WriterMsg)) :=
  if !s.connected then some (.error alreadyShutDown)
  else if s.writer = .exited then some (.error exitedUnexpectedly)
  else if s.filled.length < s.numBuffers then some (.ok (s.filled ++ [msg]))
  else none

/-- `send_filled`, of whose failure only a serialized batch hears. -/
def sendFilled (buf : Bytes) (outcome : Outcome) (s : Pipeline) : Option Pipeline :=
  (s.push (.data s.outcomes.length buf)).map fun
    | .ok filled => { s with filled }.finish outcome
    | .error e =>
      match outcome with
      | .ok => s.finish (.disconnected e)
      | outcome => s.finish outcome

/-- The first half of `send_control`. -/
def sendControl (request : Control) (s : Pipeline) : Option Pipeline :=
  (s.push (.control request)).map fun
    | .ok filled => { s with filled, caller := .awaitingAck request }
    -- a shutdown drops the sender all the same
    | .error _ => { s with caller := .idle, connected := s.connected && request ≠ .shutdown }

/-- The second half; a shutdown then drops the sender and joins the writer
thread. -/
def receiveAck (request : Control) (s : Pipeline) : Option Pipeline :=
  if s.ack then
    match request with
    | .flush => some { s with ack := false, caller := .idle }
    | .shutdown =>
      if s.writer = .exited then
        some { s with ack := false, caller := .idle, connected := false }
      else none
  else none

-- == writer

/-- The writer thread takes the next message. -/
def receive (s : Pipeline) : Option Pipeline :=
  match s.filled with
  | [] => none
  | .data call buf :: filled => some { s with filled, writer := .writing call buf }
  | .control request :: filled => some { s with filled, writer := .controlling request }

def write (call : Nat) (buf : Bytes) (error : Option IoError) (s : Pipeline) : Pipeline :=
  { s with
    writes := s.writes ++ [{ call, buf, error }]
    writer := match error with
      | some error => .reporting { call, error }
      | none => .recycling }

/-- `error_tx.try_send`: with the channel full the error is dropped. -/
def report (failure : WriteError) (s : Pipeline) : Pipeline :=
  { s with
    errors := if s.errors.length < s.numBuffers then s.errors ++ [failure] else s.errors
    writer := .recycling }

/-- `empty_tx.try_send`. -/
def recycle (s : Pipeline) : Pipeline :=
  { s with
    emptyBuffers := if s.emptyBuffers < s.numBuffers then s.emptyBuffers + 1 else s.emptyBuffers
    writer := .receiving }

def acknowledge (request : Control) (s : Pipeline) : Pipeline :=
  { s with
    ack := true
    writer := match request with
      | .flush => .receiving
      | .shutdown => .exited }

/-- Without a sender the loop ends when the channel is empty. -/
def exit (s : Pipeline) : Option Pipeline :=
  if s.connected = false ∧ s.filled = [] then some { s with writer := .exited } else none

-- == steps

def step (action : Action) (s : Pipeline) : Option Pipeline :=
  match action, s.caller, s.writer with
  | .sendBatch serialized, .idle, _ => some (s.sendBatch serialized)
  | .acquireBuffer, .acquiring serialized, _ => s.acquireBuffer serialized
  | .sendFilled, .sending buf outcome, _ => s.sendFilled buf outcome
  | .control request, .idle, _ => some { s with caller := .requesting request }
  | .sendControl, .requesting request, _ => s.sendControl request
  | .receiveAck, .awaitingAck request, _ => s.receiveAck request
  | .drop, .idle, _ => some { s with connected := false }
  | .receive, _, .receiving => s.receive
  | .write error, _, .writing call buf => some (s.write call buf error)
  | .report, _, .reporting failure => some (s.report failure)
  | .recycle, _, .recycling => some s.recycle
  | .acknowledge, _, .controlling request => some (s.acknowledge request)
  | .exit, _, .receiving => s.exit
  | _, _, _ => none

end Pipeline

-- == delivery

/-- The writer thread has nothing left to do. -/
def Pipeline.Drained (s : Pipeline) : Prop :=
  s.filled = [] ∧ (s.writer = .receiving ∨ s.writer = .exited)

/-- The steps of the writer thread. -/
def Action.ofWriter : Action → Bool
  | .receive | .write _ | .report | .recycle | .acknowledge | .exit => true
  | _ => false

/-- Ok means written: the bytes of a call that returned Ok were written,
and a failed write is the result of its own call and of no other. -/
structure DeliveredMeansWritten (s : Pipeline) : Prop where
  ok_written : ∀ i, s.outcomes[i]? = some .ok →
    ∃ buf, s.calls[i]? = some (.ok buf) ∧ { call := i, buf, error := none } ∈ s.writes
  failure_reported : ∀ w ∈ s.writes, ∀ error, w.error = some error →
    s.outcomes[w.call]? = some (.writeFailed { call := w.call, error })
  reported_own : ∀ i (failure : WriteError), s.outcomes[i]? = some (.writeFailed failure) →
    failure.call = i

end FastForward.Output.Pipelined
