/-
The seam between delivery and checkpoints: a processed batch gets one
ticket per source, is submitted to the output pool, and its tickets are
resolved by the outcome that comes back (`pipeline/submit.rs`, `run.rs`,
`checkpoint_policy.rs`).

The pipeline's own state is the machine (taken out when the pipeline
stops), the tickets held by transient failures, and the checkpoint
store, represented by the `update` calls made to it. The processor chain
and the record batch type are parameters: only how the stage's result
disposes of the tickets matters here. Metrics, spans and timings are
left out.
-/
import FastForward.Pipeline.Lifecycle

namespace FastForward.Runtime

open Lib Pipeline PipelineMachine.Running

-- == policy

inductive DeliveryOutcome
  | delivered
  | rejected (reason : String)
  | retryExhausted
  | timedOut
  | poolClosed
  | workerChannelClosed
  | noWorkersAvailable
  | internalFailure
  deriving DecidableEq, Repr

/-- How tickets are finalized for an outcome. -/
inductive TicketDisposition
  | ack
  | reject
  | hold
  deriving DecidableEq, Repr

/-- Delivery acks, permanent rejection rejects, everything else holds. -/
def defaultTicketDisposition : DeliveryOutcome → TicketDisposition
  | .delivered => .ack
  | .rejected _ => .reject
  | .retryExhausted => .hold
  | .timedOut => .hold
  | .poolClosed => .hold
  | .workerChannelClosed => .hold
  | .noWorkersAvailable => .hold
  | .internalFailure => .hold

inductive ProcessorStageResult (R : Type)
  | forward (batch : R) (outputRows : Nat)
  | hold (reason : String)
  | permanentError (reason : String)
  | zeroRow (reason : String)
  | fatal (reason : String)
  | reject (reason : String)

-- == the pipeline

/-- One `update` call to the checkpoint store. -/
structure SourceCheckpoint where
  sourceId : SourceId
  offset : Nat
  deriving DecidableEq, Repr

/-- What the pipeline keeps at the seam. -/
structure PipelineState where
  machine : Option (PipelineMachine .running Nat)
  heldTickets : List (BatchTicket .queued Nat)
  /-- The update calls made, when a store is configured. -/
  checkpointStore : Option (List SourceCheckpoint)

/-- A batch that was scanned and transformed. -/
structure ProcessedBatch (R : Type) where
  batch : R
  checkpoints : BTreeMap SourceId Nat
  inputIndex : Nat

/-- A batch submitted to the output pool, with its tickets. -/
structure WorkItem (R : Type) where
  batch : R
  numRows : Nat
  tickets : List (BatchTicket .sending Nat)

/-- The receipt a disposition makes of a ticket; none when it is held. -/
def receiptFor (disposition : TicketDisposition) (ticket : BatchTicket .sending Nat) :
    Option (AckReceipt Nat) :=
  match disposition with
  | .ack => some ticket.ack
  | .reject => some ticket.reject
  | .hold => none

/-- The offset an advance persists, if it persists one. -/
def advancedTo (advance : CheckpointAdvance Nat) : Option SourceCheckpoint :=
  if advance.advanced then
    advance.checkpoint.map fun offset => ⟨advance.source, offset⟩
  else none

/-- One ticket of `ack_all_tickets`, with the checkpoint it persists. -/
def ackTicket (disposition : TicketDisposition) (p : PipelineState)
    (ticket : BatchTicket .sending Nat) : PipelineState × Option SourceCheckpoint :=
  match p.machine with
  | none => (p, none)
  | some machine =>
    match receiptFor disposition ticket with
    | some receipt =>
      let r := applyAck machine receipt
      let update := advancedTo r.2
      ({ p with
          machine := some r.1
          checkpointStore := p.checkpointStore.map (· ++ update.toList) },
        update)
    | none =>
      -- the machine keeps the batch in flight, so nothing passes it
      ({ p with heldTickets := p.heldTickets ++ [ticket.fail] }, none)

/-- The loop over the tickets, with the checkpoints it persists. -/
def ackTickets (disposition : TicketDisposition) :
    PipelineState → List (BatchTicket .sending Nat) →
      PipelineState × List SourceCheckpoint
  | p, [] => (p, [])
  | p, ticket :: rest =>
    let r := ackTicket disposition p ticket
    let others := ackTickets disposition r.1 rest
    (others.1, r.2.toList ++ others.2)

/-- Finalize tickets; were any held? -/
def ackAllTickets (p : PipelineState) (tickets : List (BatchTicket .sending Nat))
    (disposition : TicketDisposition) : PipelineState × Bool :=
  ((ackTickets disposition p tickets).1,
    p.machine.isSome && disposition == .hold && !tickets.isEmpty)

/-- Apply a pool ack: its tickets by the policy for its outcome. -/
def applyPoolAck (p : PipelineState) (tickets : List (BatchTicket .sending Nat))
    (outcome : DeliveryOutcome) : PipelineState × Bool :=
  ackAllTickets p tickets (defaultTicketDisposition outcome)

/-- One ticket for each source and offset, created and sent at once. -/
def createTickets (m : PipelineMachine .running Nat) :
    List (SourceId × Nat) →
      PipelineMachine .running Nat × List (BatchTicket .sending Nat)
  | [] => (m, [])
  | (sid, offset) :: rest =>
    let queued := createBatch m sid offset
    let sending := beginSend queued.1 queued.2
    let others := createTickets sending.1 rest
    (others.1, sending.2 :: others.2)

/-- The tickets of a batch whose checkpoint map iterates as `entries`. -/
def openTickets (p : PipelineState) (entries : List (SourceId × Nat)) :
    PipelineState × List (BatchTicket .sending Nat) :=
  match p.machine with
  | some machine =>
    let r := createTickets machine entries
    ({ p with machine := some r.1 }, r.2)
  | none => (p, [])

/-- What a submission leaves: the pipeline, the item for the pool if the
batch got that far, and whether to stop. -/
structure Submitted (R : Type) where
  state : PipelineState
  item : Option (WorkItem R)
  stop : Bool

/-- Submit a processed batch. `failpoint` is the internal fault that
holds and shuts down right before the pool. -/
def submitBatch {R : Type} (numRows : R → Nat)
    (runProcessorStage : R → ProcessorStageResult R) (failpoint : Bool)
    (p : PipelineState) (entries : List (SourceId × Nat)) (batch : R) :
    Submitted R :=
  let opened := openTickets p entries
  let resolve := ackAllTickets opened.1 opened.2
  if numRows batch == 0 then ⟨(resolve .ack).1, none, false⟩
  else
    match runProcessorStage batch with
    | .hold _ => ⟨(resolve .hold).1, none, (resolve .hold).2⟩
    | .permanentError _ => ⟨(resolve .reject).1, none, false⟩
    | .zeroRow _ => ⟨(resolve .ack).1, none, false⟩
    | .fatal _ => ⟨(resolve .hold).1, none, true⟩
    | .reject _ => ⟨(resolve .reject).1, none, false⟩
    | .forward result _ =>
      if failpoint then ⟨(resolve .hold).1, none, true⟩
      else ⟨opened.1, some ⟨result, numRows result, opened.2⟩, false⟩

/-- Stop the machine, by force when something is outstanding, and persist
its final checkpoints. -/
def finishPipeline (p : PipelineState) : PipelineState × List SourceCheckpoint :=
  match p.machine with
  | none => (p, [])
  | some machine =>
    let draining := beginDrain machine
    let stopped :=
      match PipelineMachine.Draining.stop draining with
      | .ok stopped => stopped
      | .error stillDraining => PipelineMachine.Draining.forceStop stillDraining
    let updates := stopped.finalCheckpoints.toList.map fun e =>
      (⟨e.1, e.2⟩ : SourceCheckpoint)
    ({ p with
        machine := none
        checkpointStore := p.checkpointStore.map (· ++ updates) },
      updates)

end FastForward.Runtime
