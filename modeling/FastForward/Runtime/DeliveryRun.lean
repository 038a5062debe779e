/-
Runs of the delivery seam: batches are submitted, worker outcomes come
back in any order, and at some point the pipeline stops.

`sent` and `applied` are history: the batches registered with the
machine and the ids whose receipt was applied. `log` is history too: one
entry for every checkpoint handed to the store, with what the machine
had committed for that source at that moment.
-/
import FastForward.Lib.Run
import FastForward.Pipeline.Ledger
import FastForward.Runtime.Delivery

namespace FastForward.Runtime

open Lib Pipeline

/-- A persisted checkpoint and the machine's commit at that moment. -/
structure Persisted where
  update : SourceCheckpoint
  committed : Option Nat
  deriving DecidableEq, Repr

/-- What the pipeline's machine has committed for a source. -/
def PipelineState.committedCheckpoint (p : PipelineState) (s : SourceId) : Option Nat :=
  p.machine.bind (·.committedCheckpoint s)

/-- The log entries of a resolution, ticket by ticket. -/
def ackLog (disposition : TicketDisposition) :
    PipelineState → List (BatchTicket .sending Nat) → List Persisted
  | _, [] => []
  | p, ticket :: rest =>
    let r := ackTicket disposition p ticket
    (r.2.toList.map fun u => ⟨u, r.1.committedCheckpoint u.sourceId⟩)
      ++ ackLog disposition r.1 rest

/-- The ids a resolution applies receipts for. -/
def resolvedIds (disposition : TicketDisposition) (p : PipelineState)
    (tickets : List (BatchTicket .sending Nat)) : List BatchId :=
  if p.machine.isSome && disposition != .hold then tickets.map (·.id) else []

/-- The pipeline, the items the pool has not answered, and the history. -/
structure DeliveryRun (R : Type) where
  pipeline : PipelineState
  pool : List (WorkItem R)
  sent : List (Batch Nat)
  applied : List BatchId
  log : List Persisted

/-- A new pipeline, with or without a checkpoint store. -/
def DeliveryRun.init {R : Type} (hasStore : Bool) : DeliveryRun R :=
  { pipeline :=
      { machine := some (PipelineMachine.new (C := Nat)).start
        heldTickets := []
        checkpointStore := if hasStore then some [] else none }
    pool := [], sent := [], applied := [], log := [] }

/-- One step of the seam. -/
inductive DeliveryOp (R : Type)
  /-- A processed batch; `entries` is its checkpoint map as it iterates,
  `runProcessorStage` the chain in the state it is in then. -/
  | submit (entries : List (SourceId × Nat)) (batch : R)
      (runProcessorStage : R → ProcessorStageResult R) (failpoint : Bool)
  /-- The answer to the `i`-th unanswered item. -/
  | poolAck (i : Nat) (outcome : DeliveryOutcome)
  | finish

section Step

variable {R : Type} (numRows : R → Nat)

/-- How the early paths of `submit_batch` dispose of the tickets; `none`
when the batch goes to the pool. -/
def earlyDisposition (runProcessorStage : R → ProcessorStageResult R) (batch : R)
    (failpoint : Bool) : Option TicketDisposition :=
  if numRows batch == 0 then some .ack
  else
    match runProcessorStage batch with
    | .hold _ => some .hold
    | .permanentError _ => some .reject
    | .zeroRow _ => some .ack
    | .fatal _ => some .hold
    | .reject _ => some .reject
    | .forward _ _ => if failpoint then some .hold else none

def DeliveryOp.apply (op : DeliveryOp R) (r : DeliveryRun R) :
    Option (DeliveryRun R) :=
  match op with
  | .submit entries batch runProcessorStage failpoint =>
    let opened := openTickets r.pipeline entries
    let submitted := submitBatch numRows runProcessorStage failpoint r.pipeline
      entries batch
    let sent := r.sent ++ opened.2.map BatchTicket.batch
    match earlyDisposition numRows runProcessorStage batch failpoint with
    | none =>
      some { r with
        pipeline := submitted.state
        pool := r.pool ++ submitted.item.toList
        sent }
    | some disposition =>
      some { r with
        pipeline := submitted.state
        sent
        applied := r.applied ++ resolvedIds disposition opened.1 opened.2
        log := r.log ++ ackLog disposition opened.1 opened.2 }
  | .poolAck i outcome =>
    match r.pool[i]? with
    | some item =>
      let disposition := defaultTicketDisposition outcome
      some { r with
        pipeline := (applyPoolAck r.pipeline item.tickets outcome).1
        pool := r.pool.eraseIdx i
        applied := r.applied ++ resolvedIds disposition r.pipeline item.tickets
        log := r.log ++ ackLog disposition r.pipeline item.tickets }
    | none => none
  | .finish =>
    let finished := finishPipeline r.pipeline
    some { r with
      pipeline := finished.1
      log := r.log ++ finished.2.map fun u =>
        ⟨u, r.pipeline.committedCheckpoint u.sourceId⟩ }

end Step

end FastForward.Runtime
