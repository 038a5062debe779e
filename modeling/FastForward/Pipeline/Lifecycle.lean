/-
The pipeline lifecycle machine (`pipeline/lifecycle.rs`): ordered batch
completion tracking over Starting → Running → Draining → Stopped.

The lifecycle marker is an index, so `createBatch` and `beginSend` exist
for a running machine only, `stop` for a draining one only. The three
maps that acknowledgement touches are bundled as `Tracking`, which
`record_ack_and_advance` takes by mutable reference.
-/
import FastForward.Lib.BTreeMap
import FastForward.Pipeline.Batch
import Mathlib.Tactic.Ring

namespace FastForward.Pipeline

open Lib

universe u

variable {C : Type u}

/-- Pipeline lifecycle typestate markers. -/
inductive Lifecycle
  | starting
  | running
  | draining
  | stopped
  deriving DecidableEq, Repr

/-- The maps an acknowledgement reads and writes. -/
structure Tracking (C : Type u) where
  /-- Per-source committed checkpoint. -/
  committed : BTreeMap SourceId C
  /-- Per-source in-flight batches awaiting ACK. -/
  inFlight : BTreeMap SourceId (BTreeMap BatchId C)
  /-- Per-source ACKs received out of order. -/
  pendingAcks : BTreeMap SourceId (BTreeMap BatchId C)

structure PipelineMachine (S : Lifecycle) (C : Type u) extends Tracking C where
  nextBatchId : Nat
  forced : Bool

/-- Result of applying a receipt. -/
structure CheckpointAdvance (C : Type u) where
  source : SourceId
  advanced : Bool
  checkpoint : Option C
  deriving DecidableEq, Repr

-- == record_ack_and_advance

/-- Is some in-flight batch of the source below `lowest`? -/
def hasLower (flights : Option (BTreeMap BatchId C)) (lowest : BatchId) : Bool :=
  match flights.bind BTreeMap.firstKey with
  | some minId => decide (minId < lowest)
  | none => false

/-- The `while let` loop: consume pending acks in id order until one has
an in-flight batch below it. -/
def consumePending (source : SourceId) (flights : Option (BTreeMap BatchId C))
    (committed : BTreeMap SourceId C) (pending : BTreeMap BatchId C)
    (advanced : Bool) : BTreeMap SourceId C × BTreeMap BatchId C × Bool :=
  match _h : BTreeMap.firstKey pending with
  | none => (committed, pending, advanced)
  | some lowest =>
    if hasLower flights lowest then (committed, pending, advanced)
    else
      match pending[lowest]? with
      | none => (committed, pending, advanced)
      | some cp =>
        consumePending source flights (committed.insert source cp)
          (pending.erase lowest) true
termination_by pending.size
decreasing_by exact BTreeMap.size_erase_lt (BTreeMap.firstKey_eq_some.mp ‹_›).1

/-- A receipt that matches no in-flight batch: spurious or duplicate. -/
def ignoreAck (t : Tracking C) (source : SourceId) :
    Tracking C × CheckpointAdvance C :=
  (t, { source, advanced := false, checkpoint := t.committed[source]? })

/-- Record an ack receipt: remove from in-flight, add to pending, try to
advance, then drop inner maps that became empty. -/
def recordAckAndAdvance (t : Tracking C) (receipt : AckReceipt C) :
    Tracking C × CheckpointAdvance C :=
  let source := receipt.source
  match t.inFlight[source]? with
  | none => ignoreAck t source
  | some sourceFlights =>
    match sourceFlights[receipt.batchId]? with
    | none => ignoreAck t source
    | some trackedCheckpoint =>
      let inFlight :=
        t.inFlight.insert source (sourceFlights.erase receipt.batchId)
      let pendingAcks :=
        BTreeMap.insert₂ t.pendingAcks source receipt.batchId trackedCheckpoint
      match pendingAcks[source]? with
      | none => ignoreAck t source  -- unreachable: just inserted
      | some pending =>
        let r := consumePending source inFlight[source]? t.committed
          pending false
        ({ committed := r.1
           inFlight := BTreeMap.dropEmpty inFlight source
           pendingAcks :=
             BTreeMap.dropEmpty (pendingAcks.insert source r.2.1) source },
          { source, advanced := r.2.2, checkpoint := r.1[source]? })

-- == the machine

namespace PipelineMachine

/-- Move to another lifecycle state, `forced` aside keeping every field. -/
def become {S : Lifecycle} (T : Lifecycle) (m : PipelineMachine S C)
    (forced : Bool) : PipelineMachine T C :=
  { m with forced }

/-- Number of in-flight batches across all sources. -/
def inFlightCount {S : Lifecycle} (m : PipelineMachine S C) : Nat :=
  (m.inFlight.toList.map fun e => e.2.size).sum

def committedCheckpoint {S : Lifecycle} (m : PipelineMachine S C)
    (source : SourceId) : Option C :=
  m.committed[source]?

def new : PipelineMachine .starting C :=
  { committed := ∅, inFlight := ∅, pendingAcks := ∅, nextBatchId := 0,
    forced := false }

/-- All sinks connected, begin processing. -/
def start (m : PipelineMachine .starting C) : PipelineMachine .running C :=
  m.become .running false

namespace Running

/-- Assign the next batch id; the machine does not track the ticket yet. -/
def createBatch (m : PipelineMachine .running C) (source : SourceId)
    (checkpoint : C) : PipelineMachine .running C × BatchTicket .queued C :=
  ({ m with nextBatchId := m.nextBatchId + 1 },
    BatchTicket.new m.nextBatchId source checkpoint)

/-- Register the batch as in flight and hand out the sending ticket. -/
def beginSend (m : PipelineMachine .running C) (ticket : BatchTicket .queued C) :
    PipelineMachine .running C × BatchTicket .sending C :=
  ({ m with
      inFlight := BTreeMap.insert₂ m.inFlight ticket.source ticket.id
        ticket.checkpoint },
    ticket.beginSend)

def applyAck (m : PipelineMachine .running C) (receipt : AckReceipt C) :
    PipelineMachine .running C × CheckpointAdvance C :=
  let r := recordAckAndAdvance m.toTracking receipt
  ({ m with toTracking := r.1 }, r.2)

/-- Request graceful shutdown. -/
def beginDrain (m : PipelineMachine .running C) : PipelineMachine .draining C :=
  m.become .draining false

end Running

namespace Draining

/-- Apply a receipt during drain: the same logic. -/
def applyAck (m : PipelineMachine .draining C) (receipt : AckReceipt C) :
    PipelineMachine .draining C × CheckpointAdvance C :=
  let r := recordAckAndAdvance m.toTracking receipt
  ({ m with toTracking := r.1 }, r.2)

/-- Have all in-flight batches been acked? -/
def isDrained (m : PipelineMachine .draining C) : Bool :=
  (m.inFlight.toList.all fun e => e.2.isEmpty)
    && (m.pendingAcks.toList.all fun e => e.2.isEmpty)

/-- Transition to Stopped, refused while anything is outstanding. -/
def stop (m : PipelineMachine .draining C) :
    Except (PipelineMachine .draining C) (PipelineMachine .stopped C) :=
  if !isDrained m then .error m else .ok (m.become .stopped false)

/-- Emergency shutdown: bypass the drain guard. -/
def forceStop (m : PipelineMachine .draining C) : PipelineMachine .stopped C :=
  m.become .stopped true

end Draining

def finalCheckpoints (m : PipelineMachine .stopped C) : BTreeMap SourceId C :=
  m.committed

def wasForced (m : PipelineMachine .stopped C) : Bool := m.forced

end PipelineMachine

end FastForward.Pipeline
