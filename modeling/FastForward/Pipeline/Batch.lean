/-
Batch tickets and acknowledgement receipts (`pipeline/batch.rs`).

A ticket's typestate marker is an index here, so the transitions keep
the source's types: only a queued ticket can begin sending, only a
sending ticket can be acked, failed or rejected. The checkpoint type `C`
stays opaque.

`SourceId` and `BatchId` are `u64` newtypes in the source. The release
profile builds with overflow checks, so the one counter that grows (the
next batch id) panics rather than wraps, and `Nat` agrees with it on
every run the code completes.
-/

namespace FastForward.Pipeline

universe u

/-- Identifies a data source (file, Kafka topic, etc.). -/
abbrev SourceId := Nat

/-- Unique batch identifier within the pipeline. -/
abbrev BatchId := Nat

/-- Typestate markers of a ticket. -/
inductive TicketState
  | queued
  | sending
  deriving DecidableEq, Repr

/-- A batch ticket in typestate `S`, carrying checkpoint type `C`. -/
structure BatchTicket (S : TicketState) (C : Type u) where
  id : BatchId
  source : SourceId
  checkpoint : C
  attempts : Nat
  deriving DecidableEq, Repr

/-- Proof that a batch was acknowledged; produced by `ack` and
`reject` only. -/
structure AckReceipt (C : Type u) where
  batchId : BatchId
  source : SourceId
  checkpoint : C
  delivered : Bool
  deriving DecidableEq, Repr

variable {C : Type u}

namespace BatchTicket

/-- A fresh queued ticket. -/
def new (id : BatchId) (source : SourceId) (checkpoint : C) :
    BatchTicket .queued C :=
  { id, source, checkpoint, attempts := 0 }

/-- Begin sending: queued to sending, nothing else moves. -/
def beginSend (t : BatchTicket .queued C) : BatchTicket .sending C :=
  { id := t.id, source := t.source, checkpoint := t.checkpoint,
    attempts := t.attempts }

/-- Successful delivery. -/
def ack (t : BatchTicket .sending C) : AckReceipt C :=
  { batchId := t.id, source := t.source, checkpoint := t.checkpoint,
    delivered := true }

/-- Transient failure: back to queued under the same id, one more
attempt. -/
def fail (t : BatchTicket .sending C) : BatchTicket .queued C :=
  { id := t.id, source := t.source, checkpoint := t.checkpoint,
    attempts := t.attempts + 1 }

/-- Permanent rejection: the checkpoint is still committed. -/
def reject (t : BatchTicket .sending C) : AckReceipt C :=
  { batchId := t.id, source := t.source, checkpoint := t.checkpoint,
    delivered := false }

end BatchTicket

end FastForward.Pipeline
