/-
Whole runs of the lifecycle machine: the operations its users perform,
in any interleaving, over any number of sources.

`submit` is the pipeline's own use (`pipeline/submit.rs`):
`create_batch` immediately followed by `begin_send`. `dropQueued`
creates a ticket and drops it unsent, which leaves a gap in the ids. A
failed ticket goes back to queued and may be sent again under its old
id. A receipt may be applied any number of times. `beginDrain` moves to
Draining, where batches can no longer be created or sent but receipts
still arrive.

`sent` and `applied` are history: every batch registered by `begin_send`
and the batch id of every receipt applied.
-/
import FastForward.Lib.Run
import FastForward.Pipeline.Ledger

namespace FastForward.Pipeline

open Lib PipelineMachine.Running

universe u

variable {C : Type u}

/-- A machine that can still be acknowledged. -/
inductive Live (C : Type u)
  | running (m : PipelineMachine .running C)
  | draining (m : PipelineMachine .draining C)

namespace Live

/-- The maps, whichever state the machine is in. -/
def tracking : Live C → Tracking C
  | running m => m.toTracking
  | draining m => m.toTracking

/-- The id counter, whichever state the machine is in. -/
def nextBatchId : Live C → Nat
  | running m => m.nextBatchId
  | draining m => m.nextBatchId

/-- `apply_ack` of the state the machine is in. -/
def applyAck (r : AckReceipt C) : Live C → Live C × CheckpointAdvance C
  | running m =>
    let a := PipelineMachine.Running.applyAck m r
    (running a.1, a.2)
  | draining m =>
    let a := PipelineMachine.Draining.applyAck m r
    (draining a.1, a.2)

/-- `committed_checkpoint` of the state the machine is in. -/
def committedCheckpoint (s : SourceId) : Live C → Option C
  | running m => m.committedCheckpoint s
  | draining m => m.committedCheckpoint s

/-- Both states share `record_ack_and_advance`. -/
theorem applyAck_tracking (r : AckReceipt C) (m : Live C) :
    (m.applyAck r).1.tracking = (recordAckAndAdvance m.tracking r).1 := by
  cases m with
  | running m | draining m => rfl

theorem applyAck_nextBatchId (r : AckReceipt C) (m : Live C) :
    (m.applyAck r).1.nextBatchId = m.nextBatchId := by
  cases m with
  | running m | draining m => rfl

theorem committedCheckpoint_eq (s : SourceId) (m : Live C) :
    m.committedCheckpoint s = m.tracking.committed[s]? := by
  cases m with
  | running m | draining m => rfl

end Live

/-- A machine, the tickets and receipts its users hold, and the history. -/
structure RunState (C : Type u) where
  machine : Live C
  sending : List (BatchTicket .sending C)
  requeued : List (BatchTicket .queued C)
  receipts : List (AckReceipt C)
  sent : List (Batch C)
  applied : List BatchId

/-- What a user of the machine can do. Tickets and receipts are named by
their position. -/
inductive Op (C : Type u)
  | submit (source : SourceId) (checkpoint : C)
  | dropQueued (source : SourceId) (checkpoint : C)
  | fail (i : Nat)
  | resend (i : Nat)
  | ack (i : Nat)
  | reject (i : Nat)
  | applyReceipt (i : Nat)
  | beginDrain

namespace RunState

/-- A started machine that has seen nothing. -/
def init : RunState C :=
  { machine := .running (PipelineMachine.new (C := C)).start
    sending := [], requeued := [], receipts := [], sent := [], applied := [] }

/-- The ledger the history amounts to. -/
def ledger (s : RunState C) : Ledger C :=
  ⟨{b | b ∈ s.sent}, {k | k ∈ s.applied}⟩

/-- Committed checkpoint of a source. -/
def committedCheckpoint (s : RunState C) (source : SourceId) : Option C :=
  s.machine.committedCheckpoint source

/-- A batch has had a receipt applied. -/
def Acked (s : RunState C) (b : Batch C) : Prop := b.id ∈ s.applied

/-- `b` was sent for `source`, and so far every batch of `source` sent
with an id up to `b`'s has had a receipt applied. -/
def Committable (s : RunState C) (source : SourceId) (b : Batch C) : Prop :=
  b ∈ s.sent ∧ b.source = source
    ∧ ∀ b' ∈ s.sent, b'.source = source → b'.id ≤ b.id → s.Acked b'

end RunState

/-- Hand a sending ticket's receipt out. -/
def takeReceipt (s : RunState C) (i : Nat)
    (f : BatchTicket .sending C → AckReceipt C) : Option (RunState C) :=
  match s.sending[i]? with
  | some t =>
    some { s with
      sending := s.sending.eraseIdx i
      receipts := s.receipts ++ [f t] }
  | none => none

/-- One operation; `none` where the types of the source rule it out. -/
def Op.apply (op : Op C) (s : RunState C) : Option (RunState C) :=
  match op with
  | .submit source checkpoint =>
    match s.machine with
    | .running m =>
      let queued := createBatch m source checkpoint
      let sending := beginSend queued.1 queued.2
      some { s with
        machine := .running sending.1
        sending := s.sending ++ [sending.2]
        sent := s.sent ++ [sending.2.batch] }
    | .draining _ => none
  | .dropQueued source checkpoint =>
    match s.machine with
    | .running m =>
      some { s with
        machine := .running
          (createBatch m source checkpoint).1 }
    | .draining _ => none
  | .fail i =>
    match s.sending[i]? with
    | some t =>
      some { s with
        sending := s.sending.eraseIdx i
        requeued := s.requeued ++ [t.fail] }
    | none => none
  | .resend i =>
    match s.machine, s.requeued[i]? with
    | .running m, some t =>
      let sending := beginSend m t
      some { s with
        machine := .running sending.1
        requeued := s.requeued.eraseIdx i
        sending := s.sending ++ [sending.2]
        sent := s.sent ++ [sending.2.batch] }
    | _, _ => none
  | .ack i => takeReceipt s i BatchTicket.ack
  | .reject i => takeReceipt s i BatchTicket.reject
  | .applyReceipt i =>
    match s.receipts[i]? with
    | some r =>
      some { s with
        machine := (s.machine.applyAck r).1
        applied := s.applied ++ [r.batchId] }
    | none => none
  | .beginDrain =>
    match s.machine with
    | .running m =>
      some { s with machine := .draining (PipelineMachine.Running.beginDrain m) }
    | .draining _ => none

end FastForward.Pipeline
