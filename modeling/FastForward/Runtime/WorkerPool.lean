/-
The output worker pool (`worker_pool/pool/runtime.rs`, `worker.rs`): a
submitted item is offered to the workers in MRU order, then to a fresh
worker, and at the limit the pool waits for the front worker to have
room; every worker owns a sink and a channel.

# Interleaving

The pool's caller and every worker are tasks of their own, so each
`try_send`, each wait and each step of a worker is one transition, and
any of them may come next. `submit` and `drain` borrow the pool mutably,
so one runs at a time, and the place it has reached is the pool's
`PoolTask`.

A worker that has left its loop (idle, shutdown message, panic) awaits
`sink.shutdown()` with its receiver still open, for as long as the sink
takes (`exiting`). The receiver, with whatever it holds, is dropped when
the task ends (`exited`). The items dropped so and the submitted ones
are history, which no transition reads.

# What is left out

The cancellation token fires only at the end of `drain`: the forced
phase is left out, and with it every send that observes the token. So
are health, metrics, spans and worker ids (a worker is known by its
place in the order of spawning).
-/
import FastForward.Lib.Run
import FastForward.Runtime.Delivery

namespace FastForward.Runtime

open Lib Pipeline

variable {R : Type}

-- == messages

/-- Result for one work item: its tickets and what became of it. -/
structure AckItem where
  tickets : List (BatchTicket .sending Nat)
  outcome : DeliveryOutcome
  numRows : Nat
  deriving DecidableEq, Repr

def WorkItem.acked (item : WorkItem R) (outcome : DeliveryOutcome) : AckItem :=
  { tickets := item.tickets, outcome, numRows := item.numRows }

/-- What an ack passes through from its item. -/
abbrev Carried := List (BatchTicket .sending Nat) × Nat

/-- What an item's ack has to carry. -/
def WorkItem.carried (item : WorkItem R) : Carried := (item.tickets, item.numRows)

def AckItem.carried (ack : AckItem) : Carried := (ack.tickets, ack.numRows)

/-- Message sent from pool to worker. -/
inductive WorkerMsg (R : Type)
  | work (item : WorkItem R)
  | shutdown

def WorkerMsg.item? : WorkerMsg R → Option (WorkItem R)
  | .work item => some item
  | .shutdown => none

-- == process_item

/-- What one call of `sink.send_batch` comes to. -/
inductive SendAttempt
  | ok
  | rejected (reason : String)
  | retryAfter
  | ioError
  /-- The per-batch timeout elapsed. -/
  | elapsed
  /-- A result variant the worker does not know. -/
  | unknown
  | panicked
  deriving DecidableEq, Repr

def maxRejectionReasonBytes : Nat := 256

/-- The longest run of leading characters that fits into `n` bytes. -/
def truncate : Nat → List Char → List Char
  | _, [] => []
  | n, c :: cs => if c.utf8Size ≤ n then c :: truncate (n - c.utf8Size) cs else []

/-- Cut a reason down to the limit, on a character boundary. -/
def boundRejectionReason (reason : String) : String :=
  if reason.utf8ByteSize ≤ maxRejectionReasonBytes then reason
  else
    let suffix := "..."
    String.ofList (truncate (maxRejectionReasonBytes - suffix.utf8ByteSize) reason.toList)
      ++ suffix

/-- The outcome an attempt ends the item with; none means the worker
backs off and tries again, without a limit. -/
def processItem : SendAttempt → Option DeliveryOutcome
  | .ok => some .delivered
  | .rejected reason => some (.rejected (boundRejectionReason reason))
  | .retryAfter => none
  | .ioError => none
  | .elapsed => none
  | .unknown => some .internalFailure
  | .panicked => some .internalFailure

-- == workers

/-- A worker task. Its channel has capacity one, so what is queued is at
most one message; an exited worker has no channel. -/
inductive Worker (R : Type)
  /-- In `recv_with_idle_timeout`. -/
  | receiving (queued : Option (WorkerMsg R))
  /-- In `process_item`. -/
  | processing (item : WorkItem R) (queued : Option (WorkerMsg R))
  /-- Past the loop, in `sink.shutdown()`. -/
  | exiting (queued : Option (WorkerMsg R))
  | exited

/-- Why `try_send` gives a message back. -/
inductive TrySendError
  | full
  | closed
  deriving DecidableEq, Repr

/-- `try_send` into a worker's channel. -/
def Worker.trySend (msg : WorkerMsg R) : Worker R → Except TrySendError (Worker R)
  | .receiving none => .ok (.receiving (some msg))
  | .processing item none => .ok (.processing item (some msg))
  | .exiting none => .ok (.exiting (some msg))
  | .receiving (some _) => .error .full
  | .processing _ (some _) => .error .full
  | .exiting (some _) => .error .full
  | .exited => .error .closed

/-- Has the task ended? -/
def Worker.isExited : Worker R → Bool
  | .exited => true
  | _ => false

/-- A worker's own steps. -/
inductive WorkerOp
  /-- `recv` yields the queued message. -/
  | recv
  /-- `recv_with_idle_timeout` yields none: nothing came in time, or the
  channel is closed and empty. -/
  | recvNone
  /-- An attempt to send the item ends. -/
  | attempt (result : SendAttempt)
  /-- `sink.shutdown()` ends, one way or another. -/
  | shutdownDone

/-- What a worker step leaves: the worker, the ack it sends, the message
dropped with its receiver. -/
structure WorkerStep (R : Type) where
  worker : Worker R
  ack : Option AckItem := none
  dropped : Option (WorkerMsg R) := none

/-- The end of an item: ack it, and after a panic recycle the worker. -/
def finishItem (item : WorkItem R) (queued : Option (WorkerMsg R))
    (result : SendAttempt) : WorkerStep R :=
  match processItem result with
  | none => { worker := .processing item queued }
  | some outcome =>
    { worker := if result = .panicked then .exiting queued else .receiving queued
      ack := some (item.acked outcome) }

def workerTask : WorkerOp → Worker R → Option (WorkerStep R)
  | .recv, .receiving (some (.work item)) => some { worker := .processing item none }
  | .recv, .receiving (some .shutdown) => some { worker := .exiting none }
  | .recvNone, .receiving none => some { worker := .exiting none }
  | .attempt result, .processing item queued => some (finishItem item queued result)
  | .shutdownDone, .exiting queued => some { worker := .exited, dropped := queued }
  | _, _ => none

-- == the pool

/-- Where the pool's own task is. Workers are named by their place in the
order of spawning. -/
inductive PoolTask (R : Type)
  /-- In neither `submit` nor `drain`. -/
  | idle
  /-- `submit`, step 1: about to offer the item to handle `i`. -/
  | trying (item : WorkItem R) (i : Nat)
  /-- `submit`, step 2: about to offer it to the worker just spawned. -/
  | spawned (item : WorkItem R) (worker : Nat)
  /-- `submit`, step 3: awaiting room in the channel of the front worker. -/
  | waiting (item : WorkItem R) (worker : Nat)
  /-- `drain`, phase 1: the handles still to be sent a shutdown. -/
  | signalling (handles : List Nat)
  /-- `drain`, phase 2: awaiting the end of every worker. -/
  | joining

/-- The pool, its workers, the acks sent so far and the history. -/
structure OutputWorkerPool (R : Type) where
  maxWorkers : Nat
  /-- Handles in MRU order, front first. -/
  workers : List Nat
  /-- Every worker ever spawned. -/
  joinSet : List (Worker R)
  isDraining : Bool
  cancelled : Bool
  task : PoolTask R
  acks : List AckItem
  submitted : List (WorkItem R)
  lost : List (WorkItem R)

namespace OutputWorkerPool

/-- No workers until the first `submit`. -/
def new (maxWorkers : Nat) : OutputWorkerPool R :=
  { maxWorkers, workers := [], joinSet := [], isDraining := false, cancelled := false
    task := .idle, acks := [], submitted := [], lost := [] }

/-- `VecDeque::swap(0, i)`. -/
def swapFront (handles : List Nat) (i : Nat) : List Nat :=
  match handles[0]?, handles[i]? with
  | some front, some other => (handles.set 0 other).set i front
  | _, _ => handles

/-- The pool's task answers the item itself. -/
def reject (p : OutputWorkerPool R) (item : WorkItem R) (outcome : DeliveryOutcome) :
    OutputWorkerPool R :=
  { p with task := .idle, acks := p.acks ++ [item.acked outcome] }

/-- The message has gone into worker `w`'s channel. -/
def sendTo (p : OutputWorkerPool R) (w : Nat) (worker : Worker R) :
    OutputWorkerPool R :=
  { p with task := .idle, joinSet := p.joinSet.set w worker }

/-- The call of `submit`: rejected at once after a drain. -/
def submit (p : OutputWorkerPool R) (item : WorkItem R) : OutputWorkerPool R :=
  let p := { p with submitted := p.submitted ++ [item] }
  if p.cancelled || p.isDraining then p.reject item .poolClosed
  else { p with task := .trying item 0 }

/-- Entering step 3: wait on the front worker, or reject without one. -/
def awaitFront (p : OutputWorkerPool R) (item : WorkItem R) : OutputWorkerPool R :=
  match p.workers with
  | front :: _ => { p with task := .waiting item front }
  | [] => p.reject item .noWorkersAvailable

/-- Entering step 2: spawn below the limit, unless the factory fails. -/
def spawnOrWait (p : OutputWorkerPool R) (item : WorkItem R) (factoryOk : Bool) :
    OutputWorkerPool R :=
  if p.workers.length < p.maxWorkers ∧ factoryOk = true then
    { p with
      task := .spawned item p.joinSet.length
      joinSet := p.joinSet ++ [.receiving none] }
  else p.awaitFront item

/-- Step 1 at handle `i`: worker `w`. -/
def tryHandle (p : OutputWorkerPool R) (item : WorkItem R) (i w : Nat)
    (worker : Worker R) : OutputWorkerPool R :=
  match worker.trySend (.work item) with
  | .ok worker =>
    { p.sendTo w worker with workers := swapFront p.workers i }
  | .error .full => { p with task := .trying item (i + 1) }
  | .error .closed =>
    -- pruned; the next handle slides into slot `i`
    { p with task := .trying item i, workers := p.workers.eraseIdx i }

/-- Step 2, once a worker is spawned. -/
def trySpawned (p : OutputWorkerPool R) (item : WorkItem R) (w : Nat)
    (worker : Worker R) : OutputWorkerPool R :=
  match worker.trySend (.work item) with
  | .ok worker => { p.sendTo w worker with workers := w :: p.workers }
  | .error .full => { p with workers := w :: p.workers }.awaitFront item
  | .error .closed => p.awaitFront item

/-- Step 3: `send` is pending while the channel is full. -/
def trySendFront (p : OutputWorkerPool R) (item : WorkItem R) (w : Nat)
    (worker : Worker R) : Option (OutputWorkerPool R) :=
  match worker.trySend (.work item) with
  | .ok worker => some (p.sendTo w worker)
  | .error .full => none
  | .error .closed => some (p.reject item .workerChannelClosed)

/-- Phase 1 for one handle: a full or closed channel is left alone. -/
def signal (p : OutputWorkerPool R) (w : Nat) (rest : List Nat) (worker : Worker R) :
    OutputWorkerPool R :=
  match worker.trySend .shutdown with
  | .ok worker => { p with task := .signalling rest, joinSet := p.joinSet.set w worker }
  | .error _ => { p with task := .signalling rest }

/-- The pool's task takes its next step. -/
def step (p : OutputWorkerPool R) (factoryOk : Bool) : Option (OutputWorkerPool R) :=
  match p.task with
  | .idle => none
  | .trying item i =>
    match p.workers[i]? with
    | none => some (p.spawnOrWait item factoryOk)
    | some w => p.joinSet[w]?.map (p.tryHandle item i w)
  | .spawned item w => p.joinSet[w]?.map (p.trySpawned item w)
  | .waiting item w => p.joinSet[w]?.bind (p.trySendFront item w)
  | .signalling [] => some { p with task := .joining }
  | .signalling (w :: rest) => p.joinSet[w]?.map (p.signal w rest)
  | .joining =>
    if p.joinSet.all Worker.isExited then
      some { p with task := .idle, cancelled := true }
    else none

def drain (p : OutputWorkerPool R) : OutputWorkerPool R :=
  { p with isDraining := true, task := .signalling p.workers, workers := [] }

end OutputWorkerPool

-- == a run

/-- Whatever may happen next to a pool. -/
inductive PoolOp (R : Type)
  | submit (item : WorkItem R)
  | drain
  /-- The pool's task; should it spawn, `factoryOk` is the factory's answer. -/
  | step (factoryOk : Bool)
  | worker (w : Nat) (op : WorkerOp)

/-- A worker's step, with its ack and what its receiver drops. -/
def OutputWorkerPool.workerStep (p : OutputWorkerPool R) (w : Nat)
    (r : WorkerStep R) : OutputWorkerPool R :=
  { p with
    joinSet := p.joinSet.set w r.worker
    acks := p.acks ++ r.ack.toList
    lost := p.lost ++ (r.dropped.bind WorkerMsg.item?).toList }

/-- One transition of the pool and its workers. -/
def PoolOp.apply (op : PoolOp R) (p : OutputWorkerPool R) :
    Option (OutputWorkerPool R) :=
  match op with
  | .submit item =>
    match p.task with
    | .idle => some (p.submit item)
    | _ => none
  | .drain =>
    match p.task with
    | .idle => some p.drain
    | _ => none
  | .step factoryOk => p.step factoryOk
  | .worker w op =>
    match p.joinSet[w]? with
    | none => none
    | some task => (workerTask op task).map (p.workerStep w)

def OutputWorkerPool.Drained (p : OutputWorkerPool R) : Prop :=
  p.cancelled = true

/-- Every submitted item has exactly one ack that carries its tickets,
and there are no other acks. -/
def OutputWorkerPool.AckedOnce (p : OutputWorkerPool R) : Prop :=
  (p.acks.map AckItem.carried).Perm (p.submitted.map WorkItem.carried)

/-- No item is left in the channel of a worker that has decided to exit,
and none went with such a channel. -/
def OutputWorkerPool.NoneLeft (p : OutputWorkerPool R) : Prop :=
  p.lost = [] ∧ ∀ item, Worker.exiting (some (.work item)) ∉ p.joinSet

-- == safe steps

/-- The worker to whose channel the pool's next step offers an item. -/
def OutputWorkerPool.target (p : OutputWorkerPool R) : Option (Worker R) :=
  match p.task with
  | .trying _ i => p.workers[i]?.bind fun w => p.joinSet[w]?
  | .spawned _ w => p.joinSet[w]?
  | .waiting _ w => p.joinSet[w]?
  | _ => none

/-- A worker in `sink.shutdown()` with room in its channel. -/
def Worker.isOpenExit : Worker R → Bool
  | .exiting none => true
  | _ => false

/-- A worker busy with one item and with another one queued. -/
def Worker.hasBacklog : Worker R → Bool
  | .processing _ (some (.work _)) => true
  | _ => false

/-- A step that strands nothing: the pool does not come upon a worker in
`sink.shutdown()` with room in its channel, and no sink panics while its
worker has another item queued. -/
def PoolOp.Safe (p : OutputWorkerPool R) : PoolOp R → Prop
  | .step _ => ∀ target ∈ p.target, target.isOpenExit = false
  | .worker w (.attempt .panicked) => ∀ task ∈ p.joinSet[w]?, task.hasBacklog = false
  | _ => True

end FastForward.Runtime
