/-
Runs of the I/O worker over an input that knows its offsets.

The worker is instantiated with bytes that remember which source they
were read from and at which offset. The input's `checkpoint_data`
reports, for every active source, the offset read so far: the worker
takes that snapshot when it sends, and by then the input has already
read every event of the poll being processed.

A run is any interleaving of polls and of the loop's own flushes (batch
timeout, finished input, the drain on shutdown); it is over once a send
fails.
-/
import FastForward.Runtime.IoWorker

namespace FastForward.Runtime

open Lib Pipeline Io

/-- A byte, the source it was read from and its offset there. -/
structure SourceByte where
  source : Option SourceId
  offset : Nat
  byte : UInt8
  deriving DecidableEq, Repr

/-- A structured batch and the source bytes its rows stand for. -/
structure SourceBatch where
  numRows : Nat
  contents : List SourceByte
  deriving DecidableEq, Repr

abbrev Event := SourceEvent SourceByte SourceBatch

abbrev Item := IoWorkItem SourceByte SourceBatch

def eventBytes : Event → List SourceByte
  | .data bytes _ _ _ => bytes
  | .batch batch _ _ => batch.contents
  | .rotated _ => []
  | .truncated _ => []
  | .endOfFile _ => []

/-- The payload of a list of events, in order. -/
def eventsBytes (events : List Event) : List SourceByte :=
  events.flatMap eventBytes

/-- The payload of an item sent to the CPU worker. -/
def itemBytes : Item → List SourceByte
  | .rawBatch chunk => chunk.bytes
  | .batch batch _ _ _ _ => batch.contents

/-- The payload of a list of items, in order. -/
def itemsBytes (items : List Item) : List SourceByte :=
  items.flatMap itemBytes

-- == offsets

def bytesOf (s : SourceId) (bytes : List SourceByte) : List SourceByte :=
  bytes.filter fun b => b.source == some s

/-- End offset of the last byte of a source among some bytes; the offset
the input started from where there is none. -/
def endOffset (base : SourceId → Nat) (s : SourceId) (bytes : List SourceByte) : Nat :=
  (bytesOf s bytes).foldl (fun m b => max m (b.offset + 1)) (base s)

/-- The offset read so far: one past the last byte read. -/
def readOffset (base : SourceId → Nat) (s : SourceId) (read : List SourceByte) : Nat :=
  base s + (bytesOf s read).length

/-- An input reads each source consecutively from where it started. -/
def Consecutive (base : SourceId → Nat) (read : List SourceByte) : Prop :=
  ∀ s, (bytesOf s read).map (·.offset)
    = List.range' (base s) (bytesOf s read).length

/-- Every item's checkpoints stay within what it and the items before it
contain. -/
def Covered (base : SourceId → Nat) (items : List Item) : Prop :=
  ∀ pre item, pre ++ [item] <+: items → ∀ p ∈ item.checkpoints,
    p.2 ≤ endOffset base p.1 (itemsBytes (pre ++ [item]))

-- == runs

/-- One thing the worker loop does. -/
inductive IoOp
  | poll (events : List Event) (active : List SourceId)
      (paths : List (SourceId × String)) (now : Nat)
  | flush (active : List SourceId) (paths : List (SourceId × String))

/-- What an operation reads from the input. -/
def IoOp.bytes : IoOp → List SourceByte
  | poll events _ _ _ => eventsBytes events
  | flush _ _ => []

/-- A poll's sources are active when it returns. -/
def IoOp.Active : IoOp → Prop
  | poll events active _ _ => ∀ b ∈ eventsBytes events, ∀ s,
      b.source = some s → s ∈ active
  | flush _ _ => True

/-- The worker, everything its input has read, and whether the loop was
left because a send failed. -/
structure IoRun where
  st : IoState SourceByte SourceBatch
  read : List SourceByte
  closed : Bool

/-- A worker that starts with a channel of the given room. -/
def IoRun.init (room : Option Nat) : IoRun :=
  { st :=
      { buf := [], rowOrigins := [], sourcePaths := ∅, criMetadata := .empty
        pendingRowOrigin := none, bufferedSince := none
        tx := { sent := [], room } }
    read := []
    closed := false }

/-- The input as the worker sees it: `checkpoint_data` reports the offset
read so far of every active source. -/
def viewOf (base : SourceId → Nat) (read : List SourceByte)
    (active : List SourceId) (paths : List (SourceId × String)) : SourceView :=
  { checkpointData := active.map fun s => (s, readOffset base s read)
    sourcePaths := paths }

def IoOp.step (env : IoEnv SourceByte SourceBatch) (base : SourceId → Nat)
    (r : IoRun) (op : IoOp) : IoRun :=
  if r.closed then r
  else
    match op with
    | .poll events active paths now =>
      let read := r.read ++ eventsBytes events
      let res := processIngestEvents env (viewOf base read active paths) now
        r.st events
      { st := res.2, read, closed := !res.1 }
    | .flush active paths =>
      let res := afterFlush (flushBuf env (viewOf base r.read active paths) r.st)
      { r with st := res.2, closed := !res.1 }

/-- An input and what the loop does with it. -/
structure PolledInput where
  base : SourceId → Nat
  ops : List IoOp
  consecutive : Consecutive base (ops.flatMap IoOp.bytes)
  active : ∀ op ∈ ops, op.Active

/-- The run of an input through the worker. -/
def PolledInput.run (input : PolledInput) (env : IoEnv SourceByte SourceBatch)
    (room : Option Nat) : IoRun :=
  input.ops.foldl (IoOp.step env input.base) (.init room)

-- == safe polls

/-- No byte here belongs to an identified source. -/
def NoSource (bytes : List SourceByte) : Prop := ∀ b ∈ bytes, b.source = none

/-- A send with `unsent` still to come in the poll: harmless when that
carries no source's bytes; `K` says the rest is safe too. A closed
channel ends the run. -/
def SafeSend (room : Option Nat) (unsent : List SourceByte)
    (K : Option Nat → Prop) : Prop :=
  match room with
  | some 0 => True
  | some (n + 1) => NoSource unsent ∧ K (some n)
  | none => NoSource unsent ∧ K none

/-- Does a data event of `n` bytes make the worker send, with `len`
bytes in the buffer? -/
def DataSends (target len n : Nat) : Prop :=
  (len = 0 ∧ minDirectFlushBytes ≤ n) ∨ (target ≤ len + n ∧ 0 < len + n)

/-- The events of a poll are safe: at every send they cause, the events
of the poll that no chunk holds yet carry no source's bytes. -/
def SafeEvents (target : Nat) : Option Nat → Nat → List Event → Prop
  | _, _, [] => True
  | room, len, .data bytes _ _ _ :: rest =>
    (DataSends target len bytes.length →
      SafeSend room (eventsBytes rest) fun room => SafeEvents target room 0 rest)
    ∧ (¬ DataSends target len bytes.length →
      SafeEvents target room (len + bytes.length) rest)
  | room, len, .batch batch _ _ :: rest =>
    let sendBatch := fun room => SafeSend room (eventsBytes rest) fun room =>
      SafeEvents target room 0 rest
    (len = 0 → sendBatch room)
    ∧ (len ≠ 0 → SafeSend room (batch.contents ++ eventsBytes rest) sendBatch)
  | room, len, .rotated _ :: rest => SafeEvents target room len rest
  | room, len, .truncated _ :: rest => SafeEvents target room len rest
  | room, len, .endOfFile _ :: rest => SafeEvents target room len rest

/-- An operation is safe in the state it starts from. -/
def IoOp.Safe (target : Nat) (r : IoRun) : IoOp → Prop
  | poll events _ _ _ =>
    r.closed = false → SafeEvents target r.st.tx.room r.st.buf.length events
  | flush _ _ => True

/-- Every operation of a run is safe in the state it starts from. -/
def SafeRun (env : IoEnv SourceByte SourceBatch) (base : SourceId → Nat) :
    IoRun → List IoOp → Prop
  | _, [] => True
  | r, op :: ops =>
    op.Safe env.safeBatchTargetBytes r ∧ SafeRun env base (op.step env base r) ops

end FastForward.Runtime
