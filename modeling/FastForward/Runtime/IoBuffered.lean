/-
The shared-buffer path of the I/O worker (`process_buffered_events` in
`pipeline/io_worker.rs`), for inputs with a `poll_into`: the framed ones.

`poll_into` appends to the worker's buffer and returns ranges of it. The
worker attributes them and sends at the end of the poll, when the buffer
holds all that was read.
-/
import FastForward.Io.Framed
import FastForward.Runtime.IoRun

namespace FastForward.Runtime

open Lib Pipeline Io List

section Worker

variable {α R : Type} (env : IoEnv α R) (view : SourceView)

/-- From here on a lone event is sent as it is. -/
def largeSingleChunkDirectFlushBytes : Nat := 64 * 1024

/-- One large event, alone in the buffer. -/
def isLargeSingleBufferedDataEvent (bufferWasEmptyAtPoll : Bool) : List FramedReadEvent → Bool
  | [.data start stop _ _] => bufferWasEmptyAtPoll && start == 0
      && decide (largeSingleChunkDirectFlushBytes ≤ stop - start)
  | _ => false

/-- Attribution of an event; a range out of bounds is skipped. -/
def noteBuffered (st : IoState α R) : FramedReadEvent → IoState α R
  | .data start stop sourceId criMetadata =>
    if start ≤ stop ∧ stop ≤ st.buf.length then
      { noteData env view { st with buf := st.buf.take start } ((st.buf.take stop).drop start)
          sourceId criMetadata with buf := st.buf }
    else st
  | .rotated _ => st
  | .truncated _ => st

/-- The buffer already holds what the poll has read. -/
def processBufferedEvents (now : Nat) (bufferWasEmptyAtPoll : Bool) (st : IoState α R)
    (events : List FramedReadEvent) : Bool × IoState α R :=
  let st := events.foldl (noteBuffered env view) st
  if env.safeBatchTargetBytes ≤ st.buf.length
      || isLargeSingleBufferedDataEvent bufferWasEmptyAtPoll events then
    afterFlush (flushBuf env view st)
  else if st.bufferedSince.isNone && !st.buf.isEmpty then
    (true, { st with bufferedSince := some now })
  else (true, st)

end Worker

/-- What the buffered loop does in a step. -/
inductive BufferedOp
  /-- A poll that appends `bytes`. Without events it is processed only in
  the drain at shutdown. -/
  | pollInto (bytes : List SourceByte) (events : List FramedReadEvent) (isShutdown : Bool)
      (active : List SourceId) (paths : List (SourceId × String)) (now : Nat)
  | flush (active : List SourceId) (paths : List (SourceId × String))

/-- A step of the run; a closed channel ends it. -/
def BufferedOp.step (env : IoEnv SourceByte SourceBatch) (base : SourceId → Nat) (r : IoRun) :
    BufferedOp → IoRun
  | pollInto bytes events isShutdown active paths now =>
    if r.closed then r
    else
      let read := r.read ++ bytes
      let st := { r.st with buf := r.st.buf ++ bytes }
      if events.isEmpty && !isShutdown then { r with st, read }
      else
        let res := processBufferedEvents env (viewOf base read active paths) now
          r.st.buf.isEmpty st events
        { st := res.2, read, closed := !res.1 }
  | flush active paths => IoOp.step env base r (.flush active paths)

end FastForward.Runtime
