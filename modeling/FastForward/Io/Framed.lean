/-
Framing of raw input events (`framed.rs`): newline framing and format
processing, with remainder, decoder, checkpoint tracker and overflow
flag kept for each source.

The two entry points are written out one after the other, as the source
has them: `processRawEvents` gives owned events, `processRawEventsInto`
appends to a shared buffer and gives ranges of it. A failed assertion of
the tracker is `none`. Counters and warnings are left out, and of the
inner source only what framing asks it.

The iteration order of the source map, a hash map, shows in one place,
the flush of all sources; there it is a parameter (`keyOrder`).
-/
import FastForward.Core.CheckpointTracker
import FastForward.Io.Format
import FastForward.Lib.BTreeMap

namespace FastForward.Io

open Core Lib Pipeline Ascii

/-- Maximum of a line remainder. -/
def maxRemainderBytes : Nat := criMaxMessage

structure SourceState where
  /-- Partial line after the last newline. -/
  remainder : Bytes
  format : FormatDecoder
  tracker : CheckpointTracker
  /-- The remainder starts in the middle of a line. -/
  overflowTainted : Bool
  deriving DecidableEq, Repr

namespace SourceState

def isReclaimable (s : SourceState) : Bool :=
  s.remainder.isEmpty && !s.overflowTainted && !s.format.hasPendingState

def fresh (template : FormatDecoder) : SourceState :=
  { remainder := [], format := template.newInstance, tracker := .new 0
    overflowTainted := false }

/-- Keep a partial line. Of one that is too long the last bytes stay, the
decoder is reset and the remainder is marked. -/
def keepTail (s : SourceState) (tail : Bytes) : SourceState :=
  if maxRemainderBytes < tail.length then
    { s with
      remainder := tail.drop (tail.length - maxRemainderBytes)
      format := s.format.reset
      overflowTainted := true }
  else { s with remainder := tail }

/-- Cut a chunk behind its last newline, and keep what comes after. -/
def cutTail (s : SourceState) (chunk : Bytes) (pos : Nat) : SourceState × Bytes :=
  if pos + 1 < chunk.length then (s.keepTail (chunk.drop (pos + 1)), chunk.take (pos + 1))
  else (s, chunk)

end SourceState

/-- The framing wrapper. `outBuf`, `spareBuf` and `criMetadataBuf` are
scratch space that all sources share. -/
structure FramedInput where
  /-- `inner.should_reclaim_completed_source_state()`. -/
  shouldReclaim : Bool
  formatTemplate : FormatDecoder
  sources : BTreeMap (Option SourceId) SourceState
  outBuf : Bytes
  criMetadataBuf : CriMetadata
  spareBuf : Bytes
  lastRawHadPayload : Bool

/-- Events of the shared-buffer entry point; `start` and `stop` are the
range of the buffer. -/
inductive FramedReadEvent
  | data (start stop : Nat) (sourceId : Option SourceId) (criMetadata : Option CriMetadata)
  | rotated (sourceId : Option SourceId)
  | truncated (sourceId : Option SourceId)

namespace FramedInput

variable {R : Type}

def new (shouldReclaim : Bool) (format : FormatDecoder) : FramedInput :=
  { shouldReclaim, formatTemplate := format, sources := ∅, outBuf := []
    criMetadataBuf := .empty, spareBuf := [], lastRawHadPayload := false }

/-- The sidecar that goes with emitted data, taken from the scratch
space. -/
def criMetadataForEmittedData (f : FramedInput) : Option CriMetadata × FramedInput :=
  if f.criMetadataBuf.isEmpty then (none, f)
  else (some f.criMetadataBuf, { f with criMetadataBuf := .empty })

/-- The state of a source, made on first data. -/
def entry (f : FramedInput) (key : Option SourceId) : SourceState :=
  (f.sources[key]?).getD (.fresh f.formatTemplate)

def setSource (f : FramedInput) (key : Option SourceId) (state : SourceState) : FramedInput :=
  { f with sources := f.sources.insert key state }

/-- Forget a source with nothing pending. -/
def removeCompleted (f : FramedInput) (key : Option SourceId) : FramedInput :=
  if (f.sources[key]?).any SourceState.isReclaimable then
    { f with sources := f.sources.erase key }
  else f

/-- The same after data, where the inner source asks for it. -/
def reclaimCompleted (f : FramedInput) (key : Option SourceId) : FramedInput :=
  if key.isSome && f.shouldReclaim then f.removeCompleted key else f

/-- After rotation or truncation: without id, forget all sources. -/
def forget (f : FramedInput) : Option SourceId → FramedInput
  | some id => { f with sources := f.sources.erase (some id) }
  | none => { f with sources := ∅ }

/-- The last newline of `chunk`, counted from the new bytes behind the
old remainder. -/
def newlineInNewBytes (lastNewlinePos : Option Nat) (remainderPrefixLen : Nat) : Option Nat :=
  lastNewlinePos.bind fun pos =>
    if remainderPrefixLen ≤ pos then some (pos - remainderPrefixLen) else none

/-- Where complete lines are processed from: the first line of a marked
remainder is a fragment and is skipped. -/
def skipFragment (taintedOnEntry : Bool) (chunk : Bytes) (state : SourceState) :
    Nat × SourceState :=
  if taintedOnEntry then
    match memchr newline chunk with
    | some firstNewline => (firstNewline + 1, { state with overflowTainted := false })
    | none => (0, state)
  else (0, state)

def isPayload : SourceEvent UInt8 R → Bool
  | .data .. | .batch .. => true
  | _ => false

-- == owned events

/-- Take the output buffer as an event, if anything was written. -/
def emitOutBuf (f : FramedInput) (sourceId : Option SourceId) :
    FramedInput × List (SourceEvent UInt8 R) :=
  if f.outBuf.isEmpty then (f, [])
  else
    let data := f.outBuf
    let (criMetadata, f) := { f with outBuf := [] }.criMetadataForEmittedData
    ({ f with outBuf := f.spareBuf, spareBuf := f.outBuf }, [.data data sourceId 0 criMetadata])

/-- Decode complete lines into the scratch buffers. -/
def processLines (f : FramedInput) (key : Option SourceId) (state : SourceState)
    (lines : Bytes) : FramedInput :=
  let decoded := state.format.processLinesWithMetadata lines f.outBuf (some f.criMetadataBuf)
  { f.setSource key { state with format := decoded.format } with
    outBuf := decoded.out, criMetadataBuf := decoded.metadata.getD .empty }

/-- Data for a decoder that passes lines through, when nothing is kept:
the zero-copy fast path. -/
def processFast (f : FramedInput) (bytes : Bytes) (sourceId : Option SourceId) :
    Option (FramedInput × List (SourceEvent UInt8 R)) :=
  let key := sourceId
  let state := f.entry key
  match memrchr newline bytes with
  | some pos =>
    (state.tracker.applyRead bytes.length (some pos)).map fun tracker =>
      if pos + 1 = bytes.length then
        ((f.setSource key { state with tracker }).reclaimCompleted key,
          [.data bytes sourceId 0 none])
      else
        let complete := bytes.take (pos + 1)
        let tail := bytes.drop (pos + 1)
        (f.setSource key ({ state with tracker }.keepTail tail),
          [.data complete sourceId 0 none])
  | none =>
    (state.tracker.applyRead bytes.length none).map fun tracker =>
      (f.setSource key ({ state with tracker }.keepTail bytes), [])

/-- Decode and emit the complete lines of a chunk. -/
def processComplete (f : FramedInput) (key : Option SourceId) (state : SourceState)
    (taintedOnEntry : Bool) (chunk : Bytes) : FramedInput × List (SourceEvent UInt8 R) :=
  let f := { f with outBuf := [], criMetadataBuf := .empty }
  let (processStart, state) := skipFragment taintedOnEntry chunk state
  let f :=
    if processStart < chunk.length then f.processLines key state (chunk.drop processStart)
    else f.setSource key state
  let (f, events) := f.emitOutBuf key
  (f.reclaimCompleted key, events)

/-- Data behind the remainder of the last poll. -/
def processGeneral (f : FramedInput) (bytes : Bytes) (sourceId : Option SourceId) :
    Option (FramedInput × List (SourceEvent UInt8 R)) :=
  let key := sourceId
  let state := f.entry key
  let taintedOnEntry := state.overflowTainted
  let chunk := state.remainder ++ bytes
  let lastNewlinePos := memrchr newline chunk
  let remainderPrefixLen := chunk.length - bytes.length
  (state.tracker.applyRead bytes.length
      (newlineInNewBytes lastNewlinePos remainderPrefixLen)).map fun tracker =>
    let taken := { state with remainder := [], tracker }
    match lastNewlinePos with
    | some pos =>
      let (state, chunk) := taken.cutTail chunk pos
      f.processComplete key state taintedOnEntry chunk
    | none => (f.setSource key (taken.keepTail chunk), [])

def processData (f : FramedInput) (bytes : Bytes) (sourceId : Option SourceId) :
    Option (FramedInput × List (SourceEvent UInt8 R)) :=
  let state := f.entry sourceId
  if state.format.isPassthrough && state.remainder.isEmpty && !state.overflowTainted then
    f.processFast bytes sourceId
  else f.processGeneral bytes sourceId

/-- End of file of one source: a partial line is completed and emitted. -/
def flushSource (f : FramedInput) (key : Option SourceId) :
    FramedInput × List (SourceEvent UInt8 R) :=
  let (f, events) :=
    match f.sources[key]? with
    | some state =>
      if state.remainder.isEmpty then (f, [])
      else
        let remainder := state.remainder ++ [newline]
        let taintedOnEntry := state.overflowTainted
        let state := { state with remainder := [], overflowTainted := false }
        let processStart :=
          if taintedOnEntry then (memchr newline remainder).elim 0 (· + 1) else 0
        let f := { f with outBuf := [], criMetadataBuf := .empty }
        let f :=
          if processStart < remainder.length then
            f.processLines key state (remainder.drop processStart)
          else f.setSource key state
        let state := f.entry key
        let f := f.setSource key { state with tracker := state.tracker.applyRemainderConsumed }
        f.emitOutBuf key
    | none => (f, [])
  (f.removeCompleted key, events)

/-- End of file of each of some sources. -/
def flushSources (f : FramedInput) : List (Option SourceId) →
    FramedInput × List (SourceEvent UInt8 R)
  | [] => (f, [])
  | key :: keys =>
    let (f, events) := f.flushSource key
    let (f, more) := f.flushSources keys
    (f, events ++ more)

/-- The sources an end of file is for: without id, all of them. -/
def keysToFlush (f : FramedInput)
    (keyOrder : BTreeMap (Option SourceId) SourceState → List (Option SourceId)) :
    Option SourceId → List (Option SourceId)
  | some id => [some id]
  | none => keyOrder f.sources

section Events

variable (keyOrder : BTreeMap (Option SourceId) SourceState → List (Option SourceId))

def processRawEvent (f : FramedInput) :
    SourceEvent UInt8 R → Option (FramedInput × List (SourceEvent UInt8 R))
  | .data bytes sourceId _ _ => f.processData bytes sourceId
  | .batch batch sourceId _ => some (f, [.batch batch sourceId 0])
  | .rotated sourceId => some (f.forget sourceId, [.rotated sourceId])
  | .truncated sourceId => some (f.forget sourceId, [.truncated sourceId])
  | .endOfFile sourceId => some (f.flushSources (f.keysToFlush keyOrder sourceId))

/-- Raw events, one after the other. -/
def processEach (f : FramedInput) : List (SourceEvent UInt8 R) →
    Option (FramedInput × List (SourceEvent UInt8 R))
  | [] => some (f, [])
  | event :: rest => do
      let (f, events) ← f.processRawEvent keyOrder event
      let (f, more) ← f.processEach rest
      pure (f, events ++ more)

/-- The poll path. -/
def processRawEvents (f : FramedInput) (rawEvents : List (SourceEvent UInt8 R)) :
    Option (FramedInput × List (SourceEvent UInt8 R)) :=
  { f with lastRawHadPayload := rawEvents.any isPayload }.processEach keyOrder rawEvents

end Events

-- == shared buffer

/-- What the shared-buffer path updates: the wrapper, the buffer, and the
events so far. -/
structure Into where
  framed : FramedInput
  dst : Bytes
  events : List FramedReadEvent

def Into.appendBufferedData (x : Into) (data : Bytes) (sourceId : Option SourceId) : Into :=
  if data.isEmpty then x
  else
    { x with
      dst := x.dst ++ data
      events := x.events ++ [.data x.dst.length (x.dst ++ data).length sourceId none] }

/-- Decode complete lines into the buffer, and record the range. -/
def Into.processLines (x : Into) (key : Option SourceId) (state : SourceState)
    (lines : Bytes) : Into :=
  let start := x.dst.length
  let decoded := state.format.processLinesWithMetadata lines x.dst (some .empty)
  let framed := { x.framed.setSource key { state with format := decoded.format } with
    criMetadataBuf := decoded.metadata.getD .empty }
  if start < decoded.out.length then
    let (criMetadata, framed) := framed.criMetadataForEmittedData
    { framed, dst := decoded.out
      events := x.events ++ [.data start decoded.out.length key criMetadata] }
  else { x with framed, dst := decoded.out }

def Into.mapFramed (x : Into) (g : FramedInput → FramedInput) : Into :=
  { x with framed := g x.framed }

/-- Data for a decoder that passes lines through, when nothing is kept. -/
def Into.processFast (x : Into) (bytes : Bytes) (sourceId : Option SourceId) : Option Into :=
  let key := sourceId
  let state := x.framed.entry key
  match memrchr newline bytes with
  | some pos =>
    (state.tracker.applyRead bytes.length (some pos)).map fun tracker =>
      if pos + 1 = bytes.length then
        ((x.mapFramed (·.setSource key { state with tracker })).appendBufferedData bytes
          sourceId).mapFramed (·.reclaimCompleted key)
      else
        let complete := bytes.take (pos + 1)
        let tail := bytes.drop (pos + 1)
        (x.mapFramed (·.setSource key ({ state with tracker }.keepTail tail))
          ).appendBufferedData complete sourceId
  | none =>
    (state.tracker.applyRead bytes.length none).map fun tracker =>
      x.mapFramed (·.setSource key ({ state with tracker }.keepTail bytes))

/-- Decode the complete lines of a chunk. -/
def Into.processComplete (x : Into) (key : Option SourceId) (state : SourceState)
    (taintedOnEntry : Bool) (chunk : Bytes) : Into :=
  let (processStart, state) := skipFragment taintedOnEntry chunk state
  let x :=
    if processStart < chunk.length then x.processLines key state (chunk.drop processStart)
    else x.mapFramed (·.setSource key state)
  x.mapFramed (·.reclaimCompleted key)

/-- Data behind the remainder of the last poll. -/
def Into.processGeneral (x : Into) (bytes : Bytes) (sourceId : Option SourceId) : Option Into :=
  let key := sourceId
  let state := x.framed.entry key
  let taintedOnEntry := state.overflowTainted
  let chunk := state.remainder ++ bytes
  let lastNewlinePos := memrchr newline chunk
  let remainderPrefixLen := chunk.length - bytes.length
  (state.tracker.applyRead bytes.length
      (newlineInNewBytes lastNewlinePos remainderPrefixLen)).map fun tracker =>
    let taken := { state with remainder := [], tracker }
    match lastNewlinePos with
    | some pos =>
      let (state, chunk) := taken.cutTail chunk pos
      x.processComplete key state taintedOnEntry chunk
    | none => x.mapFramed (·.setSource key (taken.keepTail chunk))

def Into.processData (x : Into) (bytes : Bytes) (sourceId : Option SourceId) : Option Into :=
  let state := x.framed.entry sourceId
  if state.format.isPassthrough && state.remainder.isEmpty && !state.overflowTainted then
    x.processFast bytes sourceId
  else x.processGeneral bytes sourceId

/-- End of file of one source. -/
def Into.flushSource (x : Into) (key : Option SourceId) : Into :=
  let x :=
    match x.framed.sources[key]? with
    | some state =>
      if state.remainder.isEmpty then x
      else
        let remainder := state.remainder ++ [newline]
        let taintedOnEntry := state.overflowTainted
        let state := { state with remainder := [], overflowTainted := false }
        let processStart :=
          if taintedOnEntry then (memchr newline remainder).elim 0 (· + 1) else 0
        let x := x.mapFramed ({ · with criMetadataBuf := .empty })
        let x :=
          if processStart < remainder.length then
            x.processLines key state (remainder.drop processStart)
          else x.mapFramed (·.setSource key state)
        let state := x.framed.entry key
        x.mapFramed
          (·.setSource key { state with tracker := state.tracker.applyRemainderConsumed })
    | none => x
  x.mapFramed (·.removeCompleted key)

def unsupportedStructuredEventError (eventName : String) : String :=
  s!"FramedInput only supports raw byte events; inner source emitted {eventName}"

section IntoEvents

variable (keyOrder : BTreeMap (Option SourceId) SourceState → List (Option SourceId))

def Into.processRawEvent (x : Into) : SourceEvent UInt8 R → Option (Except String Into)
  | .data bytes sourceId _ _ => (x.processData bytes sourceId).map .ok
  | .batch .. => some (.error (unsupportedStructuredEventError "SourceEvent::Batch"))
  | .rotated sourceId =>
    some (.ok { x with
      framed := x.framed.forget sourceId, events := x.events ++ [.rotated sourceId] })
  | .truncated sourceId =>
    some (.ok { x with
      framed := x.framed.forget sourceId, events := x.events ++ [.truncated sourceId] })
  | .endOfFile sourceId =>
    some (.ok ((x.framed.keysToFlush keyOrder sourceId).foldl Into.flushSource x))

/-- Raw events, one after the other, up to an error. -/
def Into.processEach (x : Into) : List (SourceEvent UInt8 R) → Option (Except String Into)
  | [] => some (.ok x)
  | event :: rest =>
    match x.processRawEvent keyOrder event with
    | none => none
    | some (.error e) => some (.error e)
    | some (.ok x) => x.processEach rest

/-- The poll-into path. -/
def processRawEventsInto (f : FramedInput) (rawEvents : List (SourceEvent UInt8 R))
    (dst : Bytes) : Option (Except String Into) :=
  Into.processEach keyOrder
    { framed := { f with lastRawHadPayload := rawEvents.any isPayload }, dst, events := [] }
    rawEvents

end IntoEvents

-- == checkpoints

/-- Offsets that are safe to restart from: what the inner source has
read, less what waits for its newline. -/
def checkpointData (f : FramedInput) (inner : List (SourceId × Nat)) : List (SourceId × Nat) :=
  inner.map fun (sid, offset) =>
    (sid, (f.sources[some sid]?).elim offset fun state => offset - state.tracker.remainderLen)

end FramedInput

end FastForward.Io
