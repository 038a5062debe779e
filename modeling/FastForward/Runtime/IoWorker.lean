/-
The I/O worker (`pipeline/io_worker.rs`): events of one poll are
accumulated into a buffer and sent to the CPU worker in chunks, each
with the input's checkpoints at the moment of sending.

The mutable arguments of `process_ingest_events` are the record
`IoState`, the constant ones `IoEnv`. The input is not mutated while
events are processed, so what the worker reads from it during one call
is a snapshot, `SourceView`. The channel blocks when it is full, so only
a dropped receiver can make a send fail: `Tx.room` counts the items the
receiver still takes before it is dropped (`none`: it is not).

Metrics, health, logging and the queue timestamp are left out. Within
one worker every `input_name` is a clone of one `Arc`, so pointer
equality is equality of names.
-/
import FastForward.Io.Input
import FastForward.Lib.BTreeMap

namespace FastForward.Runtime

open Lib Pipeline Io

/-- Public source path column style. -/
inductive SourcePathColumn
  | none
  | ecs
  | otel
  | vector
  deriving DecidableEq, Repr

/-- Source metadata columns that should be attached after the scan. -/
structure SourceMetadataPlan where
  hasSourceId : Bool
  sourcePath : SourcePathColumn
  deriving DecidableEq, Repr

namespace SourceMetadataPlan

def hasSourcePath (p : SourceMetadataPlan) : Bool := p.sourcePath != .none

def hasAny (p : SourceMetadataPlan) : Bool := p.hasSourceId || p.hasSourcePath

end SourceMetadataPlan

/-- Consecutive rows from the same input and source. -/
structure RowOriginSpan where
  sourceId : Option SourceId
  inputName : String
  rows : Nat
  deriving DecidableEq, Repr

/-- Origin of a line whose newline has not arrived yet. -/
structure PendingRowOrigin where
  sourceId : Option SourceId
  inputName : String
  hasContent : Bool
  deriving DecidableEq, Repr

-- == rows of a buffer

def newline : UInt8 := 10

def carriageReturn : UInt8 := 13

/-- Does a line have content, a final carriage return aside? -/
def scannerLineHasContent (line : List UInt8) : Bool :=
  let lineEnd :=
    if line.getLast? == some carriageReturn then line.length - 1 else line.length
  decide (0 < lineEnd)

/-- Cut at the first newline: the segment before it and what follows. -/
def splitNewline (bytes : List UInt8) : Option (List UInt8 × List UInt8) :=
  match bytes.dropWhile (· != newline) with
  | [] => none
  | _ :: rest => some (bytes.takeWhile (· != newline), rest)

theorem splitNewline_length {bytes seg rest : List UInt8}
    (h : splitNewline bytes = some (seg, rest)) : rest.length < bytes.length := by
  unfold splitNewline at h
  split at h
  · cases h
  · next c tail hd =>
      cases h
      have hle := (List.dropWhile_suffix (l := bytes) (· != newline)).length_le
      rw [hd, List.length_cons] at hle
      omega

/-- Rows the scanner makes of a buffer: its non-empty lines. -/
def scannerReadyRowCount (bytes : List UInt8) : Nat :=
  match _h : splitNewline bytes with
  | some (line, rest) =>
    (if scannerLineHasContent line then 1 else 0) + scannerReadyRowCount rest
  | none => if scannerLineHasContent bytes then 1 else 0
termination_by bytes.length
decreasing_by exact splitNewline_length ‹_›

/-- Keep the CRI sidecar aligned with the buffer when data arrives. -/
def appendCriMetadataForData (buffered : CriMetadata) (event : Option CriMetadata)
    (bufferedBytes eventBytes : List UInt8) : CriMetadata :=
  match event with
  | some metadata =>
    let buffered :=
      if buffered.isEmpty && !bufferedBytes.isEmpty then
        buffered.appendNullRows (scannerReadyRowCount bufferedBytes)
      else buffered
    buffered.append metadata
  | none =>
    if !buffered.isEmpty then
      buffered.appendNullRows (scannerReadyRowCount eventBytes)
    else buffered

/-- Add rows of one origin, extending the last span where it matches. -/
def appendRowOrigin (rowOrigins : List RowOriginSpan) (sourceId : Option SourceId)
    (inputName : String) (rows : Nat) : List RowOriginSpan :=
  if rows == 0 then rowOrigins
  else
    match rowOrigins.getLast? with
    | some last =>
      if last.sourceId == sourceId && last.inputName == inputName then
        rowOrigins.dropLast ++ [{ last with rows := last.rows + rows }]
      else rowOrigins ++ [⟨sourceId, inputName, rows⟩]
    | none => rowOrigins ++ [⟨sourceId, inputName, rows⟩]

/-- Attribute the lines of newly arrived bytes: a line belongs to the
source of its first fragment, and an unfinished line stays pending. -/
def appendDataRowOrigins (rowOrigins : List RowOriginSpan)
    (pending : Option PendingRowOrigin) (sourceId : Option SourceId)
    (inputName : String) (bytes : List UInt8) :
    List RowOriginSpan × Option PendingRowOrigin :=
  match _h : splitNewline bytes with
  | some (segment, rest) =>
    let origin := pending.getD ⟨sourceId, inputName, false⟩
    let rowOrigins :=
      if origin.hasContent || scannerLineHasContent segment then
        appendRowOrigin rowOrigins origin.sourceId origin.inputName 1
      else rowOrigins
    appendDataRowOrigins rowOrigins none sourceId inputName rest
  | none =>
    if bytes.isEmpty then (rowOrigins, pending)
    else
      match pending with
      | some origin =>
        (rowOrigins, some { origin with
          hasContent := origin.hasContent || scannerLineHasContent bytes })
      | none =>
        (rowOrigins, some ⟨sourceId, inputName, scannerLineHasContent bytes⟩)
termination_by bytes.length
decreasing_by exact splitNewline_length ‹_›

/-- Count a pending line that has content as a row. -/
def finalizePendingRowOrigin (rowOrigins : List RowOriginSpan)
    (pending : Option PendingRowOrigin) : List RowOriginSpan :=
  match pending with
  | some origin =>
    if origin.hasContent then
      appendRowOrigin rowOrigins origin.sourceId origin.inputName 1
    else rowOrigins
  | none => rowOrigins

/-- Remember the path of a source the first time it is seen. -/
def captureSourcePath (buffered : BTreeMap SourceId String)
    (paths : List (SourceId × String)) (sourceId : Option SourceId) :
    BTreeMap SourceId String :=
  match sourceId with
  | none => buffered
  | some sid =>
    if buffered.contains sid then buffered
    else
      match paths.find? (·.1 == sid) with
      | some (_, path) => buffered.insert sid path
      | none => buffered

/-- The paths of the sources a list of spans names. -/
def sourcePathsById (paths : List (SourceId × String))
    (rowOrigins : List RowOriginSpan) : BTreeMap SourceId String :=
  let wanted := rowOrigins.filterMap (·.sourceId)
  (paths.filter fun p => wanted.contains p.1).foldl
    (fun m p => m.insert p.1 p.2) ∅

-- == the worker

variable {α R : Type}

/-- Chunk of accumulated bytes sent to the CPU worker. -/
structure IoChunk (α : Type) where
  bytes : List α
  checkpoints : List (SourceId × Nat)
  rowOrigins : List RowOriginSpan
  sourcePaths : BTreeMap SourceId String
  criMetadata : Option CriMetadata
  inputIndex : Nat

/-- What the CPU worker receives. -/
inductive IoWorkItem (α R : Type)
  | rawBatch (chunk : IoChunk α)
  | batch (batch : R) (checkpoints : List (SourceId × Nat))
      (rowOrigins : List RowOriginSpan) (sourcePaths : BTreeMap SourceId String)
      (inputIndex : Nat)

def IoWorkItem.checkpoints : IoWorkItem α R → List (SourceId × Nat)
  | rawBatch chunk => chunk.checkpoints
  | batch _ checkpoints _ _ _ => checkpoints

/-- The sending half of the channel: what was sent, and how many items
the receiver still takes before it is dropped. -/
structure Tx (α R : Type) where
  sent : List (IoWorkItem α R)
  room : Option Nat

/-- Send, blocking while the channel is full; `false` once the receiver
is gone. -/
def Tx.send (tx : Tx α R) (item : IoWorkItem α R) : Bool × Tx α R :=
  match tx.room with
  | some 0 => (false, tx)
  | some (n + 1) => (true, { sent := tx.sent ++ [item], room := some n })
  | none => (true, { tx with sent := tx.sent ++ [item] })

/-- What the worker reads from its input while it processes a poll. -/
structure SourceView where
  checkpointData : List (SourceId × Nat)
  sourcePaths : List (SourceId × String)

/-- The worker's constants. -/
structure IoEnv (α R : Type) where
  /-- The byte value of one unit of payload. -/
  toByte : α → UInt8
  numRows : R → Nat
  inputName : String
  inputIndex : Nat
  safeBatchTargetBytes : Nat
  sourceMetadataPlan : SourceMetadataPlan

/-- The worker's mutable state. -/
structure IoState (α R : Type) where
  buf : List α
  rowOrigins : List RowOriginSpan
  sourcePaths : BTreeMap SourceId String
  criMetadata : CriMetadata
  pendingRowOrigin : Option PendingRowOrigin
  bufferedSince : Option Nat
  tx : Tx α R

/-- Spans as they leave with a chunk: the pending line counted when the
plan tracks origins. -/
def IoState.finalRowOrigins (env : IoEnv α R) (st : IoState α R) :
    List RowOriginSpan :=
  if env.sourceMetadataPlan.hasAny then
    finalizePendingRowOrigin st.rowOrigins st.pendingRowOrigin
  else st.rowOrigins

/-- The chunk that carries `data` and everything accumulated beside it. -/
def IoState.chunk (env : IoEnv α R) (view : SourceView) (st : IoState α R)
    (data : List α) : IoChunk α :=
  { bytes := data
    checkpoints := view.checkpointData
    rowOrigins := st.finalRowOrigins env
    sourcePaths :=
      if env.sourceMetadataPlan.hasSourcePath then st.sourcePaths else ∅
    criMetadata := if st.criMetadata.isEmpty then none else some st.criMetadata
    inputIndex := env.inputIndex }

/-- The accumulators after a flush. -/
def IoState.cleared (st : IoState α R) (buf : List α) (tx : Tx α R) : IoState α R :=
  { st with
    buf, rowOrigins := [], sourcePaths := ∅, criMetadata := .empty
    pendingRowOrigin := none, tx }

/-- Flush the buffer as one chunk. -/
def flushBuf (env : IoEnv α R) (view : SourceView) (st : IoState α R) :
    Bool × IoState α R :=
  if st.buf.isEmpty then (true, st.cleared st.buf st.tx)
  else
    let sent := st.tx.send (.rawBatch (st.chunk env view st.buf))
    (sent.1, st.cleared [] sent.2)

/-- Send bytes without copying them into the buffer. -/
def flushBytesDirect (env : IoEnv α R) (view : SourceView) (st : IoState α R)
    (data : List α) : Bool × IoState α R :=
  let sent := st.tx.send (.rawBatch (st.chunk env view data))
  (sent.1, st.cleared st.buf sent.2)

/-- Smallest chunk that is sent directly. -/
def minDirectFlushBytes : Nat := 64 * 1024

/-- Attribution of a data event, before its bytes move. -/
def noteData (env : IoEnv α R) (view : SourceView) (st : IoState α R)
    (bytes : List α) (sourceId : Option SourceId)
    (criMetadata : Option CriMetadata) : IoState α R :=
  let raw := bytes.map env.toByte
  let origins :=
    if env.sourceMetadataPlan.hasAny then
      appendDataRowOrigins st.rowOrigins st.pendingRowOrigin sourceId
        env.inputName raw
    else (st.rowOrigins, st.pendingRowOrigin)
  { st with
    rowOrigins := origins.1
    pendingRowOrigin := origins.2
    sourcePaths :=
      if env.sourceMetadataPlan.hasSourcePath then
        captureSourcePath st.sourcePaths view.sourcePaths sourceId
      else st.sourcePaths
    criMetadata := appendCriMetadataForData st.criMetadata criMetadata
      (st.buf.map env.toByte) raw }

/-- After a flush: keep going with the timer cleared, or give up. -/
def afterFlush (r : Bool × IoState α R) : Bool × IoState α R :=
  if r.1 then (true, { r.2 with bufferedSince := none }) else r

def ingestData (env : IoEnv α R) (view : SourceView) (st : IoState α R)
    (bytes : List α) (sourceId : Option SourceId)
    (criMetadata : Option CriMetadata) : Bool × IoState α R :=
  let st := noteData env view st bytes sourceId criMetadata
  if st.buf.isEmpty && decide (minDirectFlushBytes ≤ bytes.length) then
    afterFlush (flushBytesDirect env view st bytes)
  else
    let st := { st with buf := st.buf ++ bytes }
    if env.safeBatchTargetBytes ≤ st.buf.length then
      afterFlush (flushBuf env view st)
    else (true, st)

/-- A `Batch` event: the buffer first, then the batch as its own item. -/
def ingestBatch (env : IoEnv α R) (view : SourceView) (st : IoState α R)
    (batch : R) (sourceId : Option SourceId) : Bool × IoState α R :=
  let flushed := afterFlush (flushBuf env view st)
  if !flushed.1 then flushed
  else
    let rowOrigins : List RowOriginSpan :=
      if env.sourceMetadataPlan.hasAny then
        [⟨sourceId, env.inputName, env.numRows batch⟩]
      else []
    let sourcePaths :=
      if env.sourceMetadataPlan.hasSourcePath then
        sourcePathsById view.sourcePaths rowOrigins
      else ∅
    let sent := flushed.2.tx.send
      (.batch batch view.checkpointData rowOrigins sourcePaths env.inputIndex)
    (sent.1, { flushed.2 with tx := sent.2 })

def ingestEvent (env : IoEnv α R) (view : SourceView) (st : IoState α R) :
    SourceEvent α R → Bool × IoState α R
  | .data bytes sourceId _ criMetadata =>
    ingestData env view st bytes sourceId criMetadata
  | .batch batch sourceId _ => ingestBatch env view st batch sourceId
  | .rotated _ => (true, st)
  | .truncated _ => (true, st)
  | .endOfFile _ => (true, st)

/-- The event loop: stops at the first send that fails. -/
def ingestEvents (env : IoEnv α R) (view : SourceView) (st : IoState α R) :
    List (SourceEvent α R) → Bool × IoState α R
  | [] => (true, st)
  | event :: rest =>
    let r := ingestEvent env view st event
    if r.1 then ingestEvents env view r.2 rest else r

/-- Process the events of one poll; `false` when the channel closed. -/
def processIngestEvents (env : IoEnv α R) (view : SourceView) (now : Nat)
    (st : IoState α R) (events : List (SourceEvent α R)) : Bool × IoState α R :=
  let r := ingestEvents env view st events
  if r.1 && r.2.bufferedSince.isNone && !r.2.buf.isEmpty then
    (true, { r.2 with bufferedSince := some now })
  else r

end FastForward.Runtime
