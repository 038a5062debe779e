/-
Input events and the row-aligned CRI sidecar (`input.rs`).

Bytes stay generic: `α` is the type of one byte of payload and `R` the
type of a structured record batch, so that the functions which only move
payload around can be instantiated with bytes that remember where they
came from. Byte counts that feed diagnostics only (`accounted_bytes`)
are kept on the events as the source has them.
-/
import FastForward.Core.Cri
import FastForward.Pipeline.Batch

namespace FastForward.Io

open Core Pipeline

-- == CRI metadata

inductive CriStream
  | stdout
  | stderr
  deriving DecidableEq, Repr

/-- Exactly the two stream tokens. -/
def CriStream.fromBytes (stream : List UInt8) : Option CriStream :=
  if stream = stdoutToken then some .stdout
  else if stream = stderrToken then some .stderr
  else none

/-- Value payload of one non-null span: a range of the packed timestamp
bytes and the stream. -/
structure CriMetadataValues where
  timestampStart : Nat
  timestampLen : Nat
  stream : CriStream
  deriving DecidableEq, Repr

/-- Consecutive scanner rows that share the same optional metadata. -/
structure CriMetadataSpan where
  rows : Nat
  values : Option CriMetadataValues
  deriving DecidableEq, Repr

/-- Run-length encoded sidecar. -/
structure CriMetadata where
  spans : List CriMetadataSpan
  timestampBytes : List UInt8
  rows : Nat
  hasValues : Bool
  deriving DecidableEq, Repr

namespace CriMetadata

/-- The sidecar of no rows: `default`, and what `clear` leaves. -/
def empty : CriMetadata :=
  { spans := [], timestampBytes := [], rows := 0, hasValues := false }

/-- No represented rows? -/
def isEmpty (m : CriMetadata) : Bool := m.rows == 0

def timestampOf (bytes : List UInt8) (v : CriMetadataValues) : List UInt8 :=
  (bytes.drop v.timestampStart).take v.timestampLen

def extendLast (spans : List CriMetadataSpan) (rows : Nat) : List CriMetadataSpan :=
  match spans.getLast? with
  | some last => spans.dropLast ++ [{ last with rows := last.rows + rows }]
  | none => spans

/-- A span of its own for one row. -/
def pushValue (m : CriMetadata) (timestamp : List UInt8) (stream : CriStream) : CriMetadata :=
  { spans := m.spans ++ [⟨1, some ⟨m.timestampBytes.length, timestamp.length, stream⟩⟩]
    timestampBytes := m.timestampBytes ++ timestamp
    rows := m.rows + 1
    hasValues := true }

/-- Append null rows; adjacent null spans coalesce. -/
def appendNullRows (m : CriMetadata) (rows : Nat) : CriMetadata :=
  if rows == 0 then m
  else
    match m.spans.getLast? with
    | some { values := none, .. } =>
      { m with spans := extendLast m.spans rows, rows := m.rows + rows }
    | _ =>
      { m with spans := m.spans ++ [⟨rows, none⟩], rows := m.rows + rows }

/-- Append one row. A stream token that is none, or a timestamp that is
not UTF-8, gives a null row; a row like the last one extends its span.
The source also reports which of the two it was, to count parse errors. -/
def appendValue (m : CriMetadata) (timestamp stream : List UInt8) : CriMetadata :=
  match CriStream.fromBytes stream with
  | none => m.appendNullRows 1
  | some stream =>
    if !validUtf8 timestamp then m.appendNullRows 1
    else
      match m.spans.getLast? with
      | some { values := some values, .. } =>
        if values.stream == stream && timestampOf m.timestampBytes values == timestamp then
          { m with spans := extendLast m.spans 1, rows := m.rows + 1 }
        else m.pushValue timestamp stream
      | _ => m.pushValue timestamp stream

/-- Do two descriptors, each with its own buffer, mean the same? -/
def metadataValuesEqual (left : Option CriMetadataValues)
    (leftTimestamps : List UInt8) (right : Option CriMetadataValues)
    (rightTimestamps : List UInt8) : Bool :=
  match left, right with
  | none, none => true
  | some l, some r =>
    l.stream == r.stream
      && timestampOf leftTimestamps l == timestampOf rightTimestamps r
  | _, _ => false

/-- Move a span's timestamp range up by `offset`. -/
def rebase (offset : Nat) (span : CriMetadataSpan) : CriMetadataSpan :=
  { span with
    values := span.values.map fun v =>
      { v with timestampStart := v.timestampStart + offset } }

/-- Append another sidecar, coalescing at the seam and rebasing its
timestamp offsets. -/
def append (m other : CriMetadata) : CriMetadata :=
  if other.isEmpty then m
  else if m.spans.isEmpty then other
  else
    let offset := m.timestampBytes.length
    let mergeFirst :=
      match m.spans.getLast?, other.spans.head? with
      | some last, some first =>
        metadataValuesEqual last.values m.timestampBytes first.values
          other.timestampBytes
      | _, _ => false
    let otherSpans := other.spans.map (rebase offset)
    { spans :=
        if mergeFirst then
          extendLast m.spans ((otherSpans.head?.map (·.rows)).getD 0)
            ++ otherSpans.tail
        else m.spans ++ otherSpans
      timestampBytes := m.timestampBytes ++ other.timestampBytes
      rows := m.rows + other.rows
      hasValues := m.hasValues || other.hasValues }

end CriMetadata

-- == events

/-- Events produced by an input source. -/
inductive SourceEvent (α R : Type)
  | data (bytes : List α) (sourceId : Option SourceId) (accountedBytes : Nat)
      (criMetadata : Option CriMetadata)
  | batch (batch : R) (sourceId : Option SourceId) (accountedBytes : Nat)
  | rotated (sourceId : Option SourceId)
  | truncated (sourceId : Option SourceId)
  | endOfFile (sourceId : Option SourceId)

end FastForward.Io
