/-
Source and CRI metadata of a scanned batch
(`pipeline/source_metadata.rs`): columns built from the row-origin spans
and the CRI sidecar are attached before the SQL transform runs.

An Arrow array is the list of its values, null as `none`; a string view
array is the list of strings it shows. Of a batch the schema's metadata
is left out. Errors are their texts, all of them of Arrow's kind
`InvalidArgumentError`.
-/
import FastForward.Runtime.IoWorker

namespace FastForward.Runtime

open Lib Core Io Pipeline

-- == batches

/-- A column, as far as the data type matters here. -/
inductive Column
  | utf8View (values : List (Option Bytes))
  | utf8 (values : List (Option Bytes))
  | largeUtf8 (values : List (Option Bytes))
  | uint64 (values : List (Option Nat))
  /-- Any other type. -/
  | other (rows : Nat)
  deriving DecidableEq

def Column.length : Column → Nat
  | utf8View values | utf8 values | largeUtf8 values => values.length
  | uint64 values => values.length
  | other rows => rows

/-- A batch: all columns have its row count. -/
structure RecordBatch where
  numRows : Nat
  columns : List (String × Column)
  lengths : ∀ column ∈ columns, column.2.length = numRows

/-- `RecordBatch::try_new_with_options` with a row count. -/
def RecordBatch.tryNew (columns : List (String × Column)) (numRows : Nat) :
    Except String RecordBatch :=
  if h : ∀ column ∈ columns, column.2.length = numRows then .ok ⟨numRows, columns, h⟩
  else .error "all columns in a record batch must have the specified row count"

/-- The first column of a name. -/
def RecordBatch.column (batch : RecordBatch) (name : String) : Option Column :=
  (batch.columns.find? fun c => c.1 == name).map (·.2)

/-- Give columns of these names these values; new names come last. -/
def replaceOrAppendColumns (batch : RecordBatch) (columns : List (String × Column)) :
    Except String RecordBatch :=
  if columns.isEmpty then .ok batch
  else
    let kept := batch.columns.map fun field =>
      (columns.find? fun c => field.1 == c.1).getD field
    let appended := columns.filter fun c => !(batch.columns.any fun field => field.1 == c.1)
    RecordBatch.tryNew (kept ++ appended) batch.numRows

-- == source metadata

def sourceIdName : String := "__source_id"

/-- The column of a source path style. -/
def SourcePathColumn.toColumnName : SourcePathColumn → Option String
  | none => Option.none
  | ecs => some "file.path"
  | otel => some "log.file.path"
  | vector => some "file"

/-- Lengths and offsets of a view are 32 bits wide. -/
def u32Limit : Nat := 4294967296

def sourceRowCountMismatch (rowsFromOrigins numRows : Nat) : String :=
  s!"source metadata sidecar row count mismatch: spans={rowsFromOrigins}, batch={numRows}"

/-- Check a string column against the batch. -/
def finishStringMetadataArray (values : List (Option Bytes)) (numRows : Nat) :
    Except String Column :=
  if values.length ≠ numRows then
    .error (let column := values.length
      s!"source metadata string column length mismatch: column={column}, batch={numRows}")
  else .ok (.utf8View values)

def spanPaths (sourcePaths : BTreeMap SourceId String) (span : RowOriginSpan) :
    Except String (List (Option Bytes)) :=
  match span.sourceId.bind fun sid => sourcePaths[sid]? with
  | none => .ok (List.replicate span.rows none)
  | some path =>
    let bytes := path.toUTF8.toList
    if u32Limit ≤ bytes.length then .error "source metadata string is too large for Utf8View"
    else .ok (List.replicate span.rows (some bytes))

def sourcePathMetadataArray (numRows : Nat) (rowOrigins : List RowOriginSpan)
    (sourcePaths : BTreeMap SourceId String) : Except String Column := do
  let paths ← rowOrigins.mapM (spanPaths sourcePaths)
  finishStringMetadataArray paths.flatten numRows

def sourceIdMetadataArray (rowOrigins : List RowOriginSpan) : Column :=
  .uint64 (rowOrigins.flatMap fun span => List.replicate span.rows span.sourceId)

def sourceMetadataForBatch (batch : RecordBatch) (rowOrigins : List RowOriginSpan)
    (sourcePaths : BTreeMap SourceId String) (plan : SourceMetadataPlan) :
    Except String RecordBatch :=
  if !plan.hasAny then .ok batch
  else
    let rowsFromOrigins := (rowOrigins.map (·.rows)).sum
    if rowsFromOrigins ≠ batch.numRows then
      .error (sourceRowCountMismatch rowsFromOrigins batch.numRows)
    else do
      let ids :=
        if plan.hasSourceId then [(sourceIdName, sourceIdMetadataArray rowOrigins)] else []
      let paths ←
        match plan.sourcePath.toColumnName with
        | some name => do
            let array ← sourcePathMetadataArray batch.numRows rowOrigins sourcePaths
            pure [(name, array)]
        | none => pure []
      replaceOrAppendColumns batch (ids ++ paths)

-- == CRI metadata

def timestampName : String := "_timestamp"

def streamName : String := "_stream"

def criRowCountMismatch (rows numRows : Nat) : String :=
  s!"CRI metadata sidecar row count mismatch: rows={rows}, batch={numRows}"

/-- `CriStream::as_str`. -/
def streamText : CriStream → Bytes
  | .stdout => stdoutToken
  | .stderr => stderrToken

/-- The rows of a span: timestamp and stream, or two nulls. Timestamps of
up to twelve bytes are stored in the view itself, longer ones as a range
of the packed buffer. -/
def criSpanRows (timestampBytes : Bytes) (span : CriMetadataSpan) :
    Except String (List (Option Bytes × Option Bytes)) :=
  match span.values with
  | none => .ok (List.replicate span.rows (none, none))
  | some values =>
    let timestamp := CriMetadata.timestampOf timestampBytes values
    let inBuffer : Bool :=
      decide (values.timestampStart + values.timestampLen ≤ timestampBytes.length)
    if !(inBuffer && validUtf8 timestamp) then
      .ok (List.replicate span.rows (none, none))
    else
      let rows := List.replicate span.rows (some timestamp, some (streamText values.stream))
      if values.timestampLen ≤ 12 then .ok rows
      else if u32Limit ≤ values.timestampStart then
        .error "CRI timestamp string offset is too large for Utf8View"
      else if u32Limit ≤ values.timestampLen then
        .error "CRI timestamp string is too large for Utf8View"
      else if timestampBytes.isEmpty then
        .error "CRI metadata span references an empty timestamp buffer"
      else .ok rows

/-- The timestamp and the stream array. -/
def criMetadataArrays (numRows : Nat) (metadata : CriMetadata) :
    Except String (Column × Column) := do
  let rows ← metadata.spans.mapM (criSpanRows metadata.timestampBytes)
  let timestamp ← finishStringMetadataArray (rows.flatten.map (·.1)) numRows
  let stream ← finishStringMetadataArray (rows.flatten.map (·.2)) numRows
  pure (timestamp, stream)

/-- The strings of a column of a string type. -/
def stringViewArray : Column → Option (List (Option Bytes))
  | .utf8View values | .utf8 values | .largeUtf8 values => some values
  | _ => none

/-- Where the sidecar has no value, keep the one the scan found. -/
def overlayExistingStringValues (batch : RecordBatch) (name : String)
    (sidecar : List (Option Bytes)) : List (Option Bytes) :=
  match batch.column name with
  | none => sidecar
  | some existing =>
    match stringViewArray existing with
    | some values => List.zipWith (fun s e => s.or e) sidecar values
    | none => sidecar

def criMetadataColumn (batch : RecordBatch) (name : String) (sidecar : Column) :
    Except String (String × Column) :=
  match sidecar with
  | .utf8View values => .ok (name, .utf8View (overlayExistingStringValues batch name values))
  | _ => .error s!"CRI metadata column {name} should be Utf8View"

def criMetadataForBatch (batch : RecordBatch) (criMetadata : Option CriMetadata) :
    Except String RecordBatch :=
  match criMetadata with
  | none => .ok batch
  | some metadata =>
    if metadata.rows ≠ batch.numRows then
      .error (criRowCountMismatch metadata.rows batch.numRows)
    else
      let needsTimestamp := metadata.hasValues || (batch.column timestampName).isNone
      let needsStream := metadata.hasValues || (batch.column streamName).isNone
      if !needsTimestamp && !needsStream then .ok batch
      else do
        let (timestamp, stream) ← criMetadataArrays batch.numRows metadata
        let timestamps ←
          if needsTimestamp then do
            let column ← criMetadataColumn batch timestampName timestamp
            pure [column]
          else pure []
        let streams ←
          if needsStream then do
            let column ← criMetadataColumn batch streamName stream
            pure [column]
          else pure []
        replaceOrAppendColumns batch (timestamps ++ streams)

end FastForward.Runtime
