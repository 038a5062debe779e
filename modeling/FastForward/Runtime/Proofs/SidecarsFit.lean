/-
Sidecars against a batch that was filtered during the scan.

The sidecars are built before the scan, with a row for every line that has
content. Attaching them checks their totals against the batch and then
gives row `i` of the batch row `i` of the sidecar. A scan with a row
predicate makes no row of a line it rejects; the batch then has fewer
rows, and attaching fails. So sidecars and batch fit exactly when the
predicate keeps every line of the batch.
-/
import FastForward.Io.Proofs.Sidecar
import FastForward.Lib.Fallible
import FastForward.Runtime.Proofs.RowOrigins
import FastForward.Runtime.SourceMetadata

namespace FastForward.Runtime

open Lib Core Io Pipeline List RecordBatch Meets

-- == values of a batch

/-- The id in a row of an id column. -/
def RecordBatch.idAt (batch : RecordBatch) (name : String) (i : Nat) : Option Nat :=
  match batch.column name with
  | some (.uint64 values) => values[i]?.join
  | _ => none

/-- The string in a row of a string column. -/
def RecordBatch.stringAt (batch : RecordBatch) (name : String) (i : Nat) : Option Bytes :=
  ((batch.column name).bind stringViewArray).bind fun values => values[i]?.join

variable {batch : RecordBatch} {columns : List (String × Column)} {numRows : Nat}

theorem tryNew_eq_ok (h : tryNew columns numRows = .ok batch) :
    batch.numRows = numRows ∧ batch.columns = columns := by
  unfold tryNew at h
  split at h
  · cases h
    exact ⟨rfl, rfl⟩
  · cases h

/-- Replacing keeps the names of the columns that are there. -/
theorem find?_replaced (columns fields : List (String × Column)) (name : String) :
    (fields.map fun field => (columns.find? fun c => field.1 == c.1).getD field).find?
        (fun c => c.1 == name)
      = (fields.find? fun c => c.1 == name).map fun field =>
          (columns.find? fun c => field.1 == c.1).getD field := by
  have hname : ∀ field : String × Column,
      ((columns.find? fun c => field.1 == c.1).getD field).1 = field.1 := by
    intro field
    cases hfound : columns.find? fun c => field.1 == c.1 with
    | none => rfl
    | some c =>
      have hc := find?_some hfound
      exact (beq_iff_eq.mp hc).symm
  rw [find?_map]
  simp only [Function.comp_def, hname]

variable {batch' : RecordBatch}

/-- What a column is after columns were replaced or appended: the new
one of its name, or the one before. -/
theorem column_replaceOrAppendColumns
    (h : replaceOrAppendColumns batch columns = .ok batch') (name : String) :
    batch'.column name
      = ((columns.find? fun c => c.1 == name).map (·.2)).or (batch.column name) := by
  unfold replaceOrAppendColumns at h
  split at h
  next hempty =>
    cases h
    rw [isEmpty_iff.mp hempty]
    rfl
  next =>
    obtain ⟨-, hcolumns⟩ := tryNew_eq_ok h
    have hsymm : ∀ field : String × Column, field.1 == name →
        (columns.find? fun c => field.1 == c.1) = columns.find? fun c => c.1 == name := by
      intro field hfield
      refine congrArg (columns.find? ·) (funext fun c => ?_)
      rw [beq_iff_eq.mp hfield, Bool.eq_iff_iff, beq_iff_eq, beq_iff_eq, eq_comm]
    rw [column, hcolumns, find?_append, find?_replaced]
    cases hold : batch.columns.find? fun c => c.1 == name with
    | some field =>
      have hfield := find?_some hold
      rw [Option.map_some, hsymm field hfield, column, hold]
      cases columns.find? fun c => c.1 == name <;> rfl
    | none =>
      have habsent : (columns.filter fun c => !(batch.columns.any fun field =>
          field.1 == c.1)).find? (fun c => c.1 == name) = columns.find? fun c => c.1 == name := by
        rw [find?_filter]
        refine congrArg (columns.find? ·) (funext fun c => ?_)
        cases hc : c.1 == name with
        | false => simp
        | true =>
          have hany : (batch.columns.any fun field => field.1 == c.1) = false := by
            rw [beq_iff_eq.mp hc, any_eq_false]
            exact find?_eq_none.mp hold
          simp [hany]
      rw [Option.map_none, Option.none_or, habsent, column, hold,
        Option.map_none, Option.or_none]

theorem numRows_replaceOrAppendColumns
    (h : replaceOrAppendColumns batch columns = .ok batch') : batch'.numRows = batch.numRows := by
  unfold replaceOrAppendColumns at h
  split at h
  · cases h
    rfl
  · exact (tryNew_eq_ok h).1

/-- What replacing and appending columns does: it fails for no columns of
the batch's own length. -/
theorem replaceOrAppendColumns_meets
    {errors : String → Prop} (h : ∀ c ∈ columns, c.2.length = batch.numRows) :
    Meets
      (fun batch' => batch'.numRows = batch.numRows ∧ ∀ name, batch'.column name
        = ((columns.find? fun c => c.1 == name).map (·.2)).or (batch.column name))
      errors (replaceOrAppendColumns batch columns) := by
  cases hresult : replaceOrAppendColumns batch columns with
  | ok batch' =>
    exact ⟨numRows_replaceOrAppendColumns hresult, column_replaceOrAppendColumns hresult⟩
  | error e =>
    unfold replaceOrAppendColumns at hresult
    split at hresult
    · cases hresult
    · refine absurd hresult ?_
      rw [tryNew, dif_pos]
      · exact nofun
      · intro column hcolumn
        rcases mem_append.mp hcolumn with hkept | happended
        · obtain ⟨field, hfield, rfl⟩ := mem_map.mp hkept
          cases hfound : columns.find? fun c => field.1 == c.1 with
          | none => exact batch.lengths field hfield
          | some c => exact h c (mem_of_find?_eq_some hfound)
        · exact h column (mem_filter.mp happended).1

/-- The errors that remain when the totals agree: strings and offsets
that do not fit in the 32 bits of a view. -/
def viewSizeErrors : List String :=
  [ "source metadata string is too large for Utf8View"
  , "CRI timestamp string offset is too large for Utf8View"
  , "CRI timestamp string is too large for Utf8View" ]

variable {values : List (Option Bytes)}

theorem finishStringMetadataArray_eq (h : values.length = numRows) :
    finishStringMetadataArray values numRows = .ok (.utf8View values) := by
  rw [finishStringMetadataArray, if_neg (not_not.mpr h)]

-- == source metadata

/-- The path of a source, as it is attached. -/
def pathOf (sourcePaths : BTreeMap SourceId String) (sourceId : Option SourceId) :
    Option Bytes :=
  (sourceId.bind fun sid => sourcePaths[sid]?).map fun path => path.toUTF8.toList

theorem spanPaths_meets (sourcePaths : BTreeMap SourceId String) (span : RowOriginSpan) :
    Meets (· = List.replicate span.rows (pathOf sourcePaths span.sourceId)) (· ∈ viewSizeErrors)
      (spanPaths sourcePaths span) := by
  rw [spanPaths, pathOf]
  cases span.sourceId.bind fun sid => sourcePaths[sid]? with
  | none => exact rfl
  | some path =>
    refine ite (fun _ => ?_) fun _ => rfl
    exact mem_cons_self

variable {rowOrigins : List RowOriginSpan}

/-- The path column has the path of every row's source. -/
theorem sourcePathMetadataArray_meets (htotal : (rowOrigins.map (·.rows)).sum = numRows)
    (sourcePaths : BTreeMap SourceId String) :
    Meets (· = .utf8View ((rowSources rowOrigins).map (pathOf sourcePaths)))
      (· ∈ viewSizeErrors) (sourcePathMetadataArray numRows rowOrigins sourcePaths) := by
  refine bind (mapM fun span _ => spanPaths_meets sourcePaths span) ?_
  intro paths hpaths
  have hflat : paths.flatten = (rowSources rowOrigins).map (pathOf sourcePaths) := by
    rw [hpaths, rowSources, Spans.expand, map_flatMap, flatMap_def]
    simp only [map_replicate]
  rw [hflat, finishStringMetadataArray_eq (by rw [length_map, length_rowSources, htotal])]
  exact rfl

/-- What attaching source metadata gives: the ids and the paths of the
spans, row by row, and every other column as it was. -/
structure SourceAttached (batch : RecordBatch) (rowOrigins : List RowOriginSpan)
    (sourcePaths : BTreeMap SourceId String) (plan : SourceMetadataPlan)
    (attached : RecordBatch) : Prop where
  numRows : attached.numRows = batch.numRows
  ids : plan.hasSourceId = true →
    attached.column sourceIdName = some (.uint64 (rowSources rowOrigins))
  paths : ∀ name, plan.sourcePath.toColumnName = some name →
    attached.column name = some (.utf8View ((rowSources rowOrigins).map (pathOf sourcePaths)))
  others : ∀ name, name ≠ sourceIdName → plan.sourcePath.toColumnName ≠ some name →
    attached.column name = batch.column name

variable {name : String}

theorem pathColumn_ne {column : SourcePathColumn}
    (h : column.toColumnName = some name) : sourceIdName ≠ name := by
  cases column <;> cases h <;> decide

/-- The columns that a plan attaches. -/
def sourceColumns (rowOrigins : List RowOriginSpan) (sourcePaths : BTreeMap SourceId String)
    (plan : SourceMetadataPlan) : List (String × Column) :=
  (if plan.hasSourceId then [(sourceIdName, sourceIdMetadataArray rowOrigins)] else [])
    ++ (plan.sourcePath.toColumnName.map fun name =>
        (name, .utf8View ((rowSources rowOrigins).map (pathOf sourcePaths)))).toList

theorem length_sourceColumns
    (htotal : (rowOrigins.map (·.rows)).sum = numRows) (sourcePaths : BTreeMap SourceId String)
    (plan : SourceMetadataPlan) :
    ∀ c ∈ sourceColumns rowOrigins sourcePaths plan, c.2.length = numRows := by
  intro c hc
  rw [← htotal, ← length_rowSources]
  rcases mem_append.mp hc with hid | hpath
  · split at hid
    · rw [mem_singleton.mp hid]
      rfl
    · cases hid
  · obtain ⟨name, -, rfl⟩ := Option.map_eq_some_iff.mp (Option.mem_toList.mp hpath)
    exact length_map ..

variable {attached : RecordBatch}

/-- The attached columns are the plan's; the others stay. -/
theorem SourceAttached.of_columns {sourcePaths : BTreeMap SourceId String}
    {plan : SourceMetadataPlan} (hrows : attached.numRows = batch.numRows)
    (hcolumns : ∀ name, attached.column name
      = (((sourceColumns rowOrigins sourcePaths plan).find? fun c => c.1 == name).map (·.2)).or
          (batch.column name)) : SourceAttached batch rowOrigins sourcePaths plan attached := by
  refine ⟨hrows, fun hid => ?_, fun name hname => ?_, fun name hid hname => ?_⟩
  · rw [hcolumns, sourceColumns, if_pos hid]
    simp [sourceIdMetadataArray, rowSources, Spans.expand]
  · have hne := pathColumn_ne hname
    rw [hcolumns, sourceColumns, hname]
    split <;> simp [hne]
  · have habsent : (sourceColumns rowOrigins sourcePaths plan).find? (fun c => c.1 == name)
        = none := by
      rw [find?_eq_none]
      intro c hc hc'
      obtain rfl := beq_iff_eq.mp hc'
      rcases mem_append.mp hc with hmem | hmem
      · split at hmem
        · rw [mem_singleton.mp hmem] at hid
          exact hid rfl
        · cases hmem
      · obtain ⟨name', hname', rfl⟩ := Option.map_eq_some_iff.mp (Option.mem_toList.mp hmem)
        exact hname hname'
    rw [hcolumns, habsent]
    rfl

/-- Attaching source metadata when the totals agree. -/
theorem sourceMetadataForBatch_meets (htotal : (rowOrigins.map (·.rows)).sum = batch.numRows)
    (sourcePaths : BTreeMap SourceId String) (plan : SourceMetadataPlan) :
    Meets (SourceAttached batch rowOrigins sourcePaths plan) (· ∈ viewSizeErrors)
      (sourceMetadataForBatch batch rowOrigins sourcePaths plan) := by
  have hattached : Meets (SourceAttached batch rowOrigins sourcePaths plan) (· ∈ viewSizeErrors)
      (replaceOrAppendColumns batch (sourceColumns rowOrigins sourcePaths plan)) :=
    (replaceOrAppendColumns_meets (length_sourceColumns htotal sourcePaths plan)).mono
      fun _ h => .of_columns h.1 h.2
  refine ite (fun hnone => ?_) fun _ => ?_
  · simp only [SourceMetadataPlan.hasAny, SourceMetadataPlan.hasSourcePath, Bool.not_eq_true',
      Bool.or_eq_false_iff, bne_eq_false_iff_eq] at hnone
    refine .of_columns rfl fun name => ?_
    rw [sourceColumns, hnone.1, hnone.2]
    rfl
  · refine ite (fun h => absurd htotal h) fun _ => ?_
    unfold sourceColumns at hattached
    cases hname : plan.sourcePath.toColumnName with
    | none =>
      rw [hname] at hattached
      exact hattached
    | some name =>
      rw [hname] at hattached
      refine bind (sourcePathMetadataArray_meets htotal sourcePaths) ?_
      intro array harray
      rw [harray]
      exact hattached

-- == CRI metadata

/-- The row that a sidecar value becomes. -/
def rowStrings (value : CriMetadata.RowValue) : Option Bytes × Option Bytes :=
  (value.map (·.1), value.map fun v => streamText v.2)

variable {m : CriMetadata}

theorem criSpanRows_meets {span : CriMetadataSpan}
    (h : CriMetadata.SpanSound m.timestampBytes m.hasValues span) :
    Meets (· = List.replicate span.rows (rowStrings (CriMetadata.spanValue m.timestampBytes span)))
      (· ∈ viewSizeErrors) (criSpanRows m.timestampBytes span) := by
  rw [criSpanRows, CriMetadata.spanValue]
  cases hvalues : span.values with
  | none => exact rfl
  | some values =>
    obtain ⟨hrange, hutf8, -⟩ := h values hvalues
    dsimp only
    rw [if_neg (by simp [hrange, hutf8])]
    refine ite (fun _ => rfl) fun hlong => ?_
    refine ite (fun _ => by simp [viewSizeErrors]) fun _ => ?_
    refine ite (fun _ => by simp [viewSizeErrors]) fun _ => ?_
    refine ite (fun hempty => ?_) fun _ => rfl
    -- a timestamp of more than twelve bytes lies in the buffer
    rw [isEmpty_iff.mp hempty, length_nil] at hrange
    omega

/-- The two arrays of a sound sidecar. -/
theorem criMetadataArrays_meets (h : m.Sound) (hrows : m.rows = numRows) :
    Meets
      (· = (.utf8View (m.rowValues.map fun v => (rowStrings v).1),
        .utf8View (m.rowValues.map fun v => (rowStrings v).2)))
      (· ∈ viewSizeErrors) (criMetadataArrays numRows m) := by
  refine bind (mapM fun span hspan => criSpanRows_meets (h.spans span hspan)) ?_
  intro rows hrows'
  have hflat : rows.flatten = m.rowValues.map rowStrings := by
    rw [hrows', CriMetadata.rowValues, Spans.expand, map_flatMap, flatMap_def]
    simp only [map_replicate]
  have hlength : rows.flatten.length = numRows := by
    rw [hflat, length_map, h.length_rowValues, hrows]
  rw [finishStringMetadataArray_eq (by rw [length_map, hlength]),
    finishStringMetadataArray_eq (by rw [length_map, hlength]), hflat, map_map,
    map_map]
  exact rfl

/-- What attaching a sidecar gives: in the timestamp and the stream
column its value for the row or, where it has none, the one before. -/
structure CriAttached (batch : RecordBatch) (m : CriMetadata) (attached : RecordBatch) :
    Prop where
  timestamps : ∀ i v, m.rowValues[i]? = some v →
    attached.stringAt timestampName i
      = (rowStrings v).1.or (batch.stringAt timestampName i)
  streams : ∀ i v, m.rowValues[i]? = some v →
    attached.stringAt streamName i = (rowStrings v).2.or (batch.stringAt streamName i)
  others : ∀ name, name ≠ timestampName → name ≠ streamName →
    attached.column name = batch.column name

variable {column : Column}

theorem length_column (h : batch.column name = some column) : column.length = batch.numRows := by
  obtain ⟨c, hc, rfl⟩ := Option.map_eq_some_iff.mp h
  exact batch.lengths c (mem_of_find?_eq_some hc)

theorem length_stringViewArray
    (h : stringViewArray column = some values) : values.length = column.length := by
  cases column <;> cases h <;> rfl

variable {sidecar : List (Option Bytes)}

theorem length_overlayExistingStringValues (h : sidecar.length = batch.numRows) (name : String) :
    (overlayExistingStringValues batch name sidecar).length = batch.numRows := by
  unfold overlayExistingStringValues
  split
  next => exact h
  next existing hexisting =>
    split
    next values hvalues =>
      rw [length_zipWith, length_stringViewArray hvalues, length_column hexisting, h, min_self]
    next => exact h

variable {i : Nat}

/-- A row of the overlay: the sidecar's value, or the one before. -/
theorem getElem?_overlayExistingStringValues (h : sidecar.length = batch.numRows)
    {v : Option Bytes} (hv : sidecar[i]? = some v) :
    (overlayExistingStringValues batch name sidecar)[i]?.join = v.or (batch.stringAt name i) := by
  unfold overlayExistingStringValues stringAt
  cases hexisting : batch.column name with
  | none => simp [hv]
  | some existing =>
    dsimp only [Option.bind_some]
    cases hvalues : stringViewArray existing with
    | none => simp [hv]
    | some values =>
      have hlt : i < values.length := by
        rw [length_stringViewArray hvalues, length_column hexisting, ← h]
        exact (List.getElem?_eq_some_iff.mp hv).1
      simp [getElem?_zipWith, hv, getElem?_eq_getElem hlt]

variable {v : CriMetadata.RowValue}

/-- A sidecar that is not flagged has no values. -/
theorem rowValues_eq_none (h : m.Sound) (hflag : m.hasValues = false)
    (hv : m.rowValues[i]? = some v) : v = none := by
  obtain ⟨span, hspan, hmem⟩ := mem_flatMap.mp (mem_of_getElem? hv)
  have hvalue := eq_of_mem_replicate hmem
  cases hvalues : span.values with
  | none =>
    rw [hvalue, CriMetadata.spanValue, hvalues]
    rfl
  | some w =>
    have hflagged := (h.spans span hspan w hvalues).flagged
    rw [hflag] at hflagged
    cases hflagged

/-- The columns that a sidecar attaches. -/
def criColumns (batch : RecordBatch) (m : CriMetadata) (needsTimestamp needsStream : Bool) :
    List (String × Column) :=
  (if needsTimestamp then
      [(timestampName, .utf8View (overlayExistingStringValues batch timestampName
        (m.rowValues.map fun v => (rowStrings v).1)))]
    else [])
    ++ (if needsStream then
      [(streamName, .utf8View (overlayExistingStringValues batch streamName
        (m.rowValues.map fun v => (rowStrings v).2)))]
    else [])

theorem length_criColumns
    (h : m.rowValues.length = batch.numRows) (needsTimestamp needsStream : Bool) :
    ∀ c ∈ criColumns batch m needsTimestamp needsStream, c.2.length = batch.numRows := by
  intro c hc
  rcases mem_append.mp hc with hmem | hmem
  all_goals
    split at hmem
    · rw [mem_singleton.mp hmem]
      exact length_overlayExistingStringValues (by rw [length_map, h]) _
    · cases hmem

variable (h : m.Sound) (hrows : m.rows = batch.numRows)

include h hrows

/-- Rows of a column that is attached as an overlay, or left as it is
because the sidecar has no values. -/
theorem stringAt_overlaid {needed : Bool}
    (text : CriMetadata.RowValue → Option Bytes) (htext : text none = none)
    (hneeded : m.hasValues → needed)
    (hcolumn : attached.column name = if needed then
          some (.utf8View (overlayExistingStringValues batch name (m.rowValues.map text)))
        else batch.column name)
    (hv : m.rowValues[i]? = some v) :
    attached.stringAt name i = (text v).or (batch.stringAt name i) := by
  cases hflag : needed with
  | true =>
    rw [hflag] at hcolumn
    have hlength : (m.rowValues.map text).length = batch.numRows := by
      rw [length_map, h.length_rowValues, hrows]
    have hvalue : (m.rowValues.map text)[i]? = some (text v) := by
      rw [getElem?_map, hv]
      rfl
    rw [← getElem?_overlayExistingStringValues hlength hvalue, stringAt, hcolumn]
    rfl
  | false =>
    have hunflagged : m.hasValues = false := by
      cases hvalues : m.hasValues with
      | false => rfl
      | true =>
        rw [hneeded hvalues] at hflag
        cases hflag
    rw [hflag] at hcolumn
    rw [rowValues_eq_none h hunflagged hv, htext, stringAt, hcolumn]
    rfl

theorem CriAttached.of_columns {needsTimestamp needsStream : Bool}
    (htimestamp : m.hasValues → needsTimestamp)
    (hstream : m.hasValues → needsStream)
    (hcolumns : ∀ name, attached.column name
      = (((criColumns batch m needsTimestamp needsStream).find? fun c => c.1 == name).map
          (·.2)).or (batch.column name)) : CriAttached batch m attached := by
  have hne : timestampName ≠ streamName := by decide
  refine ⟨fun i v hv => ?_, fun i v hv => ?_, fun name ht hs => ?_⟩
  · refine stringAt_overlaid h hrows (fun v => (rowStrings v).1) rfl htimestamp ?_ hv
    rw [hcolumns, criColumns]
    cases needsTimestamp <;> cases needsStream <;> simp [hne.symm]
  · refine stringAt_overlaid h hrows (fun v => (rowStrings v).2) rfl hstream ?_ hv
    rw [hcolumns, criColumns]
    cases needsTimestamp <;> cases needsStream <;> simp [hne]
  · rw [hcolumns, criColumns]
    cases needsTimestamp <;> cases needsStream <;> simp [ht.symm, hs.symm]

/-- Attaching a sound sidecar when the totals agree. -/
theorem criMetadataForBatch_meets :
    Meets (CriAttached batch m) (· ∈ viewSizeErrors) (criMetadataForBatch batch (some m)) := by
  have hlength : m.rowValues.length = batch.numRows := by rw [h.length_rowValues, hrows]
  refine ite (fun hne => absurd hrows hne) fun _ => ?_
  have ht : m.hasValues = true → (m.hasValues || (batch.column timestampName).isNone) = true := by
    intro hflag
    rw [hflag, Bool.true_or]
  have hs : m.hasValues = true → (m.hasValues || (batch.column streamName).isNone) = true := by
    intro hflag
    rw [hflag, Bool.true_or]
  have hresult : Meets (CriAttached batch m) (· ∈ viewSizeErrors) _ :=
    (replaceOrAppendColumns_meets (length_criColumns hlength _ _)).mono
      fun _ hresult => .of_columns h hrows ht hs hresult.2
  generalize (m.hasValues || (batch.column timestampName).isNone) = needsTimestamp at ht hresult ⊢
  generalize (m.hasValues || (batch.column streamName).isNone) = needsStream at hs hresult ⊢
  refine ite (fun hneither => ?_) fun _ => ?_
  · simp only [Bool.and_eq_true, Bool.not_eq_true'] at hneither
    refine .of_columns h hrows ht hs fun name => ?_
    rw [hneither.1, hneither.2]
    rfl
  · refine bind (criMetadataArrays_meets h hrows) ?_
    rintro _ rfl
    cases needsTimestamp <;> cases needsStream <;> exact hresult

omit h hrows

-- == batches of a filtered scan

/-- The sidecars of a buffer: their totals are the rows it has when
nothing filters. -/
structure Sidecars (buf : Bytes) where
  rowOrigins : List RowOriginSpan
  sourcePaths : BTreeMap SourceId String
  originRows : (rowOrigins.map (·.rows)).sum = scannerReadyRowCount buf
  criMetadata : CriMetadata
  sound : criMetadata.Sound
  criRows : criMetadata.rows = scannerReadyRowCount buf

/-- A batch that a scan of the buffer made: a row for each row of the
scan. -/
structure ScannedBatch {F : Type} [FloatOps F] (config : ScanConfig F) (buf : Bytes) extends
    RecordBatch where
  scanned : numRows = (rowsOf (scanStreaming buf config)).length

/-- The attaching steps of `cpu_worker_loop`. -/
def attachSidecars {buf : Bytes} (sidecars : Sidecars buf) (plan : SourceMetadataPlan)
    (batch : RecordBatch) : Except String RecordBatch := do
  let batch ← sourceMetadataForBatch batch sidecars.rowOrigins sidecars.sourcePaths plan
  criMetadataForBatch batch (some sidecars.criMetadata)

/-- A row of an attached batch has the metadata of a record: its source,
that source's path, and its timestamp and stream. -/
structure RowOfRecord {buf : Bytes} (sidecars : Sidecars buf) (plan : SourceMetadataPlan)
    (batch attached : RecordBatch) (i k : Nat) : Prop where
  sourceId : plan.hasSourceId = true →
    attached.idAt sourceIdName i = (rowSources sidecars.rowOrigins)[k]?.join
  sourcePath : ∀ name, plan.sourcePath.toColumnName = some name →
    attached.stringAt name i
      = (rowSources sidecars.rowOrigins)[k]?.bind (pathOf sidecars.sourcePaths)
  timestamp : attached.stringAt timestampName i
    = (rowStrings sidecars.criMetadata.rowValues[k]?.join).1.or
        (batch.stringAt timestampName i)
  stream : attached.stringAt streamName i
    = (rowStrings sidecars.criMetadata.rowValues[k]?.join).2.or
        (batch.stringAt streamName i)

/-- Where the batch has the sidecars' rows, row `i` gets the metadata of
record `i`. -/
theorem attachSidecars_meets {buf : Bytes} (sidecars : Sidecars buf) (plan : SourceMetadataPlan)
    (hrows : batch.numRows = scannerReadyRowCount buf) :
    Meets
      (fun attached => ∀ i < scannerReadyRowCount buf, RowOfRecord sidecars plan batch attached i i)
      (· ∈ viewSizeErrors) (attachSidecars sidecars plan batch) := by
  refine bind (sourceMetadataForBatch_meets
    (by rw [sidecars.originRows, hrows]) sidecars.sourcePaths plan) ?_
  intro sourced hsourced
  have hcriRows : sidecars.criMetadata.rows = sourced.numRows := by
    rw [sidecars.criRows, hsourced.numRows, hrows]
  refine (criMetadataForBatch_meets sidecars.sound hcriRows).mono ?_
  intro attached hattached i hi
  have hvalue : sidecars.criMetadata.rowValues[i]?
      = some sidecars.criMetadata.rowValues[i]?.join := by
    have hlt : i < sidecars.criMetadata.rowValues.length := by
      rw [sidecars.sound.length_rowValues, sidecars.criRows]
      exact hi
    rw [getElem?_eq_getElem hlt]
    rfl
  -- the columns of one sidecar are none of the other's
  have hkept : ∀ name, name = timestampName ∨ name = streamName →
      sourced.stringAt name i = batch.stringAt name i := by
    intro name hname
    have hother : sourced.column name = batch.column name := by
      refine hsourced.others name ?_ ?_
      · rcases hname with rfl | rfl <;> decide
      · rcases hname with rfl | rfl <;> cases plan.sourcePath <;> decide
    rw [stringAt, stringAt, hother]
  refine ⟨fun hid => ?_, fun name hname => ?_, ?_, ?_⟩
  · rw [idAt, hattached.others sourceIdName (by decide) (by decide), hsourced.ids hid]
  · have hother : attached.column name = sourced.column name := by
      refine hattached.others name ?_ ?_
      all_goals
        rintro rfl
        revert hname
        cases plan.sourcePath <;> decide
    rw [stringAt, hother, hsourced.paths name hname]
    cases hsource : (rowSources sidecars.rowOrigins)[i]? <;> simp [stringViewArray, hsource]
  · rw [← hkept timestampName (.inl rfl)]
    exact hattached.timestamps i _ hvalue
  · rw [← hkept streamName (.inr rfl)]
    exact hattached.streams i _ hvalue

section Filtered

variable {F : Type} [FloatOps F] (config : ScanConfig F) (p : ScanPredicate F) (buf : Bytes)

/-- The records a filtered scan makes rows of, by their numbers. -/
def keptRecords : List Nat :=
  ((bufferRecords buf).zipIdx.filter fun r => keepsRow (config.pushed p) p r.1.1 r.1.2).map
    (·.2)

/-- The predicate rejects no record of the buffer. -/
def KeepsAll : Prop :=
  ∀ r ∈ bufferRecords buf, keepsRow (config.pushed p) p r.1 r.2 = true

theorem length_rowsOf_scanStreaming_pushed :
    (rowsOf (scanStreaming buf (config.pushed p))).length
      = (bufferRecords buf).countP fun r => keepsRow (config.pushed p) p r.1 r.2 := by
  rw [scanStreaming_bufferRecords, rowsOf_filtered (config.pushed p) rfl, length_map,
    countP_eq_length_filter]

variable {config p buf}

/-- With nothing rejected, row `i` is made of record `i`. -/
theorem keptRecords_of_keepsAll (h : KeepsAll config p buf) :
    keptRecords config p buf = List.range (scannerReadyRowCount buf) := by
  have hfilter : (bufferRecords buf).zipIdx.filter
      (fun r => keepsRow (config.pushed p) p r.1.1 r.1.2) = (bufferRecords buf).zipIdx := by
    refine filter_eq_self.mpr fun r hr => h r.1 ?_
    exact mem_of_getElem? (mem_zipIdx_iff_getElem?.mp hr)
  rw [keptRecords, hfilter, ← length_bufferRecords, range_eq_range']
  exact zipIdx_map_snd 0 (bufferRecords buf)

variable (config p buf) in
/-- The sidecars fit a scanned batch: it has their number of rows,
attaching them fails for nothing but the size of a string, and each row
gets the metadata of the record it was made of. -/
structure SidecarsFit (sidecars : Sidecars buf) (plan : SourceMetadataPlan)
    (batch : RecordBatch) : Prop where
  rows : batch.numRows = scannerReadyRowCount buf
  attaches : Meets
    (fun attached => ∀ i k, (keptRecords config p buf)[i]? = some k →
      RowOfRecord sidecars plan batch attached i k)
    (· ∈ viewSizeErrors) (attachSidecars sidecars plan batch)

/-- **Sidecars of a filtered scan.** The sidecars fit the scanned batch
if and only if the predicate rejects no record of the buffer. -/
theorem sidecarsFit_iff_keepsAll (sidecars : Sidecars buf) (plan : SourceMetadataPlan)
    (batch : ScannedBatch (config.pushed p) buf) :
    SidecarsFit config p buf sidecars plan batch.toRecordBatch ↔ KeepsAll config p buf := by
  have hcount : batch.numRows = scannerReadyRowCount buf ↔ KeepsAll config p buf := by
    rw [batch.scanned, length_rowsOf_scanStreaming_pushed, ← length_bufferRecords, countP_eq_length]
    rfl
  constructor
  · intro h
    exact hcount.mp h.rows
  · intro h
    refine ⟨hcount.mpr h, (attachSidecars_meets sidecars plan (hcount.mpr h)).mono ?_⟩
    intro attached hattached i k hk
    rw [keptRecords_of_keepsAll h] at hk
    obtain ⟨hlt, rfl⟩ := List.getElem?_eq_some_iff.mp hk
    rw [length_range] at hlt
    rw [getElem_range]
    exact hattached i hlt

end Filtered

/-- The line `{"a":1}`. -/
def filteredLine : Bytes := [0x7b, 0x22, 0x61, 0x22, 0x3a, 0x31, 0x7d, 0x0a]

/-- Its sidecars: one row of source 1, without CRI values. -/
def filteredSidecars : Sidecars filteredLine where
  rowOrigins := [⟨some 1, "in", 1⟩]
  sourcePaths := ∅
  originRows := by decide +kernel
  criMetadata := CriMetadata.empty.appendNullRows 1
  sound := CriMetadata.Sound.empty.appendNullRows 1
  criRows := by decide +kernel

/-- The batch of a scan for `a IS NULL`: it has no rows. -/
def filteredBatch : ScannedBatch
    ((ScanConfig.default : ScanConfig Int).pushed (.isNull [0x61] false)) filteredLine where
  numRows := 0
  columns := []
  lengths := fun _ h => absurd h not_mem_nil
  scanned := by decide +kernel

/-- A predicate `a IS NULL` rejects the only line `{"a":1}`, and attaching its
source metadata fails. -/
theorem filteredLine_not_fit :
    attachSidecars filteredSidecars ⟨true, .none⟩ filteredBatch.toRecordBatch
        = .error (sourceRowCountMismatch 1 0)
      ∧ ¬ SidecarsFit (ScanConfig.default : ScanConfig Int) (.isNull [0x61] false)
          filteredLine filteredSidecars ⟨true, .none⟩ filteredBatch.toRecordBatch := by
  refine ⟨rfl, fun h => ?_⟩
  have hrows := h.rows
  revert hrows
  decide +kernel

end FastForward.Runtime
