/-
The two finalisers of the columnar builder
(`streaming_builder/finish.rs`): `finish_batch`, whose strings are views
into the buffers, and `finish_batch_detached`, which copies them.

They differ in how string arrays are made and in nothing else, so one
body is run with the string arrays of either (`StringArrays`). An Arrow
array is the list of its values, null as `none`; a view array is the
list of strings that its views show.

# Arrow

What the finalisers call of Arrow is a parameter (`ArrowOps`), with what
they rely on: `try_append_view` refuses a range that is not in its block
or is not UTF-8, and both places that call it expect that not to happen;
`append_block` asserts that a block is shorter than `u32::MAX`;
`StringBuilder` panics when its values come to more than `i32::MAX`
bytes; a batch has columns of one length.
-/
import FastForward.Arrow.StreamingBuilder

namespace FastForward.Arrow

open Core

variable {F : Type}

/-- A name in a message. -/
def text (name : Bytes) : String := String.ofList (lossyChars name)

/-- Why there is no batch. -/
inductive Failure
  /-- `ArrowError::InvalidArgumentError`, with its text. -/
  | invalidArgument (message : String)
  | panic (message : String)
  deriving DecidableEq

-- == batches

/-- The types that a field can be observed with, in the order of the
children of a conflict struct. -/
inductive Kind
  | int
  | float
  | str
  | bool
  deriving DecidableEq

def Kind.all : List Kind := [.int, .float, .str, .bool]

inductive Values (F : Type)
  | int64 (cells : List (Option Int))
  | float64 (cells : List (Option F))
  | utf8View (cells : List (Option Bytes))
  | utf8 (cells : List (Option Bytes))
  | boolean (cells : List (Option Bool))
  deriving DecidableEq

/-- Which rows are not null. -/
def Values.validity : Values F → List Bool
  | int64 cells => cells.map Option.isSome
  | float64 cells => cells.map Option.isSome
  | utf8View cells | utf8 cells => cells.map Option.isSome
  | boolean cells => cells.map Option.isSome

inductive Column (F : Type)
  | flat (values : Values F)
  /-- A conflict struct: a child for each type observed. -/
  | conflict (children : List (Kind × Values F)) (validity : List Bool)
  deriving DecidableEq

def Column.length : Column F → Nat
  | flat values => values.validity.length
  | conflict _ validity => validity.length

structure RecordBatch (F : Type) where
  numRows : Nat
  columns : List (Bytes × Column F)
  lengths : ∀ column ∈ columns, column.2.length = numRows

-- == typed cells

/-- The loop that puts values in their rows. -/
def scatter {α : Type} (numRows : Nat) (values : List (Nat × α)) : List (Option α) :=
  values.foldl (fun cells (row, v) => if row < numRows then cells.set row (some v) else cells)
    (List.replicate numRows none)

/-- The loop over the rows of a string column, from `row` on, with the
views that are left. -/
def viewsByRow : List StrView → Nat → Nat → List (Option (Nat × Nat))
  | _, _, 0 => []
  | [], row, n + 1 => none :: viewsByRow [] (row + 1) n
  | v :: views, row, n + 1 =>
    if v.row = row then some (v.offset, v.len) :: viewsByRow views (row + 1) n
    else none :: viewsByRow (v :: views) (row + 1) n

namespace FieldColumns

def has (fc : FieldColumns F) : Kind → Bool
  | .int => fc.hasInt
  | .float => fc.hasFloat
  | .str => fc.hasStr
  | .bool => fc.hasBool

def kinds (fc : FieldColumns F) : List Kind := Kind.all.filter fc.has

end FieldColumns

-- == string arrays

/-- How a finaliser makes the arrays of strings: of views, with the rows
that have none, and of a resource attribute. -/
structure StringArrays (F : Type) where
  ofViews : List (Option (Nat × Nat)) → Except Failure (Values F)
  ofLines : List (Nat × Nat) → Except Failure (Values F)
  ofConstant : Nat → Str × Str → Except Failure (Values F)

def i32Max : Nat := 2147483647

/-- The bytes that the values take after each other in one buffer. -/
def totalLen (cells : List (Option Bytes)) : Nat :=
  (cells.map fun cell => (cell.getD []).length).sum

/-- The part of Arrow that the finalisers use. -/
class ArrowOps where
  /-- `StringViewBuilder::append_block`. -/
  appendBlock : Bytes → Except Failure Unit
  /-- `StringViewBuilder::try_append_view`: the string shown. -/
  tryAppendView : Bytes → Nat → Nat → Except Failure Bytes
  /-- `StringBuilder`. -/
  stringBuilder {F : Type} : List (Option Bytes) → Except Failure (Values F)
  /-- `RecordBatch::try_new_with_options` with a row count. -/
  tryNew {F : Type} : List (Bytes × Column F) → Nat → Except Failure (RecordBatch F)
  appendBlock_ok : ∀ {block}, appendBlock block = .ok () ↔ block.length < u32Max
  tryAppendView_ok : ∀ {block offset len text}, tryAppendView block offset len = .ok text
    ↔ offset + len ≤ block.length ∧ slice block offset (offset + len) = text ∧ validUtf8 text
  stringBuilder_ok : ∀ {F} {cells} {values : Values F}, stringBuilder cells = .ok values
    ↔ totalLen cells ≤ i32Max ∧ values = .utf8 cells
  tryNew_ok : ∀ {F} {columns numRows} {batch : RecordBatch F}, tryNew columns numRows = .ok batch
    ↔ batch.numRows = numRows ∧ batch.columns = columns

open ArrowOps

/-- The arrow crate, with its messages. -/
instance arrowCrate : ArrowOps where
  appendBlock block :=
    if block.length < u32Max then .ok ()
    else .error (.panic "assertion failed: buffer.len() < u32::MAX as usize")
  tryAppendView block offset len :=
    if block.length < offset + len then
      .error (.invalidArgument
        s!"Range {offset}..{offset + len} out of bounds for block of length {block.length}")
    else if !validUtf8 (slice block offset (offset + len)) then
      .error (.invalidArgument "Invalid view data")
    else .ok (slice block offset (offset + len))
  stringBuilder cells :=
    if totalLen cells ≤ i32Max then .ok (.utf8 cells)
    else .error (.panic "byte array offset overflow")
  tryNew columns numRows :=
    if h : ∀ column ∈ columns, column.2.length = numRows then .ok ⟨numRows, columns, h⟩
    else
      .error (.invalidArgument "all columns in a record batch must have the specified row count")
  appendBlock_ok := by grind
  tryAppendView_ok := by grind
  stringBuilder_ok := by grind
  tryNew_ok := by
    intro F columns numRows batch
    split
    next h =>
      rw [Except.ok.injEq]
      constructor
      · rintro rfl
        exact ⟨rfl, rfl⟩
      · rintro ⟨rfl, rfl⟩
        rfl
    next h =>
      refine ⟨nofun, ?_⟩
      rintro ⟨rfl, rfl⟩
      exact absurd batch.lengths h

namespace StreamingBuilder

def appendStringView [ArrowOps] (b : StreamingBuilder F) (offset len : Nat) :
    Except Failure Bytes :=
  if offset < b.buf.length ∨ (len = 0 ∧ offset = b.buf.length) then
    tryAppendView b.buf offset len
  else if !b.decodedBuf.isEmpty then tryAppendView b.decodedBuf (offset - b.buf.length) len
  else
    .error (.invalidArgument
      s!"string view offset {offset} requires decoded buffer, but decoded buffer is absent")

def expect {α : Type} (message : String) : Except Failure α → Except Failure α
  | .ok a => .ok a
  | .error _ => .error (.panic message)

/-- The blocks of a string view array, the second one only if anything
was decoded. -/
def appendBlocks [ArrowOps] (b : StreamingBuilder F) : Except Failure Unit := do
  appendBlock b.buf
  if b.decodedBuf.isEmpty then pure () else appendBlock b.decodedBuf

/-- An array of lines has no blocks when there are none. -/
def lineBlocks [ArrowOps] (b : StreamingBuilder F) (lines : List (Nat × Nat)) :
    Except Failure Unit :=
  if lines.isEmpty then .ok () else b.appendBlocks

/-- A row of a string view array. -/
def viewCell [ArrowOps] (b : StreamingBuilder F) (message : String) :
    Option (Nat × Nat) → Except Failure (Option Bytes)
  | none => .ok none
  | some (offset, len) => (expect message (b.appendStringView offset len)).map some

def viewArrays [ArrowOps] (b : StreamingBuilder F) : StringArrays F where
  ofViews views := do
    b.appendBlocks
    let cells ← views.mapM
      (b.viewCell "offset/len pre-validated by offset_of and UTF-8 check")
    pure (.utf8View cells)
  ofLines lines := do
    b.lineBlocks lines
    let cells ← lines.mapM fun view =>
      b.viewCell "line view offset/len must be within buffer" (some view)
    pure (.utf8View cells)
  ofConstant := fun numRows (key, value) =>
    if numRows = 0 then .ok (.utf8View [])
    else if u32Max < value.bytes.length then
      .error (.invalidArgument
        s!"resource attribute value too large for Utf8View: {text key.bytes}")
    else do
      appendBlock value.bytes
      let cell ← expect "resource attr constant view must be valid"
        (tryAppendView value.bytes 0 value.bytes.length)
      pure (.utf8View (List.replicate numRows (some cell)))

def readStr (b : StreamingBuilder F) (offset len : Nat) : Option Bytes :=
  let stop := offset + len
  let bytes :=
    if b.decodedBuf.isEmpty ∨ offset < b.buf.length then
      if stop ≤ b.buf.length then some (slice b.buf offset stop) else none
    else
      let start := offset - b.buf.length
      let stop := stop - b.buf.length
      if stop ≤ b.decodedBuf.length then some (slice b.decodedBuf start stop) else none
  bytes.filter validUtf8

def detachedArrays [ArrowOps] (b : StreamingBuilder F) : StringArrays F where
  ofViews views := stringBuilder (views.map fun view => view.bind fun (offset, len) =>
    b.readStr offset len)
  ofLines lines := stringBuilder (lines.map fun (offset, len) => b.readStr offset len)
  ofConstant := fun numRows (_, value) => stringBuilder (List.replicate numRows (some value.bytes))

-- == columns

/-- The array of one type of a field. -/
def kindValues (arrays : StringArrays F) (numRows : Nat) (fc : FieldColumns F) :
    Kind → Except Failure (Values F)
  | .int => .ok (.int64 (scatter numRows fc.intValues))
  | .float => .ok (.float64 (scatter numRows fc.floatValues))
  | .str => arrays.ofViews (viewsByRow fc.strViews 0 numRows)
  | .bool => .ok (.boolean (scatter numRows fc.boolValues))

def reserveName (name : Bytes) (emitted : List Bytes) : Except Failure (List Bytes) :=
  if name ∈ emitted then
    .error (.invalidArgument s!"duplicate output column name: {text name}")
  else .ok (name :: emitted)

/-- Columns made so far, and the names reserved. -/
structure Emitted (F : Type) where
  columns : List (Bytes × Column F)
  names : List Bytes

/-- Rows in which some child is not null. -/
def anyValid (numRows : Nat) (children : List (Kind × Values F)) : List Bool :=
  (List.range numRows).map fun i => children.any fun child => child.2.validity.getD i false

/-- The column of a field, unless the captured line has its name or it has
no values. -/
def emitField (arrays : StringArrays F) (lineFieldName : Option Bytes) (numRows : Nat)
    (fc : FieldColumns F) (emitted : Emitted F) : Except Failure (Emitted F) :=
  let name := fromUtf8Lossy fc.name
  if lineFieldName = some name then .ok emitted
  else
    match fc.kinds with
    | [] => .ok emitted
    | [kind] => do
        let names ← reserveName name emitted.names
        let values ← kindValues arrays numRows fc kind
        pure { columns := emitted.columns ++ [(name, .flat values)], names }
    | kinds => do
        let children ← kinds.mapM fun kind => do
          let values ← kindValues arrays numRows fc kind
          pure (kind, values)
        let names ← reserveName name emitted.names
        pure
          { columns := emitted.columns ++ [(name, .conflict children (anyValid numRows children))]
            names }

/-- The column of the captured lines. -/
def emitLines (arrays : StringArrays F) (numRows : Nat) (b : StreamingBuilder F)
    (emitted : Emitted F) : Except Failure (Emitted F) :=
  match b.lineFieldName with
  | none => .ok emitted
  | some name =>
    if b.lineViews.length ≠ numRows then
      .error (.invalidArgument
        s!"line_views cardinality mismatch: {b.lineViews.length} views for {numRows} rows")
    else do
      let values ← arrays.ofLines b.lineViews
      pure { emitted with columns := emitted.columns ++ [(name, .flat values)] }

/-- `field_names::DEFAULT_RESOURCE_PREFIX`. -/
def defaultResourcePrefix : Bytes := "resource.attributes.".toUTF8.toList

def resourceColName (key : Bytes) : Bytes := defaultResourcePrefix ++ key

def emitResource (arrays : StringArrays F) (numRows : Nat) (attr : Str × Str)
    (emitted : Emitted F) : Except Failure (Emitted F) := do
  let name := resourceColName attr.1.bytes
  let names ← reserveName name emitted.names
  let values ← arrays.ofConstant numRows attr
  pure { columns := emitted.columns ++ [(name, .flat values)], names }

/-- `self.fields[..self.num_active]`. -/
def activeFields (b : StreamingBuilder F) : List (FieldColumns F) := b.fields.take b.numActive

def finishWith [ArrowOps] (arrays : StringArrays F) (b : StreamingBuilder F) :
    Except Failure (RecordBatch F) := do
  let numRows := b.lifecycle.rowCount
  let emitted ← b.activeFields.foldlM
    (fun emitted fc => emitField arrays b.lineFieldName numRows fc emitted)
    { columns := [], names := b.lineFieldName.toList }
  let emitted ← b.emitLines arrays numRows emitted
  let emitted ← b.resourceAttrs.foldlM
    (fun emitted attr => emitResource arrays numRows attr emitted) emitted
  tryNew emitted.columns numRows

def finishBatch [ArrowOps] (b : StreamingBuilder F) :
    Except Failure (RecordBatch F × StreamingBuilder F) :=
  if b.lifecycle.state ≠ .inBatch then
    .error (.panic "finish_batch called outside of a batch")
  else if u32Max < b.buf.length then
    .error (.invalidArgument "input buffer exceeds StringView offset range")
  else
    (b.finishWith b.viewArrays).map fun batch =>
      (batch, { b with lifecycle := b.lifecycle.finishBatch })

def finishBatchDetached [ArrowOps] (b : StreamingBuilder F) :
    Except Failure (RecordBatch F × StreamingBuilder F) :=
  if b.lifecycle.state ≠ .inBatch then
    .error (.panic "finish_batch_detached called outside of a batch")
  else
    (b.finishWith b.detachedArrays).map fun batch =>
      (batch, { b with lifecycle := b.lifecycle.finishBatch })

end StreamingBuilder

-- == runs

/-- What is done with a builder. -/
inductive Action (F : Type)
  | setResourceAttributes (attrs : List (Str × Str))
  | beginBatch (buf : Bytes)
  | call (c : Call Slice F)
  | finishBatch
  | finishBatchDetached

/-- The builder goes on as it is when a finaliser fails. -/
def Session.finished (s : Session F)
    (result : Except Failure (RecordBatch F × StreamingBuilder F)) : Session F :=
  match result with
  | .ok (_, builder) => { s with builder }
  | .error _ => s

def Session.step [FloatOps F] [ArrowOps] : Action F → Session F → Option (Session F)
  | .setResourceAttributes attrs, s =>
    some { s with builder := s.builder.setResourceAttributes attrs }
  | .beginBatch buf, s => s.beginBatch buf
  | .call c, s => s.call c
  | .finishBatch, s => some (s.finished s.builder.finishBatch)
  | .finishBatchDetached, s => some (s.finished s.builder.finishBatchDetached)

end FastForward.Arrow
