/-
The columnar builder behind the scanner (`streaming_builder/mod.rs`,
`columnar/row_protocol.rs`).

Every field of a batch has a slot. Values go into the slot with their
row, strings as views: an offset and a length, counted through the input
buffer and then on through the buffer of decoded strings. A field takes
one value per row, the first: for the first 64 slots a bit mask tells,
for the others the row that the slot was last written in.

# Panics

`none` is a panic. The debug assertions on the call sequence count as
such. A slice is where it starts in the input buffer and its length;
whether it lies within the buffer is what `offset_of` asserts.
-/
import FastForward.Core.Lossy
import FastForward.Core.ScanConfig
import FastForward.Core.Structural

namespace FastForward.Arrow

open Core

/-- `u32::MAX`. -/
def u32Max : Nat := 4294967295

/-- A slice of the input buffer. -/
structure Slice where
  start : Nat
  len : Nat
  deriving DecidableEq

/-- The text of a slice. -/
def Slice.bytes (buf : Bytes) (s : Slice) : Bytes := slice buf s.start (s.start + s.len)

-- == row lifecycle

/-- Which calls a builder takes. -/
inductive BuilderState
  | idle
  | inBatch
  | inRow
  deriving DecidableEq, Repr

/-- `RowLifecycle`: the state of the row protocol. -/
structure RowLifecycle where
  state : BuilderState
  /-- Rows ended in the batch. -/
  rowCount : Nat
  /-- The fields below 64 written in the row. -/
  writtenBits : U64
  lineWrittenThisRow : Bool
  deriving DecidableEq

namespace RowLifecycle

/-- Before the first batch. -/
def new : RowLifecycle :=
  { state := .idle, rowCount := 0, writtenBits := 0#64, lineWrittenThisRow := false }

/-- A batch may not begin inside a row. -/
def beginBatch (l : RowLifecycle) : Option RowLifecycle :=
  if l.state = .inRow then none
  else some { l with state := .inBatch, rowCount := 0, writtenBits := 0#64 }

/-- A row begins inside a batch. -/
def beginRow (l : RowLifecycle) : Option RowLifecycle :=
  if l.state ≠ .inBatch then none
  else some { l with state := .inRow, writtenBits := 0#64, lineWrittenThisRow := false }

/-- Only a row that was begun can end. -/
def endRow (l : RowLifecycle) : Option RowLifecycle :=
  if l.state ≠ .inRow then none
  else if l.rowCount = u32Max then none
  else some { l with state := .inBatch, rowCount := l.rowCount + 1 }

def finishBatch (l : RowLifecycle) : RowLifecycle := { l with state := .idle }

end RowLifecycle

/-- Has the field been written in the row? If it had not, it is now; fields
from 64 on are not tracked. -/
def checkDupBits (writtenBits : U64) (idx : Nat) : Bool × U64 :=
  if 64 ≤ idx then (false, writtenBits)
  else
    let bit := 1#64 <<< idx
    if writtenBits &&& bit ≠ 0#64 then (true, writtenBits) else (false, writtenBits ||| bit)

-- == fields

/-- A string value: its row, offset and length. -/
structure StrView where
  row : Nat
  offset : Nat
  len : Nat
  deriving DecidableEq

variable {F : Type}

/-- What a field has got, by type. -/
structure FieldColumns (F : Type) where
  name : Bytes
  strViews : List StrView
  intValues : List (Nat × Int)
  floatValues : List (Nat × F)
  boolValues : List (Nat × Bool)
  hasStr : Bool
  hasInt : Bool
  hasFloat : Bool
  hasBool : Bool
  /-- The row that the field was last written in, from 64 on. -/
  lastRow : Nat

namespace FieldColumns

/-- A field without values. -/
def new (name : Bytes) : FieldColumns F :=
  { name, strViews := [], intValues := [], floatValues := [], boolValues := [],
    hasStr := false, hasInt := false, hasFloat := false, hasBool := false, lastRow := u32Max }

/-- A slot is reused under another name. -/
def clear (fc : FieldColumns F) : FieldColumns F :=
  { fc with
    strViews := [], intValues := [], floatValues := [], boolValues := []
    hasStr := false, hasInt := false, hasFloat := false, hasBool := false, lastRow := u32Max }

/-- A view into the buffers. -/
def pushStr (offset len row : Nat) (fc : FieldColumns F) : FieldColumns F :=
  { fc with hasStr := true, strViews := fc.strViews ++ [{ row, offset, len }] }

def pushInt (v : Int) (row : Nat) (fc : FieldColumns F) : FieldColumns F :=
  { fc with hasInt := true, intValues := fc.intValues ++ [(row, v)] }

def pushFloat (v : F) (row : Nat) (fc : FieldColumns F) : FieldColumns F :=
  { fc with hasFloat := true, floatValues := fc.floatValues ++ [(row, v)] }

def pushBool (v : Bool) (row : Nat) (fc : FieldColumns F) : FieldColumns F :=
  { fc with hasBool := true, boolValues := fc.boolValues ++ [(row, v)] }

end FieldColumns

-- == builder

/-- `StreamingBuilder`. -/
structure StreamingBuilder (F : Type) where
  /-- The slots; those from `numActive` on are not in use. -/
  fields : List (FieldColumns F)
  fieldIndex : Bytes → Option Nat
  numActive : Nat
  lifecycle : RowLifecycle
  buf : Bytes
  decodedBuf : Bytes
  lineFieldName : Option Bytes
  lineViews : List (Nat × Nat)
  resourceAttrs : List (Str × Str)

namespace StreamingBuilder

/-- A builder before its first batch. -/
def new (lineFieldName : Option Bytes) : StreamingBuilder F :=
  { fields := [], fieldIndex := fun _ => none, numActive := 0, lifecycle := .new, buf := []
    decodedBuf := [], lineFieldName, lineViews := [], resourceAttrs := [] }

/-- Attributes become columns of every batch. -/
def setResourceAttributes (attrs : List (Str × Str)) (b : StreamingBuilder F) :
    StreamingBuilder F :=
  { b with resourceAttrs := attrs }

/-- Offsets are `u32`, so that a larger buffer is refused. -/
def beginBatch (buf : Bytes) (b : StreamingBuilder F) : Option (StreamingBuilder F) :=
  if u32Max < buf.length then none
  else
    b.lifecycle.beginBatch.map fun lifecycle =>
      { b with
        buf, lifecycle, decodedBuf := []
        fields := (b.fields.take b.numActive).map FieldColumns.clear ++ b.fields.drop b.numActive
        fieldIndex := fun _ => none
        numActive := 0
        lineViews := [] }

def beginRow (b : StreamingBuilder F) : Option (StreamingBuilder F) :=
  b.lifecycle.beginRow.map fun lifecycle => { b with lifecycle }

def endRow (b : StreamingBuilder F) : Option (StreamingBuilder F) :=
  b.lifecycle.endRow.map fun lifecycle => { b with lifecycle }

/-- The slot of a name, taken at its first use in the batch. -/
def resolveField (key : Bytes) (b : StreamingBuilder F) : Option (Nat × StreamingBuilder F) :=
  if b.lifecycle.state = .idle then none
  else
    match b.fieldIndex key with
    | some idx => some (idx, b)
    | none =>
      let idx := b.numActive
      let fields :=
        match b.fields[idx]? with
        -- the slot was cleared when the batch began
        | some fc => b.fields.set idx { fc with name := key }
        | none => b.fields ++ [FieldColumns.new key]
      some (idx,
        { b with
          fields, numActive := b.numActive + 1
          fieldIndex := fun k => if k = key then some idx else b.fieldIndex k })

-- ------------------------------------------------------------------- appends

/-- `self.lifecycle.written_bits_mut()`, after `check_dup_bits`. -/
def setWrittenBits (bits : U64) (b : StreamingBuilder F) : StreamingBuilder F :=
  { b with lifecycle := { b.lifecycle with writtenBits := bits } }

/-- Where a slice begins in the buffer it must be of. -/
def offsetOf (value : Slice) (b : StreamingBuilder F) : Option Nat :=
  if value.start + value.len ≤ b.buf.length then some value.start else none

/-- `last_row` of a field from 64 on. -/
def markRow (idx row : Nat) (fc : FieldColumns F) : FieldColumns F :=
  if 64 ≤ idx then { fc with lastRow := row } else fc

/-- Is the field one from 64 on that was written in this row? -/
def lastRowIsCurrent (idx : Nat) (b : StreamingBuilder F) : Option Bool :=
  if 64 ≤ idx then b.fields[idx]?.map fun fc => fc.lastRow == b.lifecycle.rowCount else some false

/-- `self.fields[idx]` is written in the current row. -/
def writeField (idx : Nat) (push : Nat → FieldColumns F → FieldColumns F)
    (b : StreamingBuilder F) : Option (StreamingBuilder F) :=
  b.fields[idx]?.map fun fc =>
    { b with
      fields := b.fields.set idx (push b.lifecycle.rowCount (markRow idx b.lifecycle.rowCount fc)) }

/-- What the string appends begin with: `store` is called for a field that
has not been written in the row. -/
def appendUnlessWritten (idx : Nat) (store : StreamingBuilder F → Option (StreamingBuilder F))
    (b : StreamingBuilder F) : Option (StreamingBuilder F) :=
  if b.lifecycle.state ≠ .inRow then none
  else
    let dup := checkDupBits b.lifecycle.writtenBits idx
    let b := b.setWrittenBits dup.2
    if dup.1 then some b
    else
      match b.lastRowIsCurrent idx with
      | none => none
      | some true => some b
      | some false => store b

/-- A view of the input; invalid UTF-8 is dropped. -/
def appendStrByIdx (idx : Nat) (value : Slice) (b : StreamingBuilder F) :
    Option (StreamingBuilder F) :=
  b.appendUnlessWritten idx fun b =>
    if !validUtf8 (value.bytes b.buf) then some b
    else if u32Max < value.len then some b
    else
      match b.offsetOf value with
      | none => none
      | some offset => b.writeField idx (FieldColumns.pushStr offset value.len)

/-- A copy behind the input; one that would not fit is dropped. -/
def appendDecodedStrInner (idx : Nat) (value : Bytes) (b : StreamingBuilder F) :
    Option (StreamingBuilder F) :=
  if u32Max < value.length then some b
  else if u32Max < b.decodedBuf.length then some b
  else if u32Max < b.buf.length + b.decodedBuf.length then some b
  else
    let offset := b.buf.length + b.decodedBuf.length
    { b with decodedBuf := b.decodedBuf ++ value }.writeField idx
      (FieldColumns.pushStr offset value.length)

/-- A decoded string is validated and copied. -/
def appendDecodedStrByIdx (idx : Nat) (value : Bytes) (b : StreamingBuilder F) :
    Option (StreamingBuilder F) :=
  b.appendUnlessWritten idx fun b =>
    if !validUtf8 value then some b else b.appendDecodedStrInner idx value

/-- A `&str` needs no validation. -/
def appendPrevalidatedStrByIdx (idx : Nat) (value : Str) (b : StreamingBuilder F) :
    Option (StreamingBuilder F) :=
  b.appendUnlessWritten idx fun b => b.appendDecodedStrInner idx value.bytes

/-- The appends of numbers and Booleans: a field that has not been written
in the row counts as written, whether or not `value` has something to
push. -/
def appendTyped {α : Type} (push : α → Nat → FieldColumns F → FieldColumns F) (idx : Nat)
    (value : Option α) (b : StreamingBuilder F) : Option (StreamingBuilder F) :=
  if b.lifecycle.state ≠ .inRow then none
  else
    let dup := checkDupBits b.lifecycle.writtenBits idx
    let b := b.setWrittenBits dup.2
    if dup.1 then some b
    else
      match b.fields[idx]? with
      | none => none
      | some fc =>
        if 64 ≤ idx ∧ fc.lastRow = b.lifecycle.rowCount then some b
        else b.writeField idx fun row fc => (value.map (push · row fc)).getD fc

/-- A text that is no `i64` pushes nothing. -/
def appendIntByIdx (idx : Nat) (value : Bytes) : StreamingBuilder F → Option (StreamingBuilder F) :=
  appendTyped FieldColumns.pushInt idx (parseIntFast value)

/-- A number that was parsed already. -/
def appendI64ValueByIdx (idx : Nat) (value : Int) :
    StreamingBuilder F → Option (StreamingBuilder F) :=
  appendTyped FieldColumns.pushInt idx (some value)

/-- A text that is no `f64` pushes nothing. -/
def appendFloatByIdx [FloatOps F] (idx : Nat) (value : Bytes) :
    StreamingBuilder F → Option (StreamingBuilder F) :=
  appendTyped FieldColumns.pushFloat idx (FloatOps.parse value)

def appendF64ValueByIdx (idx : Nat) (value : F) : StreamingBuilder F → Option
    (StreamingBuilder F) :=
  appendTyped FieldColumns.pushFloat idx (some value)

def appendBoolByIdx (idx : Nat) (value : Bool) : StreamingBuilder F → Option (StreamingBuilder F) :=
  appendTyped FieldColumns.pushBool idx (some value)

/-- A null is a gap; the field counts as written. -/
def appendNullByIdx (idx : Nat) (b : StreamingBuilder F) : Option (StreamingBuilder F) :=
  if b.lifecycle.state ≠ .inRow then none
  else
    (b.setWrittenBits (checkDupBits b.lifecycle.writtenBits idx).2).writeField idx fun _ fc => fc

/-- The line of the row, if lines are captured: the first one given, and
with its invalid sequences replaced. A line that does not fit is left
out. -/
def appendLine (line : Slice) (b : StreamingBuilder F) : Option (StreamingBuilder F) :=
  if b.lifecycle.state ≠ .inRow then none
  else if b.lineFieldName.isSome ∧ ¬ b.lifecycle.lineWrittenThisRow then
    let written := { b.lifecycle with lineWrittenThisRow := true }
    if validUtf8 (line.bytes b.buf) then
      if u32Max < line.len then some b
      else
        match b.offsetOf line with
        | none => none
        | some offset =>
          some { b with lineViews := b.lineViews ++ [(offset, line.len)], lifecycle := written }
    else
      let lossy := fromUtf8Lossy (line.bytes b.buf)
      if u32Max < lossy.length then some b
      else if u32Max < b.decodedBuf.length then some b
      else if u32Max < b.buf.length + b.decodedBuf.length then some b
      else
        let view := (b.buf.length + b.decodedBuf.length, lossy.length)
        some
          { b with
            decodedBuf := b.decodedBuf ++ lossy
            lineViews := b.lineViews ++ [view]
            lifecycle := written }
  else some b

end StreamingBuilder

-- == calls

/-- A value given to one of the `append_*_by_idx`. Slices of the buffer
are of type `σ`. -/
inductive Append (σ F : Type)
  | str (value : σ)
  | decodedStr (value : Bytes)
  | prevalidatedStr (value : Str)
  | int (value : Bytes)
  | i64Value (value : Int)
  | float (value : Bytes)
  | f64Value (value : F)
  | bool (value : Bool)
  | null

/-- An append, by its kind. -/
def StreamingBuilder.appendByIdx [FloatOps F] (idx : Nat) :
    Append Slice F → StreamingBuilder F → Option (StreamingBuilder F)
  | .str value => appendStrByIdx idx value
  | .decodedStr value => appendDecodedStrByIdx idx value
  | .prevalidatedStr value => appendPrevalidatedStrByIdx idx value
  | .int value => appendIntByIdx idx value
  | .i64Value value => appendI64ValueByIdx idx value
  | .float value => appendFloatByIdx idx value
  | .f64Value value => appendF64ValueByIdx idx value
  | .bool value => appendBoolByIdx idx value
  | .null => appendNullByIdx idx

/-- A call within a batch. A value is appended to a field, at the index
that `resolve_field` has returned for it. -/
inductive Call (σ F : Type)
  | beginRow
  | endRow
  | resolveField (key : Bytes)
  | append (key : Bytes) (value : Append σ F)
  | appendLine (line : σ)

/-- A builder, and the indices that it has returned in the batch. -/
structure Session (F : Type) where
  builder : StreamingBuilder F
  indices : Bytes → Option Nat

namespace Session

/-- A session before its first batch. -/
def new (lineFieldName : Option Bytes) : Session F :=
  { builder := .new lineFieldName, indices := fun _ => none }

/-- A batch on its buffer. -/
def beginBatch (buf : Bytes) (s : Session F) : Option (Session F) :=
  (s.builder.beginBatch buf).map fun builder => { builder, indices := fun _ => none }

/-- A call of the scanner. -/
def call [FloatOps F] (s : Session F) : Call Slice F → Option (Session F)
  | .beginRow => s.builder.beginRow.map ({ s with builder := · })
  | .endRow => s.builder.endRow.map ({ s with builder := · })
  | .resolveField key =>
    (s.builder.resolveField key).map fun (idx, builder) =>
      { builder, indices := fun k => if k = key then some idx else s.indices k }
  | .append key value =>
    match s.indices key with
    | none => none
    | some idx => (s.builder.appendByIdx idx value).map ({ s with builder := · })
  | .appendLine line => (s.builder.appendLine line).map ({ s with builder := · })

/-- The calls of a batch, one after the other. -/
def calls [FloatOps F] : Session F → List (Call Slice F) → Option (Session F)
  | s, [] => some s
  | s, c :: cs => (s.call c).bind (calls · cs)

end Session

end FastForward.Arrow
