/-
What the table of a batch says of the calls that it was made from: the cell
of a field in a row is the first value given to the field in that row.

Read off the calls alone. Sheets, and the builder under them, come in only
where it is shown that they lead to these cells.
-/
import FastForward.Arrow.Contents

namespace FastForward.Arrow

open Core StreamingBuilder

variable {F : Type}

-- == calls

def rowsOf : List (Call Bytes F) → Nat
  | [] => 0
  | .endRow :: calls => rowsOf calls + 1
  | _ :: calls => rowsOf calls

/-- The values given to fields, each with its row, from `row` on. -/
def appends : Nat → List (Call Bytes F) → List (Nat × Bytes × Append Bytes F)
  | _, [] => []
  | row, .endRow :: calls => appends (row + 1) calls
  | row, .append key value :: calls => (row, key, value) :: appends row calls
  | row, _ :: calls => appends row calls

/-- The first line given in each row, with its invalid sequences replaced;
`seen` tells whether the current row has one. -/
def linesOf : Bool → List (Call Bytes F) → List Bytes
  | _, [] => []
  | _, .beginRow :: calls => linesOf false calls
  | false, .appendLine line :: calls => fromUtf8Lossy line :: linesOf true calls
  | seen, _ :: calls => linesOf seen calls

def firstAppend (calls : List (Call Bytes F)) (row : Nat) (key : Bytes) :
    Option (Append Bytes F) :=
  ((appends 0 calls).find? fun a => a.1 = row ∧ a.2.1 = key).map fun a => a.2.2

section Cells

variable [FloatOps F]

/-- The cell of a value: null for a null, and for a number that does not
parse. -/
def Append.cell : Append Bytes F → Option (Cell F)
  | .str text | .decodedStr text => some (.str text)
  | .prevalidatedStr text => some (.str text.bytes)
  | .int text => (parseIntFast text).map .int
  | .i64Value n => some (.int n)
  | .float text => (FloatOps.parse text).map .float
  | .f64Value x => some (.float x)
  | .bool b => some (.bool b)
  | .null => none

def cellOf (calls : List (Call Bytes F)) (row : Nat) (key : Bytes) : Option (Cell F) :=
  (firstAppend calls row key).bind Append.cell

/-- The cells of a field, a row each. -/
def cellsOf (calls : List (Call Bytes F)) (key : Bytes) : List (Option (Cell F)) :=
  (List.range (rowsOf calls)).map fun row => cellOf calls row key

end Cells

/-- String values are UTF-8. -/
def Call.ValidText : Call Bytes F → Prop
  | .append _ (.str text) | .append _ (.decodedStr text) => validUtf8 text = true
  | _ => True

/-- The length of the text that a call may have copied. -/
def Call.copied : Call Bytes F → Nat
  | .append _ (.decodedStr text) => text.length
  | .append _ (.prevalidatedStr text) => text.bytes.length
  | .appendLine line => if validUtf8 line then 0 else (fromUtf8Lossy line).length
  | _ => 0

-- == tables

/-- `column_by_name`. -/
def RecordBatch.column? (batch : RecordBatch F) (name : Bytes) : Option (Column F) :=
  batch.columns.lookup name

/-- The same values, with copies of the strings. -/
def Values.detached : Values F → Values F
  | utf8View cells => utf8 cells
  | values => values

def Column.detached : Column F → Column F
  | flat values => flat values.detached
  | conflict children validity =>
    conflict (children.map fun child => (child.1, child.2.detached)) validity

/-- The table that calls should come to: a column for each field, with the
cells of the field, and besides only the captured lines and the resource
attributes. -/
structure ShowsCalls [FloatOps F] (line : Option Bytes) (attrs : List (Str × Str))
    (calls : List (Call Bytes F)) (batch : RecordBatch F) : Prop where
  rows : batch.numRows = rowsOf calls
  cells : ∀ key, .resolveField key ∈ calls →
    batch.column? (fromUtf8Lossy key) = columnOf .utf8View (cellsOf calls key)
  lines : ∀ name, line = some name →
    batch.column? name = some (.flat (.utf8View ((linesOf false calls).map some)))
  names : ∀ column ∈ batch.columns,
    (∃ key, .resolveField key ∈ calls ∧ column.1 = fromUtf8Lossy key) ∨ line = some column.1
      ∨ ∃ attr ∈ attrs, column.1 = resourceColName attr.1.bytes

/-- Both finalisers make the table of the calls, one with views and one
with copies. -/
def CellSemantics [FloatOps F] [ArrowOps] (b : StreamingBuilder F) (calls : List (Call Bytes F)) :
    Prop :=
  ∃ batch b' detached b'', b.finishBatch = .ok (batch, b')
    ∧ ShowsCalls b.lineFieldName b.resourceAttrs calls batch
    ∧ b.finishBatchDetached = .ok (detached, b'')
    ∧ detached.numRows = batch.numRows
    ∧ detached.columns = batch.columns.map fun column => (column.1, column.2.detached)

-- == conditions

/-- No two columns get the same name. -/
structure NamesApart [FloatOps F] (line : Option Bytes) (attrs : List (Str × Str))
    (calls : List (Call Bytes F)) : Prop where
  fields : ∀ key other, .resolveField key ∈ calls → .resolveField other ∈ calls → key ≠ other →
    (∃ cell ∈ cellsOf calls key, cell.isSome) → fromUtf8Lossy key ≠ fromUtf8Lossy other
  fieldLine : ∀ key, .resolveField key ∈ calls → line ≠ some (fromUtf8Lossy key)
  fieldAttr : ∀ key, .resolveField key ∈ calls → ∀ attr ∈ attrs,
    fromUtf8Lossy key ≠ resourceColName attr.1.bytes
  lineAttr : ∀ attr ∈ attrs, line ≠ some (resourceColName attr.1.bytes)
  attrs : (attrs.map fun attr => attr.1.bytes).Nodup

/-- The strings of a batch fit in the offsets of its arrays. -/
structure StringsFit [FloatOps F] (bufLen : Nat) (line : Option Bytes) (attrs : List (Str × Str))
    (calls : List (Call Bytes F)) : Prop where
  copies : bufLen + (calls.map Call.copied).sum < u32Max
  cells : ∀ key, .resolveField key ∈ calls →
    totalLen ((cellsOf calls key).map (·.bind Cell.str?)) ≤ i32Max
  lines : line.isSome → totalLen ((linesOf false calls).map some) ≤ i32Max
  attrs : ∀ attr ∈ attrs, rowsOf calls * attr.2.bytes.length ≤ i32Max

end FastForward.Arrow
