/-
What the columnar builder is for: a sheet of cells, one for each field and
row. The first value given to a field in a row is its cell in that row.

A sheet knows nothing of slots, bit masks, views or buffers, and calls
reach it with the text of their slices. It does know when a string cannot
be kept: when it is not UTF-8, or when the decoded strings have used up
the 32 bits of an offset. Such a string counts as the value of its field
in the row for the first 64 fields and does not for the others, as in the
builder.
-/
import FastForward.Arrow.Finish

namespace FastForward.Arrow

open Core

variable {F : Type}

-- == cells

/-- What a field holds in a row. -/
inductive Cell (F : Type)
  | int (n : Int)
  | float (x : F)
  | str (text : Bytes)
  | bool (b : Bool)
  deriving DecidableEq

namespace Cell

/-- The column a cell is of. -/
def kind : Cell F → Kind
  | int _ => .int
  | float _ => .float
  | str _ => .str
  | bool _ => .bool

def int? : Cell F → Option Int
  | int n => some n
  | _ => none

def float? : Cell F → Option F
  | float x => some x
  | _ => none

def str? : Cell F → Option Bytes
  | str text => some text
  | _ => none

def bool? : Cell F → Option Bool
  | bool b => some b
  | _ => none

end Cell

/-- The cells of one type, in an array of that type; `enc` is the array of
strings. -/
def kindArray (enc : List (Option Bytes) → Values F) (cells : List (Option (Cell F))) :
    Kind → Values F
  | .int => .int64 (cells.map (·.bind Cell.int?))
  | .float => .float64 (cells.map (·.bind Cell.float?))
  | .str => enc (cells.map (·.bind Cell.str?))
  | .bool => .boolean (cells.map (·.bind Cell.bool?))

/-- Some row holds a cell of the type. -/
def HasKind (cells : List (Option (Cell F))) (kind : Kind) : Prop :=
  ∃ cell ∈ cells, cell.map Cell.kind = some kind

instance (cells : List (Option (Cell F))) (kind : Kind) : Decidable (HasKind cells kind) :=
  inferInstanceAs (Decidable (∃ cell ∈ cells, _))

/-- The types that occur, in the order of the children. -/
def kindsOf (cells : List (Option (Cell F))) : List Kind :=
  Kind.all.filter fun kind => decide (HasKind cells kind)

/-- The column with these cells: flat when they have one type, a struct
with a child for each type when they have several, none when they are all
null. -/
def columnOf (enc : List (Option Bytes) → Values F) (cells : List (Option (Cell F))) :
    Option (Column F) :=
  match kindsOf cells with
  | [] => none
  | [kind] => some (.flat (kindArray enc cells kind))
  | kinds =>
    some (.conflict (kinds.map fun kind => (kind, kindArray enc cells kind))
      (cells.map Option.isSome))

-- == sheets

/-- A field has got a cell, possibly null, in a row. -/
structure Write (F : Type) where
  row : Nat
  key : Bytes
  cell : Option (Cell F)

/-- What the calls of a batch wrote, row by row. -/
structure Sheet (F : Type) where
  /-- The fields in the order they were first resolved. -/
  order : List Bytes
  /-- Rows ended. -/
  rows : Nat
  writes : List (Write F)
  /-- The lines captured, and whether the current row has one. -/
  lines : List Bytes
  lineWritten : Bool
  /-- The length of the decoded texts kept. -/
  decoded : Nat

/-- What becomes of a value: a cell, which may have text that had to be
copied, or nothing. -/
inductive Stored (F : Type)
  | cell (cell : Option (Cell F)) (copied : Nat)
  | unstored

/-- A text that has to be copied, after `decoded` others. -/
def storedCopy (bufLen decoded : Nat) (text : Bytes) : Stored F :=
  if text.length ≤ u32Max ∧ bufLen + decoded ≤ u32Max then .cell (some (.str text)) text.length
  else .unstored

/-- What becomes of a value: stored, with the bytes it copies, or not. -/
def Append.stored [FloatOps F] (bufLen decoded : Nat) : Append Bytes F → Stored F
  | .str text => if validUtf8 text then .cell (some (.str text)) 0 else .unstored
  | .decodedStr text => if validUtf8 text then storedCopy bufLen decoded text else .unstored
  | .prevalidatedStr text => storedCopy bufLen decoded text.bytes
  | .int text => .cell ((parseIntFast text).map .int) 0
  | .i64Value n => .cell (some (.int n)) 0
  | .float text => .cell ((FloatOps.parse text).map .float) 0
  | .f64Value x => .cell (some (.float x)) 0
  | .bool b => .cell (some (.bool b)) 0
  | .null => .cell none 0

namespace Sheet

/-- A batch that has begun. -/
def empty : Sheet F :=
  { order := [], rows := 0, writes := [], lines := [], lineWritten := false, decoded := 0 }

/-- Does the field have its cell in the current row? -/
def Written (sh : Sheet F) (key : Bytes) : Prop := ∃ w ∈ sh.writes, w.row = sh.rows ∧ w.key = key

instance (sh : Sheet F) (key : Bytes) : Decidable (sh.Written key) :=
  inferInstanceAs (Decidable (∃ w ∈ sh.writes, _))

/-- A cell in the current row. -/
def write (key : Bytes) (cell : Option (Cell F)) (copied : Nat) (sh : Sheet F) : Sheet F :=
  { sh with
    writes := sh.writes ++ [{ row := sh.rows, key, cell }]
    decoded := sh.decoded + copied }

/-- The first value of a field in a row counts. -/
def append [FloatOps F] (bufLen : Nat) (key : Bytes) (value : Append Bytes F) (sh : Sheet F) :
    Sheet F :=
  if sh.Written key then sh
  else
    match value.stored bufLen sh.decoded with
    | .cell cell copied => sh.write key cell copied
    | .unstored => if sh.order.idxOf key < 64 then sh.write key none 0 else sh

/-- A captured line, with its invalid sequences replaced. -/
def appendLine (bufLen : Nat) (line : Bytes) (sh : Sheet F) : Sheet F :=
  if sh.lineWritten then sh
  else if validUtf8 line then { sh with lines := sh.lines ++ [line], lineWritten := true }
  else
    let lossy := fromUtf8Lossy line
    if lossy.length ≤ u32Max ∧ bufLen + sh.decoded ≤ u32Max then
      { sh with
        lines := sh.lines ++ [lossy], lineWritten := true, decoded := sh.decoded + lossy.length }
    else sh

/-- A call of the scanner, as it changes the sheet. -/
def call [FloatOps F] (bufLen : Nat) (capture : Bool) (sh : Sheet F) : Call Bytes F → Sheet F
  | .beginRow => { sh with lineWritten := false }
  | .endRow => { sh with rows := sh.rows + 1 }
  | .resolveField key =>
    if sh.order.contains key then sh else { sh with order := sh.order ++ [key] }
  | .append key value => sh.append bufLen key value
  | .appendLine line => if capture then sh.appendLine bufLen line else sh

/-- The sheet of a batch. -/
def ofCalls [FloatOps F] (bufLen : Nat) (capture : Bool) (calls : List (Call Bytes F)) : Sheet F :=
  calls.foldl (call bufLen capture) empty

/-- The cell of a field in a row. -/
def cell (sh : Sheet F) (row : Nat) (key : Bytes) : Option (Cell F) :=
  (sh.writes.find? fun w => w.row = row ∧ w.key = key).bind Write.cell

/-- The cells of a field, a row each. -/
def cells (sh : Sheet F) (key : Bytes) : List (Option (Cell F)) :=
  (List.range sh.rows).map fun row => sh.cell row key

end Sheet

-- == texts

/-- The call with the texts of its slices. -/
def Append.withText (buf : Bytes) : Append Slice F → Append Bytes F
  | .str value => .str (value.bytes buf)
  | .decodedStr value => .decodedStr value
  | .prevalidatedStr value => .prevalidatedStr value
  | .int value => .int value
  | .i64Value value => .i64Value value
  | .float value => .float value
  | .f64Value value => .f64Value value
  | .bool value => .bool value
  | .null => .null

/-- A call with the text of its slice. -/
def Call.withText (buf : Bytes) : Call Slice F → Call Bytes F
  | .beginRow => .beginRow
  | .endRow => .endRow
  | .resolveField key => .resolveField key
  | .append key value => .append key (value.withText buf)
  | .appendLine line => .appendLine (line.bytes buf)

/-- The slice lies within the buffer. -/
def Slice.InBuf (buf : Bytes) (s : Slice) : Prop := s.start + s.len ≤ buf.length

/-- Slices are of the buffer that the batch began with. -/
def Call.InBuf (buf : Bytes) : Call Slice F → Prop
  | .append _ (.str value) => value.InBuf buf
  | .appendLine line => line.InBuf buf
  | _ => True

end FastForward.Arrow
