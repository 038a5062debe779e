/-
What a batch is made of: fields in an order, a cell for each field and
row, captured lines. From it follow the columns of the table, and what has
to hold for a finaliser to make it: the names are apart, every row has its
line, and the strings fit.
-/
import FastForward.Arrow.Sheet

namespace FastForward.Arrow

open Core

variable {F : Type}

/-- What a batch shows, whatever the arrays are. -/
structure Contents (F : Type) where
  order : List Bytes
  rows : Nat
  cells : Bytes → List (Option (Cell F))
  lines : List Bytes

/-- The contents of a sheet. -/
def Sheet.contents (sh : Sheet F) : Contents F :=
  { order := sh.order, rows := sh.rows, cells := sh.cells, lines := sh.lines }

/-- The string arrays of a finaliser, and the strings that they hold. -/
structure StringSpec (F : Type) where
  enc : List (Option Bytes) → Values F
  fits : List (Option Bytes) → Prop
  fitsLines : List Bytes → Prop
  fitsConstant : Nat → Str → Prop

/-- Views: the buffers are blocks of an array. -/
def viewSpec (bufLen decoded : Nat) : StringSpec F where
  enc := .utf8View
  fits _ := bufLen < u32Max ∧ decoded < u32Max
  fitsLines lines := lines = [] ∨ (bufLen < u32Max ∧ decoded < u32Max)
  fitsConstant rows value := rows = 0 ∨ value.bytes.length < u32Max

/-- Copies: one buffer for an array. -/
def detachedSpec : StringSpec F where
  enc := .utf8
  fits cells := totalLen cells ≤ i32Max
  fitsLines lines := totalLen (lines.map some) ≤ i32Max
  fitsConstant rows value :=
    totalLen (List.replicate rows (some value.bytes)) ≤ i32Max

namespace Contents

variable (spec : StringSpec F) (line : Option Bytes) (attrs : List (Str × Str)) (c : Contents F)

/-- The column of a field: the captured line takes its name. -/
def fieldColumn (key : Bytes) : Option (Bytes × Column F) :=
  if line = some (fromUtf8Lossy key) then none
  else (columnOf spec.enc (c.cells key)).map (fromUtf8Lossy key, ·)

/-- A column for each field that has cells. -/
def fieldColumns : List (Bytes × Column F) := c.order.filterMap (c.fieldColumn spec line)

/-- The column of captured lines. -/
def lineColumns : List (Bytes × Column F) :=
  line.toList.map fun name => (name, .flat (spec.enc (c.lines.map some)))

/-- A constant column for each attribute. -/
def resourceColumns : List (Bytes × Column F) :=
  attrs.map fun attr =>
    (StreamingBuilder.resourceColName attr.1.bytes,
      .flat (spec.enc (List.replicate c.rows (some attr.2.bytes))))

/-- All columns of a batch, in order. -/
def columns : List (Bytes × Column F) :=
  c.fieldColumns spec line ++ c.lineColumns spec line ++ c.resourceColumns spec attrs

/-- A table can be made. -/
structure Fits : Prop where
  names : ((c.columns spec line attrs).map Prod.fst).Nodup
  lines : line.isSome → c.lines.length = c.rows
  strs : ∀ key ∈ c.order, line ≠ some (fromUtf8Lossy key) → HasKind (c.cells key) .str →
    spec.fits ((c.cells key).map (·.bind Cell.str?))
  lineTexts : line.isSome → spec.fitsLines c.lines
  constants : ∀ attr ∈ attrs, spec.fitsConstant c.rows attr.2

end Contents

end FastForward.Arrow
