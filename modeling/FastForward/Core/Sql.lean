/-
What a row predicate means in SQL: the condition that the filter behind
the scanner evaluates, in three-valued logic.

This is a statement of intent, not a translation. Engines differ on a
string compared with an integer, so how that is read is a parameter:
either the integer is rendered as text, or the text is parsed as an
integer and the comparison is NULL when it is not one. Other mixed types
have no SQL comparison and are NULL here; floats are left out the same
way.
-/
import FastForward.Core.Json
import FastForward.Lib.Kleene

namespace FastForward.Core

open Lib (Truth)

-- == integers as text

/-- Decimal digits, most significant first. -/
def decimalDigits (n : Nat) : List (Fin 10) :=
  if n < 10 then [Fin.ofNat 10 n]
  else decimalDigits (n / 10) ++ [Fin.ofNat 10 n]
termination_by n

/-- An integer as SQL writes it. -/
def renderInt (n : Int) : Bytes :=
  if n < 0 then Ascii.minus :: digitsText (decimalDigits n.natAbs)
  else digitsText (decimalDigits n.natAbs)

-- == comparisons

/-- How a string is compared with an integer. -/
inductive Reading
  | rendered
  | parsed
  deriving DecidableEq, Repr

variable {F : Type}

/-- The two orders of a string and an integer: as texts, and as integers
where the text is one. -/
def mixedOrders : ExtractedValue F → ScalarValue F → Option (Ordering × Option Ordering)
  | .str text, .int b =>
    some (cmpBytes text (renderInt b), (parseI64 text).map fun a => compare a b)
  | .int a, .str text =>
    some (cmpBytes (renderInt a) text, (parseI64 text).map fun b => compare a b)
  | _, _ => none

/-- A mixed comparison under a reading. -/
def Reading.compare (reading : Reading) (op : CmpOp) (texts : Ordering)
    (numbers : Option Ordering) : Truth :=
  match reading, numbers with
  | .rendered, _ => Truth.ofBool (applyCmpOp texts op)
  | .parsed, some ord => Truth.ofBool (applyCmpOp ord op)
  | .parsed, none => .unknown

/-- `value op literal`. -/
def sqlCompare (reading : Reading) (op : CmpOp) (value : ExtractedValue F)
    (literal : ScalarValue F) : Truth :=
  match value, literal with
  | .str a, .str b => Truth.ofBool (applyCmpOp (cmpBytes a b) op)
  | .int a, .int b => Truth.ofBool (applyCmpOp (compare a b) op)
  | .bool a, .bool b => Truth.ofBool (applyCmpOp (compare a b) op)
  | _, _ =>
    match mixedOrders value literal with
    | some (texts, numbers) => reading.compare op texts numbers
    | none => .unknown

/-- `value IN (..)`. -/
def sqlIn (reading : Reading) (value : ExtractedValue F)
    (literals : List (ScalarValue F)) : Truth :=
  if value.isNull then .unknown
  else Truth.any (sqlCompare reading .eq value) literals

/-- `value LIKE ..`, on the text of a string or an integer. -/
def sqlLike (matchText : Bytes → Bool) : ExtractedValue F → Truth
  | .str bytes => Truth.ofBool (matchText bytes)
  | .int n => Truth.ofBool (matchText (renderInt n))
  | _ => .unknown

-- == predicates

namespace ScanPredicate

mutual

/-- The SQL condition of a predicate on a row. -/
def truth (reading : Reading) (row : Bytes → ExtractedValue F) : ScanPredicate F → Truth
  | compare field op value => sqlCompare reading op (row field) value
  | inList field values negated =>
    if negated then (sqlIn reading (row field) values).not
    else sqlIn reading (row field) values
  | isNull field negated =>
    Truth.ofBool (if negated then !(row field).isNull else (row field).isNull)
  | startsWith field pre => sqlLike pre.isPrefixOf (row field)
  | contains field substring => sqlLike (containsBytes substring) (row field)
  | and preds => truthAll reading row preds
  | or preds => truthAny reading row preds
  | not inner => (truth reading row inner).not

def truthAll (reading : Reading) (row : Bytes → ExtractedValue F) :
    List (ScanPredicate F) → Truth
  | [] => .tt
  | p :: rest => (truth reading row p).and (truthAll reading row rest)

def truthAny (reading : Reading) (row : Bytes → ExtractedValue F) :
    List (ScanPredicate F) → Truth
  | [] => .ff
  | p :: rest => (truth reading row p).or (truthAny reading row rest)

end

end ScanPredicate

end FastForward.Core
