/-
The row predicate the scanner can evaluate (`scan_predicate.rs`).

Floats are a parameter: what the evaluator does with an `f64` is to
parse it, to promote an integer to it and to compare, and `FloatOps` is
that interface. An `i64` is an `Int`; only parsing bounds it.
-/
import FastForward.Core.Bytes

namespace FastForward.Core

/-- The part of `f64` the predicate evaluator uses. -/
class FloatOps (F : Type) where
  /-- `str::parse::<f64>` after `from_utf8`. -/
  parse : Bytes → Option F
  /-- `as f64`. -/
  ofInt : Int → F
  /-- `==`. -/
  beq : F → F → Bool
  partialCmp : F → F → Option Ordering

/-- A scalar value that a predicate compares against. -/
inductive ScalarValue (F : Type)
  | str (text : Bytes)
  | int (n : Int)
  | float (x : F)
  | bool (b : Bool)
  | null

/-- Comparison operators for leaf predicates. -/
inductive CmpOp
  | eq
  | ne
  | lt
  | le
  | gt
  | ge
  deriving DecidableEq, Repr

/-- A row-level predicate. -/
inductive ScanPredicate (F : Type)
  | compare (field : Bytes) (op : CmpOp) (value : ScalarValue F)
  | inList (field : Bytes) (values : List (ScalarValue F)) (negated : Bool)
  | isNull (field : Bytes) (negated : Bool)
  | startsWith (field : Bytes) (pre : Bytes)
  | contains (field : Bytes) (substring : Bytes)
  | and (preds : List (ScanPredicate F))
  | or (preds : List (ScanPredicate F))
  | not (inner : ScanPredicate F)

/-- A field value extracted from a row. -/
inductive ExtractedValue (F : Type)
  | str (bytes : Bytes)
  | int (n : Int)
  | float (x : F)
  | bool (b : Bool)
  | null
  | missing

variable {F : Type}

/-- `Null` or `Missing`. -/
def ExtractedValue.isNull : ExtractedValue F → Bool
  | .null => true
  | .missing => true
  | _ => false

-- == integers

def inI64 (n : Int) : Bool := -(2 ^ 63) ≤ n && n < 2 ^ 63

/-- One digit of a checked accumulation; `neg` subtracts. -/
def pushDigit (neg : Bool) (acc : Int) (b : UInt8) : Option Int :=
  if isAsciiDigit b then
    let scaled := acc * 10
    if inI64 scaled then
      let digit : Int := (b - Ascii.zero).toNat
      let next := if neg then scaled - digit else scaled + digit
      if inI64 next then some next else none
    else none
  else none

/-- The digits of an integer, with checked arithmetic. -/
def parseDigits (neg : Bool) : Int → Bytes → Option Int
  | acc, [] => some acc
  | acc, b :: rest =>
    match pushDigit neg acc b with
    | some acc => parseDigits neg acc rest
    | none => none

/-- `str::parse::<i64>`: an optional sign of either kind, then digits.
Text that parses is ASCII, so the UTF-8 check before it decides nothing. -/
def parseI64 (bytes : Bytes) : Option Int :=
  match bytes with
  | [] => none
  | b :: rest =>
    if b = Ascii.minus then
      if rest = [] then none else parseDigits true 0 rest
    else if b = Ascii.plus then
      if rest = [] then none else parseDigits false 0 rest
    else parseDigits false 0 bytes

/-- Whole numbers for floats: enough to run the evaluator. -/
instance : FloatOps Int where
  parse := parseI64
  ofInt := id
  beq a b := a == b
  partialCmp a b := some (compare a b)

-- == comparisons

/-- Apply a comparison operator to an ordering. -/
def applyCmpOp (ord : Ordering) : CmpOp → Bool
  | .eq => ord == .eq
  | .ne => ord != .eq
  | .lt => ord == .lt
  | .le => ord != .gt
  | .gt => ord == .gt
  | .ge => ord != .lt

def cmpBytes : Bytes → Bytes → Ordering
  | [], [] => .eq
  | [], _ :: _ => .lt
  | _ :: _, [] => .gt
  | a :: as, b :: bs =>
    if a < b then .lt else if b < a then .gt else cmpBytes as bs

section Evaluate

variable [FloatOps F]

/-- Compare two floats: a NaN is unequal to everything and unordered. -/
def compareFloats (a b : F) : CmpOp → Bool
  | .eq => FloatOps.beq a b
  | .ne => !FloatOps.beq a b
  | op =>
    match FloatOps.partialCmp a b with
    | some ord => applyCmpOp ord op
    | none => false

/-- Are the types comparable, for a list of literals? -/
def typesComparable : ExtractedValue F → ScalarValue F → Bool
  | .str _, .str _ => true
  | .int _, .int _ => true
  | .float _, .float _ => true
  | .bool _, .bool _ => true
  | .int _, .float _ => true
  | .float _, .int _ => true
  | .str _, .int _ => true
  | .str _, .float _ => true
  | .int _, .str _ => true
  | .float _, .str _ => true
  | .null, .null => true
  | _, _ => false

/-- Compare an extracted value against a literal. What cannot be decided
here keeps the row. -/
def compareValues (extracted : ExtractedValue F) (op : CmpOp)
    (literal : ScalarValue F) : Bool :=
  match extracted, literal with
  | .null, _ => false
  | .missing, _ => false
  | _, .null => false
  | .str bytes, .str lit => applyCmpOp (cmpBytes bytes lit) op
  | .int a, .int b => applyCmpOp (compare a b) op
  | .float a, .float b => compareFloats a b op
  | .int a, .float b => compareFloats (FloatOps.ofInt a) b op
  | .float a, .int b => compareFloats a (FloatOps.ofInt b) op
  | .bool a, .bool b => applyCmpOp (compare a b) op
  | .str bytes, .int b =>
    match parseI64 bytes with
    | some a => applyCmpOp (compare a b) op
    | none => true
  | .int a, .str text =>
    match parseI64 text with
    | some b => applyCmpOp (compare a b) op
    | none => true
  | .str bytes, .float b =>
    match FloatOps.parse bytes with
    | some a => compareFloats a b op
    | none => true
  | .float a, .str text =>
    match FloatOps.parse text with
    | some b => compareFloats a b op
    | none => true
  | _, _ => true

/-- `memmem::find(..).is_some()`. -/
def containsBytes (substring : Bytes) : Bytes → Bool
  | [] => substring.isEmpty
  | b :: rest => substring.isPrefixOf (b :: rest) || containsBytes substring rest

/-- `field IN (..)` and `field NOT IN (..)`. -/
def evaluateInList (extracted : ExtractedValue F) (values : List (ScalarValue F))
    (negated : Bool) : Bool :=
  if extracted.isNull then false
  else if values.any fun v => !typesComparable extracted v then true
  else
    let found := values.any (compareValues extracted .eq)
    if negated then !found else found

namespace ScanPredicate

mutual

/-- Evaluate against extracted field values: keep the row? -/
def evaluate (lookup : Bytes → ExtractedValue F) : ScanPredicate F → Bool
  | compare field op value => compareValues (lookup field) op value
  | inList field values negated => evaluateInList (lookup field) values negated
  | isNull field negated =>
    if negated then !(lookup field).isNull else (lookup field).isNull
  | startsWith field pre =>
    match lookup field with
    | .str bytes => pre.isPrefixOf bytes
    | _ => true
  | contains field substring =>
    match lookup field with
    | .str bytes => containsBytes substring bytes
    | _ => true
  | and preds => evaluateAll lookup preds
  | or preds => evaluateAny lookup preds
  | not inner => !evaluate lookup inner

/-- `preds.iter().all(..)`. -/
def evaluateAll (lookup : Bytes → ExtractedValue F) : List (ScanPredicate F) → Bool
  | [] => true
  | p :: rest => evaluate lookup p && evaluateAll lookup rest

/-- `preds.iter().any(..)`. -/
def evaluateAny (lookup : Bytes → ExtractedValue F) : List (ScanPredicate F) → Bool
  | [] => false
  | p :: rest => evaluate lookup p || evaluateAny lookup rest

end

end ScanPredicate

end Evaluate

namespace ScanPredicate

mutual

/-- Does the predicate mention the field, in any case? -/
def referencesField (key : Bytes) : ScanPredicate F → Bool
  | compare field _ _ => eqIgnoreAsciiCase key field
  | inList field _ _ => eqIgnoreAsciiCase key field
  | isNull field _ => eqIgnoreAsciiCase key field
  | startsWith field _ => eqIgnoreAsciiCase key field
  | contains field _ => eqIgnoreAsciiCase key field
  | and preds => anyReferencesField key preds
  | or preds => anyReferencesField key preds
  | not inner => referencesField key inner

/-- `preds.iter().any(..)`. -/
def anyReferencesField (key : Bytes) : List (ScanPredicate F) → Bool
  | [] => false
  | p :: rest => referencesField key p || anyReferencesField key rest

end

mutual

/-- Remove the conjuncts that mention the field, if anything is left. -/
def stripField (fieldName : Bytes) (p : ScanPredicate F) : Option (ScanPredicate F) :=
  if !referencesField fieldName p then some p
  else
    match p with
    | and preds =>
      match stripEach fieldName preds with
      | [] => none
      | [p] => some p
      | remaining => some (and remaining)
    | _ => none

/-- `preds.into_iter().filter_map(..)`. -/
def stripEach (fieldName : Bytes) : List (ScanPredicate F) → List (ScanPredicate F)
  | [] => []
  | p :: rest =>
    match stripField fieldName p with
    | some p => p :: stripEach fieldName rest
    | none => stripEach fieldName rest

end

end ScanPredicate

end FastForward.Core
