/-
The JSON grammar (RFC 8259) as the type of its texts, and what the scan
of a well-formed NDJSON buffer should report.

A value of `Json` is a syntax tree with everything its text has: the
blanks between tokens, the escapes of strings, the form of numbers.
`render` writes it out. What a text means is said in its own terms (code
points for escapes, integers for digits) and not by the scanner's
functions; only the type of the builder calls is shared.

Raw bytes of a string may be any but the quote, the backslash and
control characters, so every UTF-8 text is covered.
-/
import FastForward.Core.Reader

namespace FastForward.Core

open Ascii

-- == blanks

/-- Insignificant whitespace inside a line. -/
inductive Blank
  | space
  | tab
  deriving DecidableEq, Repr

def Blank.byte : Blank → UInt8
  | .space => Ascii.space
  | .tab => Ascii.tab

def blanks (ws : List Blank) : Bytes := ws.map Blank.byte

-- == strings

/-- A hex digit, in either case. -/
structure HexDigit where
  value : Fin 16
  upper : Bool

def HexDigit.byte (d : HexDigit) : UInt8 :=
  if d.value.val < 10 then UInt8.ofNat (0x30 + d.value.val)
  else if d.upper then UInt8.ofNat (0x41 + (d.value.val - 10))
  else UInt8.ofNat (0x61 + (d.value.val - 10))

/-- The four digits of a unicode escape. -/
structure HexQuad where
  a : HexDigit
  b : HexDigit
  c : HexDigit
  d : HexDigit

/-- The UTF-16 code unit a unicode escape stands for. -/
def HexQuad.code (q : HexQuad) : Nat :=
  q.a.value * 16 ^ 3 + q.b.value * 16 ^ 2 + q.c.value * 16 + q.d.value

def HexQuad.text (q : HexQuad) : Bytes :=
  [Ascii.backslash, lowerU, q.a.byte, q.b.byte, q.c.byte, q.d.byte]

/-- The two-character escapes. -/
inductive Escape
  | quote
  | backslash
  | slash
  | backspace
  | formFeed
  | newline
  | carriageReturn
  | tab
  deriving DecidableEq, Repr

namespace Escape

/-- The character behind the backslash. -/
def letter : Escape → UInt8
  | quote => Ascii.quote
  | backslash => Ascii.backslash
  | slash => Ascii.slash
  | backspace => lowerB
  | formFeed => lowerF
  | newline => lowerN
  | carriageReturn => lowerR
  | tab => lowerT

/-- The character meant. -/
def meaning : Escape → UInt8
  | quote => Ascii.quote
  | backslash => Ascii.backslash
  | slash => Ascii.slash
  | backspace => 0x08
  | formFeed => 0x0c
  | newline => Ascii.newline
  | carriageReturn => Ascii.carriageReturn
  | tab => Ascii.tab

end Escape

inductive StringUnit
  | raw (b : UInt8) (plain : 0x20 ≤ b ∧ b ≠ Ascii.quote ∧ b ≠ Ascii.backslash)
  | escape (e : Escape)
  | unicode (q : HexQuad)

namespace StringUnit

def text : StringUnit → Bytes
  | raw b _ => [b]
  | escape e => [Ascii.backslash, e.letter]
  | unicode q => q.text

def isEscape : StringUnit → Bool
  | raw _ _ => false
  | _ => true

end StringUnit

/-- The text between the quotes. -/
def stringText (units : List StringUnit) : Bytes := units.flatMap StringUnit.text

def quoted (units : List StringUnit) : Bytes :=
  Ascii.quote :: (stringText units ++ [Ascii.quote])

def isHighSurrogate (code : Nat) : Bool := 0xD800 ≤ code && code ≤ 0xDBFF

def isLowSurrogate (code : Nat) : Bool := 0xDC00 ≤ code && code ≤ 0xDFFF

/-- The supplementary code point of a UTF-16 surrogate pair. -/
def surrogatePair (high low : Nat) : Nat :=
  0x10000 + (high - 0xD800) * 0x400 + (low - 0xDC00)

/-- A unicode escape on its own. A surrogate stands for no character then
and is kept as it is written. -/
def HexQuad.alone (q : HexQuad) : Bytes :=
  if isHighSurrogate q.code || isLowSurrogate q.code then q.text
  else String.utf8EncodeChar (Char.ofNat q.code)

/-- The string meant. -/
def decodeUnits : List StringUnit → Bytes
  | [] => []
  | .raw b _ :: rest => b :: decodeUnits rest
  | .escape e :: rest => e.meaning :: decodeUnits rest
  | .unicode high :: .unicode low :: rest =>
    if isHighSurrogate high.code && isLowSurrogate low.code then
      String.utf8EncodeChar (Char.ofNat (surrogatePair high.code low.code))
        ++ decodeUnits rest
    else high.alone ++ decodeUnits (.unicode low :: rest)
  | .unicode q :: rest => q.alone ++ decodeUnits rest

-- == numbers

/-- The digits before the point: no leading zeros. -/
inductive Whole
  | zero
  | digits (first : Fin 9) (rest : List (Fin 10))

def Whole.toDigits : Whole → List (Fin 10)
  | zero => [0]
  | digits first rest => first.succ :: rest

def digitByte (d : Fin 10) : UInt8 := UInt8.ofNat (0x30 + d.val)

def digitsText (ds : List (Fin 10)) : Bytes := ds.map digitByte

/-- The number written by some digits. -/
def digitsValue (ds : List (Fin 10)) : Nat := ds.foldl (fun acc d => acc * 10 + d.val) 0

/-- A magnitude with its sign. -/
def signed (minus : Bool) (n : Nat) : Int := if minus then -n else n

structure Fraction where
  first : Fin 10
  rest : List (Fin 10)

def Fraction.text (f : Fraction) : Bytes := dot :: digitsText (f.first :: f.rest)

inductive ExponentSign
  | none
  | plus
  | minus

def ExponentSign.text : ExponentSign → Bytes
  | none => []
  | plus => [Ascii.plus]
  | minus => [Ascii.minus]

structure Exponent where
  upper : Bool
  sign : ExponentSign
  first : Fin 10
  rest : List (Fin 10)

def Exponent.text (e : Exponent) : Bytes :=
  (if e.upper then upperE else lowerE)
    :: (e.sign.text ++ digitsText (e.first :: e.rest))

structure Number where
  minus : Bool
  whole : Whole
  fraction : Option Fraction
  exponent : Option Exponent

namespace Number

def text (n : Number) : Bytes :=
  (if n.minus then [Ascii.minus] else []) ++ digitsText n.whole.toDigits
    ++ (n.fraction.map Fraction.text).getD [] ++ (n.exponent.map Exponent.text).getD []

/-- The number has a point or an exponent. -/
def isFloat (n : Number) : Bool := n.fraction.isSome || n.exponent.isSome

/-- The integer before the point. -/
def wholeValue (n : Number) : Int := signed n.minus (digitsValue n.whole.toDigits)

end Number

-- == values

/-- The two containers. -/
inductive Kind
  | array
  | object
  deriving DecidableEq, Repr

def Kind.opening : Kind → UInt8
  | array => openBracket
  | object => openBrace

def Kind.closing : Kind → UInt8
  | array => closeBracket
  | object => closeBrace

/-- The name of a member with the blanks around it. -/
structure Name where
  before : List Blank
  units : List StringUnit
  behind : List Blank

def Name.text (name : Name) : Bytes :=
  blanks name.before ++ quoted name.units ++ blanks name.behind ++ [colon]

/-- What stands before an item's value. -/
abbrev Label : Kind → Type
  | .array => Unit
  | .object => Name

def labelText : {kind : Kind} → Label kind → Bytes
  | .array, _ => []
  | .object, name => Name.text name

def labelUnits : {kind : Kind} → Label kind → List StringUnit
  | .array, _ => []
  | .object, name => Name.units name

/-- Values (`none`) and the non-empty item lists of a container. -/
inductive Json : Option Kind → Type
  | str (units : List StringUnit) : Json none
  | number (n : Number) : Json none
  | bool (b : Bool) : Json none
  | null : Json none
  | empty (kind : Kind) (inside : List Blank) : Json none
  | container {kind : Kind} (items : Json (some kind)) : Json none
  | last {kind : Kind} (label : Label kind) (before : List Blank) (value : Json none)
      (behind : List Blank) : Json (some kind)
  | more {kind : Kind} (label : Label kind) (before : List Blank) (value : Json none)
      (behind : List Blank) (rest : Json (some kind)) : Json (some kind)

namespace Json

def boolText (b : Bool) : Bytes := if b then trueWord else falseWord

/-- The text of a value, or of the items between the brackets. -/
def render {part : Option Kind} : Json part → Bytes
  | str units => quoted units
  | number n => n.text
  | bool b => boolText b
  | null => nullWord
  | empty kind inside => kind.opening :: (blanks inside ++ [kind.closing])
  | @container kind items => kind.opening :: (items.render ++ [kind.closing])
  | last label before value behind =>
    labelText label ++ (blanks before ++ (value.render ++ blanks behind))
  | more label before value behind rest =>
    labelText label ++ (blanks before ++ (value.render ++ (blanks behind
      ++ comma :: rest.render)))

/-- The items of a container with their names, which in an array are
empty. -/
def items {part : Option Kind} : Json part → List (List StringUnit × Json none)
  | last label _ value _ => [(labelUnits label, value)]
  | more label _ value _ rest => (labelUnits label, value) :: rest.items
  | _ => []

/-- The call a value should make. -/
def fieldValue : Json none → FieldValue
  | str units =>
    if units.any StringUnit.isEscape then .decodedStr (decodeUnits units)
    else .str (decodeUnits units)
  | number n =>
    if n.isFloat || !inI64 n.wholeValue then .float n.text else .int n.text
  | bool b => .bool b
  | null => .null
  | value => .str value.render

end Json

-- == lines

/-- The object of a line. -/
inductive ObjectText
  | empty (inside : List Blank)
  | members (items : Json (some .object))

namespace ObjectText

/-- The text between the braces. -/
def inner : ObjectText → Bytes
  | empty inside => blanks inside
  | members items => items.render

def entries : ObjectText → List (List StringUnit × Json none)
  | empty _ => []
  | members items => items.items

end ObjectText

/-- A line of a well-formed buffer. -/
structure Line where
  lead : List Blank
  object : ObjectText
  trail : List Blank
  cr : Bool

namespace Line

/-- The line without its CR. -/
def body (line : Line) : Bytes :=
  blanks line.lead ++ (openBrace :: (line.object.inner ++ (closeBrace
    :: blanks line.trail)))

def text (line : Line) : Bytes :=
  line.body ++ if line.cr then [Ascii.carriageReturn] else []

/-- The calls a line should make: one row with one field for each member,
in order, behind the capture of the line if that is asked for. -/
def calls {F : Type} (config : ScanConfig F) (line : Line) : List ScanCall :=
  .beginRow :: captureCalls config line.body
    ++ line.object.entries.flatMap (fun entry =>
        [.resolveField (decodeUnits entry.1),
          .append (decodeUnits entry.1) entry.2.fieldValue])
    ++ [.endRow]

end Line

/-- The lines of a buffer, with or without a newline behind the last. -/
def serialize (lines : List Line) (finalNewline : Bool) : Bytes :=
  joinLines (lines.map Line.text ++ if finalNewline then [[]] else [])

end FastForward.Core
