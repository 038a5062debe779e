/-
Stage 1 of the scanner (`structural.rs`): the characters of a 64-byte
block as bitmasks, bit `i` for byte `i`, made aware of escapes and of
string interiors by a classifier that carries two words from block to
block.

The comparison of a block with a needle is a SIMD instruction in the
source (`cmp4`); here it is the loop of `find_char_mask`, which the
source keeps as its specification.
-/
import FastForward.Core.Bytes
import FastForward.Lib.Bits

namespace FastForward.Core

open Lib

abbrev U64 := BitVec 64

/-- One bit per byte of the block that equals the needle. -/
def findCharMask (block : Bytes) (needle : UInt8) : U64 :=
  block.zipIdx.foldl
    (fun mask p => if p.1 = needle then mask ||| (1#64 <<< p.2) else mask) 0#64

/-- Raw character bitmasks of one block. -/
structure RawBlockMasks where
  newline : U64
  space : U64
  quote : U64
  backslash : U64
  comma : U64
  colon : U64
  openBrace : U64
  closeBrace : U64
  openBracket : U64
  closeBracket : U64

/-- Detect all ten structural characters. -/
def findStructuralChars (block : Bytes) : RawBlockMasks :=
  { newline := findCharMask block Ascii.newline
    space := findCharMask block Ascii.space
    quote := findCharMask block Ascii.quote
    backslash := findCharMask block Ascii.backslash
    comma := findCharMask block Ascii.comma
    colon := findCharMask block Ascii.colon
    openBrace := findCharMask block Ascii.openBrace
    closeBrace := findCharMask block Ascii.closeBrace
    openBracket := findCharMask block Ascii.openBracket
    closeBracket := findCharMask block Ascii.closeBracket }

-- == escape detection

/-- The loop over the backslash bits `b`. Every turn takes off at least
one bit, so 64 turns do. -/
def markEscaped : Nat → U64 → U64 → U64
  | 0, _, escaped => escaped
  | fuel + 1, b, escaped =>
    if b = 0#64 then escaped
    else
      let pos := trailingZeros b
      let b := b &&& ~~~(1#64 <<< pos)
      let nextPos := pos + 1
      if nextPos < 64 then
        markEscaped fuel (b &&& ~~~(1#64 <<< nextPos))
          (escaped ||| (1#64 <<< nextPos))
      else markEscaped fuel b escaped

/-- The escaped positions of a block that has a backslash or is entered
escaped. -/
def escapedMask (bsBits prevOddBackslash : U64) : U64 :=
  if prevOddBackslash ≠ 0#64 then markEscaped 64 (bsBits &&& ~~~1#64) 1#64
  else markEscaped 64 bsBits 0#64

/-- Unescaped quotes, and the escape carry for the next block. -/
def computeRealQuotes (quoteBits bsBits prevOddBackslash : U64) : U64 × U64 :=
  if bsBits = 0#64 ∧ prevOddBackslash = 0#64 then (quoteBits, prevOddBackslash)
  else
    let escaped := escapedMask bsBits prevOddBackslash
    let lastIsBs := (bsBits >>> 63) &&& 1#64 = 1#64
    let lastIsEscaped := (escaped >>> 63) &&& 1#64 = 1#64
    (quoteBits &&& ~~~escaped,
      if lastIsBs ∧ ¬ lastIsEscaped then 1#64 else 0#64)

/-- Running XOR that toggles at each set bit. -/
def prefixXor (bitmask : U64) : U64 :=
  let bitmask := bitmask ^^^ (bitmask <<< 1)
  let bitmask := bitmask ^^^ (bitmask <<< 2)
  let bitmask := bitmask ^^^ (bitmask <<< 4)
  let bitmask := bitmask ^^^ (bitmask <<< 8)
  let bitmask := bitmask ^^^ (bitmask <<< 16)
  bitmask ^^^ (bitmask <<< 32)

-- == the classifier

/-- Processed bitmasks of one block: quotes are escape-aware, the other
characters are the ones outside strings. -/
structure ProcessedBlock where
  newline : U64
  space : U64
  realQuotes : U64
  inString : U64
  comma : U64
  colon : U64
  openBrace : U64
  closeBrace : U64
  openBracket : U64
  closeBracket : U64

/-- What is carried between blocks. -/
structure StreamingClassifier where
  prevOddBackslash : U64
  prevInString : U64

namespace StreamingClassifier

def new : StreamingClassifier := ⟨0#64, 0#64⟩

/-- The valid positions of a block. -/
def lengthMask (blockLen : Nat) : U64 :=
  if 64 ≤ blockLen then BitVec.allOnes 64 else (1#64 <<< blockLen) - 1#64

/-- Process raw bitmasks into escape-aware, string-masked ones. Newlines
are not string-masked. -/
def processBlock (self : StreamingClassifier) (raw : RawBlockMasks) (blockLen : Nat) :
    StreamingClassifier × ProcessedBlock :=
  let quotes := computeRealQuotes raw.quote raw.backslash self.prevOddBackslash
  let realQ := quotes.1
  let rawStringBits := prefixXor realQ ^^^ self.prevInString
  let inString := rawStringBits &&& ~~~realQ
  let notInString := ~~~inString
  let mask := lengthMask blockLen
  ({ prevOddBackslash := quotes.2
     prevInString :=
      if (rawStringBits >>> 63) &&& 1#64 = 1#64 then BitVec.allOnes 64 else 0#64 },
    { newline := raw.newline &&& mask
      space := raw.space &&& notInString &&& mask
      realQuotes := realQ &&& mask
      inString := inString &&& mask
      comma := raw.comma &&& notInString &&& mask
      colon := raw.colon &&& notInString &&& mask
      openBrace := raw.openBrace &&& notInString &&& mask
      closeBrace := raw.closeBrace &&& notInString &&& mask
      openBracket := raw.openBracket &&& notInString &&& mask
      closeBracket := raw.closeBracket &&& notInString &&& mask })

end StreamingClassifier

end FastForward.Core
