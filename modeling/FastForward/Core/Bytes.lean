/-
Byte strings, as the core crate handles them: a buffer or slice is a list
of bytes, and a Rust string is the list of its UTF-8 bytes (nothing the
scanner does with a name or a literal looks further than that).
-/
import Mathlib.Tactic.Ring

namespace FastForward.Core

/-- A buffer, slice or string. -/
abbrev Bytes := List UInt8

namespace Ascii

abbrev tab : UInt8 := 0x09
abbrev newline : UInt8 := 0x0a
abbrev carriageReturn : UInt8 := 0x0d
abbrev space : UInt8 := 0x20
/-- Opens and closes a string. -/
abbrev quote : UInt8 := 0x22
/-- Sign of an exponent. -/
abbrev plus : UInt8 := 0x2b
/-- Between members. -/
abbrev comma : UInt8 := 0x2c
/-- Sign of a number. -/
abbrev minus : UInt8 := 0x2d
/-- Begins a fraction. -/
abbrev dot : UInt8 := 0x2e
abbrev slash : UInt8 := 0x2f
/-- The least digit. -/
abbrev zero : UInt8 := 0x30
/-- The greatest digit. -/
abbrev nine : UInt8 := 0x39
/-- Behind a name. -/
abbrev colon : UInt8 := 0x3a
abbrev upperA : UInt8 := 0x41
abbrev upperE : UInt8 := 0x45
abbrev upperF : UInt8 := 0x46
abbrev upperZ : UInt8 := 0x5a
/-- Begins an array. -/
abbrev openBracket : UInt8 := 0x5b
/-- Begins an escape. -/
abbrev backslash : UInt8 := 0x5c
/-- Ends an array. -/
abbrev closeBracket : UInt8 := 0x5d
abbrev lowerA : UInt8 := 0x61
abbrev lowerB : UInt8 := 0x62
abbrev lowerE : UInt8 := 0x65
abbrev lowerF : UInt8 := 0x66
abbrev lowerN : UInt8 := 0x6e
abbrev lowerR : UInt8 := 0x72
abbrev lowerT : UInt8 := 0x74
abbrev lowerU : UInt8 := 0x75
/-- Begins an object. -/
abbrev openBrace : UInt8 := 0x7b
/-- Ends an object. -/
abbrev closeBrace : UInt8 := 0x7d

abbrev trueWord : Bytes := [lowerT, lowerR, lowerU, lowerE]

abbrev falseWord : Bytes := [lowerF, lowerA, 0x6c, 0x73, lowerE]

abbrev nullWord : Bytes := [lowerN, lowerU, 0x6c, 0x6c]

end Ascii

/-- `buf[i]`. Past the end it reads as the space the last block is padded
with; the scanner itself never reads there. -/
def byteAt (buf : Bytes) (i : Nat) : UInt8 := buf.getD i Ascii.space

/-- `&buf[start..stop]`. -/
def slice (buf : Bytes) (start stop : Nat) : Bytes := (buf.drop start).take (stop - start)

/-- `memchr::memchr`: the first position of a byte. -/
def memchr (needle : UInt8) (haystack : Bytes) : Option Nat :=
  haystack.findIdx? (· == needle)

/-- `memchr::memrchr`: the last position of a byte. -/
def memrchr (needle : UInt8) (haystack : Bytes) : Option Nat :=
  (memchr needle haystack.reverse).map fun i => haystack.length - 1 - i

/-- Does `std::str::from_utf8` accept the bytes? -/
def validUtf8 (bytes : Bytes) : Bool := (ByteArray.mk bytes.toArray).validateUTF8

/-- `u8::is_ascii_digit`. -/
def isAsciiDigit (b : UInt8) : Bool := Ascii.zero ≤ b && b ≤ Ascii.nine

/-- `u8::to_ascii_lowercase`. -/
def toAsciiLowercase (b : UInt8) : UInt8 :=
  if Ascii.upperA ≤ b ∧ b ≤ Ascii.upperZ then b + 0x20 else b

/-- `eq_ignore_ascii_case`. -/
def eqIgnoreAsciiCase (a b : Bytes) : Bool :=
  a.map toAsciiLowercase == b.map toAsciiLowercase

/-- What holds for the 256 bytes holds for every byte. -/
theorem forall_byte {P : UInt8 → Prop} (h : ∀ n : Fin 256, P (UInt8.ofNat n))
    (b : UInt8) : P b := by
  have hb := h ⟨b.toNat, b.toNat_lt⟩
  rwa [UInt8.ofNat_toNat] at hb

end FastForward.Core
