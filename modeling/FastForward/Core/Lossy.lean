/-
Texts: `str`, and `String::from_utf8_lossy`, which keeps the characters
that decode and replaces each maximal sequence that does not by U+FFFD.
-/
import FastForward.Core.Bytes

namespace FastForward.Core

open List ByteArray

/-- A Rust string: bytes that are UTF-8. -/
structure Str where
  bytes : Bytes
  valid : validUtf8 bytes = true

/-- The character at the front. -/
def decodeChar (bytes : Bytes) : Option Char := (mk bytes.toArray).utf8DecodeChar? 0

/-- A byte inside a character. -/
def isContinuation (b : UInt8) : Bool := 0x80 ≤ b && b ≤ 0xbf

/-- May `second` follow `first`, the lead of three or four bytes? -/
def isSecondByte (first second : UInt8) : Bool :=
  if first = 0xe0 then 0xa0 ≤ second && second ≤ 0xbf
  else if first = 0xed then 0x80 ≤ second && second ≤ 0x9f
  else if first = 0xf0 then 0x90 ≤ second && second ≤ 0xbf
  else if first = 0xf4 then 0x80 ≤ second && second ≤ 0x8f
  else 0xe1 ≤ first && first ≤ 0xf3 && isContinuation second

/-- How much of a sequence that does not decode is replaced at once: as
many bytes as a character could begin with. -/
def invalidLen (first : UInt8) (rest : Bytes) : Nat :=
  match rest with
  | second :: rest =>
    if isSecondByte first second then
      match rest with
      | third :: _ => if 0xf0 ≤ first && isContinuation third then 3 else 2
      | [] => 2
    else 1
  | [] => 1

/-- The characters, with a replacement for each invalid sequence. -/
def lossyChars : Bytes → List Char
  | [] => []
  | b :: rest =>
    match decodeChar (b :: rest) with
    | some c => c :: lossyChars (rest.drop (c.utf8Size - 1))
    | none => '�' :: lossyChars (rest.drop (invalidLen b rest - 1))
termination_by bytes => bytes.length
decreasing_by
  all_goals
    simp only [length_drop, length_cons]
    omega

/-- `String::from_utf8_lossy`. -/
def fromUtf8Lossy (bytes : Bytes) : Bytes := (lossyChars bytes).flatMap String.utf8EncodeChar

-- == valid texts

theorem byteArray_append (a b : Bytes) :
    mk (a ++ b).toArray = mk a.toArray ++ mk b.toArray := by
  apply ext
  simp

theorem mk_flatMap_utf8EncodeChar (chars : List Char) :
    mk (chars.flatMap String.utf8EncodeChar).toArray = chars.utf8Encode := by
  apply ext
  simp [List.utf8Encode]

/-- Valid are the encodings of characters. -/
theorem validUtf8_iff {bytes : Bytes} :
    validUtf8 bytes ↔ ∃ chars : List Char, bytes = chars.flatMap String.utf8EncodeChar := by
  rw [validUtf8, validateUTF8_eq_true_iff]
  constructor
  · rintro ⟨chars, heq⟩
    rw [← mk_flatMap_utf8EncodeChar] at heq
    have hdata := congrArg (fun b => b.data.toList) heq
    exact ⟨chars, hdata⟩
  · rintro ⟨chars, rfl⟩
    exact ⟨chars, mk_flatMap_utf8EncodeChar chars⟩

/-- What comes out is valid. -/
theorem validUtf8_fromUtf8Lossy (bytes : Bytes) : validUtf8 (fromUtf8Lossy bytes) :=
  validUtf8_iff.mpr ⟨_, rfl⟩

/-- A character is decoded from its encoding. -/
theorem decodeChar_utf8EncodeChar_append (c : Char) (rest : Bytes) :
    decodeChar (String.utf8EncodeChar c ++ rest) = some c := by
  have hbytes : mk (String.utf8EncodeChar c).toArray = (String.utf8EncodeChar c).toByteArray := by
    apply ext
    simp
  rw [decodeChar, byteArray_append, hbytes]
  exact utf8DecodeChar?_utf8EncodeChar_append

/-- Characters that were encoded come back. -/
theorem lossyChars_flatMap (chars : List Char) :
    lossyChars (chars.flatMap String.utf8EncodeChar) = chars := by
  induction chars with
  | nil => rw [flatMap_nil, lossyChars]
  | cons c chars ih =>
    have hdecode := decodeChar_utf8EncodeChar_append c (chars.flatMap String.utf8EncodeChar)
    have hlen : (String.utf8EncodeChar c).length = c.utf8Size := String.length_utf8EncodeChar c
    rw [flatMap_cons]
    cases hbytes : String.utf8EncodeChar c with
    | nil =>
      rw [hbytes, length_nil] at hlen
      have := c.utf8Size_pos
      omega
    | cons b rest =>
      rw [hbytes, cons_append] at hdecode
      rw [hbytes, length_cons] at hlen
      rw [cons_append, lossyChars, hdecode]
      dsimp only
      rw [← hlen, Nat.add_sub_cancel, drop_left, ih]

/-- Valid text is not changed. -/
theorem fromUtf8Lossy_of_validUtf8 {bytes : Bytes} (h : validUtf8 bytes) :
    fromUtf8Lossy bytes = bytes := by
  obtain ⟨chars, rfl⟩ := validUtf8_iff.mp h
  rw [fromUtf8Lossy, lossyChars_flatMap]

end FastForward.Core
