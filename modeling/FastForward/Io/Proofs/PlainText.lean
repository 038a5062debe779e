/-
Plain text as the wrapper escapes it.

The wrapper escapes byte by byte, and a byte from 0x7f on as the unicode
escape of its number. The scanner reads that back as the character of that
number, so that a byte from 0x80 on comes back as two.
-/
import FastForward.Core.Proofs.WellFormed
import FastForward.Io.Format

namespace FastForward.Io

open Core List Ascii

-- == escaping

/-- The digits of `\u00xx`. -/
def byteQuad (b : UInt8) : HexQuad :=
  { a := ⟨0, false⟩, b := ⟨0, false⟩
    c := ⟨⟨b.toNat / 16, by have := b.toNat_lt; omega⟩, false⟩
    d := ⟨⟨b.toNat % 16, Nat.mod_lt _ (by decide)⟩, false⟩ }

/-- The piece of a string that a byte is written as. -/
def byteUnit (b : UInt8) : StringUnit :=
  if b = quote then .escape .quote
  else if b = backslash then .escape .backslash
  else if b = 0x08 then .escape .backspace
  else if b = tab then .escape .tab
  else if b = newline then .escape .newline
  else if b = 0x0c then .escape .formFeed
  else if b = carriageReturn then .escape .carriageReturn
  else if h : 0x20 ≤ b ∧ b < 0x7f ∧ b ≠ quote ∧ b ≠ backslash then
    .raw b ⟨h.1, h.2.2⟩
  else .unicode (byteQuad b)

theorem text_byteUnit (b : UInt8) : (byteUnit b).text = jsonEscapedByte b := by
  refine forall_byte (P := fun b => (byteUnit b).text = jsonEscapedByte b) ?_ b
  decide +kernel

theorem stringText_byteUnits (src : Bytes) : stringText (src.map byteUnit) = jsonEscaped src := by
  unfold stringText jsonEscaped
  rw [flatMap_map]
  simp only [text_byteUnit]

-- == decoding

/-- The character that a byte is read back as. -/
def byteChar (b : UInt8) : Bytes := String.utf8EncodeChar (Char.ofNat b.toNat)

theorem byteChar_ascii {b : UInt8} (h : b < 0x80) : byteChar b = [b] := by
  revert h
  exact forall_byte (P := fun b => b < 0x80 → byteChar b = [b]) (by decide +kernel) b

theorem length_byteChar {b : UInt8} (h : ¬ b < 0x80) : (byteChar b).length = 2 := by
  revert h
  exact forall_byte (P := fun b => ¬ b < 0x80 → (byteChar b).length = 2) (by decide +kernel) b

/-- Half of a surrogate pair, which is read with what stands behind it. -/
def isHighUnit : StringUnit → Bool
  | .unicode q => isHighSurrogate q.code
  | _ => false

theorem decodeUnits_cons {unit : StringUnit} (h : isHighUnit unit = false)
    (rest : List StringUnit) :
    decodeUnits (unit :: rest) = decodeUnits [unit] ++ decodeUnits rest := by
  cases unit with
  | raw b plain | escape e => rfl
  | unicode q =>
    replace h : isHighSurrogate q.code = false := h
    cases rest with
    | nil => simp [decodeUnits]
    | cons unit rest => cases unit <;> simp [decodeUnits, h]

/-- Every byte is decoded by itself, whatever stands behind it. -/
theorem decodeUnits_byteUnit (b : UInt8) (rest : List StringUnit) :
    decodeUnits (byteUnit b :: rest) = byteChar b ++ decodeUnits rest := by
  have hbyte : ∀ b, isHighUnit (byteUnit b) = false ∧ decodeUnits [byteUnit b] = byteChar b :=
    forall_byte (by decide +kernel)
  rw [decodeUnits_cons (hbyte b).1, (hbyte b).2]

theorem decodeUnits_byteUnits (src : Bytes) :
    decodeUnits (src.map byteUnit) = src.flatMap byteChar := by
  induction src with
  | nil => rfl
  | cons b src ih => rw [map_cons, decodeUnits_byteUnit, ih, flatMap_cons]

/-- A text comes back as it was exactly when it is ASCII. -/
theorem flatMap_byteChar_eq_iff (src : Bytes) :
    src.flatMap byteChar = src ↔ ∀ b ∈ src, b < 0x80 := by
  have hlength : ∀ src : Bytes, src.length ≤ (src.flatMap byteChar).length := by
    intro src
    induction src with
    | nil => exact Nat.le_refl _
    | cons b src ih =>
      rw [flatMap_cons, length_append, length_cons]
      by_cases hb : b < 0x80
      · rw [byteChar_ascii hb, length_singleton]
        omega
      · rw [length_byteChar hb]
        omega
  induction src with
  | nil => simp
  | cons b src ih =>
    rw [flatMap_cons, forall_mem_cons]
    by_cases hb : b < 0x80
    · rw [byteChar_ascii hb, singleton_append, cons_inj_right]
      exact ⟨fun h => ⟨hb, ih.mp h⟩, fun h => ih.mpr h.2⟩
    · refine ⟨fun h => ?_, fun h => absurd h.1 hb⟩
      -- the first byte has become two, and the rest has not become shorter
      have hlen := congrArg length h
      rw [length_append, length_byteChar hb, length_cons] at hlen
      have := hlength src
      omega

end FastForward.Io
