/-
Escaping and decoding of JSON strings.

The core's escaper writes every byte as a piece of a string that stands
for it, so that decoding gives the bytes back. Of any input, a turn of the
decoding loop takes at least one byte and puts out no more than it took.
What it takes behind a backslash is ASCII and what it puts out is a text,
so that what is left of a text is one (`Turn`).
-/
import FastForward.Core.Lossy
import FastForward.Io.Proofs.PlainText

namespace FastForward.Io

open Core List Ascii

-- == escaping

/-- The piece of a string that the core writes a byte as. -/
def escapeUnit (b : UInt8) : StringUnit :=
  if h : 0x80 ≤ b then
    .raw b ⟨Nat.le_trans (by decide : 0x20 ≤ 0x80) h, by rintro rfl; exact absurd h (by decide),
      by rintro rfl; exact absurd h (by decide)⟩
  else byteUnit b

theorem text_escapeUnit (b : UInt8) : (escapeUnit b).text = jsonEscapeByte b := by
  refine forall_byte (P := fun b => (escapeUnit b).text = jsonEscapeByte b) ?_ b
  decide +kernel

theorem decodeUnits_escapeUnits (src : Bytes) : decodeUnits (src.map escapeUnit) = src := by
  induction src with
  | nil => rfl
  | cons b src ih =>
    rw [map_cons, escapeUnit]
    split
    next => rw [decodeUnits, ih]
    next h =>
      rw [decodeUnits_byteUnit, byteChar_ascii (UInt8.not_le.mp h), ih]
      rfl

theorem stringText_escapeUnits (src : Bytes) :
    stringText (src.map escapeUnit) = jsonEscapeBytes src := by
  unfold stringText jsonEscapeBytes
  rw [flatMap_map]
  simp only [text_escapeUnit]

theorem printable_jsonEscapeByte (b : UInt8) : ∀ c ∈ jsonEscapeByte b, 0x20 ≤ c := by
  have hall : ∀ b, (jsonEscapeByte b).all (0x20 ≤ ·) := forall_byte (by decide +kernel)
  simpa using hall b

-- == texts

def IsAscii (bytes : Bytes) : Prop := ∀ b ∈ bytes, b < 0x80

theorem IsAscii.validUtf8 {bytes : Bytes} (h : IsAscii bytes) : validUtf8 bytes := by
  refine validUtf8_iff.mpr ⟨bytes.map fun b => .ofNat b.toNat, ?_⟩
  rw [flatMap_map]
  exact ((flatMap_byteChar_eq_iff bytes).mpr h).symm

/-- A character is one byte below 0x80, or bytes from there on. -/
theorem utf8EncodeChar_cases (c : Char) :
    (∃ b, String.utf8EncodeChar c = [b]) ∨ ∀ b ∈ String.utf8EncodeChar c, 0x80 ≤ b := by
  have hhigh : ∀ b n : UInt8, 0x80 ≤ n → 0x80 ≤ b ||| n := fun b n hn =>
    UInt8.le_iff_toNat_le.mpr (Nat.le_trans hn (UInt8.toNat_or b n ▸ Nat.right_le_or))
  rcases c.utf8Size_eq with hsize | hsize | hsize | hsize
  · exact .inl ⟨_, String.utf8EncodeChar_eq_singleton hsize⟩
  · rw [String.utf8EncodeChar_eq_cons_cons hsize]
    simp [hhigh]
  · rw [String.utf8EncodeChar_eq_cons_cons_cons hsize]
    simp [hhigh]
  · rw [String.utf8EncodeChar_eq_cons_cons_cons_cons hsize]
    simp [hhigh]

variable {n : Nat}

/-- What stands behind ASCII in a text is a text. -/
theorem validUtf8_drop {bytes : Bytes} (h : validUtf8 bytes)
    (hascii : IsAscii (bytes.take n)) : validUtf8 (bytes.drop n) := by
  obtain ⟨chars, rfl⟩ := validUtf8_iff.mp h
  induction n generalizing chars with
  | zero => exact h
  | succ n ih =>
    cases chars with
    | nil => rfl
    | cons c chars =>
      rw [flatMap_cons] at hascii ⊢
      rcases utf8EncodeChar_cases c with ⟨b, heq⟩ | hhigh
      · rw [heq] at hascii ⊢
        exact ih _ (validUtf8_iff.mpr ⟨_, rfl⟩) fun x hx => hascii x (mem_cons_of_mem b hx)
      · obtain ⟨b, rest, heq⟩ := exists_cons_of_ne_nil (String.utf8EncodeChar_ne_nil)
        rw [heq] at hascii hhigh
        exact absurd (hascii b mem_cons_self) (UInt8.not_lt.mpr (hhigh b mem_cons_self))

theorem validUtf8_append {a b : Bytes} (ha : validUtf8 a) (hb : validUtf8 b) :
    validUtf8 (a ++ b) := by
  obtain ⟨front, rfl⟩ := validUtf8_iff.mp ha
  obtain ⟨back, rfl⟩ := validUtf8_iff.mp hb
  exact validUtf8_iff.mpr ⟨front ++ back, flatMap_append.symm⟩

-- == turns

/-- A turn takes the first `n` bytes of the input and puts out as many at
most; ASCII goes and a text comes. -/
structure Turn (input : Bytes) (turn : Bytes × Nat) : Prop where
  pos : 1 ≤ turn.2
  le : turn.2 ≤ input.length
  shrinks : turn.1.length ≤ turn.2
  ascii : IsAscii (input.take turn.2)
  valid : validUtf8 turn.1 = true

variable {input : Bytes}

theorem Turn.passed (hpos : 1 ≤ n) (hle : n ≤ input.length)
    (hascii : IsAscii (input.take n)) : Turn input (input.take n, n) :=
  ⟨hpos, hle, length_take_le n input, hascii, hascii.validUtf8⟩

/-- An escape that stands for one character. -/
theorem Turn.char (c : Char) (hpos : 4 ≤ n) (hle : n ≤ input.length)
    (hascii : IsAscii (input.take n)) : Turn input (String.utf8EncodeChar c, n) := by
  refine ⟨Nat.le_trans (by decide) hpos, hle, ?_, hascii, ?_⟩
  · rw [String.length_utf8EncodeChar]
    exact Nat.le_trans c.utf8Size_le_four hpos
  · exact validUtf8_iff.mpr ⟨[c], (flatMap_singleton ..).symm⟩

/-- An escape of a backslash and one letter. -/
theorem Turn.letter {b : UInt8} (hb : b < 0x80) {c : UInt8} (hc : c < 0x80) (rest : Bytes) :
    Turn (backslash :: b :: rest) ([c], 2) := by
  refine ⟨by simp, by simp, by simp, ?_, IsAscii.validUtf8 ?_⟩
  · intro x hx
    simp only [take_succ_cons, take_zero, mem_cons, not_mem_nil, or_false] at hx
    rcases hx with rfl | rfl
    · decide
    · exact hb
  · intro x hx
    rwa [mem_singleton.mp hx]

theorem hexDigit_ascii {b : UInt8} (h : (hexDigit b).isSome) : b < 0x80 := by
  revert h
  refine forall_byte (P := fun b => (hexDigit b).isSome = true → b < 0x80) ?_ b
  decide +kernel

theorem unicodeEscape_ascii (hfirst : byteAt input 0 = backslash)
    (hsecond : byteAt input 1 = lowerU) {cp : Nat} (hcp : parseHex4 (slice input 2 6) = some cp) :
    IsAscii (input.take 6) := by
  obtain _ | ⟨x, _ | ⟨y, _ | ⟨a, _ | ⟨b, _ | ⟨c, _ | ⟨d, rest⟩⟩⟩⟩⟩⟩ := input
  case cons.cons.cons.cons.cons.cons =>
    obtain rfl : x = backslash := hfirst
    obtain rfl : y = lowerU := hsecond
    simp only [slice, drop_succ_cons, drop_zero, take_succ_cons, parseHex4, Option.bind_eq_bind,
      Option.bind_eq_some_iff] at hcp
    obtain ⟨_, ha, _, hb, _, hc, _, hd, -⟩ := hcp
    intro z hz
    simp only [take_succ_cons, take_zero, mem_cons, not_mem_nil, or_false] at hz
    rcases hz with rfl | rfl | rfl | rfl | rfl | rfl
    · decide
    · decide
    · exact hexDigit_ascii (ha ▸ rfl)
    · exact hexDigit_ascii (hb ▸ rfl)
    · exact hexDigit_ascii (hc ▸ rfl)
    · exact hexDigit_ascii (hd ▸ rfl)
  all_goals cases hcp

theorem Turn.passThroughOr {decoded : Option Char} (hpos : 4 ≤ n)
    (hlen : 6 ≤ input.length) (hascii : IsAscii (input.take 6))
    (h : decoded.isSome → n ≤ input.length ∧ IsAscii (input.take n)) :
    Turn input (passThroughOr input decoded n) := by
  cases decoded with
  | none => exact .passed (by decide) hlen hascii
  | some c => exact .char c hpos (h rfl).1 (h rfl).2

/-- The second half of a pair is ASCII too. -/
theorem lowSurrogate_ascii (hascii : IsAscii (input.take 6))
    (h : (lowSurrogate input).isSome) : 12 ≤ input.length ∧ IsAscii (input.take 12) := by
  unfold lowSurrogate at h
  split at h
  next hlow =>
    split at h
    next lo hlo =>
      have hsecond : IsAscii ((input.drop 6).take 6) := by
        refine unicodeEscape_ascii ?_ ?_ (?_ : parseHex4 _ = some lo)
        · simpa [byteAt] using hlow.2.1
        · simpa [byteAt] using hlow.2.2
        · simpa [slice] using hlo
      refine ⟨hlow.1, ?_⟩
      rw [show 12 = 6 + 6 from rfl, take_add]
      exact fun x hx => (mem_append.mp hx).elim (hascii x) (hsecond x)
    next => cases h
  next => cases h

theorem Turn.backslash (rest : Bytes) : Turn (backslash :: rest) ([Ascii.backslash], 1) := by
  refine .passed (Nat.le_refl 1) (by simp) fun b hb => ?_
  rw [mem_singleton.mp hb]
  decide

theorem decodeUnicodeEscape_turn (rest : Bytes) :
    Turn (backslash :: lowerU :: rest) (decodeUnicodeEscape (backslash :: lowerU :: rest)) := by
  unfold decodeUnicodeEscape
  split
  next => exact .backslash _
  next hlen =>
    split
    next => exact .backslash _
    next cp hcp =>
      have hlen := Nat.not_lt.mp hlen
      have hascii := unicodeEscape_ascii rfl rfl hcp
      split
      next =>
        refine .passThroughOr (by decide) hlen hascii fun hsome => lowSurrogate_ascii hascii ?_
        exact Option.isSome_of_isSome_bind hsome
      split
      next => exact .passed (by decide) hlen hascii
      next => exact .passThroughOr (by decide) hlen hascii fun _ => ⟨hlen, hascii⟩

theorem decodeStep_turn (rest : Bytes) : Turn (backslash :: rest) (decodeStep backslash rest) := by
  cases rest with
  | nil => exact .backslash []
  | cons c rest =>
    unfold decodeStep
    dsimp only
    rw [if_neg (not_not_intro rfl)]
    -- the eight letters
    iterate 8
      split
      next hc => exact .letter (hc ▸ by decide) (by decide) rest
    split
    next hc => exact hc ▸ decodeUnicodeEscape_turn rest
    next => exact .backslash _

-- == the loop

variable (b : UInt8) (rest : Bytes)

/-- What a turn takes is there, and it puts out no more. -/
theorem decodeStep_bounds :
    1 ≤ (decodeStep b rest).2 ∧ (decodeStep b rest).2 ≤ rest.length + 1
      ∧ (decodeStep b rest).1.length ≤ (decodeStep b rest).2 := by
  by_cases hb : b = backslash
  · obtain rfl := hb
    have hturn := decodeStep_turn rest
    exact ⟨hturn.pos, hturn.le, hturn.shrinks⟩
  · rw [decodeStep_raw hb]
    exact ⟨Nat.le_refl 1, Nat.le_add_left 1 _, Nat.le_refl 1⟩

theorem length_decodeJsonEscapes_le (input : Bytes) :
    (decodeJsonEscapes input).length ≤ input.length := by
  fun_induction decodeJsonEscapes input with
  | case1 => exact Nat.le_refl 0
  | case2 b rest turn ih =>
    have hbounds : 1 ≤ turn.2 ∧ turn.2 ≤ rest.length + 1 ∧ turn.1.length ≤ turn.2 :=
      decodeStep_bounds b rest
    rw [length_drop] at ih
    rw [length_append, length_cons]
    omega

/-- Bytes without a backslash are passed through. -/
theorem decodeJsonEscapes_raw {front : Bytes} (h : backslash ∉ front) :
    decodeJsonEscapes (front ++ rest) = front ++ decodeJsonEscapes rest := by
  induction front with
  | nil => rfl
  | cons b front ih =>
    rw [mem_cons, not_or] at h
    have hcons := decodeJsonEscapes_cons (decodeStep_raw (.symm h.1) (front ++ rest)) rfl
    exact hcons.trans (congrArg (b :: ·) (ih h.2))

/-- A text is decoded to a text. -/
theorem validUtf8_decodeJsonEscapes (input : Bytes) (h : validUtf8 input) :
    validUtf8 (decodeJsonEscapes input) := by
  -- on the length, since a turn may take several characters
  induction hlen : input.length using Nat.strongRecOn generalizing input with
  | ind n ih =>
    obtain ⟨chars, rfl⟩ := validUtf8_iff.mp h
    cases chars with
    | nil =>
      rw [flatMap_nil, decodeJsonEscapes]
      rfl
    | cons c chars =>
      rw [flatMap_cons] at h hlen ⊢
      by_cases hc : backslash ∈ String.utf8EncodeChar c
      · have heq : String.utf8EncodeChar c = [backslash] := by
          rcases utf8EncodeChar_cases c with ⟨b, heq⟩ | hhigh
          · rw [heq, mem_singleton] at hc
            rw [heq, hc]
          · exact absurd (hhigh _ hc) (by decide)
        rw [heq, singleton_append] at h hlen ⊢
        have hturn := decodeStep_turn (chars.flatMap String.utf8EncodeChar)
        have hrest := validUtf8_drop h hturn.ascii
        obtain ⟨k, hk⟩ := Nat.exists_eq_add_of_le' hturn.pos
        rw [hk] at hrest
        rw [decodeJsonEscapes, hk]
        refine validUtf8_append hturn.valid (ih _ ?_ _ hrest rfl)
        rw [← hlen, length_drop, length_cons]
        omega
      · have hpos := length_pos_iff.mpr (String.utf8EncodeChar_ne_nil (c := c))
        rw [length_append] at hlen
        rw [decodeJsonEscapes_raw _ hc]
        refine validUtf8_append (validUtf8_iff.mpr ⟨[c], (flatMap_singleton ..).symm⟩) ?_
        exact ih _ (by omega) _ (validUtf8_iff.mpr ⟨chars, rfl⟩) rfl

/-- **Escaping and decoding.** What the escaper writes decodes to what it
was given, without an unescaped quote or a control character. On any input
the decoding loop moves on with every turn, its output is no longer than
the input, and it is a text if that is one. -/
theorem escaping_inverse :
    (∀ src : Bytes, decodeJsonEscapes (jsonEscapeBytes src) = src
      ∧ (∀ c ∈ classify .inside (jsonEscapeBytes src), c.isQuote = false)
      ∧ ∀ b ∈ jsonEscapeBytes src, 0x20 ≤ b)
    ∧ (∀ (b : UInt8) (rest : Bytes),
      1 ≤ (decodeStep b rest).2 ∧ (decodeStep b rest).2 ≤ rest.length + 1)
    ∧ ∀ input : Bytes, (decodeJsonEscapes input).length ≤ input.length
      ∧ (validUtf8 input = true → validUtf8 (decodeJsonEscapes input) = true) := by
  refine ⟨fun src => ⟨?_, ?_, fun b hb => ?_⟩, fun b rest => ?_, fun input => ?_⟩
  · rw [← stringText_escapeUnits, decodeJsonEscapes_stringText, decodeUnits_escapeUnits]
  · rw [← stringText_escapeUnits]
    exact isQuote_stringText _
  · obtain ⟨c, -, hb⟩ := mem_flatMap.mp hb
    exact printable_jsonEscapeByte c b hb
  · exact ⟨(decodeStep_bounds b rest).1, (decodeStep_bounds b rest).2.1⟩
  · exact ⟨length_decodeJsonEscapes_le input, validUtf8_decodeJsonEscapes input⟩

end FastForward.Io
