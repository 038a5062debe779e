/-
Strings and numbers of the grammar, as the scanner's own functions take
them: decoding the escapes of a string text gives the string meant, and a
number text is an integer for the scanner exactly when it has neither
point nor exponent and fits an `i64`.
-/
import FastForward.Core.Json

namespace FastForward.Core

open List Ascii

-- == hex digits

theorem hexDigit_byte (d : HexDigit) : hexDigit d.byte = some d.value.val := by
  obtain ⟨value, upper⟩ := d
  revert value upper
  decide

/-- Four digits are read as their number. -/
theorem parseHex4_text (q : HexQuad) (rest : Bytes) :
    parseHex4 (q.a.byte :: q.b.byte :: q.c.byte :: q.d.byte :: rest) = some q.code := by
  simp only [parseHex4, hexDigit_byte, Option.bind_eq_bind, Option.bind_some, Option.pure_def,
    HexQuad.code, Option.some.injEq]
  omega

theorem HexQuad.code_lt (q : HexQuad) : q.code < 0x10000 := by
  rw [code]
  omega

variable {n : Nat}

theorem charFromU32_some (h : n.isValidChar) :
    charFromU32 n = some (Char.ofNat n) := if_pos h

-- == unicode escapes

theorem slice_text (q : HexQuad) (rest : Bytes) :
    slice (q.text ++ rest) 2 6 = [q.a.byte, q.b.byte, q.c.byte, q.d.byte] := rfl

theorem take_text (q : HexQuad) (rest : Bytes) : (q.text ++ rest).take 6 = q.text := rfl

/-- The escape of a low surrogate is found behind the one of a high. -/
theorem lowSurrogate_unicode (q low : HexQuad) (rest : Bytes) :
    lowSurrogate (q.text ++ (low.text ++ rest))
      = if isLowSurrogate low.code then some low.code else none := by
  have hslice : slice (q.text ++ (low.text ++ rest)) 8 12
      = [low.a.byte, low.b.byte, low.c.byte, low.d.byte] := rfl
  have hlen : 12 ≤ (q.text ++ (low.text ++ rest)).length := by
    simp only [length_append, HexQuad.text, length_cons]
    omega
  rw [lowSurrogate, if_pos ⟨hlen, rfl, rfl⟩, hslice, parseHex4_text]
  simp only [isLowSurrogate, Bool.and_eq_true, decide_eq_true_eq]

/-- Nothing else is taken for one. -/
theorem lowSurrogate_none (q : HexQuad) {units : List StringUnit}
    (h : ∀ low rest, units ≠ .unicode low :: rest) :
    lowSurrogate (q.text ++ stringText units) = none := by
  refine if_neg fun hlow => ?_
  cases units with
  | nil => exact absurd hlow.1 (by simp [HexQuad.text, stringText])
  | cons unit rest =>
    cases unit with
    | raw b plain => exact plain.2.2 hlow.2.1
    | escape e =>
      have hletter : e.letter = lowerU := hlow.2.2
      revert hletter
      cases e <;> decide
    | unicode low => exact h low rest rfl

section Unicode

variable {q : HexQuad} {rest : Bytes}

/-- A unicode escape, by what its number is. -/
theorem decodeUnicodeEscape_eq :
    decodeUnicodeEscape (q.text ++ rest)
      = if 0xD800 ≤ q.code ∧ q.code ≤ 0xDBFF then
          passThroughOr (q.text ++ rest)
            ((lowSurrogate (q.text ++ rest)).bind fun lo =>
              charFromU32 (surrogatePair q.code lo)) 12
        else if 0xDC00 ≤ q.code ∧ q.code ≤ 0xDFFF then (q.text, 6)
        else passThroughOr (q.text ++ rest) (charFromU32 q.code) 6 := by
  have hlen : ¬ (q.text ++ rest).length < 6 := by
    simp only [length_append, HexQuad.text, length_cons]
    omega
  unfold decodeUnicodeEscape surrogatePair
  rw [if_neg hlen, slice_text, parseHex4_text, take_text]

/-- An escape without its second half. -/
theorem decodeUnicodeEscape_alone
    (h : isHighSurrogate q.code → lowSurrogate (q.text ++ rest) = none) :
    decodeUnicodeEscape (q.text ++ rest) = (q.alone, 6) := by
  have hcode := q.code_lt
  rw [decodeUnicodeEscape_eq, HexQuad.alone]
  simp only [isHighSurrogate, isLowSurrogate, Bool.and_eq_true, Bool.or_eq_true,
    decide_eq_true_eq] at h ⊢
  by_cases hhigh : 0xD800 ≤ q.code ∧ q.code ≤ 0xDBFF
  · rw [if_pos hhigh, if_pos (.inl hhigh), h hhigh]
    rfl
  · by_cases hlow : 0xDC00 ≤ q.code ∧ q.code ≤ 0xDFFF
    · rw [if_neg hhigh, if_pos hlow, if_pos (.inr hlow)]
    · have hvalid : q.code.isValidChar := by
        omega
      rw [if_neg hhigh, if_neg hlow, if_neg (fun h => h.elim hhigh hlow), charFromU32_some hvalid]
      rfl

/-- A surrogate pair is one character. -/
theorem decodeUnicodeEscape_pair {low : HexQuad} (hhigh : isHighSurrogate q.code)
    (hlow : isLowSurrogate low.code) :
    decodeUnicodeEscape (q.text ++ (low.text ++ rest))
      = (String.utf8EncodeChar (Char.ofNat (surrogatePair q.code low.code)), 12) := by
  have hpair := lowSurrogate_unicode q low rest
  rw [if_pos hlow] at hpair
  simp only [isHighSurrogate, isLowSurrogate, Bool.and_eq_true, decide_eq_true_eq] at hhigh hlow
  have hvalid : (surrogatePair q.code low.code).isValidChar := by
    unfold Nat.isValidChar surrogatePair
    omega
  rw [decodeUnicodeEscape_eq, if_pos hhigh, hpair, Option.bind_some, charFromU32_some hvalid]
  rfl

end Unicode

-- == escape decoding

variable {rest : Bytes} {b : UInt8}

/-- Decoding, unit by unit. -/
theorem decodeJsonEscapes_cons {tail out : Bytes}
    (hstep : decodeStep b rest = (out, n)) (htail : rest.drop (n - 1) = tail) :
    decodeJsonEscapes (b :: rest) = out ++ decodeJsonEscapes tail := by
  rw [decodeJsonEscapes, hstep, htail]

/-- A byte that is no backslash stands for itself. -/
theorem decodeStep_raw (h : b ≠ backslash) (rest : Bytes) : decodeStep b rest = ([b], 1) := by
  cases rest with
  | nil => rfl
  | cons c rest => exact if_pos h

/-- An escape of two bytes stands for one. -/
theorem decodeStep_escape (e : Escape) (rest : Bytes) :
    decodeStep backslash (e.letter :: rest) = ([e.meaning], 2) := by
  cases e <;> rfl

theorem stringText_cons (unit : StringUnit) (rest : List StringUnit) :
    stringText (unit :: rest) = unit.text ++ stringText rest := flatMap_cons

/-- An escape without a partner. -/
theorem decodeJsonEscapes_alone {q : HexQuad}
    (h : isHighSurrogate q.code → lowSurrogate (q.text ++ rest) = none) :
    decodeJsonEscapes (q.text ++ rest) = q.alone ++ decodeJsonEscapes rest :=
  decodeJsonEscapes_cons (decodeUnicodeEscape_alone h) rfl

variable (units : List StringUnit)

/-- Decoding a string text gives the string meant. -/
theorem decodeJsonEscapes_stringText :
    decodeJsonEscapes (stringText units) = decodeUnits units := by
  fun_induction decodeUnits units with
  | case1 => rw [stringText, flatMap_nil, decodeJsonEscapes]
  | case2 b plain rest ih =>
    rw [← ih]
    exact decodeJsonEscapes_cons (decodeStep_raw plain.2.2 _) rfl
  | case3 e rest ih =>
    rw [← ih]
    exact decodeJsonEscapes_cons (decodeStep_escape e _) rfl
  | case4 high low rest hpair ih =>
    rw [Bool.and_eq_true] at hpair
    rw [← ih]
    exact decodeJsonEscapes_cons (decodeUnicodeEscape_pair hpair.1 hpair.2) rfl
  | case5 high low rest hpair ih =>
    rw [← ih]
    refine decodeJsonEscapes_alone fun hhigh => ?_
    rw [Bool.and_eq_true] at hpair
    exact (lowSurrogate_unicode high low _).trans (if_neg fun hlow => hpair ⟨hhigh, hlow⟩)
  | case6 q rest hother ih =>
    rw [← ih]
    exact decodeJsonEscapes_alone fun _ => lowSurrogate_none q hother

/-- A string has a backslash if it has an escape. -/
theorem contains_stringText :
    (stringText units).contains backslash = units.any StringUnit.isEscape := by
  induction units with
  | nil => rfl
  | cons unit rest ih =>
    rw [stringText_cons, contains_append, ih]
    cases unit with
    | raw b plain =>
      have hb : (StringUnit.raw b plain).text.contains backslash = false := by
        simpa [StringUnit.text] using plain.2.2.symm
      rw [hb]
      rfl
    | escape e | unicode q => rfl

/-- Without escapes a string text is the string meant. -/
theorem decodeUnits_raw {units : List StringUnit}
    (h : units.any StringUnit.isEscape = false) : decodeUnits units = stringText units := by
  induction units with
  | nil => rfl
  | cons unit rest ih =>
    rw [any_cons, Bool.or_eq_false_iff] at h
    cases unit with
    | raw b plain => rw [decodeUnits, ih h.2]; rfl
    | escape e | unicode q => exact absurd h.1 Bool.noConfusion

/-- The text of a string is decoded to what it means. -/
theorem decodeText_stringText : decodeText (stringText units) = decodeUnits units := by
  rw [decodeText, contains_stringText]
  split
  next => exact decodeJsonEscapes_stringText units
  next h => exact (decodeUnits_raw (by simpa using h)).symm

/-- Its value is the one its units have. -/
theorem strValue_stringText : strValue (stringText units) = (Json.str units).fieldValue := by
  rw [strValue, contains_stringText, decodeJsonEscapes_stringText, Json.fieldValue]
  split
  next => rfl
  next h => rw [decodeUnits_raw (by simpa using h)]

-- == numbers

theorem isAsciiDigit_digitByte (d : Fin 10) : isAsciiDigit (digitByte d) = true := by
  revert d
  decide

theorem digitByte_sub (d : Fin 10) : (digitByte d - zero).toNat = d.val := by
  revert d
  decide

/-- More digits behind some number. -/
def digitsFrom (n : Nat) (ds : List (Fin 10)) : Nat :=
  ds.foldl (fun acc d => acc * 10 + d.val) n

/-- Digits only make a number greater. -/
theorem le_digitsFrom (n : Nat) (ds : List (Fin 10)) : n ≤ digitsFrom n ds := by
  induction ds generalizing n with
  | nil => exact Nat.le_refl n
  | cons d ds ih =>
    have hle := ih (n * 10 + d.val)
    exact Nat.le_trans (by omega) hle

/-- Beyond the range it stays beyond. -/
theorem inI64_signed_mono {minus : Bool} {m : Nat} (h : m ≤ n)
    (hm : inI64 (signed minus m) = false) : inI64 (signed minus n) = false := by
  rw [inI64, Bool.and_eq_false_iff, decide_eq_false_iff_not, decide_eq_false_iff_not] at hm ⊢
  cases minus <;> simp only [signed, if_true, if_false, Bool.false_eq_true] at hm ⊢ <;> omega

/-- The checked accumulation succeeds exactly in range. -/
theorem parseDigits_digitsText (minus : Bool) (ds : List (Fin 10))
    (hn : inI64 (signed minus n)) :
    parseDigits minus (signed minus n) (digitsText ds)
      = if inI64 (signed minus (digitsFrom n ds)) then some (signed minus (digitsFrom n ds))
        else none := by
  induction ds generalizing n with
  | nil => exact (if_pos hn).symm
  | cons d ds ih =>
    have hscaled : signed minus n * 10 = signed minus (n * 10) := by
      cases minus <;> simp only [signed, if_true, if_false, Bool.false_eq_true] <;> omega
    have hnext : (if minus then signed minus (n * 10) - (d.val : Int)
        else signed minus (n * 10) + (d.val : Int)) = signed minus (n * 10 + d.val) := by
      cases minus <;> simp only [signed, if_true, if_false, Bool.false_eq_true] <;> omega
    have hpush : pushDigit minus (signed minus n) (digitByte d)
        = if inI64 (signed minus (n * 10 + d.val)) then some (signed minus (n * 10 + d.val))
          else none := by
      rw [pushDigit, if_pos (isAsciiDigit_digitByte d)]
      simp only [hscaled, digitByte_sub]
      rw [hnext]
      by_cases hin : inI64 (signed minus (n * 10))
      · rw [if_pos hin]
      · have hout := inI64_signed_mono (Nat.le_add_right (n * 10) d.val) (Bool.eq_false_iff.mpr hin)
        rw [if_neg hin, hout]
        rfl
    rw [digitsText, map_cons, parseDigits, hpush]
    by_cases hin : inI64 (signed minus (n * 10 + d.val))
    · rw [if_pos hin]
      exact ih hin
    · have hout := inI64_signed_mono (le_digitsFrom (n * 10 + d.val) ds) (Bool.eq_false_iff.mpr hin)
      have hsame : digitsFrom n (d :: ds) = digitsFrom (n * 10 + d.val) ds := rfl
      rw [if_neg hin, hsame, hout]
      rfl

theorem toDigits_ne_nil (w : Whole) : w.toDigits ≠ [] := by
  cases w <;> exact cons_ne_nil _ _

theorem digitByte_ne_minus (d : Fin 10) : digitByte d ≠ Ascii.minus := by
  revert d
  decide

/-- An optional minus and digits parse exactly in range. -/
theorem parseIntFast_text (minus : Bool) {ds : List (Fin 10)} (hds : ds ≠ []) :
    parseIntFast ((if minus then [Ascii.minus] else []) ++ digitsText ds)
      = if inI64 (signed minus (digitsValue ds)) then some (signed minus (digitsValue ds))
        else none := by
  have hparse := parseDigits_digitsText minus ds (n := 0) (by cases minus <;> decide)
  obtain ⟨d, ds, rfl⟩ := exists_cons_of_ne_nil hds
  cases minus with
  | true => exact hparse
  | false =>
    have hfirst : digitByte d ≠ minus := digitByte_ne_minus d
    simp only [Bool.false_eq_true, if_false, nil_append, parseIntFast, digitsText, map_cons, hfirst]
    exact hparse

/-- Digits are an `i64` if their value is in its range. -/
theorem parseIntFast_whole (minus : Bool) (w : Whole) :
    (parseIntFast ((if minus then [Ascii.minus] else []) ++ digitsText w.toDigits)).isSome
      = inI64 (signed minus (digitsValue w.toDigits)) := by
  rw [parseIntFast_text minus (toDigits_ne_nil w)]
  cases inI64 (signed minus (digitsValue w.toDigits)) <;> rfl

/-- A digit is the byte of a number below ten. -/
theorem exists_digitByte {b : UInt8} (h : isAsciiDigit b) : ∃ d, b = digitByte d := by
  simp only [isAsciiDigit, Bool.and_eq_true, decide_eq_true_eq, UInt8.le_iff_toNat_le] at h
  have hzero : zero.toNat = 48 := rfl
  have hnine : nine.toNat = 57 := rfl
  refine ⟨⟨b.toNat - 48, by omega⟩, ?_⟩
  rw [digitByte, Nat.add_sub_cancel' (by omega), UInt8.ofNat_toNat]

/-- Only digits pass the accumulation. -/
theorem exists_digits_of_parseDigits {minus : Bool} {acc n : Int} {bytes : Bytes}
    (h : parseDigits minus acc bytes = some n) : ∃ ds, bytes = digitsText ds := by
  induction bytes generalizing acc with
  | nil => exact ⟨[], rfl⟩
  | cons b rest ih =>
    rw [parseDigits, pushDigit] at h
    by_cases hdigit : isAsciiDigit b
    · split at h
      next =>
        obtain ⟨ds, rfl⟩ := ih h
        obtain ⟨d, rfl⟩ := exists_digitByte hdigit
        exact ⟨d :: ds, rfl⟩
      next => cases h
    · rw [if_neg hdigit] at h
      cases h

/-- The integer fast path accepts exactly the decimal integers of 64 bits. -/
theorem parseIntFast_eq_some_iff (bytes : Bytes) (n : Int) :
    parseIntFast bytes = some n ↔ ∃ (minus : Bool) (ds : List (Fin 10)), ds ≠ []
      ∧ bytes = (if minus then [Ascii.minus] else []) ++ digitsText ds
      ∧ n = signed minus (digitsValue ds) ∧ -(2 ^ 63) ≤ n ∧ n < 2 ^ 63 := by
  constructor
  · intro h
    obtain ⟨minus, ds, hds, rfl⟩ : ∃ (minus : Bool) (ds : List (Fin 10)), ds ≠ []
        ∧ bytes = (if minus then [Ascii.minus] else []) ++ digitsText ds := by
      unfold parseIntFast at h
      split at h
      next => cases h
      next b rest =>
        split at h
        next hminus =>
          split at h
          next => cases h
          next hrest =>
            obtain ⟨ds, rfl⟩ := exists_digits_of_parseDigits h
            exact ⟨true, ds, mt (congrArg digitsText) hrest, by rw [hminus]; rfl⟩
        next =>
          obtain ⟨ds, hds⟩ := exists_digits_of_parseDigits h
          refine ⟨false, ds, ?_, hds⟩
          rintro rfl
          cases hds
    rw [parseIntFast_text minus hds] at h
    split at h
    next hrange =>
      cases h
      exact ⟨minus, ds, hds, rfl, rfl, by simpa [inI64] using hrange⟩
    next => cases h
  · rintro ⟨minus, ds, hds, rfl, rfl, hrange⟩
    rw [parseIntFast_text minus hds, if_pos (by simpa [inI64] using hrange)]

theorem any_floatMark_digits (ds : List (Fin 10)) : (digitsText ds).any isFloatMark = false := by
  have hdigit : ∀ d : Fin 10, isFloatMark (digitByte d) = false := by decide
  rw [digitsText, any_map, any_eq_false]
  intro d _
  simp [hdigit d]

/-- A number text shows whether it is a float. -/
theorem any_floatMark_text (n : Number) : n.text.any isFloatMark = n.isFloat := by
  obtain ⟨minus, whole, fraction, exponent⟩ := n
  have hminus : (if minus then [Ascii.minus] else []).any isFloatMark = false := by
    cases minus <;> rfl
  have hexp : ∀ e : Exponent, e.text.any isFloatMark := by
    intro e
    rw [Exponent.text]
    cases e.upper <;> rfl
  rw [Number.text, any_append, any_append, any_append, hminus, any_floatMark_digits]
  cases fraction with
  | none =>
    cases exponent with
    | none => rfl
    | some e => exact hexp e
  | some f => rfl

/-- A number is read as the value it has. -/
theorem numberValue_text (n : Number) :
    numberValue n.text (n.text.any isFloatMark) = (Json.number n).fieldValue := by
  rw [any_floatMark_text, numberValue, Json.fieldValue]
  cases hfloat : n.isFloat with
  | true => rfl
  | false =>
    have hnone : n.fraction = none ∧ n.exponent = none := by
      simpa [Number.isFloat] using hfloat
    have htext : n.text
        = (if n.minus then [minus] else []) ++ digitsText n.whole.toDigits := by
      rw [Number.text, hnone.1, hnone.2]
      simp
    have hparse := parseIntFast_whole n.minus n.whole
    rw [← htext] at hparse
    rw [hparse, Number.wholeValue]
    cases inI64 (signed n.minus (digitsValue n.whole.toDigits)) <;> rfl

end FastForward.Core
