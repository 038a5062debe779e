/-
Plain text through the wrapper and the scanner.

A message that is wrapped comes back as its bytes are decoded, so exactly
if they are ASCII. A message that begins an object is not wrapped, and no
string of a line is as long as the line.
-/
import FastForward.Core.Proofs.Stretches
import FastForward.Io.Proofs.Escaping

namespace FastForward.Io

open Core List Ascii

-- == wrapped messages

def stringOf : FieldValue → Option Bytes
  | .str text | .decodedStr text => some text
  | _ => none

/-- A buffer scans to one row with one field, and that is the string. -/
def ScansToString {F : Type} [FloatOps F] (config : ScanConfig F) (buf text : Bytes) : Prop :=
  ∃ key value, scanStreaming buf config
      = [.beginRow, .resolveField key, .append key value, .endRow]
    ∧ stringOf value = some text

def wrappedLine (text name : Bytes) : Line :=
  { lead := [], trail := [], cr := false
    object := .members (.last ⟨[], name.map byteUnit, []⟩ [] (.str (text.map byteUnit)) []) }

theorem text_wrappedLine (text name : Bytes) :
    (wrappedLine text name).text = wrapPlainText text name := by
  simp [wrappedLine, Line.text, Line.body, ObjectText.inner, Json.render, labelText, Name.text,
    blanks, quoted, wrapPlainText, stringText_byteUnits]

variable {F : Type} [FloatOps F] {config : ScanConfig F}

variable (hall : config.extractAll = true) (hpredicate : config.rowPredicate = none)
  (hline : config.lineFieldName = none) (text name : Bytes)

include hall hpredicate hline

theorem scanStreaming_wrapPlainText :
    ∃ value, scanStreaming (wrapPlainText text name ++ [newline]) config
        = [.beginRow, .resolveField (name.flatMap byteChar),
          .append (name.flatMap byteChar) value, .endRow]
      ∧ stringOf value = some (text.flatMap byteChar) := by
  have hscan := scanStreaming_lineTexts hall hpredicate [wrappedLine text name] true
  have htext : joinLines ([wrappedLine text name].map Line.text ++ if true then [[]] else [])
      = wrapPlainText text name ++ [newline] := by
    rw [← text_wrappedLine]
    rfl
  have hcapture : captureCalls config (wrappedLine text name).body = [] := by
    rw [captureCalls, ScanConfig.capturesLine, hline]
    rfl
  rw [htext, flatMap_singleton, Line.calls, hcapture] at hscan
  refine ⟨(Json.str (text.map byteUnit)).fieldValue, ?_, ?_⟩
  · rw [hscan, ← decodeUnits_byteUnits]
    rfl
  · simp only [Json.fieldValue, decodeUnits_byteUnits]
    split <;> rfl

theorem scansToString_wrapPlainText :
    ScansToString config (wrapPlainText text name ++ [newline]) text ↔ ∀ b ∈ text, b < 0x80 := by
  obtain ⟨value, hscan, hvalue⟩ := scanStreaming_wrapPlainText hall hpredicate hline text name
  rw [← flatMap_byteChar_eq_iff]
  constructor
  · intro h
    obtain ⟨key, value', hscan', hvalue'⟩ := h
    rw [hscan'] at hscan
    simp only [cons.injEq, ScanCall.append.injEq] at hscan
    rw [hscan.2.2.1.2, hvalue] at hvalue'
    exact Option.some.inj hvalue'
  · intro h
    rw [h] at hvalue
    exact ⟨_, value, hscan, hvalue⟩

omit hall hpredicate hline

-- == messages that begin an object

/-- The strings of a scan stand behind the first byte of a line. -/
theorem length_le_of_scan {buf key text : Bytes} {value : FieldValue}
    (hscan : .append key value ∈ scanStreaming (buf ++ [newline]) config)
    (htext : stringOf value = some text) : text.length ≤ buf.length - 1 := by
  obtain ⟨line, hline, hnewline, hstands⟩ := exists_line_of_mem_scanStreaming hscan
  have hshort : line.length ≤ buf.length := by
    refine Nat.le_of_lt_succ (Nat.lt_of_le_of_ne ?_ fun hlen => hnewline ?_)
    · simpa using hline.length_le
    · rw [hline.eq_of_length (by simpa using hlen)]
      exact mem_append_right _ (mem_singleton_self _)
  have hinside : text.length ≤ line.length - 1 := by
    rw [← length_drop]
    rcases hstands with heq | hstands
    · cases heq
    cases value with
    | str value =>
      obtain rfl := Option.some.inj htext
      exact hstands.length_le
    | decodedStr value =>
      obtain rfl := Option.some.inj htext
      obtain ⟨raw, rfl, hraw⟩ := hstands
      exact (length_decodeJsonEscapes_le raw).trans hraw.length_le
    | _ => cases htext
  omega

/-- Plain text comes back from the scanner exactly when it is ASCII and,
where a message is passed on as JSON if it begins an object, it does not
begin one. -/
theorem wrapped_text_scans_back_iff (hall : config.extractAll = true)
    (hpredicate : config.rowPredicate = none) (hline : config.lineFieldName = none)
    (message name : Bytes) :
    (ScansToString config (writePlainTextFallback message name) message
        ↔ ∀ b ∈ message, b < 0x80)
      ∧ (ScansToString config (writeCriMessage message name) message
        ↔ (∀ b ∈ message, b < 0x80)
          ∧ (message.dropWhile isJsonWhitespace).head? ≠ some openBrace) := by
  refine ⟨scansToString_wrapPlainText hall hpredicate hline message name, ?_⟩
  unfold writeCriMessage
  dsimp only
  split
  next hobject =>
    refine iff_of_false ?_ fun h => h.2 hobject
    rintro ⟨key, value, hscan, hvalue⟩
    have hmem : ScanCall.append key value
        ∈ scanStreaming (message.dropWhile isJsonWhitespace ++ [newline]) config := by
      rw [hscan]
      simp
    have hlen := length_le_of_scan hmem hvalue
    have hle := (dropWhile_suffix (l := message) isJsonWhitespace).length_le
    have hpos : 0 < (message.dropWhile isJsonWhitespace).length := by
      obtain ⟨rest, hjson⟩ := head?_eq_some_iff.mp hobject
      rw [hjson]
      exact Nat.succ_pos _
    omega
  next hplain =>
    rw [and_iff_left hplain]
    exact scansToString_wrapPlainText hall hpredicate hline message name

/-- `ok "` and a tab, by both writers. -/
theorem ascii_text_scans_back :
    ScansToString (.default : ScanConfig Int)
        (writePlainTextFallback [0x6f, 0x6b, 0x20, 0x22, 0x09] [0x62])
        [0x6f, 0x6b, 0x20, 0x22, 0x09]
      ∧ ScansToString (.default : ScanConfig Int)
        (writeCriMessage [0x6f, 0x6b, 0x20, 0x22, 0x09] [0x62]) [0x6f, 0x6b, 0x20, 0x22, 0x09] :=
  ⟨(wrapped_text_scans_back_iff rfl rfl rfl _ _).1.mpr (by decide +kernel),
    (wrapped_text_scans_back_iff rfl rfl rfl _ _).2.mpr (by decide +kernel)⟩

/-- The two bytes of an e with an acute accent come back as four. -/
theorem accented_text_does_not_scan_back :
    validUtf8 [0xc3, 0xa9] = true
      ∧ scanStreaming (writeCriMessage [0xc3, 0xa9] [0x62]) (.default : ScanConfig Int)
        = [.beginRow, .resolveField [0x62], .append [0x62] (.decodedStr [0xc3, 0x83, 0xc2, 0xa9]),
          .endRow]
      ∧ ¬ ScansToString (.default : ScanConfig Int) (writeCriMessage [0xc3, 0xa9] [0x62])
        [0xc3, 0xa9] := by
  refine ⟨by decide +kernel, (and_iff_left_of_imp fun hscan => ?_).mpr (by decide +kernel)⟩
  rintro ⟨key, value, hscan', hvalue⟩
  rw [hscan] at hscan'
  simp only [cons.injEq, ScanCall.append.injEq] at hscan'
  rw [← hscan'.2.2.1.2] at hvalue
  exact absurd hvalue (by decide)

end FastForward.Io
