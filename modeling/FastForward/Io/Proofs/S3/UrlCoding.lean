/-
Decoding gives back an object key that was encoded, byte by byte: what is
encoded as itself is no percent sign, and an escape is read as the byte it
was made of.
-/
import FastForward.Io.S3.UrlCoding
import FastForward.Io.Proofs.PlainText

namespace FastForward.Io.S3

open Core List Ascii

/-- A byte that is no percent sign stands for itself. -/
theorem decodeBytes_cons {b : UInt8} (h : b ≠ percent) (rest : Bytes) :
    decodeBytes (b :: rest) = b :: decodeBytes rest := by
  match rest with
  | [] | [_] => rfl
  | first :: second :: rest =>
    rw [decodeBytes, beq_false_of_ne h]

/-- A byte is read back from its escape. -/
theorem decodeBytes_encodeByte (b : UInt8) (rest : Bytes) :
    decodeBytes (encodeByte b ++ rest) = b :: decodeBytes rest := by
  unfold encodeByte
  split
  next hplain =>
    refine decodeBytes_cons ?_ rest
    rintro rfl
    cases hplain
  next =>
    obtain ⟨hhi, hlo, hbyte⟩ := forall_byte (P := fun b =>
      hexNibble (nibbleToHex (b >>> 4)) = some (b >>> 4)
        ∧ hexNibble (nibbleToHex (b &&& 0x0f)) = some (b &&& 0x0f)
        ∧ b >>> 4 <<< 4 ||| b &&& 0x0f = b) (by decide +kernel) b
    show decodeBytes (percent :: _ :: _ :: rest) = _
    rw [decodeBytes, hhi, hlo]
    exact congrArg (· :: _) hbyte

/-- Decoding gives back every key that was encoded. -/
theorem urlDecode_urlEncode (s : Str) : urlDecode (urlEncode s.bytes) = s.bytes := by
  have hbytes : ∀ bytes, decodeBytes (urlEncode bytes) = bytes := by
    intro bytes
    induction bytes with
    | nil => rfl
    | cons b bytes ih => rw [urlEncode, flatMap_cons, decodeBytes_encodeByte, ← urlEncode, ih]
  rw [urlDecode, hbytes, fromUtf8Lossy_of_validUtf8 s.valid]

end FastForward.Io.S3
