/-
Percent coding of object keys: `url_encode` (`s3_input/client.rs`) and
`url_decode` (`sqs.rs`).
-/
import FastForward.Core.Lossy

namespace FastForward.Io.S3

open Core List Ascii

/-- Begins an escape. -/
abbrev percent : UInt8 := 0x25

/-- Upper-case digits, as S3 writes them. -/
def nibbleToHex (n : UInt8) : UInt8 :=
  if n ≤ 9 then zero + n else if n ≤ 15 then upperA + n - 10 else zero

/-- Digits of either case are read. -/
def hexNibble (b : UInt8) : Option UInt8 :=
  if zero ≤ b && b ≤ nine then some (b - zero)
  else if lowerA ≤ b && b ≤ lowerF then some (b - lowerA + 10)
  else if upperA ≤ b && b ≤ upperF then some (b - upperA + 10)
  else none

/-- `A-Z a-z 0-9 - _ . ~`. -/
def isUnreserved (b : UInt8) : Bool :=
  upperA ≤ b && b ≤ upperZ || lowerA ≤ b && b ≤ 0x7a || zero ≤ b && b ≤ nine
    || b == minus || b == 0x5f || b == dot || b == 0x7e

/-- An unreserved byte stands for itself. -/
def encodeByte (b : UInt8) : Bytes :=
  if isUnreserved b then [b] else [percent, nibbleToHex (b >>> 4), nibbleToHex (b &&& 0x0f)]

/-- An object key in the path of a request. -/
def urlEncode (s : Bytes) : Bytes := s.flatMap encodeByte

/-- The loop of `url_decode`: an escape needs two bytes behind it. -/
def decodeBytes : Bytes → Bytes
  | b :: first :: second :: rest =>
    match b == percent, hexNibble first, hexNibble second with
    | true, some hi, some lo => (hi <<< 4 ||| lo) :: decodeBytes rest
    | _, _, _ => b :: decodeBytes (first :: second :: rest)
  | bytes => bytes

/-- A key as S3 reports it in a notification. -/
def urlDecode (s : Bytes) : Bytes := fromUtf8Lossy (decodeBytes s)

end FastForward.Io.S3
