/-
Integers written into a buffer (`otlp_receiver/convert.rs`:
`write_i64_to_buf` and `write_u64_to_buf`).

An integer is a Lean integer in the range of its type. The digits are
counted, zeros make room for them, and they are written from the last to
the first; the index wraps below zero once there is nothing left to
write.
-/
import FastForward.Core.Bytes

namespace FastForward.Io.Decimal

open Core List

/-- The digits that the first loop counts. -/
def countDigits (n : Nat) : Nat := if n = 0 then 0 else countDigits (n / 10) + 1

def wrappingPred (pos : Nat) : Nat := if pos = 0 then 2 ^ 64 - 1 else pos - 1

/-- The loop that writes them. -/
def writeDigits (out : Bytes) (pos n : Nat) : Bytes :=
  if n = 0 then out
  else writeDigits (out.set pos (Ascii.zero + UInt8.ofNat (n % 10))) (wrappingPred pos) (n / 10)

/-- What both writers do with a positive number. -/
def writePositive (out : Bytes) (n : Nat) : Bytes :=
  let digits := countDigits n
  let start := out.length
  writeDigits (out ++ replicate digits 0) (start + digits - 1) n

def writeI64ToBuf (out : Bytes) (n : Int) : Bytes :=
  if n = 0 then out ++ [Ascii.zero]
  else if n < 0 then
    let out := out ++ [Ascii.minus]
    if n = -2 ^ 63 then
      -- 9223372036854775808
      out ++ [0x39, 0x32, 0x32, 0x33, 0x33, 0x37, 0x32, 0x30, 0x33, 0x36, 0x38, 0x35, 0x34, 0x37,
        0x37, 0x35, 0x38, 0x30, 0x38]
    else writePositive out (-n).toNat
  else writePositive out n.toNat

def writeU64ToBuf (out : Bytes) (n : Nat) : Bytes :=
  if n = 0 then out ++ [Ascii.zero] else writePositive out n

end FastForward.Io.Decimal
