/-
The CRI container log format: one line (`cri.rs`) and the reassembly of
partial lines (`reassembler.rs`).

A line is `TIMESTAMP STREAM FLAGS MESSAGE`. Flag `F` ends a message,
flag `P` says that the next line of the stream continues it; the
reassembler keeps what has arrived of a message, up to a maximum size.

The chunk helper of cri.rs, which alone writes the reassembler's raw
line fragment, is dead code there and left out; the fragment itself is
kept, since `has_buffered_state` reads it.
-/
import FastForward.Core.Bytes

namespace FastForward.Core

-- == a line

structure CriLine where
  timestamp : Bytes
  stream : Bytes
  isFull : Bool
  message : Bytes
  deriving DecidableEq, Repr

abbrev stdoutToken : Bytes := [0x73, 0x74, 0x64, 0x6f, 0x75, 0x74]

abbrev stderrToken : Bytes := [0x73, 0x74, 0x64, 0x65, 0x72, 0x72]

/-- `byte_search::find_byte`: the first position of a byte from `start` on. -/
def findByte (haystack : Bytes) (needle : UInt8) (start : Nat) : Option Nat :=
  (memchr needle (haystack.drop start)).map (start + ·)

/-- Exactly `F`, full, or exactly `P`, continued. -/
def criFlag (flags : Bytes) : Option Bool :=
  if flags = [Ascii.upperF] then some true
  else if flags = [0x50] then some false
  else none

/-- Parse a line; `none` if it is not of the format. -/
def parseCriLine (line : Bytes) : Option CriLine :=
  match findByte line Ascii.space 0 with
  | none => none
  | some sp1 =>
    -- an empty timestamp, or no room for stream and flags
    if sp1 = 0 ∨ line.length ≤ sp1 + 1 then none
    else
      match findByte line Ascii.space (sp1 + 1) with
      | none => none
      | some sp2 =>
        -- an empty stream, or no room for flags
        if sp2 = sp1 + 1 ∨ line.length ≤ sp2 + 1 then none
        else
          let (flagsEnd, msgStart) :=
            match findByte line Ascii.space (sp2 + 1) with
            | some sp3 => (sp3, sp3 + 1)
            | none => (line.length, line.length)
          let stream := slice line (sp1 + 1) sp2
          if stream ≠ stdoutToken ∧ stream ≠ stderrToken then none
          else
            (criFlag (slice line (sp2 + 1) flagsEnd)).map fun isFull =>
              { timestamp := line.take sp1, stream, isFull, message := line.drop msgStart }

-- == escaping

section Escaping

open Ascii

/-- One hexadecimal digit. -/
def hexDigitByte (n : UInt8) : UInt8 := if n < 10 then 0x30 + n else 0x61 + n - 10

/-- `\u00xx`. -/
def jsonByteEscape (b : UInt8) : Bytes :=
  [backslash, lowerU, zero, zero,
    hexDigitByte ((b >>> 4) &&& 0x0f), hexDigitByte (b &&& 0x0f)]

/-- One byte inside a JSON string. -/
def jsonEscapeByte (b : UInt8) : Bytes :=
  if b = quote then [backslash, quote]
  else if b = backslash then [backslash, backslash]
  else if b = 0x08 then [backslash, lowerB]
  else if b = tab then [backslash, lowerT]
  else if b = newline then [backslash, lowerN]
  else if b = 0x0c then [backslash, lowerF]
  else if b = carriageReturn then [backslash, lowerR]
  else if b ≤ 0x1f ∨ b = 0x7f then jsonByteEscape b
  else [b]

def jsonEscapeBytes (src : Bytes) : Bytes := src.flatMap jsonEscapeByte

end Escaping

-- == reassembly

/-- What has arrived of a message. -/
structure CriReassembler where
  pending : Bytes
  lineFragment : Bytes
  maxMessageSize : Nat
  /-- Some chunk of the current message was cut. -/
  truncated : Bool
  lineFragmentTruncated : Bool
  deriving DecidableEq, Repr

/-- What feeding a line gives. -/
inductive AggregateResult
  | complete (message : Bytes)
  | truncated (message : Bytes)
  | pending
  deriving DecidableEq, Repr

namespace CriReassembler

def new (maxMessageSize : Nat) : CriReassembler :=
  { pending := [], lineFragment := [], maxMessageSize, truncated := false
    lineFragmentTruncated := false }

/-- Add what still fits of a chunk. -/
def extend (r : CriReassembler) (message : Bytes) : CriReassembler :=
  let remaining := r.maxMessageSize - r.pending.length
  let toAdd := min message.length remaining
  { r with
    pending := r.pending ++ message.take toAdd
    truncated := if toAdd < message.length then true else r.truncated }

def feed (r : CriReassembler) (message : Bytes) (isFull : Bool) :
    AggregateResult × CriReassembler :=
  if isFull then
    if r.pending.isEmpty then
      -- no partials: the message itself, cut to size
      let stop := min message.length r.maxMessageSize
      if stop < message.length then (.truncated (message.take stop), r)
      else (.complete (message.take stop), r)
    else
      let r := r.extend message
      if r.truncated then (.truncated r.pending, r) else (.complete r.pending, r)
  else (.pending, r.extend message)

/-- Forget the current message. -/
def reset (r : CriReassembler) : CriReassembler :=
  { r with
    pending := [], lineFragment := [], truncated := false, lineFragmentTruncated := false }

def hasPending (r : CriReassembler) : Bool := !r.pending.isEmpty

def hasLineFragment (r : CriReassembler) : Bool := !r.lineFragment.isEmpty

def hasBufferedState (r : CriReassembler) : Bool := r.hasPending || r.hasLineFragment

end CriReassembler

end FastForward.Core
