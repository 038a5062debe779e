/-
The record extraction of the TCP input (`tcp_input/transport.rs`).

A connection carries records in one of two framings, and nothing says
which: RFC 6587 octet counting (a decimal length, a space, that many
bytes) or lines. `extract_complete_records` guesses at every record. It
takes an octet-counted frame only when the whole frame has arrived and
what stands behind it looks like a boundary; otherwise it looks for a
newline, so that a line such as `200 OK` is not held back.

The bytes already handled, which the code counts in `consumed` and
removes at the end, are dropped from `pending` at once here. Transport,
time stamps and byte accounting are left out: the extraction reads none
of them.
-/
import FastForward.Core.Bytes
import FastForward.Lib.Loop

namespace FastForward.Io.Tcp

open Core Ascii
open Lib (Pass)

def maxLineLength : Nat := 1024 * 1024

/-- One more than `usize::MAX`. -/
def usizeLimit : Nat := 2 ^ 64

-- == the client

/-- What the extraction keeps of a connection between two reads. -/
structure Client where
  /-- Bytes not yet parsed. -/
  pending : Bytes
  /-- Set with the first octet-counted frame. -/
  octetCountingMode : Bool
  /-- Bytes of an oversized frame still to be dropped. -/
  discardOctetBytes : Nat
  /-- One newline right behind a frame is to be dropped. -/
  shouldConsumeOctetDelimiterNewline : Bool
  /-- Bytes are dropped up to the next newline. -/
  discardUntilNewline : Bool
  deriving DecidableEq, Repr

namespace Client

/-- A connection just accepted. -/
def new : Client where
  pending := []
  octetCountingMode := false
  discardOctetBytes := 0
  shouldConsumeOctetDelimiterNewline := false
  discardUntilNewline := false

def advancePending (c : Client) (consumed : Nat) : Client :=
  { c with pending := c.pending.drop consumed }

end Client

-- == the octet prefix

/-- `len.checked_mul(10)?.checked_add(digit)?`. -/
def pushDigit (len : Nat) (b : UInt8) : Option Nat :=
  if usizeLimit ≤ len * 10 then none
  else if usizeLimit ≤ len * 10 + (b - zero).toNat then none
  else some (len * 10 + (b - zero).toNat)

/-- The digits at the front: how many there are and the number they
write, or nothing if it overflows. -/
def countDigits (i len : Nat) : Bytes → Option (Nat × Nat)
  | [] => some (i, len)
  | b :: rest =>
    if isAsciiDigit b then
      match pushDigit len b with
      | none => none
      | some len' => countDigits (i + 1) len' rest
    else some (i, len)

/-- `parse_octet_prefix`: the length announced and the length of the
announcement, with its space. The early return on a buffer that does not
start with a digit is the case of no digits. -/
def parseOctetPrefix (buf : Bytes) : Option (Nat × Nat) :=
  match countDigits 0 0 buf with
  | none => none
  | some (i, len) =>
    if i = 0 ∨ buf[i]? ≠ some space then none else some (len, i + 1)

/-- Behind a frame stands nothing yet, or a newline. -/
def endsAtDelimiter (after : Bytes) : Bool :=
  after.isEmpty || after.head? == some newline

/-- `octet_boundary_is_plausible`, of what stands behind a frame. -/
def boundaryIsPlausible (after : Bytes) : Bool :=
  endsAtDelimiter after || (parseOctetPrefix after).isSome

/-- The frame at the front that the code commits to, as its length and
the length of its prefix. -/
def readyFrame (pending : Bytes) : Option (Nat × Nat) :=
  match parseOctetPrefix pending with
  | none => none
  | some (len, prefixLen) =>
    -- `prefix_len.checked_add(len)`
    if usizeLimit ≤ prefixLen + len then none
    else if prefixLen + len ≤ pending.length
        ∧ boundaryIsPlausible (pending.drop (prefixLen + len)) = true then
      some (len, prefixLen)
    else none

-- == the extraction

/-- The client and the output buffer. -/
abbrev Extraction := Client × Bytes

/-- Take the frame at the front, or start to drop it if it is too long. -/
def takeFrame (c : Client) (out : Bytes) (len prefixLen : Nat) : Extraction :=
  let delimiter := endsAtDelimiter (c.pending.drop (prefixLen + len))
  if maxLineLength < len then
    ({ c.advancePending prefixLen with
        octetCountingMode := true
        discardOctetBytes := len
        shouldConsumeOctetDelimiterNewline := delimiter }, out)
  else
    ({ c.advancePending (prefixLen + len) with
        octetCountingMode := true
        shouldConsumeOctetDelimiterNewline := delimiter },
      out ++ (c.pending.drop prefixLen).take len ++ [newline])

/-- The front taken as a line. -/
def takeLine (c : Client) (out : Bytes) : Pass Extraction :=
  match memchr newline c.pending with
  | some pos =>
    if maxLineLength < pos then .again ({ c with discardUntilNewline := true }, out)
    else .again (c.advancePending (pos + 1), out ++ c.pending.take (pos + 1))
  | none =>
    if maxLineLength < c.pending.length then .again ({ c with discardUntilNewline := true }, out)
    else .done (c, out)

/-- One pass of the loop of `extract_complete_records`. -/
def extractPass : Extraction → Pass Extraction
  | (c, out) =>
    if c.pending.isEmpty then .done (c, out)
    else if 0 < c.discardOctetBytes then
      let dropN := min c.discardOctetBytes c.pending.length
      let c' : Client :=
        { c.advancePending dropN with discardOctetBytes := c.discardOctetBytes - dropN }
      if 0 < c'.discardOctetBytes then .done (c', out) else .again (c', out)
    else if c.shouldConsumeOctetDelimiterNewline then
      let consumed := if c.pending.head? = some newline then 1 else 0
      .again ({ c.advancePending consumed with
        shouldConsumeOctetDelimiterNewline := false }, out)
    else if c.discardUntilNewline then
      match memchr newline c.pending with
      | some pos =>
        .again ({ c.advancePending (pos + 1) with discardUntilNewline := false }, out)
      | none =>
        if maxLineLength < c.pending.length then
          .done (c.advancePending (c.pending.length - maxLineLength), out)
        else .done (c, out)
    else
      match readyFrame c.pending with
      | some (len, prefixLen) => .again (takeFrame c out len prefixLen)
      | none => takeLine c out

/-- A bound on the passes over so many bytes. -/
def passBound (c : Client) : Nat := 3 * c.pending.length + 3

def extractCompleteRecords (c : Client) (out : Bytes) : Extraction :=
  Lib.loop extractPass (passBound c) (c, out)

/-- What `poll` does with the bytes of one `read`. -/
def read (s : Extraction) (chunk : Bytes) : Extraction :=
  extractCompleteRecords { s.1 with pending := s.1.pending ++ chunk } s.2

/-- The reads of a connection, one after the other, and all they put out. -/
def readAll (s : Extraction) (reads : List Bytes) : Extraction :=
  reads.foldl read s

end FastForward.Io.Tcp
