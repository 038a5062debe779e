/-
Offsets of one source (`checkpoint_tracker.rs`): how far it has been
read, where the last complete line ends, and how many bytes wait behind
that for their newline.

A failed assertion is `none`. Framing uses the tracker far below the
bounds of `u64`, where its additions are those of the natural numbers
(`applyRead`); `TrackerOp` is the whole machine, with additions that
saturate.
-/
import Mathlib.Tactic.Ring

namespace FastForward.Core

/-- Offsets of what was read and of what is safe to skip. -/
structure CheckpointTracker where
  readOffset : Nat
  processedOffset : Nat
  remainderLen : Nat
  checkpointOffset : Nat
  deriving DecidableEq, Repr

namespace CheckpointTracker

/-- A clean start at a known offset. -/
def new (resumeOffset : Nat) : CheckpointTracker :=
  { readOffset := resumeOffset, processedOffset := resumeOffset, remainderLen := 0
    checkpointOffset := resumeOffset }

/-- A read of `nBytes`, whose last newline is at `lastNewlinePos`. -/
def applyRead (t : CheckpointTracker) (nBytes : Nat) (lastNewlinePos : Option Nat) :
    Option CheckpointTracker :=
  if nBytes = 0 then none
  else
    match lastNewlinePos with
    | some pos =>
      if nBytes ≤ pos then none
      else
        let readOffset := t.readOffset + nBytes
        let newlineAbs := t.readOffset + pos + 1
        some { t with
          readOffset, processedOffset := newlineAbs
          remainderLen := readOffset - newlineAbs }
    | none =>
      some { t with
        readOffset := t.readOffset + nBytes, remainderLen := t.remainderLen + nBytes }

/-- Nothing is held back any more. -/
def applyRemainderConsumed (t : CheckpointTracker) : CheckpointTracker :=
  { t with processedOffset := t.readOffset, remainderLen := 0 }

end CheckpointTracker

def u64Max : Nat := 2 ^ 64 - 1

/-- `u64::saturating_add`. -/
def saturatingAdd (a b : Nat) : Nat := min (a + b) u64Max

/-- What happens to a tracker. -/
inductive TrackerOp
  | read (nBytes : UInt64) (lastNewlinePos : Option UInt64)
  | checkpoint
  | restart
  | remainderConsumed

/-- An operation; a violated precondition has no result. -/
def TrackerOp.apply (t : CheckpointTracker) : TrackerOp → Option CheckpointTracker
  | read nBytes lastNewlinePos =>
    let readOffset := saturatingAdd t.readOffset nBytes.toNat
    if nBytes.toNat = 0 then none
    else
      match lastNewlinePos with
      | some pos =>
        if nBytes.toNat ≤ pos.toNat then none
        else
          let newlineAbs := saturatingAdd (saturatingAdd t.readOffset pos.toNat) 1
          some { t with
            readOffset, processedOffset := newlineAbs
            remainderLen := readOffset - newlineAbs }
      | none =>
        some { t with
          readOffset, remainderLen := saturatingAdd t.remainderLen nBytes.toNat }
  | checkpoint => some { t with checkpointOffset := t.processedOffset }
  | restart =>
    some { t with
      readOffset := t.checkpointOffset, processedOffset := t.checkpointOffset
      remainderLen := 0 }
  | remainderConsumed => some t.applyRemainderConsumed

end FastForward.Core
