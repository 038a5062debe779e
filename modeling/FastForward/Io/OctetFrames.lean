/-
Streams of octet-counted frames (RFC 6587), and what a reader can be
sure of while they arrive.

The reader sees the bytes of the frames cut into reads. `settle` says,
of the frames still to come and the bytes received of them, which frames
are settled: those that are complete and have behind them nothing yet, a
newline or a complete length. The first frame that is not settled stays
with the reader, who takes it for a line as soon as there is a newline
in it. It is left alone only while its received bytes hold no newline
and are not more than `MAX_LINE_LENGTH` (`Quiet`).
-/
import FastForward.Io.Tcp
import FastForward.Core.Proofs.Scalars

namespace FastForward.Io.Tcp

open Core

-- == octet-counted streams

/-- An octet-counted frame as a sender writes it. -/
structure Frame where
  /-- The decimal length. -/
  digits : List (Fin 10)
  payload : Bytes
  /-- Does one newline follow the frame? -/
  newline : Bool
  digits_ne_nil : digits ≠ []
  counted : digitsFrom 0 digits = payload.length

namespace Frame

/-- The length and the space behind it. -/
def head (f : Frame) : Bytes := digitsText f.digits ++ [Ascii.space]

/-- The frame without what may follow it. -/
def core (f : Frame) : Bytes := f.head ++ f.payload

def delimiter (f : Frame) : Bytes := if f.newline then [Ascii.newline] else []

def text (f : Frame) : Bytes := f.core ++ f.delimiter

/-- The record of a frame: none if the frame is too long. -/
def record (f : Frame) : Bytes :=
  if f.payload.length ≤ maxLineLength then f.payload ++ [Ascii.newline] else []

end Frame

def streamText (frames : List Frame) : Bytes := frames.flatMap Frame.text

def records (frames : List Frame) : Bytes := frames.flatMap Frame.record

/-- Bytes without a newline at their front. -/
def dropDelimiter (held : Bytes) : Bytes :=
  if held.head? = some Ascii.newline then held.drop 1 else held

/-- The frames not settled by the bytes received of them, and the bytes
received of those. -/
def settle : List Frame → Bytes → List Frame × Bytes
  | [], _ => ([], [])
  | f :: fs, held =>
    if f.core.isPrefixOf (dropDelimiter held)
        && boundaryIsPlausible ((dropDelimiter held).drop f.core.length) then
      settle fs ((dropDelimiter held).drop f.core.length)
    else (f :: fs, dropDelimiter held)

/-- Bytes that are not taken for a line, nor for too long a line. -/
def Quiet (held : Bytes) : Prop :=
  Ascii.newline ∉ held ∧ held.length ≤ maxLineLength

instance (held : Bytes) : Decidable (Quiet held) := inferInstanceAs (Decidable (_ ∧ _))

/-- After every read the bytes received of the frames not settled are
quiet. -/
def Arrives : List Frame → Bytes → List Bytes → Prop
  | _, _, [] => True
  | frames, held, chunk :: reads =>
    Quiet (settle frames (held ++ chunk)).2
      ∧ Arrives (settle frames (held ++ chunk)).1 (settle frames (held ++ chunk)).2 reads

instance decidableArrives :
    (frames : List Frame) → (held : Bytes) → (reads : List Bytes) →
      Decidable (Arrives frames held reads)
  | _, _, [] => .isTrue True.intro
  | frames, held, chunk :: reads =>
    @instDecidableAnd _ _ (inferInstanceAs (Decidable (Quiet _)))
      (decidableArrives (settle frames (held ++ chunk)).1 (settle frames (held ++ chunk)).2 reads)

end FastForward.Io.Tcp
