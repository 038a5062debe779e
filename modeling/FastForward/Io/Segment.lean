/-
The segment log (`segment.rs`: `SegmentWriter::append`, and `append`,
`open_new_segment`, `rotate` and `flush` of `SegmentManager`).

A batch is the list of its rows, a segment the list of its batches. The
clock, the Arrow encoder and the file system are inputs of each call.
-/

namespace FastForward.Io.Segment

variable {ρ : Type}

def headerSize : Nat := 32

def maxSegmentDataSize : Nat := 1024 * 1024 * 1024

/-- A call of `append`, and what it meets. -/
structure Call (ρ : Type) where
  batch : List ρ
  isAged : Bool
  isSealed : Bool
  isOpened : Bool
  /-- The length of the encoded batch. -/
  encoded : Option Nat
  isWritten : Bool

structure SegmentWriter (ρ : Type) where
  batches : List (List ρ) := []
  dataSize : Nat := 0

/-- None is an error. -/
def SegmentWriter.append (w : SegmentWriter ρ) (c : Call ρ) : Option (SegmentWriter ρ) :=
  if c.batch.isEmpty then some w
  else
    match c.encoded with
    | none => none
    | some size =>
      if maxSegmentDataSize < w.dataSize + size then none
      else if c.isWritten then some ⟨w.batches ++ [c.batch], w.dataSize + size⟩
      else none

structure SegmentManager (ρ : Type) where
  maxBytes : Nat
  current : Option (SegmentWriter ρ) := none
  /-- The segments that were finished. -/
  sealed : List (List (List ρ)) := []

namespace SegmentManager

variable (m : SegmentManager ρ) (c : Call ρ)

/-- A segment that cannot be finished is gone. -/
def rotate (w : SegmentWriter ρ) (isSealed : Bool) : SegmentManager ρ :=
  { m with current := none, sealed := if isSealed then m.sealed ++ [w.batches] else m.sealed }

def isDue (w : SegmentWriter ρ) : Bool := m.maxBytes ≤ headerSize + w.dataSize || c.isAged

/-- The batch is written, or the poisoned writer is dropped. -/
def writeTo (w : SegmentWriter ρ) : SegmentManager ρ × Bool :=
  match w.append c with
  | some w => ({ m with current := some w }, true)
  | none => ({ m with current := none }, false)

/-- The end of `append`, with a new segment if none is open. -/
def write : SegmentManager ρ × Bool :=
  match m.current with
  | none => if c.isOpened then m.writeTo c {} else (m, false)
  | some w => m.writeTo c w

/-- The flag is Ok. -/
def append : SegmentManager ρ × Bool :=
  match m.current with
  | none => m.write c
  | some w =>
    if m.isDue c w then
      if c.isSealed then (m.rotate w true).write c else (m.rotate w false, false)
    else m.write c

def flush : SegmentManager ρ := m.current.elim m (m.rotate · true)

/-- A call, with the batch it accepts. -/
def accept : SegmentManager ρ × List (List ρ) :=
  ((m.append c).1, if (m.append c).2 then [c.batch] else [])

-- == what is kept

/-- The batches in the open segment that the call does not seal. -/
def unsealed : List (List ρ) :=
  m.current.elim [] fun w => if m.isDue c w && c.isSealed then [] else w.batches

/-- The batches written and not dropped. -/
def content : List (List ρ) := m.sealed.flatten ++ m.current.elim [] (·.batches)

end SegmentManager

/-- The batch cannot be written to the segment: it cannot be encoded, the
segment would be too large, or the file system fails. -/
def Call.FailsOn (c : Call ρ) (w : SegmentWriter ρ) : Prop :=
  c.batch ≠ []
    ∧ (c.isWritten = false ∨ ∀ size ∈ c.encoded, maxSegmentDataSize < w.dataSize + size)

/-- A call that cannot seal the open segment when that is due, or cannot
write to it when it is not, finds no batches in it. -/
def SegmentManager.FailsEmpty (m : SegmentManager ρ) (c : Call ρ) : Prop :=
  ∀ w ∈ m.current,
    (if m.isDue c w then c.isSealed = false else c.FailsOn w) → w.batches = []

end FastForward.Io.Segment
