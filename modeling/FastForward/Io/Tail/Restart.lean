/-
Restarts (`pipeline/build.rs`).

Checkpoints are kept by source id. When the pipeline is built, the tailer
opens its files as it finds them, and then every saved checkpoint is given
to it: the file that has the source id of the checkpoint is continued at
the checkpoint's offset. Every input is given every checkpoint and keeps
what is its own, so one input is enough here.

A lifetime is a run of the tailer that is interrupted by restarts. The
file system may change while nothing runs. A history keeps what the
processes before the last restart have emitted, which no process knows.
-/
import FastForward.Io.Tail.Proofs.AppendOnly

namespace FastForward.Io.Tail

open Core Lib Pipeline

/-- The offsets of a checkpoint store. -/
abbrev Checkpoints := BTreeMap SourceId Nat

variable (host : Host) (hasher : Hasher) (now : Nat)

/-- Each file that is known goes to its checkpoint. -/
def restoreOffsets (fs : FileSystem) (savedCheckpoints : List (SourceId × Nat))
    (r : FileReader) : FileReader :=
  savedCheckpoints.foldl (fun r cp => r.setOffsetBySource host hasher fs cp.1 cp.2) r

/-- The tailer of a pipeline that is built over a checkpoint store. -/
def rebuild (fs : FileSystem) (config : TailConfig) (paths : List Path)
    (checkpoints : Checkpoints) : FileReader :=
  restoreOffsets host hasher fs checkpoints.toList (startReader host hasher now fs config paths)

/-- A tailer and the checkpoints saved so far. -/
structure Lifetime where
  tailing : Tailing
  checkpoints : Checkpoints

/-- What happens to a process and its checkpoints. -/
inductive Lifetime.Op
  | tail (a : Action)
  /-- A checkpoint is saved for a source the tailer reports, at some offset
  it has reached. -/
  | save (host : Host) (sourceId : SourceId) (offset : Nat)
  | restart (host : Host) (now : Nat) (fs : FileSystem) (paths : List Path)

namespace Lifetime

/-- A first process, without checkpoints. -/
def start (fs : FileSystem) (config : TailConfig) (globPatterns : List String)
    (paths : List Path) : Lifetime :=
  { tailing := Tailing.start host hasher now fs config globPatterns paths, checkpoints := ∅ }

/-- A checkpoint at an offset that was reached. -/
def save (l : Lifetime) (sourceId : SourceId) (offset : Nat) : Option Lifetime :=
  if (l.tailing.reader.fileOffsets host hasher).any fun reached =>
      reached.1 == sourceId && decide (offset ≤ reached.2) then
    some { l with checkpoints := l.checkpoints.insert sourceId offset }
  else none

/-- A new process on the checkpoints of the last. -/
def restart (fs : FileSystem) (paths : List Path) (l : Lifetime) : Lifetime :=
  let reader := rebuild host hasher now fs l.tailing.reader.config paths l.checkpoints
  { l with
    tailing :=
      { fs
        discovery := { l.tailing.discovery with watchPaths := paths }
        reader
        events := []
        first := reader.getOffset } }

/-- A step, if it can be taken. -/
def step (op : Op) (l : Lifetime) : Option Lifetime :=
  match op with
  | .tail a => (Tailing.step hasher a l.tailing).map fun tailing => { l with tailing }
  | .save host sourceId offset => l.save host hasher sourceId offset
  | .restart host now fs paths => some (l.restart host hasher now fs paths)

/-- Files only grow, also while nothing runs. -/
def AppendOnly (l : Lifetime) (op : Op) : Prop :=
  match op with
  | .tail a => Tailing.AppendOnly hasher l.tailing a
  | .save .. => True
  | .restart _ _ fs _ => l.tailing.fs.GrowsTo fs ∧ fs.Distinct hasher

end Lifetime

-- == across restarts

/-- A lifetime, with the processes that ran before. -/
structure History where
  past : List Tailing
  life : Lifetime

namespace Tailing

/-- The bytes reported of a path, in order. -/
def emitted (s : Tailing) (path : Path) : Bytes := (dataEvents path s.events).flatMap (·.1)

/-- A process has emitted the byte at a position of a file, which it has
read from `start` on. -/
def EmittedAt (s : Tailing) (fs : FileSystem) (path : Path) (pos : Nat) : Prop :=
  ∃ id start byte, fs.lookup path = some id ∧ s.first path = some start ∧ start ≤ pos
    ∧ (s.emitted path)[pos - start]? = some byte ∧ (fs.content id)[pos]? = some byte

end Tailing

namespace History

/-- A history with its first process. -/
def start (fs : FileSystem) (config : TailConfig) (globPatterns : List String)
    (paths : List Path) : History :=
  { past := [], life := Lifetime.start host hasher now fs config globPatterns paths }

/-- A restart ends a process and begins another. -/
def step (op : Lifetime.Op) (h : History) : Option History :=
  (Lifetime.step hasher op h.life).map fun life =>
    match op with
    | .restart .. => { past := h.past ++ [h.life.tailing], life }
    | _ => { h with life }

/-- Files only grow. -/
def AppendOnly (h : History) (op : Lifetime.Op) : Prop := Lifetime.AppendOnly hasher h.life op

/-- All processes, the running one last. -/
def processes (h : History) : List Tailing := h.past ++ [h.life.tailing]

/-- Some process has emitted the byte that the file has there now. -/
def Emitted (h : History) (path : Path) (pos : Nat) : Prop :=
  ∃ s ∈ h.processes, s.EmittedAt h.life.tailing.fs path pos

end History

namespace Tailing

/-- The source id of a file, open or closed. -/
def sourceId (hasher : Hasher) (s : Tailing) (path : Path) : Option SourceId :=
  match s.reader.files[path]? with
  | some tailed => some (tailed.identity.sourceId hasher)
  | none => (s.reader.evictedOffsets[path]?).map (·.sourceId)

/-- The file at a path is open, and is read from an offset on. -/
def ContinuesAt (s : Tailing) (path : Path) (offset : Nat) : Prop :=
  ∃ id tailed, s.fs.lookup path = some id ∧ s.reader.files[path]? = some tailed
    ∧ tailed.file = ⟨id, offset⟩ ∧ tailed.offset = offset ∧ tailed.readBuf = []

end Tailing

end FastForward.Io.Tail
