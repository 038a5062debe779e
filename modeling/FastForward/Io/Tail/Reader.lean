/-
Reading tailed files (`tail/state.rs`, `tail/lifecycle.rs`,
`tail/reader.rs`).

The reader has open files and the saved state of files it has closed to
stay below a limit. A file is read from its cursor up to a budget; when it
has grown to more than its fingerprint stands for, the fingerprint is
taken again. A closed file is opened again where it was left if its
fingerprint is that of the saved state.

Instants are numbers of milliseconds. How many bytes a read call gives,
how much space a buffer has and in which order a hash map is iterated is
left to the `Host`.
-/
import FastForward.Lib.BTreeMap
import FastForward.Io.Tail.Files

namespace FastForward.Io.Tail

open Core Lib Pipeline

-- == end of file

def eofIdlePollsBeforeEmit : Nat := 2

structure EofModelState where
  emitted : Bool := false
  /-- A `u8`. -/
  idlePolls : Nat := 0
  deriving DecidableEq, Repr

def eofModelTransition (state : EofModelState) (hadData idleWindowElapsed : Bool) :
    EofModelState × Bool :=
  if hadData then ({}, false)
  else
    let nextIdle := min (state.idlePolls + 1) 255
    let shouldEmit :=
      !state.emitted && decide (eofIdlePollsBeforeEmit ≤ nextIdle) && idleWindowElapsed
    ({ emitted := state.emitted || shouldEmit, idlePolls := nextIdle }, shouldEmit)

structure EofState where
  model : EofModelState := {}
  idleSince : Option Nat := none
  deriving DecidableEq, Repr

def EofState.onData (_ : EofState) : EofState := {}

def EofState.onNoData (s : EofState) (now minIdle : Nat) : EofState × Bool :=
  let idleSince := s.idleSince.getD now
  let (next, emit) := eofModelTransition s.model false (minIdle ≤ now - idleSince)
  ({ model := next, idleSince := some idleSince }, emit)

-- == files

/-- An open file. -/
structure Active where
  identity : FileIdentity
  comparisonFingerprint : Nat
  fingerprintLen : Nat
  file : File
  offset : Nat
  readBuf : Bytes
  lastRead : Nat
  eofState : EofState
  deriving DecidableEq, Repr

/-- The saved state of a closed one. -/
structure EvictedFile where
  identity : FileIdentity
  comparisonFingerprint : Nat
  fingerprintLen : Nat
  eofState : EofState
  offset : Nat
  path : Path
  sourceId : SourceId
  deriving DecidableEq, Repr

inductive TailEvent
  | data (path : Path) (bytes : Bytes) (sourceId : Option SourceId)
  | rotated (path : Path) (sourceId : Option SourceId)
  | truncated (path : Path) (sourceId : Option SourceId)
  | endOfFile (path : Path) (sourceId : Option SourceId)
  deriving DecidableEq, Repr

structure TailConfig where
  pollIntervalMs : Nat
  fingerprintBytes : Nat
  startFromEnd : Bool
  perFileReadBudgetBytes : Nat
  deriving DecidableEq, Repr

inductive ReadResult
  | data (bytes : Bytes)
  | truncatedThenData (bytes : Bytes)
  | truncated
  | noData
  deriving DecidableEq, Repr

def classifyEmptyReadResult (wasTruncated : Bool) : ReadResult :=
  if wasTruncated then .truncated else .noData

/-- What the operating system and the runtime decide. -/
structure Host where
  /-- Free space of a read buffer after `reserve`, at an instant and file
  position. -/
  bufferRoom : Nat → Nat → Nat
  bufferRoom_pos : ∀ now cursor, 0 < bufferRoom now cursor
  /-- How many bytes a call gives that asks for a number of them, unless
  fewer are left. -/
  readLen : Nat → Nat → Nat → Nat
  readLen_pos : ∀ now cursor {want : Nat}, 0 < want → 0 < readLen now cursor want
  readLen_le : ∀ now cursor want, readLen now cursor want ≤ want
  fileOrder : BTreeMap Path Active → List Path
  fileOrder_perm : ∀ files, (fileOrder files).Perm files.keys
  evictedOrder : BTreeMap Path EvictedFile → List Path
  evictedOrder_perm : ∀ evicted, (evictedOrder evicted).Perm evicted.keys
  /-- The paths that match, sorted and without duplicates. -/
  expandGlobPatterns : FileSystem → List String → List Path
  expandGlobPatterns_nodup : ∀ fs patterns, (expandGlobPatterns fs patterns).Nodup

variable (host : Host) (hasher : Hasher) (now : Nat)

-- == reading

/-- `File::read` into a buffer with space for `want` bytes. -/
def File.read (file : File) (content : Bytes) (want : Nat) : Bytes × File :=
  let bytes := (content.drop file.cursor).take (host.readLen now file.cursor want)
  (bytes, { file with cursor := file.cursor + bytes.length })

namespace Active

/-- The loop of `read_new_data`. Every pass but the last reads something,
so as many passes as bytes in the budget are enough. -/
def readLoop (content : Bytes) (budget : Nat) : Nat → Active → Nat → Active × Nat
  | 0, t, bytesReadInPoll => (t, bytesReadInPoll)
  | fuel + 1, t, bytesReadInPoll =>
    let remaining := budget - bytesReadInPoll
    if remaining = 0 then (t, bytesReadInPoll)
    else
      let readLen := min remaining (host.bufferRoom now t.file.cursor)
      let (bytes, file) := t.file.read host now content readLen
      if bytes.isEmpty then ({ t with file }, bytesReadInPoll)
      else
        readLoop content budget fuel
          { t with file, readBuf := t.readBuf ++ bytes, offset := t.offset + bytes.length }
          (bytesReadInPoll + bytes.length)

/-- Start again after the file got shorter than what was read. -/
def restart (t : Active) (content : Bytes) (fingerprintBytes : Nat) : Active :=
  let fingerprint := computeFingerprint hasher content fingerprintBytes
  { t with
    offset := 0
    readBuf := []
    eofState := t.eofState.onData
    file := { t.file with cursor := 0 }
    identity := { t.identity with fingerprint }
    comparisonFingerprint := fingerprint
    fingerprintLen := observedFingerprintLen fingerprint content.length fingerprintBytes }

/-- Take the fingerprint again when there is more to take it from. -/
def promote (t : Active) (content : Bytes) (fingerprintBytes : Nat) : Active :=
  if 0 < fingerprintBytes ∧ t.fingerprintLen < fingerprintBytes
      ∧ t.fingerprintLen < content.length then
    let newFp := computeFingerprint hasher content fingerprintBytes
    if newFp ≠ 0 then
      { t with
        identity :=
          if t.identity.fingerprint = 0 then { t.identity with fingerprint := newFp }
          else t.identity
        comparisonFingerprint := newFp
        fingerprintLen := observedFingerprintLen newFp content.length fingerprintBytes }
    else t
  else t

def readNewData (fs : FileSystem) (t : Active) (perFileBudget fingerprintBytes : Nat) :
    ReadResult × Active :=
  let content := fs.content t.file.id
  let currentSize := fs.size t.file
  let wasTruncated := decide (currentSize < t.offset)
  let t := if wasTruncated then t.restart hasher content fingerprintBytes else t
  if currentSize ≤ t.offset then (classifyEmptyReadResult wasTruncated, t)
  else
    let (t, bytesReadInPoll) := readLoop host now content perFileBudget perFileBudget t 0
    if bytesReadInPoll = 0 then (classifyEmptyReadResult wasTruncated, t)
    else
      let result := t.readBuf
      let t := { t with readBuf := [], lastRead := now }.promote hasher content fingerprintBytes
      (if wasTruncated then .truncatedThenData result else .data result, t)

/-- Continue at a saved offset, or at the start of a file that is shorter. -/
def restore (fs : FileSystem) (t : Active) (offset : Nat) : Active :=
  let safeOffset := if fs.size t.file < offset then 0 else offset
  { t with offset := safeOffset, file := { t.file with cursor := safeOffset } }

end Active

-- == the reader

structure FileReader where
  files : BTreeMap Path Active
  evictedOffsets : BTreeMap Path EvictedFile
  lastReadHadData : Bool
  lastReadHitBudget : Bool
  config : TailConfig

def evictedMatchesOpenFile (evicted : EvictedFile) (currentIdentity : FileIdentity)
    (content : Bytes) (fileSize fingerprintBytes : Nat) : Bool :=
  if evicted.identity.device ≠ currentIdentity.device
      ∨ evicted.identity.inode ≠ currentIdentity.inode then false
  else if evicted.fingerprintLen = 0 then
    evicted.comparisonFingerprint == currentIdentity.fingerprint
  else if evicted.fingerprintLen < fingerprintBytes then
    let currentPrefix := computeFingerprint hasher content evicted.fingerprintLen
    if evicted.comparisonFingerprint ≠ currentPrefix then false
    else decide (evicted.offset ≤ evicted.fingerprintLen ∨ fileSize < evicted.offset)
  else evicted.comparisonFingerprint == currentIdentity.fingerprint

namespace FileReader

def maxReadPerPoll : Nat := 4 * 1024 * 1024

def eofMinIdleDuration (r : FileReader) : Nat :=
  min (r.config.pollIntervalMs * eofIdlePollsBeforeEmit) (2 ^ 64 - 1)

/-- `per_file_read_budget_bytes.clamp(1, MAX_READ_PER_POLL)`. -/
def perFileBudget (r : FileReader) : Nat :=
  min (max r.config.perFileReadBudgetBytes 1) maxReadPerPoll

def sourceIdForPath (r : FileReader) (path : Path) : Option SourceId :=
  (r.files[path]?).bind fun tailed =>
    let sid := tailed.identity.sourceId hasher
    if sid = 0 then none else some sid

def getOffset (r : FileReader) (path : Path) : Option Nat :=
  (r.files[path]?).map (·.offset)

/-- The saved state for a file that is opened: that of its path, or one
with its source id under another path. -/
def takeEvicted (r : FileReader) (path : Path) (sourceId : SourceId) :
    Option EvictedFile × FileReader :=
  match r.evictedOffsets[path]? with
  | some evicted =>
    (some evicted, { r with evictedOffsets := r.evictedOffsets.erase path })
  | none =>
    if sourceId = 0 then (none, r)
    else
      let hasId (key : Path) : Bool := (r.evictedOffsets[key]?).any (·.sourceId == sourceId)
      match (host.evictedOrder r.evictedOffsets).find? hasId with
      | some key =>
        (r.evictedOffsets[key]?, { r with evictedOffsets := r.evictedOffsets.erase key })
      | none => (none, r)

/-- A file opened without saved state. -/
def openFresh (file : File) (identity : FileIdentity) (fingerprintLen offset : Nat) : Active :=
  { identity
    comparisonFingerprint := identity.fingerprint
    fingerprintLen
    file := { file with cursor := offset }
    offset
    readBuf := []
    lastRead := now
    eofState := {} }

/-- A file opened where it was left. -/
def openEvicted (file : File) (evicted : EvictedFile) : Active :=
  { identity := evicted.identity
    comparisonFingerprint := evicted.comparisonFingerprint
    fingerprintLen := evicted.fingerprintLen
    file := { file with cursor := evicted.offset }
    offset := evicted.offset
    readBuf := []
    lastRead := now
    eofState := evicted.eofState }

def openFileAt (fs : FileSystem) (r : FileReader) (path : Path) (startFromEnd : Bool) :
    Option FileReader :=
  (fs.openFile path).map fun file =>
    let identity := identifyOpenFile hasher fs file r.config.fingerprintBytes
    let fileSize := fs.size file
    let fingerprintLen :=
      observedFingerprintLen identity.fingerprint fileSize r.config.fingerprintBytes
    let (evicted, r) := r.takeEvicted host path (identity.sourceId hasher)
    let start := if startFromEnd then fileSize else 0
    let tailed :=
      match evicted with
      | some evicted =>
        if evictedMatchesOpenFile hasher evicted identity (fs.content file.id) fileSize
            r.config.fingerprintBytes then
          openEvicted now file evicted
        else if evicted.identity.fingerprint = 0 ∧ evicted.offset = 0
            ∧ evicted.identity.device = identity.device
            ∧ evicted.identity.inode = identity.inode then
          openFresh now file identity fingerprintLen 0
        else openFresh now file identity fingerprintLen start
      | none => openFresh now file identity fingerprintLen start
    { r with files := r.files.insert path tailed }

def readNewData (fs : FileSystem) (r : FileReader) (path : Path) : ReadResult × FileReader :=
  match r.files[path]? with
  | some tailed =>
    let (result, tailed) :=
      tailed.readNewData host hasher now fs r.perFileBudget r.config.fingerprintBytes
    (result, { r with files := r.files.insert path tailed })
  | none => (.noData, r)

/-- Apply `f` to the end-of-file state of a path. -/
def mapEofState (r : FileReader) (path : Path) (f : EofState → EofState) : FileReader :=
  match r.files[path]? with
  | some tailed =>
    { r with files := r.files.insert path { tailed with eofState := f tailed.eofState } }
  | none => r

/-- What is left of a file before it is forgotten. -/
def drainFile (fs : FileSystem) (r : FileReader) (path : Path) (sourceId : Option SourceId) :
    FileReader × List TailEvent :=
  let preReadSourceId := sourceId
  match r.readNewData host hasher now fs path with
  | (.data bytes, r) =>
    let r := r.mapEofState path (·.onData)
    (r, [.data path bytes (r.sourceIdForPath hasher path)])
  | (.truncatedThenData bytes, r) =>
    let r := r.mapEofState path (·.onData)
    (r, [.truncated path preReadSourceId, .data path bytes (r.sourceIdForPath hasher path)])
  | (.truncated, r) =>
    (r.mapEofState path (·.onData), [.truncated path preReadSourceId])
  | (.noData, r) => (r, [])

/-- One file of `read_all`. -/
def readPath (fs : FileSystem) (eofMinIdle budget : Nat) (r : FileReader) (path : Path) :
    FileReader × List TailEvent :=
  let preReadSourceId := r.sourceIdForPath hasher path
  let hadData (r : FileReader) (bytes : Bytes) : FileReader :=
    { r with
      lastReadHadData := true
      lastReadHitBudget := r.lastReadHitBudget || decide (budget ≤ bytes.length) }
  match r.readNewData host hasher now fs path with
  | (.data bytes, r) =>
    let r := (hadData r bytes).mapEofState path (·.onData)
    (r, [.data path bytes (r.sourceIdForPath hasher path)])
  | (.truncatedThenData bytes, r) =>
    let r := (hadData r bytes).mapEofState path (·.onData)
    (r, [.truncated path preReadSourceId, .data path bytes (r.sourceIdForPath hasher path)])
  | (.truncated, r) =>
    (r.mapEofState path (·.onData), [.truncated path preReadSourceId])
  | (.noData, r) =>
    match r.files[path]? with
    | some tailed =>
      let (_, emitEof) := tailed.eofState.onNoData now eofMinIdle
      let r := r.mapEofState path fun s => (s.onNoData now eofMinIdle).1
      (r, if emitEof then [.endOfFile path (r.sourceIdForPath hasher path)] else [])
    | none => (r, [])

/-- Paths one after the other. -/
def forEach (step : FileReader → Path → FileReader × List TailEvent) :
    FileReader → List Path → FileReader × List TailEvent
  | r, [] => (r, [])
  | r, path :: paths =>
    let (r, events) := step r path
    let (r, more) := forEach step r paths
    (r, events ++ more)

def readAll (fs : FileSystem) (r : FileReader) : FileReader × List TailEvent :=
  let paths := host.fileOrder r.files
  forEach (readPath host hasher now fs r.eofMinIdleDuration r.perFileBudget)
    { r with lastReadHadData := false, lastReadHitBudget := false } paths

/-- Close a file and save its state. -/
def evict (r : FileReader) (path : Path) : FileReader :=
  match r.files[path]? with
  | some tailed =>
    { r with
      files := r.files.erase path
      evictedOffsets := r.evictedOffsets.insert path
        { identity := tailed.identity
          comparisonFingerprint := tailed.comparisonFingerprint
          fingerprintLen := tailed.fingerprintLen
          eofState := tailed.eofState
          offset := tailed.offset
          path
          sourceId := tailed.identity.sourceId hasher } }
  | none => r

/-- Close the files that were read longest ago. -/
def evictLru (r : FileReader) (maxOpen : Nat) : FileReader :=
  if maxOpen < r.files.size then
    let byAge := (host.fileOrder r.files).filterMap fun path =>
      (r.files[path]?).map fun tailed => (path, tailed.lastRead)
    let sorted := byAge.mergeSort fun a b => decide (a.2 ≤ b.2)
    let toRemove := r.files.size - maxOpen
    ((sorted.take toRemove).map (·.1)).foldl (evict hasher) r
  else r

/-- The sources that can be checkpointed, with how far they were read. -/
def fileOffsets (r : FileReader) : List (SourceId × Nat) :=
  let active := (host.fileOrder r.files).filterMap fun path =>
    ((r.files[path]?).filter fun tailed => tailed.identity.fingerprint != 0).map fun tailed =>
      (tailed.identity.sourceId hasher, tailed.offset)
  let evicted := (host.evictedOrder r.evictedOffsets).filterMap fun path =>
    ((r.evictedOffsets[path]?).filter fun e => e.identity.fingerprint != 0).map fun e =>
      (e.sourceId, e.offset)
  active ++ evicted

/-- Continue a source at a saved offset. Source id 0 is no source. -/
def setOffsetBySource (fs : FileSystem) (r : FileReader) (sourceId : SourceId) (offset : Nat) :
    FileReader :=
  if sourceId = 0 then r
  else
    let isActive (path : Path) : Bool :=
      (r.files[path]?).any (·.identity.sourceId hasher == sourceId)
    let isEvicted (path : Path) : Bool := (r.evictedOffsets[path]?).any (·.sourceId == sourceId)
    match (host.fileOrder r.files).find? isActive with
    | some path =>
      match r.files[path]? with
      | some tailed => { r with files := r.files.insert path (tailed.restore fs offset) }
      | none => r
    | none =>
      match (host.evictedOrder r.evictedOffsets).find? isEvicted with
      | some path =>
        match r.evictedOffsets[path]? with
        | some e =>
          { r with evictedOffsets := r.evictedOffsets.insert path { e with offset } }
        | none => r
      | none => r

end FileReader

end FastForward.Io.Tail
