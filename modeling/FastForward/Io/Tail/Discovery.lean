/-
Finding files and noticing what happens to them (`tail/discovery.rs`,
`tail/tailer.rs`).

Every watched path that exists is compared with the file that is open
under it: another file, or one whose first bytes have changed, is a
rotation. A path without open file is opened. The watcher of the
operating system is only a hint of when to look and has no part here.
-/
import FastForward.Io.Tail.Reader

namespace FastForward.Io.Tail

open Core Lib Pipeline

def shouldIdentityRotate (previous current : FileIdentity) (previousFingerprintLen : Nat) :
    Bool :=
  if previous.device ≠ current.device ∨ previous.inode ≠ current.inode then true
  else if previous.fingerprint = 0 then false
  else decide (0 < previousFingerprintLen ∧ previous.fingerprint ≠ current.fingerprint)

def shouldRotateFile (previous current : FileIdentity) (isPreviousHandleDeleted : Bool)
    (previousFingerprintLen : Nat) : Bool :=
  isPreviousHandleDeleted || shouldIdentityRotate previous current previousFingerprintLen

structure FileDiscovery where
  globPatterns : List String
  watchPaths : List Path

variable (host : Host) (hasher : Hasher) (now : Nat)

/-- Is the file that is open under a path no longer the one there? -/
def isRotated (fs : FileSystem) (r : FileReader) (path : Path) (currentIdentity : FileIdentity) :
    Bool :=
  (r.files[path]?).any fun tailed =>
    shouldRotateFile { tailed.identity with fingerprint := tailed.comparisonFingerprint }
      currentIdentity (fs.hasMetadataIndicatingDeletion tailed.file) tailed.fingerprintLen

/-- One path of `detect_changes`; the flag says whether there was an
error. -/
def detectChange (fs : FileSystem) (r : FileReader) (path : Path) :
    FileReader × List TailEvent × Bool :=
  if !fs.pathExists path then (r, [], false)
  else
    let previousFingerprintLen :=
      (r.files[path]?).elim r.config.fingerprintBytes (·.fingerprintLen)
    let fingerprintBytes :=
      if 0 < previousFingerprintLen ∧ previousFingerprintLen < r.config.fingerprintBytes then
        previousFingerprintLen
      else r.config.fingerprintBytes
    match identifyFile hasher fs path fingerprintBytes with
    | none => (r, [], true)
    | some currentIdentity =>
      if isRotated fs r path currentIdentity then
        let preRotateSourceId := r.sourceIdForPath hasher path
        let (r, events) := r.drainFile host hasher now fs path preRotateSourceId
        let r := { r with files := r.files.erase path }
        match r.openFileAt host hasher now fs path false with
        | some opened => (opened, events ++ [.rotated path preRotateSourceId], false)
        | none => (r, events ++ [.rotated path preRotateSourceId], true)
      else if (r.files[path]?).isNone then
        match r.openFileAt host hasher now fs path r.config.startFromEnd with
        | some opened => (opened, [], false)
        | none => (r, [], true)
      else (r, [], false)

/-- Paths one after the other. -/
def detectEach (fs : FileSystem) (r : FileReader) : List Path →
    FileReader × List TailEvent × Bool
  | [] => (r, [], false)
  | path :: paths =>
    let (r, events, hadError) := detectChange host hasher now fs r path
    let (r, more, hadMoreErrors) := detectEach fs r paths
    (r, events ++ more, hadError || hadMoreErrors)

namespace FileDiscovery

def detectChanges (d : FileDiscovery) (fs : FileSystem) (r : FileReader) :
    FileReader × List TailEvent × Bool :=
  detectEach host hasher now fs r d.watchPaths

/-- Open a path that a pattern has matched; a path that cannot be opened
is watched all the same. -/
def openMatched (fs : FileSystem) (s : FileDiscovery × FileReader × Bool) (path : Path) :
    FileDiscovery × FileReader × Bool :=
  let (d, r, hadError) := s
  let d := { d with watchPaths := d.watchPaths ++ [path] }
  match r.openFileAt host hasher now fs path r.config.startFromEnd with
  | some opened => (d, opened, hadError)
  | none => (d, r, true)

def rescanGlobs (d : FileDiscovery) (fs : FileSystem) (r : FileReader) :
    FileDiscovery × FileReader × Bool :=
  if d.globPatterns.isEmpty then (d, r, false)
  else
    let candidates := host.expandGlobPatterns fs d.globPatterns
    let newPaths := candidates.filter fun path => !d.watchPaths.contains path
    newPaths.foldl (openMatched host hasher now fs) (d, r, false)

/-- Open files that no path leads to. -/
def deletedPaths (fs : FileSystem) (r : FileReader) : List Path :=
  (host.fileOrder r.files).filter fun path =>
    (r.files[path]?).any fun tailed => fs.hasMetadataIndicatingDeletion tailed.file

def forgetDeletedWatchPaths (d : FileDiscovery) (deleted : List Path) : FileDiscovery :=
  if !d.globPatterns.isEmpty && !deleted.isEmpty then
    { d with watchPaths := d.watchPaths.filter fun path => !deleted.contains path }
  else d

/-- Read a deleted file to its end and forget it. -/
def removeDeleted (fs : FileSystem) (r : FileReader) (path : Path) :
    FileReader × List TailEvent :=
  let sourceId := r.sourceIdForPath hasher path
  let (r, events) := r.drainFile host hasher now fs path sourceId
  ({ r with files := r.files.erase path, evictedOffsets := r.evictedOffsets.erase path }, events)

def cleanupDeleted (d : FileDiscovery) (fs : FileSystem) (r : FileReader) :
    FileDiscovery × FileReader × List TailEvent :=
  let deleted := deletedPaths host fs r
  let (r, events) := FileReader.forEach (removeDeleted host hasher now fs) r deleted
  (d.forgetDeletedWatchPaths deleted, r, events)

end FileDiscovery

/-- `FileTailer::new`: the paths that exist are opened. -/
def startReader (fs : FileSystem) (config : TailConfig) (paths : List Path) : FileReader :=
  let openPath (r : FileReader) (path : Path) : FileReader :=
    if fs.pathExists path then
      (r.openFileAt host hasher now fs path config.startFromEnd).getD r
    else r
  paths.foldl openPath
    { files := ∅, evictedOffsets := ∅, lastReadHadData := false, lastReadHitBudget := false
      config }

end FastForward.Io.Tail
