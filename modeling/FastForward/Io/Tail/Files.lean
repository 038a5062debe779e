/-
Files, and how the tailer recognises them (`tail/identity.rs`).

A file is its device and inode; a path leads to one. What a file is
known by besides is a fingerprint, a hash of its first bytes. A
fingerprint of 0 stands for a file without content, and source id 0 for
a file without fingerprint.

The hash function is a parameter. Calls on a file that exists succeed.
-/
import FastForward.Core.Bytes
import FastForward.Pipeline.Batch

namespace FastForward.Io.Tail

open Core Pipeline

/-- A path as it is watched. -/
abbrev Path := String

/-- Device and inode, which outlive a path. -/
structure FileId where
  device : Nat
  inode : Nat
  deriving DecidableEq, Repr

/-- What there is to read. A file may have content without a path to it,
as long as it is open. -/
structure FileSystem where
  lookup : Path → Option FileId
  content : FileId → Bytes
  nlink : FileId → Nat
  nlink_pos : ∀ {path : Path} {id : FileId}, lookup path = some id → 0 < nlink id

/-- An open file and where it is read. -/
structure File where
  id : FileId
  cursor : Nat
  deriving DecidableEq, Repr

namespace FileSystem

def pathExists (fs : FileSystem) (path : Path) : Bool := (fs.lookup path).isSome

/-- A file is opened at its start. -/
def openFile (fs : FileSystem) (path : Path) : Option File :=
  (fs.lookup path).map fun id => { id, cursor := 0 }

/-- The size in a file's metadata. -/
def size (fs : FileSystem) (file : File) : Nat := (fs.content file.id).length

/-- No path leads to an open file any more. -/
def hasMetadataIndicatingDeletion (fs : FileSystem) (file : File) : Bool :=
  fs.nlink file.id == 0

end FileSystem

/-- What a file is recognised by. -/
structure FileIdentity where
  device : Nat
  inode : Nat
  fingerprint : Nat
  deriving DecidableEq, Repr

/-- The hash functions, of which nothing is assumed. -/
structure Hasher where
  /-- `xxh64(bytes, 0)`. -/
  xxh64 : Bytes → Nat
  /-- Device, inode, fingerprint and seed. -/
  sourceDigest : Nat → Nat → Nat → Nat → Nat

variable (hasher : Hasher)

/-- Zero is kept for files without an identity. -/
def sourceIdFromDigests (primary fallback : Nat) : SourceId :=
  if primary ≠ 0 then primary
  else if fallback ≠ 0 then fallback
  else 1

/-- A file without a fingerprint has no source of its own. -/
def FileIdentity.sourceId (i : FileIdentity) : SourceId :=
  if i.fingerprint = 0 then 0
  else
    sourceIdFromDigests (hasher.sourceDigest i.device i.inode i.fingerprint 0)
      (hasher.sourceDigest i.device i.inode i.fingerprint 1)

/-- Fingerprint of content; the cursor of its file stays where it is. -/
def computeFingerprint (content : Bytes) (maxBytes : Nat) : Nat :=
  let buf := content.take maxBytes
  if buf.isEmpty then 0 else hasher.xxh64 buf

/-- The identity of an open file, by its first bytes. -/
def identifyOpenFile (fs : FileSystem) (file : File) (fingerprintBytes : Nat) : FileIdentity :=
  { device := file.id.device
    inode := file.id.inode
    fingerprint := computeFingerprint hasher (fs.content file.id) fingerprintBytes }

/-- The identity of what a path leads to. -/
def identifyFile (fs : FileSystem) (path : Path) (fingerprintBytes : Nat) :
    Option FileIdentity :=
  (fs.openFile path).map fun file => identifyOpenFile hasher fs file fingerprintBytes

/-- How much of a file a fingerprint stands for. -/
def observedFingerprintLen (fingerprint fileSize fingerprintBytes : Nat) : Nat :=
  if fingerprint = 0 ∨ fingerprintBytes = 0 then 0 else min fileSize fingerprintBytes

end FastForward.Io.Tail
