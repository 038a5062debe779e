/-
Generations of a file.

A path may come to lead to another file, a file may be rewritten in
place or deleted. What was there is the old generation, what is there
now the new one. The tailer has the old generation open, and gets to
know of the change when it looks at the path.

An open file that was replaced or deleted still leads to the old
generation, one that was rewritten to the new one, whatever the tailer
takes it for.
-/
import FastForward.Lib.Run
import FastForward.Io.Tail.Proofs.Records

namespace FastForward.Io.Tail

open Core Lib Pipeline

inductive Turnover
  | replaced
  | rewritten
  | deleted
  deriving DecidableEq, Repr

namespace Turnover

/-- What has happened to the file `t` that is open under a path, when its
content was `old`. -/
def Happened (hasher : Hasher) (fs : FileSystem) (path : Path) (t : Active) (old : Bytes) :
    Turnover → Prop
  | replaced => fs.content t.file.id = old ∧ ∃ id, fs.lookup path = some id ∧ id ≠ t.file.id
  | rewritten =>
    -- the first bytes that the tailer compares are others
    fs.lookup path = some t.file.id ∧ 0 < t.fingerprintLen
      ∧ computeFingerprint hasher (fs.content t.file.id) t.fingerprintLen
        ≠ t.comparisonFingerprint
  | deleted => fs.content t.file.id = old ∧ fs.nlink t.file.id = 0 ∧ fs.lookup path = none

/-- The tailer notices. -/
def look (host : Host) (hasher : Hasher) (now : Nat) (fs : FileSystem) (r : FileReader)
    (path : Path) : Turnover → FileReader × List TailEvent
  | replaced | rewritten =>
    let (r, events, _) := detectChange host hasher now fs r path
    (r, events)
  | deleted => FileDiscovery.removeDeleted host hasher now fs r path

/-- What of the data read from the open file is of the old generation. -/
def fromOld (data : List (Bytes × Option SourceId)) : Turnover → List (Bytes × Option SourceId)
  | replaced | deleted => data
  | rewritten => []

/-- What of it is of the new generation. -/
def fromNew (data : List (Bytes × Option SourceId)) : Turnover → List (Bytes × Option SourceId)
  | replaced | deleted => []
  | rewritten => data

end Turnover

/-- The source id under which the content of an open file is emitted. -/
def Active.sourceIdFor (hasher : Hasher) (t : Active) (content : Bytes) (window : Nat) :
    Option SourceId :=
  (t.identity.recognise hasher content window).eventId hasher

-- == one path, later on

/-- What a file may come to contain. -/
structure Future (hasher : Hasher) where
  allows : Bytes → Prop
  hashed : ∀ content, allows content → Hashed hasher content

namespace Future

variable {hasher : Hasher}

/-- Anything. -/
def any (hasher : Hasher) : Future hasher := ⟨Hashed hasher, fun _ hhash => hhash⟩

/-- A content that it gets in the end, and its beginnings. -/
def upTo (final : Bytes) (hhash : Hashed hasher final) : Future hasher where
  allows content := content <+: final
  hashed := fun content hfront n hn => by
    obtain ⟨rest, rfl⟩ := hfront
    have htake : content.take n = (content ++ rest).take (min n content.length) := by
      rw [← List.take_take, List.take_left]
    rw [htake] at hn ⊢
    exact hhash _ hn

end Future

variable {hasher : Hasher}

/-- One path of the tailer, with the data emitted for it. -/
structure Watch where
  fs : FileSystem
  reader : FileReader
  data : List (Bytes × Option SourceId)

inductive WatchOp
  | grow (fs : FileSystem)
  | detect (host : Host) (now : Nat)
  | read (host : Host) (now eofMinIdle budget : Nat)

namespace Watch

def step (hasher : Hasher) (path : Path) (op : WatchOp) (w : Watch) : Option Watch :=
  some <| match op with
    | .grow fs => { w with fs }
    | .detect host now =>
      let (reader, events, _) := detectChange host hasher now w.fs w.reader path
      { w with reader, data := w.data ++ dataEvents path events }
    | .read host now eofMinIdle budget =>
      let (reader, events) :=
        w.reader.readPath host hasher now w.fs eofMinIdle budget path
      { w with reader, data := w.data ++ dataEvents path events }

/-- The file of the path only grows. -/
def Grows (future : Future hasher) (path : Path) (w : Watch) : WatchOp → Prop
  | .grow fs => ∀ id, w.fs.lookup path = some id → fs.lookup path = some id
      ∧ w.fs.content id <+: fs.content id ∧ future.allows (fs.content id)
  | _ => True

/-- The file of the path is read on, and nothing else happens. -/
def Reads (_ : Watch) : WatchOp → Prop
  | .read .. => True
  | _ => False

end Watch

-- == keeping apart

/-- The file of a path is delivered from its start, under a source id that
is not `taken`. -/
structure DeliversOnce (future : Future hasher) (path : Path) (id : FileId)
    (taken : Option SourceId) (w : Watch) : Prop where
  /-- However long the tailer goes on, it has emitted the content up to
  where it is, once. -/
  once : ∀ w', ReachableWhen (Watch.step hasher path) (Watch.Grows future path) w w' →
    (∃ t, w'.reader.files[path]? = some t
        ∧ w'.data.flatMap (·.1) = (w'.fs.content id).take t.offset)
      ∧ ∃ sourceId, sourceId ≠ taken ∧ ∀ d ∈ w'.data, d.2 = sourceId
  /-- And it can go on until all is emitted. -/
  complete : ∀ w', ReachableWhen (Watch.step hasher path) (Watch.Grows future path) w w' →
    ∃ w'', ReachableWhen (Watch.step hasher path) Watch.Reads w' w'' ∧ w''.fs = w'.fs
      ∧ w''.data.flatMap (·.1) = w'.fs.content id

/-- The generations are kept apart when the tailer has noticed the change:
`old` and `t` are the old content and the file that was open, `r` and
`data` the reader after it and the data it has emitted for the path. -/
structure KeepsApart (future : Future hasher) (path : Path) (fs : FileSystem) (t : Active)
    (old : Bytes) (g : Turnover) (r : FileReader)
    (data : List (Bytes × Option SourceId)) : Prop where
  /-- All that was not read of the old generation was emitted. -/
  old_complete : (g.fromOld data).flatMap (·.1) = old.drop t.offset
  old_sourceId : ∀ d ∈ g.fromOld data,
    d.2 = t.sourceIdFor hasher old r.config.fingerprintBytes
  new_once : ∀ id, fs.lookup path = some id →
    DeliversOnce future path id (t.sourceIdFor hasher old r.config.fingerprintBytes)
      ⟨fs, r, g.fromNew data⟩

/-- No content that a file may get before it is recognised gives it the
source id `taken`. -/
def NeverIdentifiedAs (future : Future hasher) (window : Nat) (id : FileId) (content : Bytes)
    (taken : Option SourceId) : Prop :=
  ∀ content', content <+: content' → content' ≠ [] → (content ≠ [] → content' = content) →
    future.allows content' →
    FileIdentity.eventId hasher
      ⟨id.device, id.inode, computeFingerprint hasher content' window⟩ ≠ taken

/-- What it takes to keep the generations apart: one read with a `budget`
gives all that is unread of the old generation, and nothing of the new
one. -/
def Turnover.Separable (future : Future hasher) (window budget : Nat) (fs : FileSystem)
    (path : Path) (t : Active) (old : Bytes) : Turnover → Prop
  | replaced => old.length - t.offset ≤ budget
      ∧ ∀ id, fs.lookup path = some id →
        NeverIdentifiedAs future window id (fs.content id) (t.sourceIdFor hasher old window)
  | rewritten => old.length = t.offset
      ∧ ((fs.content t.file.id).length = t.offset ∨ fs.content t.file.id = [])
      ∧ NeverIdentifiedAs future window t.file.id (fs.content t.file.id)
          (t.sourceIdFor hasher old window)
  | deleted => old.length - t.offset ≤ budget

end FastForward.Io.Tail
