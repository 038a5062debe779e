/-
Records of tailed files.

The reader keeps one record for each file it has ever opened, whether the
file is open or not (`FileReader.saved`); closing a file does not change
it. Over files that only grow the record says what was delivered of the
file: its content from where it was first opened up to the record's
offset, under one source id (`Delivered`). Reading and opening change the
record of one path and keep this (`Sound`): a file is read on, or opened
where its record left it.
-/
import FastForward.Io.Tail.Proofs.Resume

namespace FastForward.Io.Tail

open Core Lib Pipeline List Option

-- == files that only grow

/-- Different paths lead to different files, and the hash functions tell
files apart. -/
structure FileSystem.Distinct (hasher : Hasher) (fs : FileSystem) : Prop where
  inodes : ∀ {path path' : Path} {id : FileId}, fs.lookup path = some id →
    fs.lookup path' = some id → path = path'
  hashed : ∀ {path : Path} {id : FileId}, fs.lookup path = some id →
    Hashed hasher (fs.content id)
  sourceIds : ∀ {path path' : Path} {id id' : FileId}, fs.lookup path = some id →
    fs.lookup path' = some id' → id ≠ id' → ∀ m n : Nat,
    let identity (id : FileId) (n : Nat) : FileIdentity :=
      ⟨id.device, id.inode, computeFingerprint hasher (fs.content id) n⟩
    (identity id m).sourceId hasher = (identity id' n).sourceId hasher →
      (identity id m).sourceId hasher = 0

/-- No file is truncated, replaced or deleted. Files may be added. -/
def FileSystem.GrowsTo (fs fs' : FileSystem) : Prop :=
  ∀ {path : Path} {id : FileId}, fs.lookup path = some id →
    fs'.lookup path = some id ∧ fs.content id <+: fs'.content id

-- == events of a path

def TailEvent.isContinuous : TailEvent → Bool
  | .data .. | .endOfFile .. => true
  | .rotated .. | .truncated .. => false

def dataEvents (path : Path) (events : List TailEvent) : List (Bytes × Option SourceId) :=
  events.filterMap fun
    | .data p bytes sourceId => if p = path then some (bytes, sourceId) else none
    | _ => none

@[simp] theorem dataEvents_append (path : Path) (events more : List TailEvent) :
    dataEvents path (events ++ more) = dataEvents path events ++ dataEvents path more :=
  filterMap_append

theorem dataEvents_data (q path : Path) (bytes : Bytes) (sourceId : Option SourceId) :
    dataEvents q [.data path bytes sourceId] = if path = q then [(bytes, sourceId)] else [] := by
  by_cases hq : path = q
  · rw [if_pos hq]
    exact filterMap_cons_some (if_pos hq)
  · rw [if_neg hq]
    exact filterMap_cons_none (if_neg hq)

def FileIdentity.eventId (hasher : Hasher) (i : FileIdentity) : Option SourceId :=
  if i.sourceId hasher = 0 then none else some (i.sourceId hasher)

theorem sourceIdForPath_of_open {hasher : Hasher} {r : FileReader} {path : Path} {t : Active}
    (h : r.files[path]? = some t) : r.sourceIdForPath hasher path = t.identity.eventId hasher := by
  rw [FileReader.sourceIdForPath, h]
  rfl

-- == records of files

variable {host : Host} {hasher : Hasher} {now : Nat}

/-- The record of an open file. -/
def Active.saved (hasher : Hasher) (path : Path) (t : Active) : EvictedFile :=
  { identity := t.identity
    comparisonFingerprint := t.comparisonFingerprint
    fingerprintLen := t.fingerprintLen
    eofState := t.eofState
    offset := t.offset
    path
    sourceId := t.identity.sourceId hasher }

def FileReader.saved (hasher : Hasher) (r : FileReader) (path : Path) : Option EvictedFile :=
  match r.files[path]? with
  | some t => some (t.saved hasher path)
  | none => r.evictedOffsets[path]?

/-- A record fits the content of its file, and what was delivered of it
from `first` on. -/
structure Delivered (hasher : Hasher) (window : Nat) (id : FileId) (content : Bytes)
    (e : EvictedFile) (first : Nat) (data : List (Bytes × Option SourceId)) : Prop where
  resumes : Resumes hasher window id content e.identity e.comparisonFingerprint
    e.fingerprintLen e.offset
  sourceId : e.sourceId = e.identity.sourceId hasher
  first_le : first ≤ e.offset
  bytes : data.flatMap (·.1) = (content.drop first).take (e.offset - first)
  ids : ∀ d ∈ data, d.2 = e.identity.eventId hasher
  /-- A file gets its identity with its first data. -/
  silent : e.identity.fingerprint = 0 → 0 < window → data = []

/-- A path without record has given nothing. -/
def Tracked (hasher : Hasher) (window : Nat) (fs : FileSystem) (path : Path)
    (first : Option Nat) (data : List (Bytes × Option SourceId)) : Option EvictedFile → Prop
  | none => first = none ∧ data = []
  | some e => ∃ id start, fs.lookup path = some id ∧ first = some start
      ∧ Delivered hasher window id (fs.content id) e start data

namespace Delivered

variable {window : Nat} {id : FileId} {content : Bytes} {e : EvictedFile} {first : Nat}
  {data : List (Bytes × Option SourceId)} (h : Delivered hasher window id content e first data)

include h

theorem grow {content' : Bytes}
    (hgrow : content <+: content') : Delivered hasher window id content' e first data := by
  have hle := h.resumes.offset_le
  have hfirst := h.first_le
  refine { h with resumes := h.resumes.grow hgrow, bytes := ?_ }
  obtain ⟨more, rfl⟩ := hgrow
  rw [h.bytes, drop_append_of_le_length (by omega),
    take_append_of_le_length (by rw [length_drop]; omega)]

variable {e' : EvictedFile}

/-- Closing and opening do not touch what else a record has. -/
theorem of_same (hidentity : e'.identity = e.identity)
    (hcomparison : e'.comparisonFingerprint = e.comparisonFingerprint)
    (hlen : e'.fingerprintLen = e.fingerprintLen) (hoffset : e'.offset = e.offset)
    (hsource : e'.sourceId = e'.identity.sourceId hasher) :
    Delivered hasher window id content e' first data where
  resumes := by rw [hidentity, hcomparison, hlen, hoffset]; exact h.resumes
  sourceId := hsource
  first_le := by rw [hoffset]; exact h.first_le
  bytes := by rw [hoffset]; exact h.bytes
  ids := by rw [hidentity]; exact h.ids
  silent := by rw [hidentity]; exact h.silent

/-- The next bytes of the file. -/
theorem read (hhash : Hashed hasher content)
    {n : Nat} (hn : 0 < n) (hoffset : e'.offset = e.offset + n)
    (hresumes : Resumes hasher window id content e'.identity e'.comparisonFingerprint
      e'.fingerprintLen e'.offset)
    (hsource : e'.sourceId = e'.identity.sourceId hasher)
    (hidentity : e.identity.fingerprint ≠ 0 ∨ window = 0 → e'.identity = e.identity) :
    Delivered hasher window id content e' first
      (data ++ [((content.drop e.offset).take n, e'.identity.eventId hasher)]) := by
  have hfirst := h.first_le
  refine ⟨hresumes, hsource, by omega, ?_, ?_, ?_⟩
  · have hsum : e.offset + n - first = (e.offset - first) + n := by omega
    have hdrop : content.drop e.offset = (content.drop first).drop (e.offset - first) := by
      rw [drop_drop]
      congr 1
      omega
    rw [flatMap_append, flatMap_singleton, h.bytes, hoffset, hsum, hdrop, take_add]
  · intro d hd
    rcases mem_append.mp hd with hold | hnew
    · by_cases hknown : e.identity.fingerprint ≠ 0 ∨ window = 0
      · rw [hidentity hknown]
        exact h.ids d hold
      · -- nothing was delivered before the file was recognised
        rw [h.silent (by omega) (by omega)] at hold
        exact absurd hold not_mem_nil
    · rw [mem_singleton.mp hnew]
  · intro hzero hwindow
    have hcovers := hresumes.covers
    rw [hresumes.fingerprint_eq_zero hhash] at hzero
    omega

omit h

/-- Opening a file for the first time delivers nothing. -/
theorem start (hresumes : Resumes hasher window id content e.identity e.comparisonFingerprint
      e.fingerprintLen e.offset) (hsource : e.sourceId = e.identity.sourceId hasher) :
    Delivered hasher window id content e e.offset [] where
  resumes := hresumes
  sourceId := hsource
  first_le := Nat.le_refl _
  bytes := by rw [Nat.sub_self, take_zero]; rfl
  ids := fun _ hd => absurd hd not_mem_nil
  silent := fun _ _ => rfl

end Delivered

-- == one path of the reader

namespace FileReader

/-- A path is open now; everything else is as it was. -/
structure OpenedAs (r r' : FileReader) (path : Path) (t : Active) : Prop where
  files : ∀ q, r'.files[q]? = if path = q then some t else r.files[q]?
  evicted : ∀ q, r'.evictedOffsets[q]? = if path = q then none else r.evictedOffsets[q]?
  config : r'.config = r.config

variable {r r' r'' : FileReader} {path : Path} {t t' : Active}

theorem OpenedAs.insert (h : r.evictedOffsets[path]? = none) (t : Active) :
    OpenedAs r { r with files := r.files.insert path t } path t where
  files q := BTreeMap.getElem?_insert_eq r.files path q t
  evicted q := by
    split
    next heq => rw [← heq]; exact h
    next => rfl
  config := rfl

theorem OpenedAs.insert_erase (r : FileReader) (path : Path) (t : Active) :
    OpenedAs r { r with
      files := r.files.insert path t, evictedOffsets := r.evictedOffsets.erase path } path t where
  files q := BTreeMap.getElem?_insert_eq r.files path q t
  evicted q := BTreeMap.getElem?_erase_eq r.evictedOffsets path q
  config := rfl

variable (h : OpenedAs r r' path t)

include h

theorem OpenedAs.isOpen : r'.files[path]? = some t := by
  rw [h.files, if_pos rfl]

theorem OpenedAs.trans (h' : OpenedAs r' r'' path t') :
    OpenedAs r r'' path t' where
  files q := by
    rw [h'.files, h.files]
    split
    next => rfl
    next => rfl
  evicted q := by
    rw [h'.evicted, h.evicted]
    split
    next => rfl
    next => rfl
  config := h'.config.trans h.config

theorem OpenedAs.mapEofState (f : EofState → EofState) :
    OpenedAs r (r'.mapEofState path f) path { t with eofState := f t.eofState } := by
  have hevicted : r'.evictedOffsets[path]? = none := by rw [h.evicted, if_pos rfl]
  rw [FileReader.mapEofState, h.isOpen]
  exact h.trans (.insert hevicted _)

theorem OpenedAs.saved (q : Path) :
    r'.saved hasher q = if path = q then some (t.saved hasher path) else r.saved hasher q := by
  rw [FileReader.saved, h.files, h.evicted]
  by_cases hq : path = q
  · rw [if_pos hq, if_pos hq, if_pos hq, hq]
  · rw [if_neg hq, if_neg hq, if_neg hq]
    rfl

end FileReader

-- == the invariant

/-- What holds of the reader over files that only grow: `first` says where
each file was first opened. -/
structure Sound (hasher : Hasher) (window : Nat) (fs : FileSystem) (watched : List Path)
    (first : Path → Option Nat) (r : FileReader) (events : List TailEvent) : Prop where
  fingerprintBytes : r.config.fingerprintBytes = window
  tracked : ∀ path, Tracked hasher window fs path (first path) (dataEvents path events)
    (r.saved hasher path)
  opened : ∀ {path : Path} {t : Active}, r.files[path]? = some t →
    r.evictedOffsets[path]? = none
      ∧ ∃ id, fs.lookup path = some id ∧ t.file = ⟨id, t.offset⟩ ∧ t.readBuf = []
  mem_watched : ∀ {path : Path}, r.saved hasher path ≠ none → path ∈ watched
  continuous : ∀ event ∈ events, event.isContinuous = true

/-- Where files were first opened, with the files that are open now. -/
def recordFirst (first : Path → Option Nat) (r : FileReader) (path : Path) : Option Nat :=
  (first path).or (r.getOffset path)

theorem saved_of_open {r : FileReader} {path : Path} {t : Active} (h : r.files[path]? = some t) :
    r.saved hasher path = some (t.saved hasher path) := by
  rw [FileReader.saved, h]

theorem saved_of_closed {r : FileReader} {path : Path} (h : r.files[path]? = none) :
    r.saved hasher path = r.evictedOffsets[path]? := by
  rw [FileReader.saved, h]

namespace Sound

variable {window : Nat} {fs : FileSystem} {watched : List Path} {first : Path → Option Nat}
  {r : FileReader} {events : List TailEvent} {path : Path} {t : Active}

variable (h : Sound hasher window fs watched first r events)

include h

/-- An open file, with its record. -/
theorem open_file (ht : r.files[path]? = some t) :
    ∃ id start, fs.lookup path = some id ∧ first path = some start
      ∧ t.file = ⟨id, t.offset⟩ ∧ t.readBuf = [] ∧ r.evictedOffsets[path]? = none
      ∧ Delivered hasher window id (fs.content id) (t.saved hasher path) start
          (dataEvents path events) := by
  obtain ⟨hevicted, id, hid, hfile, hbuf⟩ := h.opened ht
  have htracked := h.tracked path
  rw [saved_of_open ht] at htracked
  obtain ⟨id', start, hid', hstart, hdelivered⟩ := htracked
  obtain rfl : id = id' := some.inj (hid.symm.trans hid')
  exact ⟨id, start, hid, hstart, hfile, hbuf, hevicted, hdelivered⟩

/-- Files that are open have been opened before. -/
theorem recordFirst_eq :
    recordFirst first r = first := by
  funext path
  rw [recordFirst]
  cases ht : r.files[path]? with
  | none => rw [FileReader.getOffset, ht, map_none, or_none]
  | some t =>
    obtain ⟨id, start, -, hstart, -⟩ := h.open_file ht
    rw [hstart, some_or]

/-- One path changes: it is open now, and has a record that fits. -/
theorem update {r' : FileReader}
    {first' : Path → Option Nat} {watched' : List Path} {new : List TailEvent}
    {id : FileId} {start : Nat} (hr : r.OpenedAs r' path t)
    (hfirst : ∀ q, first' q = if path = q then some start else first q)
    (hnew : ∀ q, path ≠ q → dataEvents q new = [])
    (hcontinuous : ∀ event ∈ new, event.isContinuous)
    (hwatched : ∀ q ∈ watched, q ∈ watched') (hpath : path ∈ watched')
    (hid : fs.lookup path = some id) (hfile : t.file = ⟨id, t.offset⟩) (hbuf : t.readBuf = [])
    (hdelivered : Delivered hasher window id (fs.content id) (t.saved hasher path) start
      (dataEvents path (events ++ new))) :
    Sound hasher window fs watched' first' r' (events ++ new) := by
  refine ⟨by rw [hr.config]; exact h.fingerprintBytes, fun q => ?_, fun {q u} hq => ?_,
    fun {q} hq => ?_, ?_⟩
  · rw [hr.saved, hfirst]
    split
    next heq =>
      subst heq
      exact ⟨id, start, hid, rfl, hdelivered⟩
    next hne =>
      rw [dataEvents_append, hnew q hne, append_nil]
      exact h.tracked q
  · rw [hr.files] at hq
    rw [hr.evicted]
    split at hq
    next heq =>
      subst heq
      cases hq
      exact ⟨if_pos rfl, id, hid, hfile, hbuf⟩
    next hne =>
      rw [if_neg hne]
      exact h.opened hq
  · rw [hr.saved] at hq
    split at hq
    next heq => exact heq ▸ hpath
    next => exact hwatched q (h.mem_watched hq)
  · intro event hevent
    rcases mem_append.mp hevent with hold | hadded
    · exact h.continuous event hold
    · exact hcontinuous event hadded

end Sound

-- == reading

namespace FileReader

theorem perFileBudget_pos (r : FileReader) : 0 < r.perFileBudget := by
  rw [perFileBudget, maxReadPerPoll]
  omega

variable {window : Nat} {fs : FileSystem} {id : FileId} {r : FileReader} {path : Path} {t : Active}

theorem readPath_of_open (host : Host) (now eofMinIdle budget : Nat) (ht : r.files[path]? = some t)
    (hevicted : r.evictedOffsets[path]? = none) (hwindow : r.config.fingerprintBytes = window)
    (htails : t.Tails hasher window id (fs.content id))
    (hhash : Hashed hasher (fs.content id)) :
    ∃ r' t' new, r.readPath host hasher now fs eofMinIdle budget path = (r', new)
      ∧ r.OpenedAs r' path t' ∧ t'.Tails hasher window id (fs.content id)
      ∧ ((∃ eofState, t' = { t with eofState } ∧ t.offset = (fs.content id).length
            ∧ (new = [] ∨ ∃ sourceId, new = [.endOfFile path sourceId]))
          ∨ ∃ n, 0 < n ∧ t'.offset = t.offset + n
            ∧ t'.identity = t.identity.recognise hasher (fs.content id) window
            ∧ new = [.data path (((fs.content id).drop t.offset).take n)
                (t'.identity.eventId hasher)]) := by
  rw [readPath, readNewData, ht]
  dsimp only
  rw [hwindow]
  rcases Active.readNewData_of_tails host now htails hhash r.perFileBudget_pos with
    ⟨hread, hend⟩ | ⟨n, t', hn, hread, htails', hoffset, hidentity⟩
  · have hopened := OpenedAs.insert hevicted t
    have heof := hopened.mapEofState fun s => (s.onNoData now eofMinIdle).1
    rw [hread]
    dsimp only
    rw [hopened.isOpen]
    refine ⟨_, _, _, rfl, heof, ⟨htails.file, htails.readBuf, htails.resumes⟩,
      .inl ⟨_, rfl, hend, ?_⟩⟩
    split
    next => exact .inr ⟨_, rfl⟩
    next => exact .inl rfl
  · have hopened := OpenedAs.insert hevicted t'
    have hflags : r.OpenedAs { r with
        files := r.files.insert path t'
        lastReadHadData := true
        lastReadHitBudget := r.lastReadHitBudget
          || decide (budget ≤ (((fs.content id).drop t.offset).take n).length) } path t' :=
      ⟨hopened.files, hopened.evicted, rfl⟩
    have heof := hflags.mapEofState (·.onData)
    rw [hread]
    refine ⟨_, _, _, rfl, heof, ⟨htails'.file, htails'.readBuf, htails'.resumes⟩,
      .inr ⟨n, hn, hoffset, hidentity, ?_⟩⟩
    rw [sourceIdForPath_of_open heof.isOpen]

theorem readPath_of_closed (eofMinIdle budget : Nat) (ht : r.files[path]? = none) :
    r.readPath host hasher now fs eofMinIdle budget path = (r, []) := by
  rw [readPath, readNewData, ht]
  dsimp only
  rw [ht]

theorem evict_of_open (ht : r.files[path]? = some t) :
    r.evict hasher path = { r with
      files := r.files.erase path
      evictedOffsets := r.evictedOffsets.insert path (t.saved hasher path) } := by
  rw [evict, ht]
  rfl

/-- Closing a file keeps its record. -/
theorem saved_evict (hasher : Hasher) (r : FileReader) (path q : Path) :
    (r.evict hasher path).saved hasher q = r.saved hasher q := by
  cases ht : r.files[path]? with
  | none => rw [evict, ht]
  | some t =>
    rw [evict_of_open ht, saved, saved]
    rw [BTreeMap.getElem?_erase_eq, BTreeMap.getElem?_insert_eq]
    by_cases hq : path = q
    · subst hq
      rw [if_pos rfl, if_pos rfl, ht]
    · rw [if_neg hq, if_neg hq]

/-- What every path keeps is kept by all. -/
theorem forEach_invariant {step : FileReader → Path → FileReader × List TailEvent}
    {P : FileReader → List TailEvent → Prop}
    (hstep : ∀ r events path, P r events → P (step r path).1 (events ++ (step r path).2))
    (paths : List Path) {events : List TailEvent} (h : P r events) :
    P (forEach step r paths).1 (events ++ (forEach step r paths).2) := by
  induction paths generalizing r events with
  | nil =>
    rw [forEach, append_nil]
    exact h
  | cons path paths ih =>
    rw [forEach]
    rw [← append_assoc]
    exact ih (hstep r events path h)

end FileReader

namespace Sound

variable {window : Nat} {fs : FileSystem} {watched : List Path} {first : Path → Option Nat}
  {r : FileReader} {events : List TailEvent}

theorem readPath (hdistinct : fs.Distinct hasher)
    (h : Sound hasher window fs watched first r events) (eofMinIdle budget : Nat) (path : Path) :
    Sound hasher window fs watched first
      (r.readPath host hasher now fs eofMinIdle budget path).1
      (events ++ (r.readPath host hasher now fs eofMinIdle budget path).2) := by
  cases ht : r.files[path]? with
  | none =>
    rw [FileReader.readPath_of_closed eofMinIdle budget ht, append_nil]
    exact h
  | some t =>
    obtain ⟨id, start, hid, hstart, hfile, hbuf, hevicted, hdelivered⟩ := h.open_file ht
    have hhash := hdistinct.hashed hid
    obtain ⟨r', t', new, hread, hopened, htails, hcase⟩ :=
      FileReader.readPath_of_open host now eofMinIdle budget ht hevicted
        h.fingerprintBytes ⟨hfile, hbuf, hdelivered.resumes⟩ hhash
    have hfirst : ∀ q, first q = if path = q then some start else first q := by
      intro q
      split
      next heq => rw [← heq, hstart]
      next => rfl
    have hpath : path ∈ watched := h.mem_watched (by rw [saved_of_open ht]; exact nofun)
    rw [hread]
    rcases hcase with ⟨eofState, rfl, -, hnew⟩ | ⟨n, hn, hoffset, hidentity, rfl⟩
    · have hsilent : ∀ q, dataEvents q new = [] := by
        rcases hnew with rfl | ⟨sourceId, rfl⟩
        · exact fun _ => rfl
        · exact fun _ => rfl
      refine h.update hopened hfirst (fun q _ => hsilent q) ?_ (fun _ hq => hq) hpath hid
        htails.file htails.readBuf ?_
      · rcases hnew with rfl | ⟨sourceId, rfl⟩
        · exact fun _ hevent => absurd hevent not_mem_nil
        · exact fun _ hevent => by rw [mem_singleton.mp hevent]; rfl
      · rw [dataEvents_append, hsilent, append_nil]
        exact hdelivered.of_same rfl rfl rfl rfl rfl
    · refine h.update hopened hfirst (fun q hne => ?_) (fun _ hevent => ?_) (fun _ hq => hq)
        hpath hid htails.file htails.readBuf ?_
      · rw [dataEvents_data, if_neg hne]
      · rw [mem_singleton.mp hevent]
        rfl
      · rw [dataEvents_append, dataEvents_data, if_pos rfl]
        exact hdelivered.read hhash hn hoffset htails.resumes rfl fun hknown =>
          hidentity.trans (FileIdentity.recognise_of_known hknown _)

/-- All open files are read. -/
theorem readAll (host : Host) (now : Nat) (hdistinct : fs.Distinct hasher)
    (h : Sound hasher window fs watched first r events) :
    Sound hasher window fs watched first (r.readAll host hasher now fs).1
      (events ++ (r.readAll host hasher now fs).2) :=
  FileReader.forEach_invariant
    (fun _ _ path hs => hs.readPath hdistinct _ _ path) _
    ⟨h.fingerprintBytes, h.tracked, h.opened, h.mem_watched, h.continuous⟩

-- == closing

/-- A file is closed; its record stays. -/
theorem evict (h : Sound hasher window fs watched first r events) (path : Path) :
    Sound hasher window fs watched first (r.evict hasher path) events := by
  cases ht : r.files[path]? with
  | none =>
    rw [FileReader.evict, ht]
    exact h
  | some t =>
    have hsaved := FileReader.saved_evict hasher r path
    refine ⟨?_, fun q => ?_, fun {q u} hq => ?_, fun {q} hq => ?_, h.continuous⟩
    · rw [FileReader.evict_of_open ht]
      exact h.fingerprintBytes
    · rw [hsaved]
      exact h.tracked q
    · rw [FileReader.evict_of_open ht] at hq ⊢
      rw [BTreeMap.getElem?_erase_eq] at hq
      split at hq
      next => cases hq
      next hne =>
        rw [BTreeMap.getElem?_insert_eq, if_neg hne]
        exact h.opened hq
    · rw [hsaved] at hq
      exact h.mem_watched hq

theorem evictLru (host : Host) (h : Sound hasher window fs watched first r events) (maxOpen : Nat) :
    Sound hasher window fs watched first (r.evictLru host hasher maxOpen) events := by
  have hfold : ∀ (paths : List Path) (r : FileReader),
      Sound hasher window fs watched first r events →
      Sound hasher window fs watched first (paths.foldl (.evict hasher) r) events := by
    intro paths
    induction paths with
    | nil => exact fun _ h => h
    | cons path paths ih => exact fun _ h => ih _ (h.evict path)
  rw [FileReader.evictLru]
  split
  next => exact hfold _ r h
  next => exact h

-- == opening

variable {path : Path} {id : FileId}

/-- No other file's record is taken for a file without one. -/
theorem takeEvicted_of_none (host : Host) (hdistinct : fs.Distinct hasher)
    (h : Sound hasher window fs watched first r events)
    (hid : fs.lookup path = some id) (hnone : r.evictedOffsets[path]? = none) (n : Nat) :
    r.takeEvicted host path (FileIdentity.sourceId hasher
        ⟨id.device, id.inode, computeFingerprint hasher (fs.content id) n⟩) = (none, r) := by
  rw [FileReader.takeEvicted, hnone]
  dsimp only
  split
  next => rfl
  next hsource =>
    rw [find?_eq_none.mpr]
    intro key _ hkey
    obtain ⟨e, he, hsame⟩ := (any_eq_true _ _).mp hkey
    have hne : path ≠ key := by
      rintro rfl
      rw [hnone] at he
      cases he
    -- the record is that of another file
    have hclosed : r.files[key]? = none := by
      cases ht : r.files[key]? with
      | none => rfl
      | some t =>
        rw [(h.opened ht).1] at he
        cases he
    have htracked := h.tracked key
    rw [saved_of_closed hclosed, he] at htracked
    obtain ⟨id', start, hid', -, hdelivered⟩ := htracked
    obtain ⟨m, -, -, hfingerprint⟩ := hdelivered.resumes.recognised
    have hidentity : e.identity
        = ⟨id'.device, id'.inode, computeFingerprint hasher (fs.content id') m⟩ := by
      rw [← hfingerprint, ← hdelivered.resumes.device, ← hdelivered.resumes.inode]
    have hids : id ≠ id' := by
      rintro rfl
      exact hne (hdistinct.inodes hid hid')
    refine hsource (hdistinct.sourceIds hid hid' hids n m ?_)
    rw [← eq_of_beq hsame, hdelivered.sourceId, hidentity]

/-- A file without record is opened as it is first seen. -/
theorem openFileAt_of_none (host : Host) (now : Nat) (hdistinct : fs.Distinct hasher)
    (h : Sound hasher window fs watched first r events)
    (hid : fs.lookup path = some id) (hnone : r.evictedOffsets[path]? = none)
    (startFromEnd : Bool) :
    ∃ t, r.openFileAt host hasher now fs path startFromEnd
        = some { r with files := r.files.insert path t }
      ∧ (startFromEnd = false → t.offset = 0) ∧ t.file = ⟨id, t.offset⟩ ∧ t.readBuf = []
      ∧ Resumes hasher window id (fs.content id) t.identity t.comparisonFingerprint
          t.fingerprintLen t.offset := by
  have htake := h.takeEvicted_of_none host hdistinct hid hnone window
  rw [FileReader.openFileAt, FileSystem.openFile, hid, map_some, map_some,
    identifyOpenFile, h.fingerprintBytes]
  dsimp only
  rw [htake]
  refine ⟨_, rfl, fun hstart => if_neg (hstart ▸ Bool.false_ne_true), rfl, rfl,
    .identified (hdistinct.hashed hid) window id ?_⟩
  cases startFromEnd with
  | true => exact .inr rfl
  | false => exact .inl rfl

variable {r' : FileReader}

/-- Where files were first opened, after one is opened. -/
theorem recordFirst_openedAs (h : Sound hasher window fs watched first r events)
    {t : Active} (hopened : r.OpenedAs r' path t) {start : Nat}
    (hstart : (first path).or (some t.offset) = some start) (q : Path) :
    recordFirst first r' q = if path = q then some start else first q := by
  rw [recordFirst, FileReader.getOffset, hopened.files]
  split
  next heq =>
    subst heq
    exact hstart
  next => exact congrFun h.recordFirst_eq q

/-- A file that is not open is opened: for the first time, or where it was
left. -/
theorem openFileAt (hdistinct : fs.Distinct hasher)
    (h : Sound hasher window fs watched first r events) {watched' : List Path}
    (hwatched : ∀ q ∈ watched, q ∈ watched') (hpath : path ∈ watched')
    (hclosed : r.files[path]? = none) {startFromEnd : Bool}
    (hr : r.openFileAt host hasher now fs path startFromEnd = some r') :
    (∃ t, r.OpenedAs r' path t
        ∧ (r.evictedOffsets[path]? = none → startFromEnd = false → t.offset = 0))
      ∧ Sound hasher window fs watched' (recordFirst first r') r' events := by
  obtain ⟨file, hopen, -⟩ := map_eq_some_iff.mp hr
  obtain ⟨id, hid, rfl⟩ := map_eq_some_iff.mp hopen
  have hhash := hdistinct.hashed hid
  have htracked := h.tracked path
  rw [saved_of_closed hclosed] at htracked
  -- it is enough to open the path with a record that fits
  suffices hopened : ∃ t start, r.OpenedAs r' path t
      ∧ (r.evictedOffsets[path]? = none → startFromEnd = false → t.offset = 0)
      ∧ (first path).or (some t.offset) = some start ∧ t.file = ⟨id, t.offset⟩ ∧ t.readBuf = []
      ∧ Delivered hasher window id (fs.content id) (t.saved hasher path) start
        (dataEvents path events) by
    obtain ⟨t, start, ht, hbegins, hstart, hfile, hbuf, hdelivered⟩ := hopened
    refine ⟨⟨t, ht, hbegins⟩, ?_⟩
    rw [← append_nil events] at hdelivered ⊢
    exact h.update ht (h.recordFirst_openedAs ht hstart) (fun _ _ => rfl)
      (fun _ hevent => absurd hevent not_mem_nil) hwatched hpath hid hfile hbuf hdelivered
  cases he : r.evictedOffsets[path]? with
  | none =>
    rw [he] at htracked
    obtain ⟨hfirst, hdata⟩ := htracked
    obtain ⟨t, ht, hbegins, hfile, hbuf, hresumes⟩ :=
      h.openFileAt_of_none host now hdistinct hid he startFromEnd
    obtain rfl := some.inj (hr.symm.trans ht)
    refine ⟨t, _, FileReader.OpenedAs.insert he t, fun _ => hbegins, by rw [hfirst]; rfl, hfile,
      hbuf, ?_⟩
    rw [hdata]
    exact .start hresumes rfl
  | some e =>
    rw [he] at htracked
    obtain ⟨id', start, hid', hfirst, hdelivered⟩ := htracked
    obtain rfl : id = id' := some.inj (hid.symm.trans hid')
    have htake : ∀ sourceId, r.takeEvicted host path sourceId
        = (some e, { r with evictedOffsets := r.evictedOffsets.erase path }) := by
      intro sourceId
      rw [FileReader.takeEvicted, he]
    rw [FileReader.openFileAt, hopen, map_some, some.injEq] at hr
    dsimp only at hr
    rw [htake] at hr
    dsimp only at hr
    rw [h.fingerprintBytes] at hr
    subst hr
    split
    next =>
      exact ⟨_, start, FileReader.OpenedAs.insert_erase r path _, nofun, by rw [hfirst]; rfl,
        rfl, rfl, hdelivered.of_same rfl rfl rfl rfl rfl⟩
    next hmismatch =>
      -- a file that was empty: nothing was delivered, and it starts at 0
      obtain ⟨hunknown, hoffset, hwindow⟩ :=
        (evictedMatchesOpenFile_of_resumes hdelivered.resumes hhash).resolve_left hmismatch
      have hle := hdelivered.first_le
      obtain rfl : start = 0 := by omega
      rw [if_pos ⟨hunknown, hoffset, hdelivered.resumes.device, hdelivered.resumes.inode⟩]
      refine ⟨_, 0, FileReader.OpenedAs.insert_erase r path _, nofun, by rw [hfirst]; rfl, rfl,
        rfl, ?_⟩
      rw [hdelivered.silent hunknown hwindow]
      exact .start (.identified hhash window id (.inl rfl)) rfl

end Sound

end FastForward.Io.Tail
