/-
Tailing files that only grow.

A run of the tailer: files grow and are added, and in between the tailer
looks for changes, reads, closes files and expands its patterns, in any
order and with any budgets and limits. Every step keeps the records sound
(`Sound`). So what was delivered of a file is its content from where it
was first opened up to where it is now, in order and under one source id,
and no file is taken for rotated or truncated (`Tailing.loses_nothing`).
-/
import FastForward.Lib.Run
import FastForward.Io.Tail.Proofs.Records

namespace FastForward.Io.Tail

open Core Lib Pipeline List FileReader Option Std.ExtTreeMap

variable {host : Host} {hasher : Hasher} {now : Nat}

-- == discovery

/-- Open files stay as they are, and files without record are opened where
the configuration says. -/
structure FileReader.Keeps (r r' : FileReader) : Prop where
  files : ∀ (q : Path) (t : Active), r.files[q]? = some t → r'.files[q]? = some t
  config : r'.config = r.config
  unknown : ∀ q : Path, r.evictedOffsets[q]? = none → r'.evictedOffsets[q]? = none
  begins : ∀ (q : Path) (t : Active), r.files[q]? = none → r.evictedOffsets[q]? = none →
    r'.files[q]? = some t → r.config.startFromEnd = false → t.offset = 0

namespace FileReader

variable {r r' r'' : FileReader}

theorem Keeps.refl (r : FileReader) : r.Keeps r where
  files _ _ hq := hq
  config := rfl
  unknown _ hq := hq
  begins _ _ hclosed _ hq := by
    rw [hclosed] at hq
    cases hq

theorem Keeps.trans (h : r.Keeps r') (h' : r'.Keeps r'') : r.Keeps r'' where
  files q t hq := h'.files q t (h.files q t hq)
  config := h'.config.trans h.config
  unknown q hq := h'.unknown q (h.unknown q hq)
  begins q t hclosed hunknown hq hstart := by
    cases hmid : r'.files[q]? with
    | none => exact h'.begins q t hmid (h.unknown q hunknown) hq (by rw [h.config, hstart])
    | some u =>
      obtain rfl := some.inj ((h'.files q u hmid).symm.trans hq)
      exact h.begins q u hclosed hunknown hmid hstart

theorem OpenedAs.keeps {path : Path} {t : Active} (h : OpenedAs r r' path t)
    (hclosed : r.files[path]? = none)
    (hbegins : r.evictedOffsets[path]? = none → r.config.startFromEnd = false → t.offset = 0) :
    r.Keeps r' where
  files q u hq := by
    have hne : path ≠ q := by
      rintro rfl
      rw [hclosed] at hq
      cases hq
    rw [h.files, if_neg hne]
    exact hq
  config := h.config
  unknown q hq := by
    rw [h.evicted]
    split
    next => rfl
    next => exact hq
  begins q u hq hunknown hu := by
    rw [h.files] at hu
    split at hu
    next heq =>
      subst heq
      cases hu
      exact hbegins hunknown
    next =>
      rw [hq] at hu
      cases hu

end FileReader

theorem recordFirst_recordFirst {r r' : FileReader} (first : Path → Option Nat)
    (h : r.Keeps r') : recordFirst (recordFirst first r) r' = recordFirst first r' := by
  funext q
  rw [recordFirst, recordFirst, recordFirst, Option.or_assoc]
  cases ht : r.files[q]? with
  | none => rw [getOffset, ht, map_none, none_or]
  | some t =>
    rw [getOffset, getOffset, ht, h.files q t ht]
    rfl

namespace Sound

variable {window : Nat} {fs : FileSystem} {watched : List Path} {first : Path → Option Nat}
  {r : FileReader} {events : List TailEvent}

/-- One watched path is looked at. -/
theorem detectChange (host : Host) (now : Nat) (hdistinct : fs.Distinct hasher)
    (h : Sound hasher window fs watched first r events) {path : Path} (hpath : path ∈ watched) :
    ∃ r' hadError, detectChange host hasher now fs r path = (r', [], hadError) ∧ r.Keeps r'
      ∧ Sound hasher window fs watched (recordFirst first r') r' events := by
  have hsame : Sound hasher window fs watched (recordFirst first r) r events := by
    rw [h.recordFirst_eq]
    exact h
  cases ht : r.files[path]? with
  | some t =>
    obtain ⟨id, start, hid, -, hfile, hbuf, -, hdelivered⟩ := h.open_file ht
    obtain rfl := h.fingerprintBytes
    exact ⟨r, false, detectChange_of_tails host now hid ht ⟨hfile, hbuf, hdelivered.resumes⟩
      (hdistinct.hashed hid), .refl r, hsame⟩
  | none =>
    unfold Tail.detectChange
    cases hid : fs.lookup path with
    | none =>
      rw [FileSystem.pathExists, hid]
      exact ⟨r, false, rfl, .refl r, hsame⟩
    | some id =>
      rw [FileSystem.pathExists]
      dsimp only
      rw [identifyFile,
        FileSystem.openFile, hid]
      dsimp only [map_some]
      rw [isRotated, ht]
      cases hopen : r.openFileAt host hasher now fs path r.config.startFromEnd with
      | none => exact ⟨r, true, rfl, .refl r, hsame⟩
      | some opened =>
        obtain ⟨⟨t, hopened, hbegins⟩, hsound⟩ :=
          h.openFileAt hdistinct (fun _ hq => hq) hpath ht hopen
        exact ⟨opened, false, rfl, hopened.keeps ht hbegins, hsound⟩

/-- All watched paths are looked at. -/
theorem detectEach (host : Host) (now : Nat) (hdistinct : fs.Distinct hasher)
    (h : Sound hasher window fs watched first r events) {paths : List Path}
    (hpaths : ∀ path ∈ paths, path ∈ watched) :
    ∃ r' hadError, detectEach host hasher now fs r paths = (r', [], hadError) ∧ r.Keeps r'
      ∧ Sound hasher window fs watched (recordFirst first r') r' events := by
  induction paths generalizing r first with
  | nil =>
    refine ⟨r, false, rfl, .refl r, ?_⟩
    rw [h.recordFirst_eq]
    exact h
  | cons path paths ih =>
    obtain ⟨r₁, e₁, hone, hkeeps₁, hsound₁⟩ :=
      h.detectChange host now hdistinct (hpaths path mem_cons_self)
    obtain ⟨r₂, e₂, hmore, hkeeps₂, hsound₂⟩ :=
      ih hsound₁ fun q hq => hpaths q (mem_cons_of_mem path hq)
    rw [recordFirst_recordFirst first hkeeps₂] at hsound₂
    refine ⟨r₂, e₁ || e₂, ?_, hkeeps₁.trans hkeeps₂, hsound₂⟩
    rw [detectEach, hone]
    dsimp only
    rw [hmore]
    rfl

theorem openMatched (host : Host) (now : Nat) (hdistinct : fs.Distinct hasher) {paths : List Path}
    (hnodup : paths.Nodup) {d : FileDiscovery} (hnew : ∀ path ∈ paths, path ∉ d.watchPaths)
    (h : Sound hasher window fs d.watchPaths first r events) (hadError : Bool) :
    ∃ d' r' hadError', paths.foldl (FileDiscovery.openMatched host hasher now fs) (d, r, hadError)
        = (d', r', hadError') ∧ r.Keeps r'
      ∧ Sound hasher window fs d'.watchPaths (recordFirst first r') r' events := by
  induction paths generalizing d r first hadError with
  | nil =>
    refine ⟨d, r, hadError, rfl, .refl r, ?_⟩
    rw [h.recordFirst_eq]
    exact h
  | cons path paths ih =>
    obtain ⟨hpath, hnodup⟩ := nodup_cons.mp hnodup
    have hclosed : r.files[path]? = none := by
      cases ht : r.files[path]? with
      | none => rfl
      | some t =>
        refine absurd (h.mem_watched ?_) (hnew path mem_cons_self)
        rw [saved_of_open ht]
        exact nofun
    have hwatched : ∀ q ∈ d.watchPaths, q ∈ d.watchPaths ++ [path] := fun _ hq =>
      mem_append_left _ hq
    have hnew' : ∀ q ∈ paths, q ∉ d.watchPaths ++ [path] := by
      intro q hq hmem
      rcases mem_append.mp hmem with hold | hself
      · exact hnew q (mem_cons_of_mem path hq) hold
      · exact hpath (mem_singleton.mp hself ▸ hq)
    rw [foldl_cons, FileDiscovery.openMatched]
    cases hopen : r.openFileAt host hasher now fs path r.config.startFromEnd with
    | none =>
      have hmore : Sound hasher window fs (d.watchPaths ++ [path]) first r events :=
        ⟨h.fingerprintBytes, h.tracked, h.opened, fun hq => hwatched _ (h.mem_watched hq),
          h.continuous⟩
      exact ih hnodup hnew' hmore true
    | some opened =>
      obtain ⟨⟨t, hopened, hbegins⟩, hsound⟩ := h.openFileAt hdistinct hwatched
        (mem_append_right _ (mem_singleton.mpr rfl)) hclosed hopen
      have hkeeps := hopened.keeps hclosed hbegins
      obtain ⟨d', r', hadError', hrest, hkeeps', hsound'⟩ :=
        ih hnodup (d := { d with watchPaths := d.watchPaths ++ [path] }) hnew' hsound hadError
      rw [recordFirst_recordFirst first hkeeps'] at hsound'
      exact ⟨d', r', hadError', hrest, hkeeps.trans hkeeps', hsound'⟩

theorem rescanGlobs (host : Host) (now : Nat) (hdistinct : fs.Distinct hasher)
    {d : FileDiscovery} (h : Sound hasher window fs d.watchPaths first r events) :
    ∃ d' r' hadError, d.rescanGlobs host hasher now fs r = (d', r', hadError) ∧ r.Keeps r'
      ∧ Sound hasher window fs d'.watchPaths (recordFirst first r') r' events := by
  rw [FileDiscovery.rescanGlobs]
  split
  next =>
    refine ⟨d, r, false, rfl, .refl r, ?_⟩
    rw [h.recordFirst_eq]
    exact h
  next =>
    have hnodup := (host.expandGlobPatterns_nodup fs d.globPatterns).filter
      fun path => !d.watchPaths.contains path
    exact openMatched host now hdistinct hnodup
      (fun path hpath => by simpa using (mem_filter.mp hpath).2) h false

theorem deletedPaths_eq_nil (host : Host) (h : Sound hasher window fs watched first r events) :
    FileDiscovery.deletedPaths host fs r = [] := by
  rw [FileDiscovery.deletedPaths, filter_eq_nil_iff]
  intro path _ hdeleted
  obtain ⟨t, ht, hlinks⟩ := (any_eq_true _ _).mp hdeleted
  obtain ⟨-, id, hid, hfile, -⟩ := h.opened ht
  have hpos := fs.nlink_pos hid
  rw [hfile] at hlinks
  have hzero : fs.nlink id = 0 := eq_of_beq hlinks
  omega

theorem grow (h : Sound hasher window fs watched first r events) {fs' : FileSystem}
    (hgrow : fs.GrowsTo fs') : Sound hasher window fs' watched first r events := by
  refine ⟨h.fingerprintBytes, fun path => ?_, fun ht => ?_, h.mem_watched, h.continuous⟩
  · have htracked := h.tracked path
    cases hsaved : r.saved hasher path with
    | none =>
      rw [hsaved] at htracked
      exact htracked
    | some e =>
      rw [hsaved] at htracked
      obtain ⟨id, start, hid, hstart, hdelivered⟩ := htracked
      obtain ⟨hid', hcontent⟩ := hgrow hid
      exact ⟨id, start, hid', hstart, hdelivered.grow hcontent⟩
  · obtain ⟨hevicted, id, hid, hfile, hbuf⟩ := h.opened ht
    exact ⟨hevicted, id, (hgrow hid).1, hfile, hbuf⟩

end Sound

-- == the start

namespace Sound

variable {window : Nat} {fs : FileSystem} {watched : List Path} {r : FileReader}

/-- Before anything was closed a path can be opened once more. -/
theorem openPath (hdistinct : fs.Distinct hasher)
    (h : Sound hasher window fs watched r.getOffset r []) (hempty : r.evictedOffsets = ∅)
    {path : Path} (hpath : path ∈ watched) {startFromEnd : Bool} {r' : FileReader}
    (hr : r.openFileAt host hasher now fs path startFromEnd = some r') :
    Sound hasher window fs watched r'.getOffset r' [] ∧ r'.evictedOffsets = ∅ := by
  obtain ⟨file, hopen, -⟩ := map_eq_some_iff.mp hr
  obtain ⟨id, hid, rfl⟩ := map_eq_some_iff.mp hopen
  have hnone : r.evictedOffsets[path]? = none := by
    rw [hempty, getElem?_empty]
  obtain ⟨t, ht, -, hfile, hbuf, hresumes⟩ :=
    h.openFileAt_of_none host now hdistinct hid hnone startFromEnd
  obtain rfl := some.inj (hr.symm.trans ht)
  have hopened := OpenedAs.insert hnone t
  have hoffset : ∀ q, getOffset { r with files := r.files.insert path t } q
      = if path = q then some t.offset else r.getOffset q := by
    intro q
    rw [getOffset, hopened.files]
    split
    next => rfl
    next => rfl
  refine ⟨?_, hempty⟩
  exact h.update hopened hoffset (fun _ _ => rfl)
    (fun _ hevent => absurd hevent not_mem_nil) (fun _ hq => hq) hpath hid hfile hbuf
    (.start hresumes rfl)

/-- The tailer when it is made. -/
theorem startReader (host : Host) (now : Nat) (hdistinct : fs.Distinct hasher)
    (config : TailConfig) (paths : List Path) :
    Sound hasher config.fingerprintBytes fs paths
      (startReader host hasher now fs config paths).getOffset
      (startReader host hasher now fs config paths) [] := by
  have hfold : ∀ (rest : List Path) (r : FileReader), (∀ path ∈ rest, path ∈ paths) →
      Sound hasher config.fingerprintBytes fs paths r.getOffset r [] → r.evictedOffsets = ∅ →
      let opened := rest.foldl (fun (r : FileReader) (path : Path) =>
        if fs.pathExists path then
          (r.openFileAt host hasher now fs path config.startFromEnd).getD r
        else r) r
      Sound hasher config.fingerprintBytes fs paths opened.getOffset opened [] := by
    intro rest
    induction rest with
    | nil => exact fun r _ h _ => h
    | cons path rest ih =>
      intro r hrest h hempty
      have hmore : ∀ q ∈ rest, q ∈ paths := fun q hq => hrest q (mem_cons_of_mem path hq)
      rw [foldl_cons]
      split
      next =>
        cases hopen : r.openFileAt host hasher now fs path config.startFromEnd with
        | none => exact ih r hmore h hempty
        | some r' =>
          obtain ⟨hsound, hempty'⟩ :=
            h.openPath hdistinct hempty (hrest path mem_cons_self) hopen
          exact ih r' hmore hsound hempty'
      next => exact ih r hmore h hempty
  refine hfold paths _ (fun _ hq => hq) ?_ rfl
  have hsaved : ∀ path, saved hasher
      { files := ∅, evictedOffsets := ∅, lastReadHadData := false, lastReadHitBudget := false
        config } path = none := by
    intro path
    exact getElem?_empty
  refine ⟨rfl, fun path => ?_, fun ht => ?_, fun hne => absurd (hsaved _) hne,
    fun _ hevent => absurd hevent not_mem_nil⟩
  · rw [hsaved]
    exact ⟨rfl, rfl⟩
  · rw [getElem?_empty] at ht
    cases ht

end Sound

-- == a run

/-- The tailer over a file system, with the events it has emitted. `first`
says where each file was first opened. -/
structure Tailing where
  fs : FileSystem
  discovery : FileDiscovery
  reader : FileReader
  events : List TailEvent
  first : Path → Option Nat

inductive Op
  | grow (fs : FileSystem)
  | detectChanges
  | readAll (perFileReadBudgetBytes : Nat)
  | evictLru (maxOpen : Nat)
  | rescanGlobs
  | cleanupDeleted

/-- An operation, at an instant. -/
structure Action where
  host : Host
  now : Nat
  op : Op

namespace Tailing

def start (host : Host) (hasher : Hasher) (now : Nat) (fs : FileSystem) (config : TailConfig)
    (globPatterns : List String) (paths : List Path) : Tailing :=
  let reader := startReader host hasher now fs config paths
  { fs, discovery := { globPatterns, watchPaths := paths }, reader, events := []
    first := reader.getOffset }

/-- After an operation. -/
def next (s : Tailing) (discovery : FileDiscovery) (reader : FileReader)
    (events : List TailEvent) : Tailing :=
  { s with
    discovery
    reader
    events := s.events ++ events
    first := recordFirst s.first reader }

def step (hasher : Hasher) (a : Action) (s : Tailing) : Option Tailing :=
  some <| match a.op with
    | .grow fs => { s with fs }
    | .detectChanges =>
      let (reader, events, _) := s.discovery.detectChanges a.host hasher a.now s.fs s.reader
      s.next s.discovery reader events
    | .readAll perFileReadBudgetBytes =>
      let config := { s.reader.config with perFileReadBudgetBytes }
      let (reader, events) := { s.reader with config }.readAll a.host hasher a.now s.fs
      s.next s.discovery reader events
    | .evictLru maxOpen => s.next s.discovery (s.reader.evictLru a.host hasher maxOpen) []
    | .rescanGlobs =>
      let (discovery, reader, _) := s.discovery.rescanGlobs a.host hasher a.now s.fs s.reader
      s.next discovery reader []
    | .cleanupDeleted =>
      let (discovery, reader, events) :=
        s.discovery.cleanupDeleted a.host hasher a.now s.fs s.reader
      s.next discovery reader events

/-- Files only grow. -/
def AppendOnly (hasher : Hasher) (s : Tailing) (a : Action) : Prop :=
  match a.op with
  | .grow fs => s.fs.GrowsTo fs ∧ fs.Distinct hasher
  | _ => True

/-- The offset of a file, open or closed. -/
def offset (s : Tailing) (path : Path) : Option Nat :=
  match s.reader.files[path]? with
  | some tailed => some tailed.offset
  | none => (s.reader.evictedOffsets[path]?).map (·.offset)

/-- Every file was delivered from where it was first opened up to its
offset, without gap or repetition, and under one source id. -/
structure Intact (s : Tailing) : Prop where
  unopened : ∀ path, s.first path = none → dataEvents path s.events = []
  delivered : ∀ path start, s.first path = some start →
    ∃ id offset, s.fs.lookup path = some id ∧ s.offset path = some offset
      ∧ start ≤ offset ∧ offset ≤ (s.fs.content id).length
      ∧ (dataEvents path s.events).flatMap (·.1)
          = ((s.fs.content id).drop start).take (offset - start)
  continuous : ∀ event ∈ s.events, event.isContinuous = true
  sourceId : ∀ path, ∃ sourceId, ∀ d ∈ dataEvents path s.events, d.2 = sourceId

def Invariant (hasher : Hasher) (window : Nat) (s : Tailing) : Prop :=
  s.fs.Distinct hasher
    ∧ Sound hasher window s.fs s.discovery.watchPaths s.first s.reader s.events

variable {window : Nat} {s s' : Tailing}

/-- The offset of a file is that of its record. -/
theorem offset_eq (hasher : Hasher) (s : Tailing) (path : Path) :
    s.offset path = (s.reader.saved hasher path).map (·.offset) := by
  rw [offset, saved]
  cases s.reader.files[path]? <;> rfl

theorem Invariant.intact (h : Invariant hasher window s) : s.Intact := by
  obtain ⟨-, hsound⟩ := h
  have hoffset := offset_eq hasher s
  refine ⟨fun path hnone => ?_, fun path start hsome => ?_, hsound.continuous, fun path => ?_⟩
  · have htracked := hsound.tracked path
    cases hsaved : s.reader.saved hasher path with
    | none =>
      rw [hsaved] at htracked
      exact htracked.2
    | some e =>
      rw [hsaved, hnone] at htracked
      obtain ⟨_, _, -, hstart, -⟩ := htracked
      cases hstart
  · have htracked := hsound.tracked path
    cases hsaved : s.reader.saved hasher path with
    | none =>
      rw [hsaved, hsome] at htracked
      cases htracked.1
    | some e =>
      rw [hsaved, hsome] at htracked
      obtain ⟨id, start', hid, hstart, hdelivered⟩ := htracked
      obtain rfl := some.inj hstart
      refine ⟨id, e.offset, hid, ?_, hdelivered.first_le, hdelivered.resumes.offset_le,
        hdelivered.bytes⟩
      rw [hoffset, hsaved, map_some]
  · have htracked := hsound.tracked path
    cases hsaved : s.reader.saved hasher path with
    | none =>
      rw [hsaved] at htracked
      refine ⟨none, fun d hd => ?_⟩
      rw [htracked.2] at hd
      exact absurd hd not_mem_nil
    | some e =>
      rw [hsaved] at htracked
      obtain ⟨id, start, -, -, hdelivered⟩ := htracked
      exact ⟨_, hdelivered.ids⟩

/-- Every operation keeps the records sound. -/
theorem Invariant.step {a : Action} (h : Invariant hasher window s)
    (hgrow : AppendOnly hasher s a) (hs : step hasher a s = some s') :
    Invariant hasher window s' := by
  obtain ⟨hdistinct, hsound⟩ := h
  obtain ⟨host, now, op⟩ := a
  obtain rfl := some.inj hs
  cases op with
  | grow fs => exact ⟨hgrow.2, hsound.grow hgrow.1⟩
  | detectChanges =>
    obtain ⟨r', hadError, hdetect, -, hsound'⟩ :=
      hsound.detectEach host now hdistinct (fun _ hq => hq)
    refine ⟨hdistinct, ?_⟩
    dsimp only
    rw [FileDiscovery.detectChanges, hdetect, next, append_nil]
    exact hsound'
  | readAll budget =>
    have hconfig : Sound hasher window s.fs s.discovery.watchPaths s.first { s.reader with
          config := { s.reader.config with perFileReadBudgetBytes := budget } } s.events :=
      ⟨hsound.fingerprintBytes, hsound.tracked, hsound.opened, hsound.mem_watched,
        hsound.continuous⟩
    have hread := hconfig.readAll host now hdistinct
    refine ⟨hdistinct, ?_⟩
    dsimp only [next]
    rw [hread.recordFirst_eq]
    exact hread
  | evictLru maxOpen =>
    have hevict := hsound.evictLru host maxOpen
    refine ⟨hdistinct, ?_⟩
    dsimp only [next]
    rw [hevict.recordFirst_eq, append_nil]
    exact hevict
  | rescanGlobs =>
    obtain ⟨d', r', hadError, hrescan, -, hsound'⟩ := hsound.rescanGlobs host now hdistinct
    refine ⟨hdistinct, ?_⟩
    dsimp only
    rw [hrescan, next, append_nil]
    exact hsound'
  | cleanupDeleted =>
    refine ⟨hdistinct, ?_⟩
    rw [FileDiscovery.cleanupDeleted, hsound.deletedPaths_eq_nil host]
    dsimp only [next, forEach]
    rw [hsound.recordFirst_eq, FileDiscovery.forgetDeletedWatchPaths]
    simpa using hsound

/-- **Tailing loses and repeats nothing.** In every run over files that
only grow, what was emitted for a file is its content from where it was
first opened up to its offset. -/
theorem loses_nothing (host : Host) (hasher : Hasher) (now : Nat) (fs : FileSystem)
    (config : TailConfig) (globPatterns : List String) (paths : List Path)
    (hfs : fs.Distinct hasher) (s : Tailing)
    (hs : ReachableWhen (step hasher) (AppendOnly hasher)
      (start host hasher now fs config globPatterns paths) s) : s.Intact := by
  have hstart : Invariant hasher config.fingerprintBytes
      (start host hasher now fs config globPatterns paths) :=
    ⟨hfs, .startReader host now hfs config paths⟩
  exact (hs.invariant hstart fun _ _ _ h hgrow happly => h.step hgrow happly).intact

/-- One file, with some content. -/
def oneFile (content : Bytes) : FileSystem where
  lookup path := if path = "log" then some ⟨1, 2⟩ else none
  content _ := content
  nlink _ := 1
  nlink_pos _ := Nat.one_pos

/-- Calls give what is asked for. -/
def plainHost : Host where
  bufferRoom _ _ := 8192
  bufferRoom_pos _ _ := by decide
  readLen _ _ want := want
  readLen_pos _ _ _ h := h
  readLen_le _ _ _ := Nat.le_refl _
  fileOrder files := files.keys
  fileOrder_perm _ := .refl _
  evictedOrder evicted := evicted.keys
  evictedOrder_perm _ := .refl _
  expandGlobPatterns _ _ := []
  expandGlobPatterns_nodup _ _ := nodup_nil

/-- A hash of the length alone. -/
def lengthHasher : Hasher where
  xxh64 bytes := bytes.length
  sourceDigest _ inode fingerprint _ := 100 * inode + fingerprint

theorem oneFile_distinct (content : Bytes) : (oneFile content).Distinct lengthHasher := by
  have hlookup : ∀ {path : Path} {id : FileId}, (oneFile content).lookup path = some id →
      path = "log" ∧ id = ⟨1, 2⟩ := by
    intro path id h
    have h : (if path = "log" then some (⟨1, 2⟩ : FileId) else none) = some id := h
    split at h
    next hpath => exact ⟨hpath, (some.inj h).symm⟩
    next => cases h
  refine ⟨fun h h' => (hlookup h).1.trans (hlookup h').1.symm, fun _ n hne => ?_,
    fun h h' hids => absurd ((hlookup h).2.trans (hlookup h').2.symm) hids⟩
  exact fun hzero => hne (length_eq_zero_iff.mp hzero)

theorem oneFile_growsTo (content more : Bytes) :
    (oneFile content).GrowsTo (oneFile (content ++ more)) :=
  fun h => ⟨h, prefix_append content more⟩

/-- A file that is empty at first, read by one byte, closed, and opened
again when it has grown. -/
theorem reopened_loses_nothing :
    ∃ s, ReachableWhen (step lengthHasher) (AppendOnly lengthHasher)
        (start plainHost lengthHasher 0 (oneFile []) ⟨250, 4, true, 1⟩ [] ["log"]) s
      ∧ dataEvents "log" s.events = [([0x61], some 202), ([0x62, 0x63], some 202)]
      ∧ s.Intact := by
  have h₀ : ReachableWhen (step lengthHasher) (AppendOnly lengthHasher)
      (start plainHost lengthHasher 0 (oneFile []) ⟨250, 4, true, 1⟩ [] ["log"]) _ := .init
  have h₁ := h₀.step ⟨plainHost, 0, .grow (oneFile [0x61, 0x62])⟩
    (by exact ⟨oneFile_growsTo [] _, oneFile_distinct _⟩) rfl
  have h₂ := h₁.step ⟨plainHost, 0, .readAll 1⟩ (by exact trivial) rfl
  have h₃ := h₂.step ⟨plainHost, 0, .evictLru 0⟩ (by exact trivial) rfl
  have h₄ := h₃.step ⟨plainHost, 0, .grow (oneFile [0x61, 0x62, 0x63])⟩
    (by exact ⟨oneFile_growsTo [0x61, 0x62] _, oneFile_distinct _⟩) rfl
  have h₅ := h₄.step ⟨plainHost, 0, .detectChanges⟩ (by exact trivial) rfl
  have h₆ := h₅.step ⟨plainHost, 0, .readAll 8⟩ (by exact trivial) rfl
  exact ⟨_, h₆, by decide +kernel,
    loses_nothing plainHost lengthHasher 0 (oneFile []) ⟨250, 4, true, 1⟩ [] ["log"]
      (oneFile_distinct []) _ h₆⟩

end Tailing

end FastForward.Io.Tail
