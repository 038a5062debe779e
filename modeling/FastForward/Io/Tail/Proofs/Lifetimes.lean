/-
Nothing is lost across restarts.

A tailer that reads new files from their start has, however often it was
restarted, emitted every byte before its offset, in this process or in an
earlier one (`History.restarts_lose_nothing`). Two facts carry this
through a run. The bytes in front of where a process has first opened a
file were emitted before (`Invariant.before`), and so were the bytes in
front of a checkpoint (`Invariant.checkpointed`): it is saved at an offset
that the process has reached, and a restarted process opens a file at its
checkpoint or at its start.

Bytes may be emitted twice: those between the last checkpoint and where a
process had come to, and all of a file that a restart takes for another.
-/
import FastForward.Io.Tail.Proofs.Restart

namespace FastForward.Io.Tail

open Core Lib Pipeline List FileReader Option

variable {hasher : Hasher}

-- == configuration

namespace FileReader

variable (host : Host) (now : Nat) (fs : FileSystem) (r : FileReader)

theorem config_mapEofState (path : Path) (f : EofState → EofState) :
    (r.mapEofState path f).config = r.config := by
  rw [mapEofState]
  split <;> rfl

theorem config_readNewData (path : Path) :
    (r.readNewData host hasher now fs path).2.config = r.config := by
  rw [readNewData]
  split <;> rfl

/-- Reading does not touch the configuration. -/
theorem config_readPath (eofMinIdle budget : Nat) (path : Path) :
    (r.readPath host hasher now fs eofMinIdle budget path).1.config = r.config := by
  have hread : (r.readNewData host hasher now fs path).2.config = r.config :=
    config_readNewData host now fs r path
  rw [readPath]
  generalize r.readNewData host hasher now fs path = result at hread
  obtain ⟨result, r'⟩ := result
  cases result with
  | data bytes => exact (config_mapEofState _ _ _).trans hread
  | truncatedThenData bytes => exact (config_mapEofState _ _ _).trans hread
  | truncated => exact (config_mapEofState _ _ _).trans hread
  | noData =>
    dsimp only
    split
    next => exact (config_mapEofState _ _ _).trans hread
    next => exact hread

theorem config_forEach {step : FileReader → Path → FileReader × List TailEvent}
    (h : ∀ r path, (step r path).1.config = r.config) (paths : List Path) :
    (forEach step r paths).1.config = r.config := by
  induction paths generalizing r with
  | nil => rfl
  | cons path paths ih => exact (ih _).trans (h r path)

theorem config_evictLru (maxOpen : Nat) : (r.evictLru host hasher maxOpen).config = r.config := by
  have hevict : ∀ (paths : List Path) (r : FileReader),
      (paths.foldl (evict hasher) r).config = r.config := by
    intro paths
    induction paths with
    | nil => exact fun _ => rfl
    | cons path paths ih =>
      intro r
      refine (ih _).trans ?_
      rw [evict]
      split <;> rfl
  rw [evictLru]
  split
  next => exact hevict _ r
  next => rfl

end FileReader

-- == where files are first opened

/-- A file that has no record is opened at its start. -/
theorem Sound.recordFirst_cases {window : Nat} {fs : FileSystem} {watched : List Path}
    {first : Path → Option Nat} {r r' : FileReader} {events : List TailEvent}
    (h : Sound hasher window fs watched first r events) (hkeeps : r.Keeps r')
    (hstart : r.config.startFromEnd = false) (path : Path) :
    recordFirst first r' path = first path ∨ recordFirst first r' path = some 0 := by
  cases hfirst : first path with
  | some start => exact .inl (by rw [recordFirst, hfirst]; rfl)
  | none =>
    rw [recordFirst, hfirst, none_or]
    cases ht : r'.files[path]? with
    | none => exact .inl (by rw [getOffset, ht]; rfl)
    | some t =>
      have hunsaved : r.saved hasher path = none := by
        have htracked := h.tracked path
        cases hsaved : r.saved hasher path with
        | none => rfl
        | some e =>
          rw [hsaved, hfirst] at htracked
          obtain ⟨_, _, -, hsome, -⟩ := htracked
          cases hsome
      have hclosed : r.files[path]? = none := by
        cases hopen : r.files[path]? with
        | none => rfl
        | some u => cases (saved_of_open hopen).symm.trans hunsaved
      rw [saved_of_closed hclosed] at hunsaved
      exact .inr (by rw [getOffset, ht, map_some, hkeeps.begins path t hclosed hunsaved ht hstart])

namespace Tailing

variable {window : Nat} {s s' : Tailing} {a : Action}

/-- A file that is tracked in a step begins at its start. -/
theorem Invariant.step_begins (h : Invariant hasher window s)
    (hstart : s.reader.config.startFromEnd = false) (hs : Tailing.step hasher a s = some s') :
    s'.reader.config.startFromEnd = false
      ∧ ∀ path, s'.first path = s.first path ∨ s'.first path = some 0 := by
  obtain ⟨hdistinct, hsound⟩ := h
  obtain ⟨host, now, op⟩ := a
  obtain rfl := some.inj hs
  cases op with
  | grow fs => exact ⟨hstart, fun _ => .inl rfl⟩
  | detectChanges =>
    obtain ⟨r', hadError, hdetect, hkeeps, -⟩ :=
      hsound.detectEach host now hdistinct fun _ hq => hq
    dsimp only
    rw [FileDiscovery.detectChanges, hdetect]
    exact ⟨by rw [next, hkeeps.config, hstart], hsound.recordFirst_cases hkeeps hstart⟩
  | readAll budget =>
    have hconfig : Sound hasher window s.fs s.discovery.watchPaths s.first { s.reader with
          config := { s.reader.config with perFileReadBudgetBytes := budget } } s.events :=
      ⟨hsound.fingerprintBytes, hsound.tracked, hsound.opened, hsound.mem_watched,
        hsound.continuous⟩
    have hread := (hconfig.readAll host now hdistinct).recordFirst_eq
    refine ⟨?_, fun path => .inl (congrFun hread path)⟩
    dsimp only [next]
    rw [readAll, config_forEach _ fun r path => config_readPath host now s.fs r _ _ path]
    exact hstart
  | evictLru maxOpen =>
    have hevict := (hsound.evictLru host maxOpen).recordFirst_eq
    refine ⟨?_, fun path => .inl (congrFun hevict path)⟩
    dsimp only [next]
    rw [config_evictLru]
    exact hstart
  | rescanGlobs =>
    obtain ⟨d', r', hadError, hrescan, hkeeps, -⟩ := hsound.rescanGlobs host now hdistinct
    dsimp only
    rw [hrescan]
    exact ⟨by rw [next, hkeeps.config, hstart], hsound.recordFirst_cases hkeeps hstart⟩
  | cleanupDeleted =>
    dsimp only
    rw [FileDiscovery.cleanupDeleted, hsound.deletedPaths_eq_nil host]
    exact ⟨hstart, fun path => .inl (congrFun hsound.recordFirst_eq path)⟩

/-- A process goes on: what it has emitted is there, at its positions. -/
structure Extends (s s' : Tailing) : Prop where
  first : ∀ path start, s.first path = some start → s'.first path = some start
  events : s.events <+: s'.events

/-- A step adds to what was emitted. -/
theorem step_extends (hs : step hasher a s = some s') : s.Extends s' := by
  obtain ⟨host, now, op⟩ := a
  obtain rfl := some.inj hs
  have hnext : ∀ discovery reader events, s.Extends (s.next discovery reader events) :=
    fun _ _ events => ⟨fun path start hfirst => by
        show (s.first path).or _ = _
        rw [hfirst]
        rfl,
      prefix_append s.events events⟩
  cases op with
  | grow fs => exact ⟨fun _ _ hfirst => hfirst, prefix_rfl⟩
  | _ => exact hnext _ _ _

variable {fs fs' : FileSystem} {path : Path} {pos : Nat}

/-- What was emitted stays so as files grow. -/
theorem EmittedAt.mono (h : s.EmittedAt fs path pos) (hextends : s.Extends s')
    (hgrow : fs.GrowsTo fs') : s'.EmittedAt fs' path pos := by
  obtain ⟨id, start, byte, hid, hfirst, hle, hemitted, hcontent⟩ := h
  obtain ⟨hid', more, hmore⟩ := hgrow hid
  obtain ⟨later, hlater⟩ := hextends.events
  refine ⟨id, start, byte, hid', hextends.first path start hfirst, hle, ?_, ?_⟩
  · rw [emitted, ← hlater, dataEvents_append, flatMap_append, ← emitted]
    rwa [getElem?_append_left (List.getElem?_eq_some_iff.mp hemitted).1]
  · rwa [← hmore, getElem?_append_left (List.getElem?_eq_some_iff.mp hcontent).1]

/-- A process has emitted a file from where it has opened it. -/
theorem Intact.emittedAt (h : s.Intact) {start offset : Nat} (hfirst : s.first path = some start)
    (hoffset : s.offset path = some offset) (hle : start ≤ pos) (hlt : pos < offset) :
    s.EmittedAt s.fs path pos := by
  obtain ⟨id, offset', hid, hoffset', -, hlen, hemitted⟩ := h.delivered path start hfirst
  obtain rfl := some.inj (hoffset.symm.trans hoffset')
  have hbyte : (s.fs.content id)[pos]? = some (s.fs.content id)[pos] :=
    getElem?_eq_getElem (by omega)
  refine ⟨id, start, _, hid, hfirst, hle, ?_, hbyte⟩
  rw [emitted, hemitted, getElem?_take_of_lt (by omega), getElem?_drop,
    Nat.add_sub_cancel' hle]
  exact hbyte

/-- A file with an offset began somewhere. -/
theorem Invariant.first_isSome (h : Invariant hasher window s) {offset : Nat}
    (hoffset : s.offset path = some offset) : ∃ start, s.first path = some start := by
  obtain ⟨e, hsaved, -⟩ := map_eq_some_iff.mp (offset_eq hasher s path ▸ hoffset)
  have htracked := h.2.tracked path
  rw [hsaved] at htracked
  obtain ⟨_, start, -, hfirst, -⟩ := htracked
  exact ⟨start, hfirst⟩

end Tailing

-- == histories

namespace History

/-- The source id is one that the file has had, and the bytes in front of
the offset were emitted. -/
def Checkpointed (hasher : Hasher) (h : History) (sourceId : SourceId) (offset : Nat) : Prop :=
  ∃ path id n, h.life.tailing.fs.lookup path = some id
    ∧ n ≤ (h.life.tailing.fs.content id).length
    ∧ sourceId = (h.life.tailing.fs.identity hasher n id).sourceId hasher
    ∧ ∀ pos < offset, h.Emitted path pos

/-- What the processes of a history have in common. -/
structure Invariant (hasher : Hasher) (window : Nat) (h : History) : Prop where
  life : Lifetime.Invariant hasher window h.life
  fromStart : h.life.tailing.reader.config.startFromEnd = false
  past_intact : ∀ s ∈ h.past, s.Intact
  before : ∀ path start, h.life.tailing.first path = some start →
    ∀ pos < start, h.Emitted path pos
  checkpointed : ∀ (sourceId : SourceId) (offset : Nat),
    h.life.checkpoints[sourceId]? = some offset → h.Checkpointed hasher sourceId offset

variable {window : Nat} {h h' : History}

/-- Processes go on or are over, and files grow. -/
structure Continues (h h' : History) : Prop where
  processes : ∀ s ∈ h.processes, ∃ s' ∈ h'.processes, s.Extends s'
  growsTo : h.life.tailing.fs.GrowsTo h'.life.tailing.fs

/-- Later steps take back nothing that was emitted. -/
theorem Emitted.mono {path : Path} {pos : Nat} (hemitted : h.Emitted path pos)
    (hcontinues : h.Continues h') : h'.Emitted path pos := by
  obtain ⟨s, hs, hat⟩ := hemitted
  obtain ⟨s', hs', hextends⟩ := hcontinues.processes s hs
  exact ⟨s', hs', hat.mono hextends hcontinues.growsTo⟩

/-- Nor a checkpoint that was saved. -/
theorem Checkpointed.mono {sourceId : SourceId} {offset : Nat}
    (hcp : h.Checkpointed hasher sourceId offset) (hcontinues : h.Continues h') :
    h'.Checkpointed hasher sourceId offset := by
  obtain ⟨path, id, n, hid, hn, hsource, hemitted⟩ := hcp
  obtain ⟨hid', hcontent⟩ := hcontinues.growsTo hid
  refine ⟨path, id, n, hid', Nat.le_trans hn hcontent.length_le, ?_, fun pos hpos =>
    (hemitted pos hpos).mono hcontinues⟩
  rw [hsource, FileSystem.identity, FileSystem.identity, computeFingerprint_of_isPrefix hcontent hn]

namespace Invariant

variable (hinv : Invariant hasher window h)

include hinv

theorem tailing : Tailing.Invariant hasher window h.life.tailing :=
  ⟨hinv.life.distinct, hinv.life.sound⟩

theorem intact : ∀ s ∈ h.processes, s.Intact := by
  intro s hs
  rcases mem_append.mp hs with hs | hs
  · exact hinv.past_intact s hs
  · rw [mem_singleton.mp hs]
    exact hinv.tailing.intact

/-- Every byte in front of the offset of a file. -/
theorem emitted {path : Path} {offset : Nat} (hoffset : h.life.tailing.offset path = some offset)
    {pos : Nat} (hpos : pos < offset) : h.Emitted path pos := by
  obtain ⟨start, hfirst⟩ := hinv.tailing.first_isSome hoffset
  rcases Nat.lt_or_ge pos start with hlt | hge
  · exact hinv.before path start hfirst pos hlt
  · exact ⟨_, mem_append_right _ mem_cons_self,
      hinv.tailing.intact.emittedAt hfirst hoffset hge hpos⟩

/-- A step of the running process. -/
theorem tail {a : Action} (hgrow : Tailing.AppendOnly hasher h.life.tailing a) {s : Tailing}
    (hs : Tailing.step hasher a h.life.tailing = some s) :
    Invariant hasher window { h with life := { h.life with tailing := s } } := by
  obtain ⟨hstart, hfirst⟩ := hinv.tailing.step_begins hinv.fromStart hs
  have hcontinues : h.Continues { h with life := { h.life with tailing := s } } := by
    refine ⟨fun p hp => ?_, Tailing.step_growsTo hgrow hs⟩
    rcases mem_append.mp hp with hp | hp
    · exact ⟨p, mem_append_left _ hp, fun _ _ hq => hq, prefix_rfl⟩
    · rw [mem_singleton.mp hp]
      exact ⟨s, mem_append_right _ mem_cons_self, Tailing.step_extends hs⟩
  have hstep : Lifetime.step hasher (.tail a) h.life = some { h.life with tailing := s } := by
    rw [Lifetime.step, hs]
    rfl
  have hallowed : Lifetime.AppendOnly hasher h.life (.tail a) := hgrow
  refine ⟨hinv.life.step hallowed hstep, hstart, hinv.past_intact,
    fun path start hsome pos hpos => ?_, fun sourceId offset hcp =>
      (hinv.checkpointed sourceId offset hcp).mono hcontinues⟩
  rcases hfirst path with hsame | hzero
  · exact (hinv.before path start (hsame ▸ hsome) pos hpos).mono hcontinues
  · cases hzero.symm.trans hsome
    omega

/-- A checkpoint is saved. -/
theorem save {host : Host} {sourceId : SourceId} {offset : Nat} {life : Lifetime}
    (hlife : h.life.save host hasher sourceId offset = some life) :
    Invariant hasher window { h with life } := by
  have hallowed : Lifetime.AppendOnly hasher h.life (.save host sourceId offset) := trivial
  have hstep := hinv.life.step hallowed hlife
  rw [Lifetime.save] at hlife
  split at hlife
  next hany =>
    obtain rfl := some.inj hlife
    refine ⟨hstep, hinv.fromStart, hinv.past_intact, hinv.before, fun other kept hcp => ?_⟩
    rw [BTreeMap.getElem?_insert_eq] at hcp
    split at hcp
    next heq =>
      cases hcp
      subst heq
      obtain ⟨⟨reported, reached⟩, hmem, hmatch⟩ := any_eq_true.mp hany
      obtain ⟨rfl, hle⟩ : reported = sourceId ∧ offset ≤ reached := by simpa using hmatch
      obtain ⟨-, path, id, n, hid, hn, hsource, -, hoffset⟩ := hinv.life.reported hmem
      exact ⟨path, id, n, hid, hn, hsource, fun pos hpos =>
        hinv.emitted hoffset (Nat.lt_of_lt_of_le hpos hle)⟩
    next => exact hinv.checkpointed other kept hcp
  next => cases hlife

/-- A restarted process opens a file at its checkpoint, or at its start. -/
theorem restart (host : Host) (now : Nat) {fs : FileSystem}
    (hgrow : h.life.tailing.fs.GrowsTo fs) (hdistinct : fs.Distinct hasher)
    (paths : List Path) :
    Invariant hasher window
      { past := h.past ++ [h.life.tailing], life := h.life.restart host hasher now fs paths } := by
  have hfit := hinv.life.fits.grow hgrow
  obtain ⟨-, hconfig, hfiles⟩ :=
    rebuild_files host now hdistinct hfit h.life.tailing.reader.config paths
  have hcontinues : h.Continues
      { past := h.past ++ [h.life.tailing], life := h.life.restart host hasher now fs paths } :=
    ⟨fun s hs => ⟨s, mem_append_left _ hs, fun _ _ hq => hq, prefix_rfl⟩, hgrow⟩
  refine ⟨hinv.life.restart host now hgrow hdistinct paths, ?_, hinv.intact,
    fun path start hsome pos hpos => ?_, fun sourceId offset hcp =>
      (hinv.checkpointed sourceId offset hcp).mono hcontinues⟩
  · exact (congrArg TailConfig.startFromEnd hconfig).trans hinv.fromStart
  · obtain ⟨t, ht, rfl⟩ := map_eq_some_iff.mp hsome
    have hopen := (hfiles path).symm.trans ht
    split at hopen
    case isFalse => cases hopen
    obtain ⟨id, hid, rfl⟩ := map_eq_some_iff.mp hopen
    obtain ⟨-, -, hoffset, -⟩ :=
      restoreFrom_freshFile now h.life.tailing.reader.config hdistinct hfit hid
    rw [hoffset, resumeOffset] at hpos
    cases hcp : h.life.checkpoints[(fs.identity hasher
        h.life.tailing.reader.config.fingerprintBytes id).sourceId hasher]? with
    | none =>
      rw [hcp, TailConfig.startOffset, hinv.fromStart] at hpos
      exact absurd hpos (Nat.not_lt_zero pos)
    | some offset =>
      rw [hcp] at hpos
      obtain ⟨path', id', n, hid', -, hsource, hemitted⟩ :=
        (hinv.checkpointed _ offset hcp).mono hcontinues
      -- source ids tell files apart, and a file has one path
      have hids : id = id' := by
        by_contra hne
        exact (hfit _ _ hcp).1 (hdistinct.sourceIds hid hid' hne _ n hsource)
      subst hids
      rw [hdistinct.inodes hid hid']
      exact hemitted pos hpos

omit hinv

/-- Every step of a history keeps the invariant. -/
theorem step {op : Lifetime.Op} (hinv : Invariant hasher window h)
    (hgrow : h.AppendOnly hasher op) (hh : History.step hasher op h = some h') :
    Invariant hasher window h' := by
  obtain ⟨life, hlife, rfl⟩ := map_eq_some_iff.mp hh
  cases op with
  | tail a =>
    rw [Lifetime.step] at hlife
    obtain ⟨s, hs, rfl⟩ := map_eq_some_iff.mp hlife
    exact hinv.tail hgrow hs
  | save host sourceId offset => exact hinv.save hlife
  | restart host now fs paths =>
    obtain rfl := some.inj hlife
    exact hinv.restart host now hgrow.1 hgrow.2 paths

end Invariant

/-- **Nothing is lost across restarts.** Every process delivers its files
without gap or repetition, and every byte in front of the offset of a file
was emitted by the process that runs or by one before it. -/
theorem restarts_lose_nothing (host : Host) (hasher : Hasher) (now : Nat) (fs : FileSystem)
    (config : TailConfig) (globPatterns : List String) (paths : List Path)
    (hfs : fs.Distinct hasher) (hstart : config.startFromEnd = false) (h : History)
    (hh : ReachableWhen (History.step hasher) (AppendOnly hasher)
      (start host hasher now fs config globPatterns paths) h) :
    (∀ s ∈ h.processes, s.Intact)
      ∧ ∀ path offset, h.life.tailing.offset path = some offset →
        ∀ pos < offset, h.Emitted path pos := by
  have hfresh := startReader_freshOver host hasher now fs config paths
  have hinit : Invariant hasher config.fingerprintBytes
      (start host hasher now fs config globPatterns paths) := by
    refine ⟨Lifetime.Invariant.of_reachable hfs .init, ?_, fun _ hs => absurd hs not_mem_nil,
      fun path first hfirst pos hpos => ?_, fun sourceId offset hcp => by cases hcp⟩
    · exact (congrArg TailConfig.startFromEnd hfresh.sameConfig).trans hstart
    · obtain ⟨t, ht, rfl⟩ := map_eq_some_iff.mp hfirst
      have hopen := (hfresh.files path).symm.trans ht
      split at hopen
      case isFalse => cases hopen
      obtain ⟨id, -, rfl⟩ := map_eq_some_iff.mp hopen
      have hzero : config.startOffset (fs.content id) = 0 := by
        rw [TailConfig.startOffset, hstart]
        rfl
      exact absurd (Nat.lt_of_lt_of_eq hpos hzero) (Nat.not_lt_zero pos)
  have hinv := hh.invariant hinit fun _ _ _ hinv hgrow hstep => hinv.step hgrow hstep
  exact ⟨hinv.intact, fun path offset hoffset pos hpos => hinv.emitted hoffset hpos⟩

/-- A checkpoint of what was reached is taken. -/
theorem step_save {host : Host} {sourceId : SourceId} {offset : Nat}
    (hany : (h.life.tailing.reader.fileOffsets host hasher).any (fun reached =>
      reached.1 == sourceId && decide (offset ≤ reached.2)) = true) :
    History.step hasher (.save host sourceId offset) h
      = some { h with
          life := { h.life with checkpoints := h.life.checkpoints.insert sourceId offset } } := by
  rw [History.step, Lifetime.step_save hany]
  rfl

open Tailing in
/-- Two bytes are read and the first is checkpointed. The file gets a third
byte, and the restarted tailer emits the second again, and the third. -/
theorem second_process_reads_on :
    ∃ h, ReachableWhen (History.step lengthHasher) (AppendOnly lengthHasher)
        (start plainHost lengthHasher 0 (oneFile [0x61, 0x0A]) ⟨250, 2, false, 64⟩ [] ["log"]) h
      ∧ h.past.map (·.emitted "log") = [[0x61, 0x0A]]
      ∧ h.life.tailing.emitted "log" = [0x0A, 0x62]
      ∧ (∀ s ∈ h.processes, s.Intact) ∧ ∀ pos < 3, h.Emitted "log" pos := by
  have h₀ : ReachableWhen (History.step lengthHasher) (AppendOnly lengthHasher)
      (start plainHost lengthHasher 0 (oneFile [0x61, 0x0A]) ⟨250, 2, false, 64⟩ [] ["log"]) _ :=
    .init
  have h₁ := h₀.step (.tail ⟨plainHost, 0, .readAll 64⟩) (by exact trivial) rfl
  have h₂ := h₁.step (.save plainHost 202 1) (by exact trivial) (step_save (by decide +kernel))
  have h₃ := h₂.step (.restart plainHost 0 (oneFile [0x61, 0x0A, 0x62]) ["log"])
    (by exact ⟨oneFile_growsTo [0x61, 0x0A] [0x62], oneFile_distinct _⟩) rfl
  have h₄ := h₃.step (.tail ⟨plainHost, 0, .readAll 64⟩) (by exact trivial) rfl
  obtain ⟨hintact, hemitted⟩ := restarts_lose_nothing plainHost lengthHasher 0
    (oneFile [0x61, 0x0A]) ⟨250, 2, false, 64⟩ [] ["log"] (oneFile_distinct _) rfl _ h₄
  exact ⟨_, h₄, by decide +kernel, by decide +kernel, hintact,
    hemitted "log" 3 (by decide +kernel)⟩

end History

end FastForward.Io.Tail
