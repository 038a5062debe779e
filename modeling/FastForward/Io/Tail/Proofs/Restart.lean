/-
What a restart continues.

A tailer that is built has one fresh record for each file it finds, and a
checkpoint changes the offset of the one file whose source id it has. So
a restarted tailer is a tailer of files that only grow like any other
(`Lifetime.Invariant.restart`).

Between processes it is the source id that matters. It is made of the
file's first bytes as they were when the file was recognised, and a
restart recognises the file anew. A file that was shorter than the
fingerprint then, and has grown since, is another source after the
restart, and is read from where new files are read
(`Lifetime.continuesAt_iff`).
-/
import FastForward.Io.Tail.Restart

namespace FastForward.Io.Tail

open Core Lib Pipeline List Option Std.ExtTreeMap

variable {host : Host} {hasher : Hasher} {now : Nat}

-- == fresh files

/-- The identity a file is given when it is opened. -/
def FileSystem.identity (hasher : Hasher) (fs : FileSystem) (window : Nat) (id : FileId) :
    FileIdentity :=
  ⟨id.device, id.inode, computeFingerprint hasher (fs.content id) window⟩

/-- Where a file is read from that is not known. -/
def TailConfig.startOffset (config : TailConfig) (content : Bytes) : Nat :=
  if config.startFromEnd then content.length else 0

/-- A file as a new tailer opens it. -/
def freshFile (hasher : Hasher) (now : Nat) (fs : FileSystem) (config : TailConfig)
    (id : FileId) : Active :=
  let identity := fs.identity hasher config.fingerprintBytes id
  FileReader.openFresh now ⟨id, 0⟩ identity
    (observedFingerprintLen identity.fingerprint (fs.content id).length config.fingerprintBytes)
    (config.startOffset (fs.content id))

variable {r : FileReader}

/-- Without records a file is opened fresh. -/
theorem openFileAt_of_empty (host : Host) (now : Nat) {fs : FileSystem}
    (hempty : r.evictedOffsets = ∅) {path : Path} {id : FileId}
    (hid : fs.lookup path = some id) :
    r.openFileAt host hasher now fs path r.config.startFromEnd
      = some { r with files := r.files.insert path (freshFile hasher now fs r.config id) } := by
  have hnone : r.evictedOffsets[path]? = none := by
    rw [hempty, getElem?_empty]
  have horder : host.evictedOrder r.evictedOffsets = [] := by
    have hperm := host.evictedOrder_perm r.evictedOffsets
    rw [keys_eq_nil_iff.mpr hempty] at hperm
    exact hperm.eq_nil
  have htake : ∀ sourceId, r.takeEvicted host path sourceId = (none, r) := by
    intro sourceId
    rw [FileReader.takeEvicted, hnone]
    dsimp only
    rw [horder]
    split
    next => rfl
    next => rfl
  rw [FileReader.openFileAt, FileSystem.openFile, hid, map_some, map_some]
  dsimp only
  rw [htake]
  rfl

/-- A reader without closed files has the files of some paths, all fresh. -/
structure FreshOver (hasher : Hasher) (now : Nat) (fs : FileSystem) (config : TailConfig)
    (paths : List Path) (r : FileReader) : Prop where
  evicted : r.evictedOffsets = ∅
  sameConfig : r.config = config
  files : ∀ path, r.files[path]?
    = if path ∈ paths then (fs.lookup path).map (freshFile hasher now fs config) else none

theorem FreshOver.openPath {fs : FileSystem} {config : TailConfig} {paths : List Path}
    (h : FreshOver hasher now fs config paths r) (host : Host) (path : Path) :
    FreshOver hasher now fs config (paths ++ [path])
      (if fs.pathExists path then
        (r.openFileAt host hasher now fs path config.startFromEnd).getD r
      else r) := by
  obtain ⟨hevicted, rfl, hfiles⟩ := h
  have hmem : ∀ q, path ≠ q → (q ∈ paths ++ [path] ↔ q ∈ paths) := by
    intro q hq
    rw [mem_append, mem_singleton]
    exact or_iff_left (Ne.symm hq)
  rw [FileSystem.pathExists]
  cases hid : fs.lookup path with
  | none =>
    refine ⟨hevicted, rfl, fun q => (hfiles q).trans ?_⟩
    by_cases hq : path = q
    · subst hq
      rw [hid, map_none, ite_self, ite_self]
    · simp only [hmem q hq]
  | some id =>
    rw [if_pos (by rfl), openFileAt_of_empty host now hevicted hid, getD_some]
    refine ⟨hevicted, rfl, fun q => ?_⟩
    rw [BTreeMap.getElem?_insert_eq]
    by_cases hq : path = q
    · subst hq
      rw [if_pos rfl, if_pos (mem_append_right _ (mem_singleton.mpr rfl)), hid, map_some]
    · rw [if_neg hq, hfiles]
      simp only [hmem q hq]

/-- A new tailer has a fresh record for each of its files. -/
theorem startReader_freshOver (host : Host) (hasher : Hasher) (now : Nat) (fs : FileSystem)
    (config : TailConfig) (paths : List Path) :
    FreshOver hasher now fs config paths (startReader host hasher now fs config paths) := by
  have hfold : ∀ (rest opened : List Path) (r : FileReader),
      FreshOver hasher now fs config opened r →
      FreshOver hasher now fs config (opened ++ rest)
        (rest.foldl (fun (r : FileReader) (path : Path) =>
          if fs.pathExists path then
            (r.openFileAt host hasher now fs path config.startFromEnd).getD r
          else r) r) := by
    intro rest
    induction rest with
    | nil =>
      intro opened r h
      rw [append_nil]
      exact h
    | cons path rest ih =>
      intro opened r h
      rw [append_cons]
      exact ih _ _ (h.openPath host path)
  refine hfold paths [] _ ⟨rfl, rfl, fun path => ?_⟩
  rw [getElem?_empty, if_neg not_mem_nil]

-- == checkpoints

theorem Active.restore_of_le {fs : FileSystem} {t : Active} {offset : Nat}
    (h : offset ≤ fs.size t.file) :
    t.restore fs offset = { t with offset, file := { t.file with cursor := offset } } := by
  simp only [restore, Nat.not_lt.mpr h, if_false]

/-- A file continued at a checkpoint, if there is one for it. -/
def Active.restoreFrom (hasher : Hasher) (fs : FileSystem) (checkpoints : Checkpoints)
    (t : Active) : Active :=
  (checkpoints[t.identity.sourceId hasher]?).elim t (t.restore fs)

/-- Open files have different source ids. -/
def FileReader.SourcesDiffer (hasher : Hasher) (r : FileReader) : Prop :=
  ∀ {path path' : Path} {t t' : Active}, r.files[path]? = some t → r.files[path']? = some t' →
    t.identity.sourceId hasher = t'.identity.sourceId hasher → t.identity.sourceId hasher ≠ 0 →
    path = path'

/-- A checkpoint continues the file whose source id it has. -/
theorem setOffsetBySource_files (host : Host) (fs : FileSystem)
    (hempty : r.evictedOffsets = ∅) (hdiffer : r.SourcesDiffer hasher) {sourceId : SourceId}
    (hsource : sourceId ≠ 0) (offset : Nat) :
    let r' := r.setOffsetBySource host hasher fs sourceId offset
    r'.evictedOffsets = ∅ ∧ r'.config = r.config
      ∧ ∀ path : Path, r'.files[path]? = (r.files[path]?).map fun (t : Active) =>
          if t.identity.sourceId hasher = sourceId then t.restore fs offset else t := by
  intro r'
  have hmem : ∀ path t, r.files[path]? = some t → path ∈ host.fileOrder r.files := by
    intro path t ht
    rw [(host.fileOrder_perm r.files).mem_iff, Std.ExtTreeMap.mem_keys,
      BTreeMap.mem_iff_exists_getElem?]
    exact ⟨t, ht⟩
  have horder : host.evictedOrder r.evictedOffsets = [] := by
    have hperm := host.evictedOrder_perm r.evictedOffsets
    rw [keys_eq_nil_iff.mpr hempty] at hperm
    exact hperm.eq_nil
  have hr' : r' = r.setOffsetBySource host hasher fs sourceId offset := rfl
  rw [FileReader.setOffsetBySource, if_neg hsource] at hr'
  dsimp only at hr'
  split at hr'
  next found hfound =>
    have hany := find?_some hfound
    obtain ⟨t, ht, hid⟩ := (any_eq_true _ _).mp hany
    have hid : t.identity.sourceId hasher = sourceId := eq_of_beq hid
    rw [ht] at hr'
    rw [hr']
    refine ⟨hempty, rfl, fun path => ?_⟩
    rw [BTreeMap.getElem?_insert_eq]
    by_cases hpath : found = path
    · subst hpath
      rw [if_pos rfl, ht, map_some, if_pos hid]
    · rw [if_neg hpath]
      cases hu : r.files[path]? with
      | none => rfl
      | some u =>
        have hne : u.identity.sourceId hasher ≠ sourceId := fun h =>
          hpath (hdiffer ht hu (hid.trans h.symm) (by rw [hid]; exact hsource))
        rw [map_some, if_neg hne]
  next hnone =>
    rw [horder] at hr'
    dsimp only [find?] at hr'
    rw [hr']
    refine ⟨hempty, rfl, fun path => ?_⟩
    cases ht : r.files[path]? with
    | none => rfl
    | some t =>
      have hne := find?_eq_none.mp hnone path (hmem path t ht)
      rw [ht] at hne
      rw [map_some, if_neg fun h => hne (beq_iff_eq.mpr h)]

/-- Source ids are not changed by a checkpoint. -/
theorem FileReader.SourcesDiffer.restored {r' : FileReader} (h : r.SourcesDiffer hasher)
    {restore : Active → Active} (hrestore : ∀ t, (restore t).identity = t.identity)
    (hfiles : ∀ path : Path, r'.files[path]? = (r.files[path]?).map restore) :
    r'.SourcesDiffer hasher := by
  intro path path' t t' ht ht' hsame hne
  rw [hfiles] at ht ht'
  obtain ⟨u, hu, rfl⟩ := map_eq_some_iff.mp ht
  obtain ⟨u', hu', rfl⟩ := map_eq_some_iff.mp ht'
  rw [hrestore] at hsame hne
  rw [hrestore] at hsame
  exact h hu hu' hsame hne

/-- Checkpoints continue the files whose source ids they have. -/
theorem restoreOffsets_files (host : Host) (fs : FileSystem) {saved : List (SourceId × Nat)}
    (hkeys : saved.Pairwise fun cp cp' => cp.1 ≠ cp'.1) (hne : ∀ cp ∈ saved, cp.1 ≠ 0)
    (hempty : r.evictedOffsets = ∅) (hdiffer : r.SourcesDiffer hasher) :
    let r' := restoreOffsets host hasher fs saved r
    r'.evictedOffsets = ∅ ∧ r'.config = r.config
      ∧ ∀ path : Path, r'.files[path]? = (r.files[path]?).map fun (t : Active) =>
          (saved.find? fun cp => cp.1 == t.identity.sourceId hasher).elim t
            fun cp => t.restore fs cp.2 := by
  induction saved generalizing r with
  | nil =>
    refine ⟨hempty, rfl, fun path => ?_⟩
    show r.files[path]? = (r.files[path]?).map id
    rw [Option.map_id, id]
  | cons cp saved ih =>
    obtain ⟨hfirst, hkeys⟩ := pairwise_cons.mp hkeys
    obtain ⟨hempty₁, hconfig₁, hfiles₁⟩ := setOffsetBySource_files host fs hempty hdiffer
      (hne cp mem_cons_self) cp.2
    have hdiffer₁ : (r.setOffsetBySource host hasher fs cp.1 cp.2).SourcesDiffer hasher := by
      refine hdiffer.restored (fun t => ?_) hfiles₁
      split
      next => rfl
      next => rfl
    obtain ⟨hempty₂, hconfig₂, hfiles₂⟩ :=
      ih hkeys (fun c hc => hne c (mem_cons_of_mem cp hc)) hempty₁ hdiffer₁
    refine ⟨hempty₂, hconfig₂.trans hconfig₁, fun path => (hfiles₂ path).trans ?_⟩
    rw [hfiles₁, Option.map_map]
    congr 1
    funext t
    rw [Function.comp_apply, find?_cons]
    by_cases hid : t.identity.sourceId hasher = cp.1
    · -- no other checkpoint has this source id
      have hrest : saved.find? (fun c => c.1 == cp.1) = none :=
        find?_eq_none.mpr fun c hc h => hfirst c hc (eq_of_beq h).symm
      rw [if_pos hid, hid, beq_self_eq_true]
      show (saved.find? fun c => c.1 == t.identity.sourceId hasher).elim _ _ = _
      rw [hid, hrest]
      rfl
    · rw [if_neg hid, beq_false_of_ne (.symm hid)]

/-- Every checkpoint is of a file that is there, at an offset within it. -/
def CheckpointsFit (hasher : Hasher) (fs : FileSystem) (checkpoints : Checkpoints) : Prop :=
  ∀ (sourceId : SourceId) (offset : Nat), checkpoints[sourceId]? = some offset → sourceId ≠ 0
    ∧ ∃ path id n, fs.lookup path = some id ∧ n ≤ (fs.content id).length
      ∧ sourceId = (fs.identity hasher n id).sourceId hasher ∧ offset ≤ (fs.content id).length

namespace CheckpointsFit

variable {fs : FileSystem} {checkpoints : Checkpoints}

theorem grow (h : CheckpointsFit hasher fs checkpoints) {fs' : FileSystem}
    (hgrow : fs.GrowsTo fs') : CheckpointsFit hasher fs' checkpoints := by
  intro sourceId offset hcp
  obtain ⟨hne, path, id, n, hid, hn, hsource, hoffset⟩ := h _ _ hcp
  obtain ⟨hid', hcontent⟩ := hgrow hid
  have hlength := hcontent.length_le
  refine ⟨hne, path, id, n, hid', by omega, ?_, by omega⟩
  rw [hsource, FileSystem.identity, FileSystem.identity, computeFingerprint_of_isPrefix hcontent hn]

/-- A checkpoint with a source id of a file is one of that file. -/
theorem offset_le (h : CheckpointsFit hasher fs checkpoints) (hdistinct : fs.Distinct hasher)
    {path : Path} {id : FileId} (hid : fs.lookup path = some id) {n offset : Nat}
    (hcp : checkpoints[(fs.identity hasher n id).sourceId hasher]? = some offset) :
    offset ≤ (fs.content id).length := by
  obtain ⟨hne, path', id', n', hid', -, hsource, hoffset⟩ := h _ _ hcp
  by_cases hsame : id = id'
  · rw [hsame]
    exact hoffset
  · exact absurd (hdistinct.sourceIds hid hid' hsame n n' hsource) hne

end CheckpointsFit

-- == rebuilding

/-- Where a rebuilt tailer continues a file. -/
def resumeOffset (hasher : Hasher) (fs : FileSystem) (config : TailConfig)
    (checkpoints : Checkpoints) (id : FileId) : Nat :=
  (checkpoints[(fs.identity hasher config.fingerprintBytes id).sourceId hasher]?).getD
    (config.startOffset (fs.content id))

section Rebuild

variable {fs : FileSystem} {config : TailConfig} {paths : List Path} {checkpoints : Checkpoints}

theorem FreshOver.sourcesDiffer (hdistinct : fs.Distinct hasher)
    (h : FreshOver hasher now fs config paths r) : r.SourcesDiffer hasher := by
  have hopen : ∀ {path : Path} {t : Active}, r.files[path]? = some t →
      ∃ id, fs.lookup path = some id ∧ freshFile hasher now fs config id = t := by
    intro path t ht
    rw [h.files] at ht
    split at ht
    next => exact map_eq_some_iff.mp ht
    next => cases ht
  intro path path' t t' ht ht' hsame hne
  obtain ⟨id, hid, rfl⟩ := hopen ht
  obtain ⟨id', hid', rfl⟩ := hopen ht'
  by_cases hids : id = id'
  · subst hids
    exact hdistinct.inodes hid hid'
  · exact absurd (hdistinct.sourceIds hid hid' hids _ _ hsame) hne

theorem rebuild_files (host : Host) (now : Nat) (hdistinct : fs.Distinct hasher)
    (hfit : CheckpointsFit hasher fs checkpoints) (config : TailConfig) (paths : List Path) :
    let r := rebuild host hasher now fs config paths checkpoints
    r.evictedOffsets = ∅ ∧ r.config = config
      ∧ ∀ path : Path, r.files[path]? = if path ∈ paths then
          (fs.lookup path).map fun id =>
            (freshFile hasher now fs config id).restoreFrom hasher fs checkpoints
        else none := by
  have hfresh := startReader_freshOver host hasher now fs config paths
  have hne : ∀ cp ∈ checkpoints.toList, cp.1 ≠ 0 := fun cp hcp =>
    (hfit _ _ (mem_toList_iff_getElem?_eq_some.mp hcp)).1
  obtain ⟨hempty, hconfig, hfiles⟩ := restoreOffsets_files host fs
    (BTreeMap.toList_pairwise checkpoints) hne hfresh.evicted (hfresh.sourcesDiffer hdistinct)
  refine ⟨hempty, hconfig.trans hfresh.sameConfig, fun path => (hfiles path).trans ?_⟩
  have hrestore : ∀ t : Active,
      (checkpoints.toList.find? fun cp => cp.1 == t.identity.sourceId hasher).elim t
        (fun cp => t.restore fs cp.2) = t.restoreFrom hasher fs checkpoints := by
    intro t
    rw [Active.restoreFrom, ← BTreeMap.find?_toList]
    cases checkpoints.toList.find? fun cp => cp.1 == t.identity.sourceId hasher <;> rfl
  simp only [hrestore]
  rw [hfresh.files]
  split
  next => rw [Option.map_map]; rfl
  next => rfl

/-- A file is continued at its offset, and the record fits its content. -/
theorem restoreFrom_freshFile (now : Nat) (config : TailConfig) (hdistinct : fs.Distinct hasher)
    (hfit : CheckpointsFit hasher fs checkpoints) {path : Path} {id : FileId}
    (hid : fs.lookup path = some id) :
    let t := (freshFile hasher now fs config id).restoreFrom hasher fs checkpoints
    t.file = ⟨id, t.offset⟩ ∧ t.readBuf = []
      ∧ t.offset = resumeOffset hasher fs config checkpoints id
      ∧ t.identity = fs.identity hasher config.fingerprintBytes id
      ∧ Resumes hasher config.fingerprintBytes id (fs.content id) t.identity
          t.comparisonFingerprint t.fingerprintLen t.offset := by
  have hhash := hdistinct.hashed hid
  have hlen := observedFingerprintLen_eq hhash config.fingerprintBytes
  have hresumes {offset : Nat} (hle : offset ≤ (fs.content id).length) :=
    (Resumes.identified hhash config.fingerprintBytes id (.inl rfl)).read_on hle (by omega)
  have hstart : config.startOffset (fs.content id) ≤ (fs.content id).length := by
    rw [TailConfig.startOffset]
    split
    next => exact Nat.le_refl _
    next => exact Nat.zero_le _
  have hidentity : (freshFile hasher now fs config id).identity
      = fs.identity hasher config.fingerprintBytes id := rfl
  rw [Active.restoreFrom, resumeOffset, hidentity]
  cases hcp : checkpoints[(fs.identity hasher config.fingerprintBytes id).sourceId hasher]? with
  | none => exact ⟨rfl, rfl, rfl, rfl, hresumes hstart⟩
  | some offset =>
    have hle := hfit.offset_le hdistinct hid hcp
    have hsafe := Active.restore_of_le (t := freshFile hasher now fs config id) hle
    dsimp only [Option.elim]
    rw [hsafe]
    exact ⟨rfl, rfl, rfl, rfl, hresumes hle⟩

theorem Sound.rebuild (host : Host) (now : Nat) (hdistinct : fs.Distinct hasher)
    (hfit : CheckpointsFit hasher fs checkpoints) (config : TailConfig) (paths : List Path) :
    let r := Tail.rebuild host hasher now fs config paths checkpoints
    Sound hasher config.fingerprintBytes fs paths r.getOffset r [] := by
  obtain ⟨hempty, hconfig, hfiles⟩ := rebuild_files host now hdistinct hfit config paths
  intro r
  have hopen : ∀ {path : Path} {t : Active}, r.files[path]? = some t → path ∈ paths
      ∧ ∃ id, fs.lookup path = some id
        ∧ (freshFile hasher now fs config id).restoreFrom hasher fs checkpoints = t := by
    intro path t ht
    rw [hfiles] at ht
    split at ht
    next hpath => exact ⟨hpath, map_eq_some_iff.mp ht⟩
    next => cases ht
  have hclosed : ∀ path : Path, r.evictedOffsets[path]? = none := by
    intro path
    rw [hempty, getElem?_empty]
  refine ⟨by rw [hconfig], fun path => ?_, fun {path t} ht => ?_, fun {path} hsaved => ?_,
    fun _ hevent => absurd hevent not_mem_nil⟩
  · cases ht : r.files[path]? with
    | none =>
      rw [saved_of_closed ht, hclosed, FileReader.getOffset, ht]
      exact ⟨rfl, rfl⟩
    | some t =>
      obtain ⟨-, id, hid, rfl⟩ := hopen ht
      obtain ⟨-, -, -, -, hresumes⟩ := restoreFrom_freshFile now config hdistinct hfit hid
      rw [saved_of_open ht, FileReader.getOffset, ht]
      exact ⟨id, _, hid, rfl, .start hresumes rfl⟩
  · obtain ⟨-, id, hid, rfl⟩ := hopen ht
    obtain ⟨hfile, hbuf, -⟩ := restoreFrom_freshFile now config hdistinct hfit hid
    exact ⟨hclosed path, id, hid, hfile, hbuf⟩
  · cases ht : r.files[path]? with
    | none =>
      rw [saved_of_closed ht, hclosed] at hsaved
      exact absurd rfl hsaved
    | some t => exact (hopen ht).1

end Rebuild

-- == lifetimes

/-- Only growth changes the file system. -/
theorem Tailing.step_growsTo {a : Action} {s s' : Tailing} (hgrow : Tailing.AppendOnly hasher s a)
    (hs : Tailing.step hasher a s = some s') : s.fs.GrowsTo s'.fs := by
  obtain ⟨host, now, op⟩ := a
  obtain rfl := some.inj hs
  cases op with
  | grow fs => exact hgrow.1
  | _ => exact fun h => ⟨h, prefix_rfl⟩

theorem FileIdentity.sourceId_ne_zero {i : FileIdentity} (h : i.fingerprint ≠ 0) :
    i.sourceId hasher ≠ 0 := by
  rw [sourceId, if_neg h, sourceIdFromDigests]
  split
  next hprimary => exact hprimary
  next =>
    split
    next hfallback => exact hfallback
    next => exact Nat.one_ne_zero

namespace Lifetime

structure Invariant (hasher : Hasher) (window : Nat) (l : Lifetime) : Prop where
  distinct : l.tailing.fs.Distinct hasher
  sound : Sound hasher window l.tailing.fs l.tailing.discovery.watchPaths l.tailing.first
    l.tailing.reader l.tailing.events
  fits : CheckpointsFit hasher l.tailing.fs l.checkpoints

variable {window : Nat} {l l' : Lifetime} {sourceId : SourceId}

theorem Invariant.reported (h : Invariant hasher window l)
    {reached : Nat} (hreported : (sourceId, reached) ∈ l.tailing.reader.fileOffsets host hasher) :
    sourceId ≠ 0 ∧ ∃ path id n, l.tailing.fs.lookup path = some id
      ∧ n ≤ (l.tailing.fs.content id).length
      ∧ sourceId = (l.tailing.fs.identity hasher n id).sourceId hasher
      ∧ reached ≤ (l.tailing.fs.content id).length ∧ l.tailing.offset path = some reached := by
  have hsound := h.sound
  -- a record with a fingerprint is enough
  suffices hrecord : ∃ path e, l.tailing.reader.saved hasher path = some e
      ∧ e.identity.fingerprint ≠ 0 ∧ e.sourceId = sourceId ∧ e.offset = reached by
    obtain ⟨path, e, he, hknown, rfl, rfl⟩ := hrecord
    have htracked := hsound.tracked path
    rw [he] at htracked
    obtain ⟨id, start, hid, -, hdelivered⟩ := htracked
    obtain ⟨n, hn, -, hfingerprint⟩ := hdelivered.resumes.recognised
    have hlen := hdelivered.resumes.len_le
    rw [hdelivered.sourceId]
    refine ⟨FileIdentity.sourceId_ne_zero hknown, path, id, n, hid, by omega, ?_,
      hdelivered.resumes.offset_le, by rw [Tailing.offset_eq hasher, he, map_some]⟩
    rw [FileSystem.identity, ← hfingerprint, ← hdelivered.resumes.device,
      ← hdelivered.resumes.inode]
  rcases mem_append.mp hreported with hactive | hevicted
  · obtain ⟨path, -, hpath⟩ := mem_filterMap.mp hactive
    obtain ⟨t, ht, hreport⟩ := map_eq_some_iff.mp hpath
    obtain ⟨ht, hknown⟩ := filter_eq_some_iff.mp ht
    cases hreport
    exact ⟨path, _, saved_of_open ht, bne_iff_ne.mp hknown, rfl, rfl⟩
  · obtain ⟨path, -, hpath⟩ := mem_filterMap.mp hevicted
    obtain ⟨e, he, hreport⟩ := map_eq_some_iff.mp hpath
    obtain ⟨he, hknown⟩ := filter_eq_some_iff.mp he
    cases hreport
    have hclosed : l.tailing.reader.files[path]? = none := by
      cases ht : l.tailing.reader.files[path]? with
      | none => rfl
      | some t =>
        rw [(hsound.opened ht).1] at he
        cases he
    exact ⟨path, e, (saved_of_closed hclosed).trans he, bne_iff_ne.mp hknown, rfl, rfl⟩

variable {fs : FileSystem}

theorem Invariant.restart (h : Invariant hasher window l) (host : Host) (now : Nat)
    (hgrow : l.tailing.fs.GrowsTo fs) (hdistinct : fs.Distinct hasher)
    (paths : List Path) : Invariant hasher window (l.restart host hasher now fs paths) := by
  have hfits := h.fits.grow hgrow
  obtain rfl := h.sound.fingerprintBytes
  exact ⟨hdistinct, .rebuild host now hdistinct hfits _ paths, hfits⟩

theorem Invariant.step {op : Op} (h : Invariant hasher window l) (hgrow : AppendOnly hasher l op)
    (hl : step hasher op l = some l') : Invariant hasher window l' := by
  cases op with
  | tail a =>
    rw [Lifetime.step] at hl
    obtain ⟨s, hs, rfl⟩ := map_eq_some_iff.mp hl
    obtain ⟨hdistinct, hsound⟩ := Tailing.Invariant.step ⟨h.distinct, h.sound⟩ hgrow hs
    exact ⟨hdistinct, hsound, h.fits.grow (Tailing.step_growsTo hgrow hs)⟩
  | save host sourceId offset =>
    rw [Lifetime.step, save] at hl
    split at hl
    next hany =>
      obtain rfl := some.inj hl
      obtain ⟨⟨reported, reached⟩, hmem, hmatch⟩ := any_eq_true.mp hany
      obtain ⟨hid, hle⟩ : reported = sourceId ∧ offset ≤ reached := by simpa using hmatch
      subst hid
      obtain ⟨hne, path, id, n, hlookup, hn, hsource, hreached, -⟩ := h.reported hmem
      refine ⟨h.distinct, h.sound, fun other kept hcp => ?_⟩
      rw [BTreeMap.getElem?_insert_eq] at hcp
      split at hcp
      next heq =>
        cases hcp
        subst heq
        exact ⟨hne, path, id, n, hlookup, hn, hsource, Nat.le_trans hle hreached⟩
      next => exact h.fits other kept hcp
    next => cases hl
  | restart host now fs paths =>
    obtain rfl := some.inj hl
    exact h.restart host now hgrow.1 hgrow.2 paths

variable {offset : Nat}

theorem step_save (h : (l.tailing.reader.fileOffsets host hasher).any (fun reached =>
      reached.1 == sourceId && decide (offset ≤ reached.2)) = true) :
    step hasher (.save host sourceId offset) l
      = some { l with checkpoints := l.checkpoints.insert sourceId offset } :=
  if_pos h

variable {paths : List Path}

theorem Invariant.of_reachable {config : TailConfig}
    {globPatterns : List String} (hfs : fs.Distinct hasher)
    (hl : ReachableWhen (Lifetime.step hasher) (AppendOnly hasher)
      (start host hasher now fs config globPatterns paths) l) :
    Invariant hasher config.fingerprintBytes l := by
  refine hl.invariant ⟨hfs, .startReader host now hfs config paths, ?_⟩
    fun _ _ _ h hgrow hstep => h.step hgrow hstep
  intro sourceId offset hcp
  cases hcp

variable {path : Path} {id : FileId}

variable (h : Invariant hasher window l)

include h

/-- A restarted tailer continues a file at the checkpoint of the source id
the file has now, and at the configured end of it if there is none. -/
theorem Invariant.continuesAt_restart (host : Host) (now : Nat)
    (hgrow : l.tailing.fs.GrowsTo fs) (hdistinct : fs.Distinct hasher)
    (hpath : path ∈ paths)
    (hid : fs.lookup path = some id) (offset : Nat) :
    (l.restart host hasher now fs paths).tailing.ContinuesAt path offset
      ↔ resumeOffset hasher fs l.tailing.reader.config l.checkpoints id = offset := by
  have hfit := h.fits.grow hgrow
  obtain ⟨-, -, hfiles⟩ :=
    rebuild_files host now hdistinct hfit l.tailing.reader.config paths
  obtain ⟨hfile, hbuf, hoffset, -⟩ :=
    restoreFrom_freshFile now l.tailing.reader.config hdistinct hfit hid
  have hopen := hfiles path
  rw [if_pos hpath, hid] at hopen
  rw [← hoffset]
  constructor
  · rintro ⟨id', t, -, ht, -, ht', -⟩
    obtain rfl := some.inj (hopen.symm.trans ht)
    exact ht'
  · rintro rfl
    exact ⟨id, _, hid, hopen, hfile, rfl, hbuf⟩

omit h

/-- **What a restart continues.** A file with a checkpoint is continued
there exactly if its source id is still the one of the checkpoint. The
two other cases are accidents: an older checkpoint under the source id of
today that has the same offset, or no such checkpoint and an offset where
new files are read from. -/
theorem continuesAt_iff (host : Host) (hasher : Hasher) (now : Nat) (fs₀ : FileSystem)
    (config : TailConfig) (globPatterns : List String) (paths₀ : List Path)
    (hfs₀ : fs₀.Distinct hasher) (l : Lifetime)
    (hl : ReachableWhen (Lifetime.step hasher) (AppendOnly hasher)
      (start host hasher now fs₀ config globPatterns paths₀) l)
    (path : Path) (sourceId : SourceId) (hsource : l.tailing.sourceId hasher path = some sourceId)
    (offset : Nat) (hsaved : l.checkpoints[sourceId]? = some offset)
    (fs : FileSystem) (hgrow : l.tailing.fs.GrowsTo fs) (hfs : fs.Distinct hasher)
    (host' : Host) (now' : Nat) (paths : List Path) (hpath : path ∈ paths) :
    ∃ id, fs.lookup path = some id ∧
      ((l.restart host' hasher now' fs paths).tailing.ContinuesAt path offset
        ↔ (fs.identity hasher config.fingerprintBytes id).sourceId hasher = sourceId
          ∨ l.checkpoints[(fs.identity hasher config.fingerprintBytes id).sourceId hasher]?
              = some offset
          ∨ l.checkpoints[(fs.identity hasher config.fingerprintBytes id).sourceId hasher]? = none
            ∧ l.tailing.reader.config.startOffset (fs.content id) = offset) := by
  have hinv := Invariant.of_reachable hfs₀ hl
  have hsound := hinv.sound
  -- a file with a source id has a record
  obtain ⟨e, he⟩ : ∃ e, l.tailing.reader.saved hasher path = some e := by
    rw [Tailing.sourceId] at hsource
    split at hsource
    next t ht => exact ⟨_, saved_of_open ht⟩
    next hclosed =>
      obtain ⟨e, he, -⟩ := map_eq_some_iff.mp hsource
      exact ⟨e, (saved_of_closed hclosed).trans he⟩
  have htracked := hsound.tracked path
  rw [he] at htracked
  obtain ⟨id, -, hid, -⟩ := htracked
  have hid := (hgrow hid).1
  refine ⟨id, hid, ?_⟩
  rw [hinv.continuesAt_restart host' now' hgrow hfs hpath hid, resumeOffset,
    hsound.fingerprintBytes]
  cases hcp : l.checkpoints[(fs.identity hasher config.fingerprintBytes id).sourceId hasher]? with
  | none =>
    have hne : (fs.identity hasher config.fingerprintBytes id).sourceId hasher ≠ sourceId := by
      intro heq
      rw [heq, hsaved] at hcp
      cases hcp
    simp [hne]
  | some offset' =>
    refine ⟨fun h => .inr (.inl (congrArg some h)), fun h => ?_⟩
    rcases h with heq | heq | ⟨heq, -⟩
    · rw [heq, hsaved] at hcp
      exact (some.inj hcp).symm
    · exact some.inj heq
    · cases heq

open Tailing in
/-- A file of two bytes, with a fingerprint of up to 1024, is read and
checkpointed. It gets a third byte, and after a restart it is read from
its start again. -/
theorem short_file_is_read_again :
    ∃ l, ReachableWhen (Lifetime.step lengthHasher) (AppendOnly lengthHasher)
        (start plainHost lengthHasher 0 (oneFile [0x61, 0x0A]) ⟨250, 1024, false, 64⟩ [] ["log"]) l
      ∧ l.tailing.sourceId lengthHasher "log" = some 202 ∧ l.checkpoints[202]? = some 2
      ∧ l.tailing.fs.GrowsTo (oneFile [0x61, 0x0A, 0x62])
      ∧ (oneFile [0x61, 0x0A, 0x62]).Distinct lengthHasher
      ∧ let restarted := l.restart plainHost lengthHasher 0 (oneFile [0x61, 0x0A, 0x62]) ["log"]
        ¬ restarted.tailing.ContinuesAt "log" 2 ∧ restarted.tailing.ContinuesAt "log" 0 := by
  have h₀ : ReachableWhen (step lengthHasher) (AppendOnly lengthHasher)
      (start plainHost lengthHasher 0 (oneFile [0x61, 0x0A]) ⟨250, 1024, false, 64⟩ [] ["log"]) _ :=
    .init
  have h₁ := h₀.step (.tail ⟨plainHost, 0, .readAll 64⟩) (by exact trivial) rfl
  have h₂ := h₁.step (.save plainHost 202 2) (by exact trivial) (step_save (by decide +kernel))
  have hgrow : (oneFile [0x61, 0x0A]).GrowsTo (oneFile [0x61, 0x0A, 0x62]) :=
    oneFile_growsTo [0x61, 0x0A] [0x62]
  have hcontinues := (Invariant.of_reachable (oneFile_distinct _) h₂).continuesAt_restart
    plainHost 0 hgrow (oneFile_distinct _) (mem_singleton.mpr rfl)
    (show (oneFile [0x61, 0x0A, 0x62]).lookup "log" = some ⟨1, 2⟩ from rfl)
  refine ⟨_, h₂, by decide +kernel, by decide +kernel, hgrow, oneFile_distinct _, ?_, ?_⟩
  · exact fun h => absurd ((hcontinues 2).mp h) (by decide +kernel)
  · exact (hcontinues 0).mpr (by decide +kernel)

open Tailing in
/-- With a fingerprint of two bytes it is continued. -/
theorem long_file_is_continued :
    ∃ l, ReachableWhen (Lifetime.step lengthHasher) (AppendOnly lengthHasher)
        (start plainHost lengthHasher 0 (oneFile [0x61, 0x0A]) ⟨250, 2, false, 64⟩ [] ["log"]) l
      ∧ l.checkpoints[202]? = some 2
      ∧ let restarted := l.restart plainHost lengthHasher 0 (oneFile [0x61, 0x0A, 0x62]) ["log"]
        restarted.tailing.ContinuesAt "log" 2 := by
  have h₀ : ReachableWhen (step lengthHasher) (AppendOnly lengthHasher)
      (start plainHost lengthHasher 0 (oneFile [0x61, 0x0A]) ⟨250, 2, false, 64⟩ [] ["log"]) _ :=
    .init
  have h₁ := h₀.step (.tail ⟨plainHost, 0, .readAll 64⟩) (by exact trivial) rfl
  have h₂ := h₁.step (.save plainHost 202 2) (by exact trivial) (step_save (by decide +kernel))
  obtain ⟨id, hid, hcontinues⟩ := continuesAt_iff plainHost lengthHasher 0 (oneFile [0x61, 0x0A])
    ⟨250, 2, false, 64⟩ [] ["log"] (oneFile_distinct _) _ h₂ "log" 202 (by decide +kernel) 2
    (by decide +kernel) (oneFile [0x61, 0x0A, 0x62]) (oneFile_growsTo [0x61, 0x0A] [0x62])
    (oneFile_distinct _) plainHost 0 ["log"] (mem_singleton.mpr rfl)
  obtain rfl : ⟨1, 2⟩ = id := some.inj hid
  exact ⟨_, h₂, by decide +kernel, hcontinues.mpr (.inl (by decide +kernel))⟩

end Lifetime

end FastForward.Io.Tail
