/-
When generations are kept apart.

When the tailer notices a change it reads once from the file it has
open, forgets it, and opens what the path leads to now at its start.
From there on the new generation is read like any file that only grows
(`Watch.Follows`).

One read gives no more than the budget, so a longer backlog of a
replaced or deleted file is lost. The open handle of a rewritten file
leads to the new generation, so whatever is read then is emitted under
the wrong source id or a second time: the generations are kept apart
only if there is nothing to read (`keepsApart_iff`).
-/
import FastForward.Io.Tail.Generations
import FastForward.Io.Tail.Proofs.Restart

namespace FastForward.Io.Tail

open Core Lib Pipeline List FileIdentity Option

variable {host : Host} {hasher : Hasher} {future : Future hasher} {now : Nat}

-- == draining

namespace Active

/-- What one last read of an open file gives. -/
def drained (hasher : Hasher) (content : Bytes) (budget window : Nat) (t : Active) :
    List (Bytes × Option SourceId) :=
  if content.length < t.offset then
    if content.length = 0 then []
    else
      [(content.take budget,
        ((t.restart hasher content window).promote hasher content window).identity.eventId hasher)]
  else if content.length = t.offset then []
  else
    [((content.drop t.offset).take budget,
      (t.promote hasher content window).identity.eventId hasher)]

/-- The fingerprint is not taken from where the file is read. -/
theorem afterRead_identity (now : Nat) (content : Bytes) (budget window : Nat) (t : Active) :
    (t.afterRead hasher now content budget window).identity
      = (t.promote hasher content window).identity := by
  rw [afterRead, promote, promote]
  dsimp only
  split
  next =>
    split
    next => rfl
    next => rfl
  next => rfl

end Active

namespace FileReader

variable {r : FileReader} {path : Path} {t : Active} {fs : FileSystem} {id : FileId}

theorem mapEofState_insert (r : FileReader) (path : Path) (t : Active) (f : EofState → EofState) :
    { r with files := r.files.insert path t }.mapEofState path f
      = { r with
          files := (r.files.insert path t).insert path { t with eofState := f t.eofState } } := by
  rw [mapEofState]
  rw [BTreeMap.getElem?_insert_eq, if_pos rfl]

theorem drainFile_spec (hasher : Hasher) (fs : FileSystem) (host : Host) (now : Nat)
    (ht : r.files[path]? = some t)
    (hfile : t.file = ⟨id, t.offset⟩) (hbuf : t.readBuf = []) (sourceId : Option SourceId) :
    let (r', events) := r.drainFile host hasher now fs path sourceId
    r'.evictedOffsets = r.evictedOffsets ∧ r'.config = r.config
      ∧ dataEvents path events
        = t.drained hasher (fs.content id) r.perFileBudget r.config.fingerprintBytes := by
  have hread := Active.readNewData_eq hasher host now fs hfile hbuf
    r.perFileBudget_pos r.config.fingerprintBytes
  -- the source id of data is that of the record after the read
  have hsource : ∀ (t' : Active) (f : EofState → EofState),
      ({ r with files := r.files.insert path t' }.mapEofState path f).sourceIdForPath hasher path
        = t'.identity.eventId hasher := by
    intro t' f
    rw [mapEofState_insert, sourceIdForPath_of_open
      ((BTreeMap.getElem?_insert_eq _ _ _ _).trans (if_pos rfl))]
  rw [drainFile, readNewData, ht, Active.drained]
  dsimp only at hread ⊢
  by_cases htruncated : (fs.content id).length < t.offset
  · rw [if_pos htruncated] at hread ⊢
    by_cases hempty : (fs.content id).length = 0
    · rw [if_pos hempty] at hread ⊢
      rw [hread]
      dsimp only
      rw [mapEofState_insert]
      exact ⟨rfl, rfl, rfl⟩
    · rw [if_neg hempty] at hread ⊢
      rw [hread]
      dsimp only
      rw [hsource, Active.afterRead_identity, mapEofState_insert]
      refine ⟨rfl, rfl, ?_⟩
      show dataEvents path ([.truncated path sourceId] ++ [.data path _ _]) = _
      rw [dataEvents_append, dataEvents_data, if_pos rfl]
      rfl
  · rw [if_neg htruncated] at hread ⊢
    by_cases hend : (fs.content id).length = t.offset
    · rw [if_pos hend] at hread ⊢
      rw [hread]
      exact ⟨rfl, rfl, rfl⟩
    · rw [if_neg hend] at hread ⊢
      rw [hread]
      dsimp only
      rw [hsource, Active.afterRead_identity, mapEofState_insert]
      refine ⟨rfl, rfl, ?_⟩
      rw [dataEvents_data, if_pos rfl]

-- == opening

def Unknown (r : FileReader) (id : FileId) : Prop :=
  ∀ (path : Path) (e : EvictedFile), r.evictedOffsets[path]? = some e →
    ¬ (e.identity.device = id.device ∧ e.identity.inode = id.inode)

/-- A file as it is opened after a rotation. -/
def openAtStart (hasher : Hasher) (now : Nat) (content : Bytes) (window : Nat) (id : FileId) :
    Active :=
  let identity := ⟨id.device, id.inode, computeFingerprint hasher content window⟩
  openFresh now ⟨id, 0⟩ identity
    (observedFingerprintLen identity.fingerprint content.length window) 0

theorem openFileAt_of_unknown (hasher : Hasher) (host : Host) (now : Nat)
    (hid : fs.lookup path = some id) (hunknown : r.Unknown id) :
    ∃ r', r.openFileAt host hasher now fs path false = some r' ∧ r'.config = r.config
      ∧ r'.evictedOffsets[path]? = none
      ∧ r'.files[path]?
        = some (openAtStart hasher now (fs.content id) r.config.fingerprintBytes id) := by
  -- what is taken for the file is no record of it
  have htake : ∀ sourceId, ∃ evicted r', r.takeEvicted host path sourceId = (evicted, r')
      ∧ r'.config = r.config ∧ r'.evictedOffsets[path]? = none
      ∧ ∀ e, evicted = some e →
        ¬ (e.identity.device = id.device ∧ e.identity.inode = id.inode) := by
    intro sourceId
    rw [takeEvicted]
    cases hpath : r.evictedOffsets[path]? with
    | some e =>
      refine ⟨_, _, rfl, rfl, ?_, fun e' he' => ?_⟩
      · exact (BTreeMap.getElem?_erase_eq _ _ _).trans (if_pos rfl)
      · cases he'
        exact hunknown path e hpath
    | none =>
      dsimp only
      split
      next => exact ⟨_, _, rfl, rfl, hpath, by simp⟩
      next =>
        split
        next key _ =>
          refine ⟨_, _, rfl, rfl, ?_, fun e he => hunknown key e he⟩
          exact (BTreeMap.getElem?_erase_eq _ _ _).trans (by rw [hpath, ite_self])
        next => exact ⟨_, _, rfl, rfl, hpath, by simp⟩
  rw [openFileAt, FileSystem.openFile, hid, map_some, map_some]
  dsimp only [identifyOpenFile]
  generalize sourceId hasher _ = source
  obtain ⟨evicted, r', hevicted, hconfig, hnone, hother⟩ := htake source
  rw [hevicted]
  refine ⟨_, rfl, hconfig, hnone, ?_⟩
  rw [BTreeMap.getElem?_insert_eq, if_pos rfl]
  cases evicted with
  | none => rfl
  | some e =>
    have hne := hother e rfl
    dsimp only
    rw [evictedMatchesOpenFile, if_pos (Classical.not_and_iff_not_or_not.mp hne),
      if_neg Bool.false_ne_true, if_neg fun h => hne h.2.2]
    rfl

end FileReader

-- == noticing

section Noticing

variable {fs : FileSystem} {r : FileReader} {path : Path} {t : Active} {old : Bytes}

/-- An open file that is another one now is drained, forgotten and opened
anew. -/
theorem detectChange_of_rotated (hasher : Hasher) (host : Host) (now : Nat) {id : FileId}
    (hid : fs.lookup path = some id) (ht : r.files[path]? = some t)
    (hfile : t.file = ⟨t.file.id, t.offset⟩) (hbuf : t.readBuf = [])
    (hunknown : r.Unknown id)
    (hrotated : ∀ bytes, bytes
        = (if 0 < t.fingerprintLen ∧ t.fingerprintLen < r.config.fingerprintBytes then
            t.fingerprintLen
          else r.config.fingerprintBytes) →
      isRotated fs r path
        ⟨id.device, id.inode, computeFingerprint hasher (fs.content id) bytes⟩) :
    ∃ r' events, detectChange host hasher now fs r path = (r', events, false)
      ∧ r'.config = r.config ∧ r'.evictedOffsets[path]? = none
      ∧ r'.files[path]?
        = some (FileReader.openAtStart hasher now (fs.content id) r.config.fingerprintBytes id)
      ∧ dataEvents path events
        = t.drained hasher (fs.content t.file.id) r.perFileBudget r.config.fingerprintBytes := by
  have hdrain := FileReader.drainFile_spec hasher fs host now ht hfile hbuf
    (r.sourceIdForPath hasher path)
  unfold detectChange
  rw [FileSystem.pathExists]
  dsimp only
  rw [identifyFile,
    FileSystem.openFile, hid, ht]
  dsimp only [map_some, identifyOpenFile]
  rw [hrotated _ (by rfl)]
  generalize r.drainFile host hasher now fs path (r.sourceIdForPath hasher path) = drained
    at hdrain ⊢
  obtain ⟨r₁, events⟩ := drained
  obtain ⟨hevicted, hconfig, hdata⟩ := hdrain
  have hunknown₁ : { r₁ with files := r₁.files.erase path }.Unknown id := by
    intro q e he
    exact hunknown q e (by rw [← hevicted]; exact he)
  obtain ⟨r₂, hopen, hconfig₂, hnone, hfiles⟩ :=
    FileReader.openFileAt_of_unknown hasher host now hid hunknown₁
  rw [hopen]
  refine ⟨r₂, _, rfl, hconfig₂.trans hconfig, hnone, ?_, ?_⟩
  · rw [hfiles, show r.config = r₁.config from hconfig.symm]
  · rw [dataEvents_append, hdata]
    exact append_nil _

end Noticing

-- == the new generation

/-- A path is open, and what was emitted for it since is its content, under
another source id than `taken`. -/
structure Watch.Follows (future : Future hasher) (path : Path) (window : Nat) (id : FileId)
    (taken : Option SourceId) (w : Watch) (t : Active) : Prop where
  lookup : w.fs.lookup path = some id
  isOpen : w.reader.files[path]? = some t
  evicted : w.reader.evictedOffsets[path]? = none
  fingerprintBytes : w.reader.config.fingerprintBytes = window
  allowed : future.allows (w.fs.content id)
  file : t.file = ⟨id, t.offset⟩
  readBuf : t.readBuf = []
  delivered : Delivered hasher window id (w.fs.content id) (t.saved hasher path) 0 w.data
  nonempty : w.data ≠ [] → w.fs.content id ≠ []
  apart : ∀ content, w.fs.content id <+: content → content ≠ [] → future.allows content →
    (t.identity.recognise hasher content window).eventId hasher ≠ taken

/-- A file the reader has just opened at its start. -/
structure JustOpened (future : Future hasher) (path : Path) (window : Nat) (id : FileId) (now : Nat)
    (fs : FileSystem) (r : FileReader) : Prop where
  lookup : fs.lookup path = some id
  isOpen : r.files[path]? = some (FileReader.openAtStart hasher now (fs.content id) window id)
  evicted : r.evictedOffsets[path]? = none
  fingerprintBytes : r.config.fingerprintBytes = window
  allowed : future.allows (fs.content id)

theorem content_ne_nil {content : Bytes} {window : Nat} (hhash : Hashed hasher content)
    (h : computeFingerprint hasher content window ≠ 0) : content ≠ [] := by
  rintro rfl
  exact h ((computeFingerprint_eq_zero hhash).mpr (Nat.zero_min _))

namespace Watch.Follows

variable {path : Path} {window : Nat} {id : FileId} {taken : Option SourceId} {w w' : Watch}
  {t : Active}

theorem hashed (h : w.Follows future path window id taken t) : Hashed hasher (w.fs.content id) :=
  future.hashed _ h.allowed

theorem tails (h : w.Follows future path window id taken t) :
    t.Tails hasher window id (w.fs.content id) :=
  ⟨h.file, h.readBuf, h.delivered.resumes⟩

theorem openAtStart {fs : FileSystem} {r : FileReader} {now : Nat}
    (h : JustOpened future path window id now fs r)
    (hnever : NeverIdentifiedAs future window id (fs.content id) taken) :
    Watch.Follows future path window id taken ⟨fs, r, []⟩
      (FileReader.openAtStart hasher now (fs.content id) window id) := by
  have hhash := future.hashed _ h.allowed
  refine ⟨h.lookup, h.isOpen, h.evicted, h.fingerprintBytes, h.allowed, rfl, rfl,
    .start (.identified hhash window id (.inl rfl)) rfl,
    fun h => absurd rfl h, ?_⟩
  intro content hgrow hsome hallowed
  rw [recognise]
  split
  next hzero =>
    -- the file has not been recognised: it is empty, or nothing ever is
    have hzero : computeFingerprint hasher (fs.content id) window = 0 := hzero
    by_cases hempty : fs.content id = []
    · exact hnever content hgrow hsome (fun h => absurd hempty h) hallowed
    · have hpos := length_pos_iff.mpr hempty
      rw [computeFingerprint_eq_zero hhash] at hzero
      obtain rfl : window = 0 := by omega
      have hnone : computeFingerprint hasher content 0
          = computeFingerprint hasher (fs.content id) 0 := by
        rw [computeFingerprint, computeFingerprint, take_zero, take_zero]
      rw [hnone]
      exact hnever _ prefix_rfl hempty (fun _ => rfl) h.allowed
  next hne =>
    have hsome' := content_ne_nil hhash hne
    exact hnever _ prefix_rfl hsome' (fun _ => rfl) h.allowed

variable (h : w.Follows future path window id taken t)

include h

/-- Reading goes on, unless all has been read. -/
theorem read (host : Host) (now eofMinIdle budget : Nat)
    (hw : Watch.step hasher path (.read host now eofMinIdle budget) w = some w') :
    ∃ t', w'.Follows future path window id taken t' ∧ w'.fs = w.fs
      ∧ (t.offset = (w.fs.content id).length ∨ t.offset < t'.offset) := by
  obtain ⟨r', t', new, hread, hopened, htails, hcase⟩ :=
    FileReader.readPath_of_open host now eofMinIdle budget h.isOpen h.evicted h.fingerprintBytes
      h.tails h.hashed
  obtain rfl := some.inj hw
  dsimp only
  rw [hread]
  have hconfig : r'.config.fingerprintBytes = window := by
    rw [hopened.config]
    exact h.fingerprintBytes
  have hnone : r'.evictedOffsets[path]? = none := by rw [hopened.evicted, if_pos rfl]
  have hcontent : t'.offset ≠ 0 → w.fs.content id ≠ [] := by
    intro hoffset hempty
    have hle := htails.resumes.offset_le
    rw [hempty, length_nil] at hle
    omega
  refine ⟨t', ⟨h.lookup, hopened.isOpen, hnone, hconfig, h.allowed, htails.file, htails.readBuf,
    ?_, ?_, ?_⟩, rfl, ?_⟩
  · rcases hcase with ⟨eofState, rfl, -, hnew⟩ | ⟨n, hn, hoffset, hidentity, rfl⟩
    · have hsilent : dataEvents path new = [] := by
        rcases hnew with rfl | ⟨sourceId, rfl⟩
        · rfl
        · rfl
      rw [hsilent, append_nil]
      exact h.delivered.of_same rfl rfl rfl rfl rfl
    · rw [dataEvents_data, if_pos rfl]
      exact h.delivered.read h.hashed hn hoffset htails.resumes rfl fun hknown =>
        hidentity.trans (recognise_of_known hknown _)
  · rcases hcase with ⟨eofState, rfl, -, hnew⟩ | ⟨n, hn, hoffset, -, rfl⟩
    · rcases hnew with rfl | ⟨sourceId, rfl⟩
      · exact fun hdata => h.nonempty (by rwa [show dataEvents path [] = [] from rfl,
          append_nil] at hdata)
      · exact fun hdata => h.nonempty (by rwa [show dataEvents path [.endOfFile path sourceId] = []
          from rfl, append_nil] at hdata)
    · exact fun _ => hcontent (by omega)
  · rcases hcase with ⟨eofState, rfl, -, -⟩ | ⟨n, hn, hoffset, hidentity, rfl⟩
    · exact h.apart
    · intro content hgrow hsome hallowed
      have hnow := h.apart _ prefix_rfl (hcontent (by omega)) h.allowed
      rw [hidentity]
      by_cases hknown : (t.identity.recognise hasher (w.fs.content id) window).fingerprint ≠ 0
          ∨ window = 0
      · rw [recognise_of_known hknown]
        exact hnow
      · -- content was read, so the file is recognised
        have hzero : t'.identity.fingerprint = 0 := by rw [hidentity]; omega
        have hcovers := htails.resumes.covers
        rw [htails.resumes.fingerprint_eq_zero h.hashed] at hzero
        omega
  · rcases hcase with ⟨-, -, hend, -⟩ | ⟨n, hn, hoffset, -, -⟩
    · exact .inl hend
    · exact .inr (by omega)

theorem step {op : WatchOp}
    (hgrow : Watch.Grows future path w op) (hw : Watch.step hasher path op w = some w') :
    ∃ t', w'.Follows future path window id taken t' := by
  cases op with
  | grow fs =>
    obtain rfl := some.inj hw
    obtain ⟨hid, hcontent, hallowed⟩ := hgrow id h.lookup
    exact ⟨t, hid, h.isOpen, h.evicted, h.fingerprintBytes, hallowed, h.file, h.readBuf,
      h.delivered.grow hcontent, fun hdata hempty => h.nonempty hdata
        (prefix_nil.mp (hempty ▸ hcontent)),
        fun content hmore => h.apart content (hcontent.trans hmore)⟩
  | detect host now =>
    obtain rfl := some.inj hw
    have htails := h.tails
    rw [← h.fingerprintBytes] at htails
    have hsame := detectChange_of_tails host now h.lookup h.isOpen htails h.hashed
    dsimp only
    rw [hsame]
    rw [show dataEvents path [] = [] from rfl, append_nil]
    exact ⟨t, h⟩
  | read host now eofMinIdle budget =>
    obtain ⟨t', h', -, -⟩ := h.read host now eofMinIdle budget hw
    exact ⟨t', h'⟩

theorem reachable (hw : ReachableWhen (Watch.step hasher path) (Watch.Grows future path) w w') :
    ∃ t', w'.Follows future path window id taken t' := by
  refine hw.invariant (I := fun w => ∃ t', w.Follows future path window id taken t') ⟨t, h⟩
    fun op s s' hs hgrow hstep => ?_
  obtain ⟨u, hu⟩ := hs
  exact hu.step hgrow hstep

/-- Reading on gets to the end. -/
theorem complete (host : Host) :
    ∃ w', ReachableWhen (Watch.step hasher path) Watch.Reads w w' ∧ w'.fs = w.fs
      ∧ w'.data.flatMap (·.1) = w.fs.content id := by
  -- on how much is left to read
  induction hleft : (w.fs.content id).length - t.offset using Nat.strongRecOn
    generalizing w t with
  | ind left ih =>
    by_cases hend : t.offset = (w.fs.content id).length
    · refine ⟨w, .init, rfl, ?_⟩
      have hbytes := h.delivered.bytes
      rw [drop_zero, Nat.sub_zero, show (t.saved hasher path).offset = t.offset from rfl,
        hend, take_length] at hbytes
      exact hbytes
    · obtain ⟨t', h', hfs, hmore⟩ := h.read host 0 0 0 rfl
      have hle := h'.tails.resumes.offset_le
      rw [hfs] at hle
      obtain ⟨w', hw', hfs', hdata⟩ :=
        ih ((w.fs.content id).length - t'.offset) (by omega) h' (by rw [hfs])
      have hfirst : ReachableWhen (Watch.step hasher path) Reads w _ :=
        .step (.read host 0 0 0) .init trivial rfl
      exact ⟨w', hfirst.trans hw', hfs', hdata⟩

omit h

end Watch.Follows

namespace Watch.Follows

variable {path : Path} {window : Nat} {id : FileId} {taken : Option SourceId} {w : Watch}
  {t : Active}

/-- What was emitted, and under which source id. -/
theorem emitted (h : w.Follows future path window id taken t) :
    w.data.flatMap (·.1) = (w.fs.content id).take t.offset
      ∧ ∃ sourceId, sourceId ≠ taken ∧ ∀ d ∈ w.data, d.2 = sourceId := by
  have hbytes := h.delivered.bytes
  refine ⟨hbytes, ?_⟩
  cases hdata : w.data with
  | nil =>
    obtain ⟨other, hother⟩ : ∃ other : Option SourceId, other ≠ taken := by
      cases taken with
      | none => exact ⟨some 0, nofun⟩
      | some _ => exact ⟨none, nofun⟩
    exact ⟨other, hother, fun _ hd => absurd hd not_mem_nil⟩
  | cons d rest =>
    have hids := h.delivered.ids
    rw [hdata] at hids
    refine ⟨_, ?_, hids⟩
    -- something was delivered, so the file is recognised and has content
    have hne : w.data ≠ [] := by rw [hdata]; exact cons_ne_nil d rest
    have hknown : t.identity.fingerprint ≠ 0 ∨ window = 0 := by
      by_cases hzero : t.identity.fingerprint = 0
      · exact .inr (Nat.eq_zero_of_not_pos fun hpos => hne (h.delivered.silent hzero hpos))
      · exact .inl hzero
    have hapart := h.apart _ prefix_rfl (h.nonempty hne) h.allowed
    rw [recognise_of_known hknown] at hapart
    exact hapart

theorem deliversOnce (h : w.Follows future path window id taken t) (host : Host) :
    DeliversOnce future path id taken w where
  once w' hw' := by
    obtain ⟨t', h'⟩ := h.reachable hw'
    obtain ⟨hbytes, hids⟩ := h'.emitted
    exact ⟨⟨t', h'.isOpen, hbytes⟩, hids⟩
  complete w' hw' := by
    obtain ⟨t', h'⟩ := h.reachable hw'
    exact h'.complete host

end Watch.Follows

section NewGeneration

variable {fs : FileSystem} {r : FileReader} {path : Path} {id : FileId} {window now : Nat}

/-- A file opened at its start whose content may give it a taken source id
can be emitted under it. -/
theorem exists_emitted_as_taken (host : Host) (h : JustOpened future path window id now fs r)
    {content : Bytes} (hgrow : fs.content id <+: content) (hsome : content ≠ [])
    (hsame : fs.content id ≠ [] → content = fs.content id) (hallowed : future.allows content)
    (data : List (Bytes × Option SourceId)) :
    ∃ w, ReachableWhen (Watch.step hasher path) (Watch.Grows future path) ⟨fs, r, data⟩ w
      ∧ ∃ bytes, (bytes, eventId hasher
          ⟨id.device, id.inode, computeFingerprint hasher content window⟩) ∈ w.data := by
  let grown : FileSystem :=
    { fs with content := fun other => if other = id then content else fs.content other }
  have hcontent : grown.content id = content := if_pos rfl
  have hreach : ReachableWhen (Watch.step hasher path) (Watch.Grows future path) ⟨fs, r, data⟩
      ⟨grown, r, data⟩ := by
    refine .step (.grow grown) .init (fun other hother => ?_) rfl
    obtain rfl : id = other := some.inj (h.lookup.symm.trans hother)
    rw [hcontent]
    exact ⟨h.lookup, hgrow, hallowed⟩
  have hhash := future.hashed _ h.allowed
  have hhash' := future.hashed _ hallowed
  have hresumes := (Resumes.identified hhash window id (.inl rfl)).grow hgrow
  rw [← hcontent] at hresumes hhash'
  obtain ⟨r', t', new, hread, -, -, hcase⟩ :=
    FileReader.readPath_of_open host now 0 0 h.isOpen h.evicted h.fingerprintBytes
      ⟨rfl, rfl, hresumes⟩ hhash'
  rcases hcase with ⟨-, -, hend, -⟩ | ⟨n, -, -, hidentity, rfl⟩
  · rw [hcontent] at hend
    exact absurd (length_eq_zero_iff.mp hend.symm) hsome
  · have hrecognised : t'.identity
        = ⟨id.device, id.inode, computeFingerprint hasher content window⟩ := by
      rw [hidentity, hcontent, recognise]
      split
      next => rfl
      next hne =>
        rw [hsame (content_ne_nil hhash hne)]
        rfl
    refine ⟨_, hreach.step (.read host now 0 0) trivial rfl, ?_⟩
    dsimp only
    rw [hread]
    rw [dataEvents_data, if_pos rfl, hrecognised]
    exact ⟨_, mem_append_right _ (mem_singleton.mpr rfl)⟩

/-- A file opened at its start is delivered once exactly if nothing of it
was emitted before and its source id will be its own. -/
theorem deliversOnce_iff (host : Host) (hnew : JustOpened future path window id now fs r)
    (data : List (Bytes × Option SourceId)) (taken : Option SourceId)
    (hdata : ∀ d ∈ data, d.1 ≠ []) :
    DeliversOnce future path id taken ⟨fs, r, data⟩
      ↔ data = [] ∧ NeverIdentifiedAs future window id (fs.content id) taken := by
  constructor
  · intro h
    obtain ⟨⟨t, ht, hbytes⟩, -⟩ := h.once _ .init
    obtain rfl := some.inj (hnew.isOpen.symm.trans ht)
    have hnone : data = [] := by
      have hempty : data.flatMap (·.1) = [] := hbytes.trans take_zero
      cases data with
      | nil => rfl
      | cons d rest =>
        exact absurd (append_eq_nil_iff.mp hempty).1 (hdata d mem_cons_self)
    refine ⟨hnone, fun content hgrow hsome hsame hallowed htaken => ?_⟩
    obtain ⟨w, hw, bytes, hmem⟩ := exists_emitted_as_taken host hnew hgrow hsome hsame
      hallowed data
    obtain ⟨-, sourceId, hne, hids⟩ := h.once w hw
    exact hne ((hids _ hmem).symm.trans htaken)
  · rintro ⟨rfl, hnever⟩
    exact (Watch.Follows.openAtStart hnew hnever).deliversOnce host

end NewGeneration

-- == the old generation

namespace Active

variable {t : Active} {window : Nat} {id : FileId} {old : Bytes}
  (htails : t.Tails hasher window id old)

include htails

variable (hhash : Hashed hasher old) (budget : Nat)

include hhash

/-- What is left of a file that has only grown, up to the budget. -/
theorem drained_of_tails :
    t.drained hasher old budget window
      = if old.length = t.offset then []
        else [((old.drop t.offset).take budget, t.sourceIdFor hasher old window)] := by
  have hle := htails.resumes.offset_le
  rw [drained, if_neg (Nat.not_lt.mpr hle)]
  split
  next => rfl
  next hunread =>
    have hsome : old ≠ [] := by
      rintro rfl
      rw [length_nil] at hunread hle
      omega
    obtain ⟨comparison, len, hpromote, -⟩ := promote_resumes htails.resumes hhash hle hsome
    rw [hpromote]
    rfl

/-- One read is enough exactly if the budget is. -/
theorem drained_complete_iff :
    (t.drained hasher old budget window).flatMap (·.1) = old.drop t.offset
      ↔ old.length - t.offset ≤ budget := by
  rw [drained_of_tails htails hhash]
  split
  next hend =>
    rw [hend.symm, drop_length]
    exact iff_of_true rfl (by omega)
  next =>
    rw [flatMap_singleton]
    refine ⟨fun hall => ?_, fun hbudget => take_of_length_le ?_⟩
    case refine_2 => rwa [length_drop]
    have hlength := congrArg length hall
    rw [length_take, length_drop] at hlength
    omega

theorem drained_sourceId :
    ∀ d ∈ t.drained hasher old budget window, d.2 = t.sourceIdFor hasher old window := by
  rw [drained_of_tails htails hhash]
  split
  next => exact fun _ hd => absurd hd not_mem_nil
  next => exact fun _ hd => by rw [mem_singleton.mp hd]

omit hhash

omit htails

/-- A read that gives something gives bytes. -/
theorem drained_nonempty (hasher : Hasher) (t : Active) (content : Bytes) {budget : Nat}
    (hbudget : 0 < budget)
    (window : Nat) : ∀ d ∈ t.drained hasher content budget window, d.1 ≠ [] := by
  rw [drained]
  intro d hd hempty
  have hlength := congrArg length hempty
  split at hd
  all_goals
    split at hd
    next => exact absurd hd not_mem_nil
    next =>
      simp only [mem_singleton.mp hd, length_take, length_drop, length_nil] at hlength
      omega

theorem drained_eq_nil_iff (t : Active) (content : Bytes) (budget window : Nat) :
    t.drained hasher content budget window = []
      ↔ content.length = t.offset ∨ content.length = 0 := by
  rw [drained]
  split
  all_goals
    split
    next => exact iff_of_true rfl (by omega)
    next => exact iff_of_false (cons_ne_nil _ _) (by omega)

end Active

-- == the theorem

/-- An open file with the content it had, and a path that leads to nothing
the reader knows. -/
structure Turns (future : Future hasher) (fs : FileSystem) (r : FileReader) (path : Path)
    (t : Active) (old : Bytes) : Prop where
  isOpen : r.files[path]? = some t
  tails : t.Tails hasher r.config.fingerprintBytes t.file.id old
  hashed : Hashed hasher old
  new_allowed : ∀ id, fs.lookup path = some id → future.allows (fs.content id)
  new_unknown : ∀ id, fs.lookup path = some id → r.Unknown id

section Turns

variable {fs : FileSystem} {r : FileReader} {path : Path} {t : Active} {old : Bytes}

/-- A path that leads to another file is seen as rotated. -/
theorem Turns.isRotated_of_replaced (h : Turns future fs r path t old) {id : FileId}
    (hne : id ≠ t.file.id) (fingerprint : Nat) :
    isRotated fs r path ⟨id.device, id.inode, fingerprint⟩ := by
  have hother : t.identity.device ≠ id.device ∨ t.identity.inode ≠ id.inode := by
    rw [h.tails.resumes.device, h.tails.resumes.inode]
    by_cases hdevice : t.file.id.device = id.device
    · refine .inr fun hinode => hne ?_
      cases id
      exact (FileId.mk.injEq ..).mpr ⟨hdevice.symm, hinode.symm⟩
    · exact .inl hdevice
  rw [isRotated, h.isOpen, any_some, shouldRotateFile, shouldIdentityRotate, if_pos hother,
    Bool.or_true]

/-- So is a file with other first bytes. -/
theorem Turns.isRotated_of_rewritten (h : Turns future fs r path t old)
    (hlen : 0 < t.fingerprintLen) {bytes : Nat}
    (hbytes : bytes = if 0 < t.fingerprintLen ∧ t.fingerprintLen < r.config.fingerprintBytes then
      t.fingerprintLen else r.config.fingerprintBytes)
    (hother : computeFingerprint hasher (fs.content t.file.id) t.fingerprintLen
      ≠ t.comparisonFingerprint) :
    isRotated fs r path ⟨t.file.id.device, t.file.id.inode,
      computeFingerprint hasher (fs.content t.file.id) bytes⟩ := by
  have hwindow := h.tails.resumes.len_le_window
  obtain rfl : bytes = t.fingerprintLen := by
    rw [hbytes]
    split
    next => rfl
    next => omega
  have hknown : t.comparisonFingerprint ≠ 0 := by
    rw [Ne, h.tails.resumes.comparison_eq_zero h.hashed]
    omega
  rw [isRotated, h.isOpen, any_some, shouldRotateFile, shouldIdentityRotate,
    if_neg (by simp [h.tails.resumes.device, h.tails.resumes.inode]), if_neg hknown,
    decide_eq_true ⟨hlen, .symm hother⟩, Bool.or_true]

/-- **When generations are kept apart.** -/
theorem keepsApart_iff (host : Host) (hasher : Hasher) (future : Future hasher) (now : Nat)
    (fs : FileSystem) (r : FileReader) (path : Path) (t : Active) (old : Bytes)
    (h : Turns future fs r path t old) (g : Turnover) (hg : g.Happened hasher fs path t old) :
    KeepsApart future path fs t old g (g.look host hasher now fs r path).1
        (dataEvents path (g.look host hasher now fs r path).2)
      ↔ g.Separable future r.config.fingerprintBytes r.perFileBudget fs path t old := by
  have hfile : t.file = ⟨t.file.id, t.offset⟩ := h.tails.file
  have hbuf := h.tails.readBuf
  cases g with
  | replaced =>
    obtain ⟨hold, id, hid, hne⟩ := hg
    obtain ⟨r', events, hdetect, hconfig, hevicted, hopen, hdata⟩ :=
      detectChange_of_rotated hasher host now hid h.isOpen hfile hbuf
        (h.new_unknown id hid) fun _ _ => h.isRotated_of_replaced hne _
    rw [Turnover.look, hdetect]
    rw [hdata, hold]
    have hnew : JustOpened future path r.config.fingerprintBytes id now fs r' :=
      ⟨hid, hopen, hevicted, by rw [hconfig], h.new_allowed id hid⟩
    have honce := fun taken => deliversOnce_iff host hnew [] taken nofun
    constructor
    · rintro ⟨hcomplete, -, hnew⟩
      refine ⟨(Active.drained_complete_iff h.tails h.hashed _).mp hcomplete, fun id' hid' => ?_⟩
      obtain rfl : id = id' := some.inj (hid.symm.trans hid')
      have hnew := hnew id hid
      rw [hconfig] at hnew
      exact ((honce _).mp hnew).2
    · rintro ⟨hbudget, hnever⟩
      refine ⟨(Active.drained_complete_iff h.tails h.hashed _).mpr hbudget, ?_, ?_⟩
      · rw [hconfig]
        exact Active.drained_sourceId h.tails h.hashed _
      · intro id' hid'
        obtain rfl : id = id' := some.inj (hid.symm.trans hid')
        rw [hconfig]
        exact (honce _).mpr ⟨rfl, hnever id hid⟩
  | rewritten =>
    obtain ⟨hid, hlen, hother⟩ := hg
    obtain ⟨r', events, hdetect, hconfig, hevicted, hopen, hdata⟩ :=
      detectChange_of_rotated hasher host now hid h.isOpen hfile hbuf
        (h.new_unknown _ hid) fun _ hbytes => h.isRotated_of_rewritten hlen hbytes hother
    rw [Turnover.look, hdetect]
    rw [hdata]
    have hnew : JustOpened future path r.config.fingerprintBytes t.file.id now fs r' :=
      ⟨hid, hopen, hevicted, by rw [hconfig], h.new_allowed _ hid⟩
    have honce := fun taken => deliversOnce_iff host hnew _ taken
      (Active.drained_nonempty hasher t (fs.content t.file.id)
        r.perFileBudget_pos r.config.fingerprintBytes)
    have hle := h.tails.resumes.offset_le
    constructor
    · rintro ⟨hcomplete, -, hnew⟩
      have hread : old.length ≤ t.offset := drop_eq_nil_iff.mp hcomplete.symm
      have hnew := hnew _ hid
      rw [hconfig] at hnew
      obtain ⟨hnone, hnever⟩ := (honce _).mp hnew
      rw [Active.drained_eq_nil_iff, length_eq_zero_iff] at hnone
      exact ⟨Nat.le_antisymm hread hle, hnone, hnever⟩
    · rintro ⟨hread, hlength, hnever⟩
      refine ⟨(drop_eq_nil_iff.mpr (by omega)).symm, fun _ hd => absurd hd not_mem_nil, ?_⟩
      intro id' hid'
      obtain rfl : t.file.id = id' := some.inj (hid.symm.trans hid')
      rw [hconfig]
      refine (honce _).mpr ⟨(Active.drained_eq_nil_iff ..).mpr ?_, hnever⟩
      rwa [length_eq_zero_iff]
  | deleted =>
    obtain ⟨hold, -, hgone⟩ := hg
    have hdrain := FileReader.drainFile_spec hasher fs host now h.isOpen
      hfile hbuf (r.sourceIdForPath hasher path)
    rw [Turnover.look, FileDiscovery.removeDeleted]
    generalize r.drainFile host hasher now fs path (r.sourceIdForPath hasher path) = drained
      at hdrain ⊢
    obtain ⟨-, hconfig, hdata⟩ := hdrain
    rw [hdata, hold]
    constructor
    · rintro ⟨hcomplete, -, -⟩
      exact (Active.drained_complete_iff h.tails h.hashed _).mp hcomplete
    · intro hbudget
      refine ⟨(Active.drained_complete_iff h.tails h.hashed _).mpr hbudget, ?_, ?_⟩
      · dsimp only
        rw [hconfig]
        exact Active.drained_sourceId h.tails h.hashed _
      · intro id hid
        rw [hgone] at hid
        cases hid

end Turns

/-- The path of `oneFile` leads to another file now. -/
def replacedFile (old new : Bytes) : FileSystem where
  lookup path := if path = "log" then some ⟨1, 3⟩ else none
  content id := if id = ⟨1, 2⟩ then old else new
  nlink _ := 1
  nlink_pos _ := Nat.one_pos

open Tailing in
theorem hashed_lengthHasher (content : Bytes) : Hashed lengthHasher content :=
  fun _ hne hzero => hne (length_eq_zero_iff.mp hzero)

open Tailing in
/-- A tailer that has just opened its file, over any file system. -/
theorem turns_startReader (old : Bytes) (config : TailConfig) {future : Future lengthHasher}
    {fs : FileSystem} (hallowed : ∀ id, fs.lookup "log" = some id → future.allows (fs.content id)) :
    Turns future fs (startReader plainHost lengthHasher 0 (oneFile old) config ["log"])
      "log" (freshFile lengthHasher 0 (oneFile old) config ⟨1, 2⟩) old := by
  have hfresh := startReader_freshOver plainHost lengthHasher 0 (oneFile old) config ["log"]
  refine ⟨(hfresh.files "log").trans rfl, ⟨rfl, rfl, ?_⟩, hashed_lengthHasher old, hallowed,
    fun id _ path e he => ?_⟩
  · have hoffset : config.startOffset old = 0 ∨ config.startOffset old = old.length := by
      rw [TailConfig.startOffset]
      split
      · exact .inr rfl
      · exact .inl rfl
    rw [hfresh.sameConfig]
    exact .identified (hashed_lengthHasher old) config.fingerprintBytes ⟨1, 2⟩ hoffset
  · rw [hfresh.evicted] at he
    cases he

open Tailing in
/-- Three bytes are unread and the budget is two when the path leads to
another file: the third byte is lost. -/
theorem backlog_of_replaced_file_is_lost :
    let r := startReader plainHost lengthHasher 0 (oneFile [0x61, 0x62, 0x63])
      ⟨250, 4, false, 2⟩ ["log"]
    let t := freshFile lengthHasher 0 (oneFile [0x61, 0x62, 0x63]) ⟨250, 4, false, 2⟩ ⟨1, 2⟩
    let fs := replacedFile [0x61, 0x62, 0x63] [0x64]
    Turns (.any lengthHasher) fs r "log" t [0x61, 0x62, 0x63]
      ∧ Turnover.replaced.Happened lengthHasher fs "log" t [0x61, 0x62, 0x63]
      ∧ dataEvents "log" (Turnover.replaced.look plainHost lengthHasher 0 fs r "log").2
        = [([0x61, 0x62], some 203)]
      ∧ ¬ KeepsApart (.any lengthHasher) "log" fs t [0x61, 0x62, 0x63] .replaced
          (Turnover.replaced.look plainHost lengthHasher 0 fs r "log").1
          (dataEvents "log" (Turnover.replaced.look plainHost lengthHasher 0 fs r "log").2) := by
  intro r t fs
  refine ⟨turns_startReader _ _ fun _ _ => hashed_lengthHasher _, ⟨rfl, ⟨1, 3⟩, rfl, by decide⟩,
    by decide +kernel, fun h => ?_⟩
  exact absurd h.old_complete (by decide +kernel)

open Tailing in
/-- With a budget that is enough nothing is. And a file that was read to its
end and emptied is kept apart from the two other bytes that it gets. -/
theorem short_backlog_is_kept :
    let start := fun config =>
      startReader plainHost lengthHasher 0 (oneFile [0x61, 0x62, 0x63]) config ["log"]
    let opened := fun config =>
      freshFile lengthHasher 0 (oneFile [0x61, 0x62, 0x63]) config ⟨1, 2⟩
    let noticed := fun (g : Turnover) fs config => g.look plainHost lengthHasher 0 fs
      (start config) "log"
    (let config : TailConfig := ⟨250, 4, false, 3⟩
      let fs := replacedFile [0x61, 0x62, 0x63] [0x64]
      KeepsApart (.any lengthHasher) "log" fs (opened config) [0x61, 0x62, 0x63] .replaced
        (noticed .replaced fs config).1 (dataEvents "log" (noticed .replaced fs config).2))
      ∧ (let config : TailConfig := ⟨250, 4, true, 3⟩
        let fs := oneFile []
        KeepsApart (.upTo [0x64, 0x65] (hashed_lengthHasher _)) "log" fs (opened config)
          [0x61, 0x62, 0x63] .rewritten
          (noticed .rewritten fs config).1
          (dataEvents "log" (noticed .rewritten fs config).2)) := by
  intro start opened noticed
  refine ⟨(keepsApart_iff plainHost lengthHasher (.any lengthHasher) 0 _ _ "log" _ _
      (turns_startReader _ ⟨250, 4, false, 3⟩ fun _ _ => hashed_lengthHasher _) .replaced
      ⟨rfl, ⟨1, 3⟩, rfl, by decide⟩).mpr ⟨by decide +kernel, ?_⟩,
    (keepsApart_iff plainHost lengthHasher (.upTo [0x64, 0x65] (hashed_lengthHasher _)) 0
      (oneFile []) _ "log" _ _ (turns_startReader _ ⟨250, 4, true, 3⟩ fun _ _ => nil_prefix)
      .rewritten ⟨rfl, by decide +kernel, by decide +kernel⟩).mpr ⟨rfl, .inr rfl, ?_⟩⟩
  · intro id hid content _ _ hsame _
    obtain rfl : ⟨1, 3⟩ = id := some.inj hid
    rw [hsame (by decide)]
    decide +kernel
  · intro content _ hsome _ hfront
    rcases prefix_cons_iff.mp hfront with rfl | ⟨rest, rfl, hrest⟩
    · exact absurd rfl hsome
    rcases prefix_cons_iff.mp hrest with rfl | ⟨last, rfl, hlast⟩
    · decide +kernel
    · rw [prefix_nil.mp hlast]
      decide +kernel

end FastForward.Io.Tail
