/-
Where reading goes on.

What is kept of a file says how far it has been read and which of its
first bytes it is known by. It fits the content (`Resumes`) as long as the
file only grows: either everything read is covered by the fingerprint or
the fingerprint has its full length. This is what makes a closed file be
recognised when it is opened again, and an open one not be taken for
another: both compare fingerprints of the same first bytes.
-/
import FastForward.Io.Tail.Discovery

namespace FastForward.Io.Tail

open Core Lib Pipeline List

variable {hasher : Hasher}

-- == fingerprints

variable {content' : Bytes} {n : Nat}

/-- A prefix that is long enough has the same first bytes. -/
theorem take_of_isPrefix {content : Bytes} (h : content <+: content')
    (hn : n ≤ content.length) : content'.take n = content.take n := by
  obtain ⟨more, rfl⟩ := h
  exact take_append_of_le_length hn

theorem computeFingerprint_of_isPrefix {content : Bytes} (h : content <+: content')
    (hn : n ≤ content.length) :
    computeFingerprint hasher content' n = computeFingerprint hasher content n := by
  rw [computeFingerprint, computeFingerprint, take_of_isPrefix h hn]

theorem computeFingerprint_min (content : Bytes) (n : Nat) :
    computeFingerprint hasher content (min content.length n)
      = computeFingerprint hasher content n := by
  have htake : content.take (min content.length n) = content.take n :=
    take_eq_take_iff.mpr (by omega)
  rw [computeFingerprint, computeFingerprint, htake]

/-- Content whose first bytes are not hashed to 0. -/
def Hashed (hasher : Hasher) (content : Bytes) : Prop :=
  ∀ n, content.take n ≠ [] → hasher.xxh64 (content.take n) ≠ 0

theorem computeFingerprint_eq_zero {content : Bytes} (h : Hashed hasher content) :
    computeFingerprint hasher content n = 0 ↔ min content.length n = 0 := by
  unfold computeFingerprint
  dsimp only
  split
  next hempty =>
    have hlength := congrArg length (isEmpty_iff.mp hempty)
    rw [length_take, length_nil] at hlength
    exact iff_of_true rfl (by omega)
  next hne =>
    have htake : content.take n ≠ [] := fun h0 => hne (isEmpty_iff.mpr h0)
    refine iff_of_false (h n htake) fun hmin => htake ?_
    refine length_eq_zero_iff.mp ?_
    rw [length_take]
    omega

/-- The fingerprint of a file stands for as much of it as there is. -/
theorem observedFingerprintLen_eq {content : Bytes} (h : Hashed hasher content) (n : Nat) :
    observedFingerprintLen (computeFingerprint hasher content n) content.length n
      = min content.length n := by
  have hzero := computeFingerprint_eq_zero h (n := n)
  rw [observedFingerprintLen]
  split
  next => omega
  next => rfl

/-- The identity of a file whose content is known: a file without
fingerprint gets one. -/
def FileIdentity.recognise (hasher : Hasher) (content : Bytes) (window : Nat)
    (i : FileIdentity) : FileIdentity :=
  if i.fingerprint = 0 then
    { i with fingerprint := computeFingerprint hasher content window }
  else i

theorem FileIdentity.recognise_of_known {i : FileIdentity} {window : Nat}
    (h : i.fingerprint ≠ 0 ∨ window = 0) (content : Bytes) :
    i.recognise hasher content window = i := by
  rw [recognise]
  split
  next hzero =>
    obtain rfl := h.resolve_left (not_not_intro hzero)
    have hnone : computeFingerprint hasher content 0 = i.fingerprint := by
      rw [hzero]
      rfl
    rw [hnone]
  next => rfl

-- == what is kept of a file

/-- What is kept of a file fits its content. -/
structure Resumes (hasher : Hasher) (window : Nat) (id : FileId) (content : Bytes)
    (identity : FileIdentity) (comparison len offset : Nat) : Prop where
  device : identity.device = id.device
  inode : identity.inode = id.inode
  offset_le : offset ≤ content.length
  len_le : len ≤ content.length
  len_le_window : len ≤ window
  comparison : comparison = computeFingerprint hasher content len
  /-- The fingerprint covers what was read, or is as long as can be. -/
  covers : offset ≤ len ∨ len = window
  /-- The file was recognised by some of the same bytes, or by none. -/
  recognised : ∃ n, n ≤ len ∧ (n = 0 → len = 0)
    ∧ identity.fingerprint = computeFingerprint hasher content n

namespace Resumes

variable {window : Nat} {id : FileId} {content : Bytes} {identity : FileIdentity}
  {comparison len offset : Nat}
  (h : Resumes hasher window id content identity comparison len offset)

include h

/-- More content changes nothing of it. -/
theorem grow {content' : Bytes} (hgrow : content <+: content') :
    Resumes hasher window id content' identity comparison len offset := by
  have hlength := hgrow.length_le
  obtain ⟨n, hn, hzero, hidentity⟩ := h.recognised
  exact {
    device := h.device
    inode := h.inode
    offset_le := Nat.le_trans h.offset_le hlength
    len_le := Nat.le_trans h.len_le hlength
    len_le_window := h.len_le_window
    comparison := by rw [h.comparison, computeFingerprint_of_isPrefix hgrow h.len_le]
    covers := h.covers
    recognised := by
      refine ⟨n, hn, hzero, ?_⟩
      rw [hidentity, computeFingerprint_of_isPrefix hgrow (Nat.le_trans hn h.len_le)] }

/-- A file without fingerprint is one of which nothing is covered. -/
theorem fingerprint_eq_zero
    (hhash : Hashed hasher content) : identity.fingerprint = 0 ↔ len = 0 := by
  obtain ⟨n, hn, hzero, hidentity⟩ := h.recognised
  have hle := h.len_le
  rw [hidentity, computeFingerprint_eq_zero hhash]
  omega

theorem comparison_eq_zero (hhash : Hashed hasher content) : comparison = 0 ↔ len = 0 := by
  have hle := h.len_le
  rw [h.comparison, computeFingerprint_eq_zero hhash]
  omega

omit h

/-- A file as it is first seen. -/
theorem identified (hhash : Hashed hasher content) (window : Nat) (id : FileId)
    (hoffset : offset = 0 ∨ offset = content.length) :
    Resumes hasher window id content
      ⟨id.device, id.inode, computeFingerprint hasher content window⟩
      (computeFingerprint hasher content window)
      (observedFingerprintLen (computeFingerprint hasher content window) content.length window)
      offset := by
  rw [observedFingerprintLen_eq hhash]
  exact {
    device := rfl
    inode := rfl
    offset_le := by omega
    len_le := Nat.min_le_left ..
    len_le_window := Nat.min_le_right ..
    comparison := (computeFingerprint_min content window).symm
    covers := by omega
    recognised := ⟨_, Nat.le_refl _, fun h => h, (computeFingerprint_min content window).symm⟩ }

theorem read_on (h : Resumes hasher window id content identity comparison len offset)
    {offset' : Nat} (hle : offset' ≤ content.length) (hcovers : offset' ≤ len ∨ len = window) :
    Resumes hasher window id content identity comparison len offset' :=
  { h with offset_le := hle, covers := hcovers }

end Resumes

-- == opening again

variable {id : FileId}

/-- A closed file that has only grown is recognised, unless nothing of it
was known. -/
theorem evictedMatchesOpenFile_of_resumes {window : Nat} {content : Bytes} {e : EvictedFile}
    (h : Resumes hasher window id content e.identity e.comparisonFingerprint e.fingerprintLen
      e.offset) (hhash : Hashed hasher content) :
    evictedMatchesOpenFile hasher e
        ⟨id.device, id.inode, computeFingerprint hasher content window⟩ content content.length
        window
      ∨ e.identity.fingerprint = 0 ∧ e.offset = 0 ∧ 0 < window := by
  have hcovers := h.covers
  have hwindow := h.len_le_window
  rw [evictedMatchesOpenFile, if_neg (by simp [h.device, h.inode])]
  by_cases hlen : e.fingerprintLen = 0
  · have hcomparison := (h.comparison_eq_zero hhash).mpr hlen
    rw [if_pos hlen, hcomparison]
    by_cases hnow : computeFingerprint hasher content window = 0
    · exact .inl (by rw [hnow]; rfl)
    · have hpos : 0 < window := by
        rw [computeFingerprint_eq_zero hhash] at hnow
        omega
      exact .inr ⟨(h.fingerprint_eq_zero hhash).mpr hlen, by omega, hpos⟩
  · refine .inl ?_
    rw [if_neg hlen]
    by_cases hshort : e.fingerprintLen < window
    · rw [if_pos hshort]
      rw [if_neg (Decidable.not_not.mpr h.comparison)]
      exact decide_eq_true (.inl (by omega))
    · have hfull : e.fingerprintLen = window := by omega
      rw [if_neg hshort, h.comparison, hfull]
      exact beq_self_eq_true _

-- == no rotation

/-- An open file that has only grown is not taken for another. -/
theorem shouldIdentityRotate_of_resumes {window : Nat} {content : Bytes} {t : Active}
    (h : Resumes hasher window id content t.identity t.comparisonFingerprint t.fingerprintLen
      t.offset) (hhash : Hashed hasher content) {fingerprintBytes : Nat}
    (hbytes : fingerprintBytes
      = if 0 < t.fingerprintLen ∧ t.fingerprintLen < window then t.fingerprintLen else window) :
    shouldIdentityRotate { t.identity with fingerprint := t.comparisonFingerprint }
      ⟨id.device, id.inode, computeFingerprint hasher content fingerprintBytes⟩
      t.fingerprintLen = false := by
  have hwindow := h.len_le_window
  rw [shouldIdentityRotate, if_neg (by simp [h.device, h.inode])]
  by_cases hlen : t.fingerprintLen = 0
  · rw [if_pos ((h.comparison_eq_zero hhash).mpr hlen)]
  · have hsame : fingerprintBytes = t.fingerprintLen := by
      rw [hbytes]
      split
      next => rfl
      next => omega
    rw [if_neg fun hzero => hlen ((h.comparison_eq_zero hhash).mp hzero), hsame]
    exact decide_eq_false fun hne => hne.2 h.comparison

-- == reading

namespace Active

/-- A file after `n` more bytes. -/
def advance (t : Active) (content : Bytes) (n : Nat) : Active :=
  { t with
    file := { t.file with cursor := t.file.cursor + n }
    readBuf := t.readBuf ++ (content.drop t.file.cursor).take n
    offset := t.offset + n }

theorem advance_zero (t : Active) (content : Bytes) : t.advance content 0 = t := by
  simp [advance]

theorem advance_advance (t : Active) (content : Bytes) (m n : Nat) :
    (t.advance content m).advance content n = t.advance content (m + n) := by
  simp only [advance, append_assoc, take_add, drop_drop, Nat.add_assoc]

variable {t : Active}

/-- The loop reads on from the cursor until the budget is used up or the
file ends. -/
theorem readLoop_eq (host : Host) (now : Nat) (content : Bytes) (budget : Nat) {fuel : Nat}
    {bytesRead : Nat} (hcursor : t.file.cursor ≤ content.length)
    (hfuel : budget ≤ bytesRead + fuel) :
    readLoop host now content budget fuel t bytesRead
      = (t.advance content (min (budget - bytesRead) (content.length - t.file.cursor)),
          bytesRead + min (budget - bytesRead) (content.length - t.file.cursor)) := by
  induction fuel generalizing t bytesRead with
  | zero =>
    have hzero : min (budget - bytesRead) (content.length - t.file.cursor) = 0 := by omega
    rw [hzero, advance_zero]
    rfl
  | succ fuel ih =>
    generalize hleft : min (budget - bytesRead) (content.length - t.file.cursor) = left
    rw [readLoop]
    dsimp only
    split
    next hbudget =>
      have hzero : left = 0 := by omega
      rw [hzero, advance_zero]
      rfl
    next hbudget =>
      generalize hwant : min (budget - bytesRead) (host.bufferRoom now t.file.cursor) = want
      have hpos : 0 < host.readLen now t.file.cursor want := by
        refine host.readLen_pos _ _ ?_
        have := host.bufferRoom_pos now t.file.cursor
        omega
      have hmost := host.readLen_le now t.file.cursor want
      rw [File.read]
      dsimp only
      generalize hgot : ((content.drop t.file.cursor).take
        (host.readLen now t.file.cursor want)) = got
      have hlength := congrArg length hgot
      rw [length_take, length_drop] at hlength
      have htake : got = (content.drop t.file.cursor).take got.length := by
        rw [← hgot]
        exact take_eq_take_iff.mpr (by rw [length_take]; omega)
      split
      next hempty =>
        have hnone := congrArg length (isEmpty_iff.mp hempty)
        rw [length_nil] at hnone
        have hzero : left = 0 := by omega
        rw [hnone, hzero, advance_zero]
        rfl
      next hne =>
        have hadvance : { t with
            file := { t.file with cursor := t.file.cursor + got.length }
            readBuf := t.readBuf ++ got
            offset := t.offset + got.length } = t.advance content got.length := by
          rw [advance, ← htake]
        have hsome : 0 < got.length := length_pos_iff.mpr fun h =>
          hne (isEmpty_iff.mpr h)
        -- what is left after this pass
        have hrest : left = got.length + min (budget - (bytesRead + got.length))
                (content.length - (t.file.cursor + got.length)) := by omega
        rw [hadvance, ih
          (by show t.file.cursor + got.length ≤ _; omega) (by omega), advance_advance, hrest,
          Nat.add_assoc]
        rfl

def afterRead (hasher : Hasher) (now : Nat) (content : Bytes) (budget window : Nat)
    (t : Active) : Active :=
  let n := min budget (content.length - t.file.cursor)
  { t with
    file := { t.file with cursor := t.file.cursor + n }
    offset := t.offset + n
    lastRead := now }.promote hasher content window

variable {budget : Nat}

theorem read_eq (hasher : Hasher) (host : Host) (now : Nat) (content : Bytes) (hbudget : 0 < budget)
    (hbuf : t.readBuf = []) (hcursor : t.file.cursor < content.length)
    (window : Nat) :
    let (t', bytesRead) := readLoop host now content budget budget t 0
    bytesRead ≠ 0 ∧ t'.readBuf = (content.drop t.file.cursor).take budget
      ∧ { t' with readBuf := [], lastRead := now }.promote hasher content window
        = t.afterRead hasher now content budget window := by
  rw [readLoop_eq host now content budget (Nat.le_of_lt hcursor) (by omega)]
  dsimp only [advance, afterRead]
  rw [hbuf]
  refine ⟨by omega, ?_, rfl⟩
  exact take_eq_take_iff.mpr (by rw [length_drop]; omega)

/-- What is read of a file, whatever has become of its content. -/
theorem readNewData_eq (hasher : Hasher) (host : Host) (now : Nat) (fs : FileSystem) {id : FileId}
    (hfile : t.file = ⟨id, t.offset⟩) (hbuf : t.readBuf = [])
    (hbudget : 0 < budget) (window : Nat) :
    t.readNewData host hasher now fs budget window
      = let content := fs.content id
        let restarted := t.restart hasher content window
        if content.length < t.offset then
          if content.length = 0 then (.truncated, restarted)
          else (.truncatedThenData (content.take budget),
            restarted.afterRead hasher now content budget window)
        else if content.length = t.offset then (.noData, t)
        else (.data ((content.drop t.offset).take budget),
          t.afterRead hasher now content budget window) := by
  have hid : t.file.id = id := by rw [hfile]
  have hcursor : t.file.cursor = t.offset := by rw [hfile]
  unfold readNewData
  rw [FileSystem.size, hid]
  dsimp only
  generalize hcontent : fs.content id = content
  by_cases htruncated : content.length < t.offset
  · rw [decide_eq_true htruncated, if_pos rfl, if_pos htruncated]
    by_cases hempty : content.length = 0
    · rw [if_pos (by rw [hempty]; exact Nat.zero_le _), if_pos hempty]
      rfl
    · rw [if_neg (by show ¬ content.length ≤ 0; omega), if_neg hempty]
      have hread := read_eq hasher host now content hbudget
        (t := t.restart hasher content window) rfl (by show 0 < _; omega) window
      obtain ⟨hsome, hbytes, hafter⟩ := hread
      rw [if_neg hsome, hafter, hbytes]
      rfl
  · rw [decide_eq_false htruncated, if_neg Bool.false_ne_true, if_neg htruncated]
    by_cases hend : content.length = t.offset
    · rw [if_pos (Nat.le_of_eq hend), if_pos hend]
      rfl
    · rw [if_neg (by omega), if_neg hend]
      have hread := read_eq hasher host now content hbudget hbuf (by rw [hcursor]; omega) window
      obtain ⟨hsome, hbytes, hafter⟩ := hread
      rw [if_neg hsome, if_neg Bool.false_ne_true, hafter, hbytes, hcursor]

variable {window : Nat}

/-- Taking the fingerprint again covers what was read in the meantime. -/
theorem promote_resumes {id : FileId} {content : Bytes}
    {offset : Nat}
    (h : Resumes hasher window id content t.identity t.comparisonFingerprint t.fingerprintLen
      offset) (hhash : Hashed hasher content) (hle : t.offset ≤ content.length)
    (hsome : content ≠ []) :
    ∃ comparison len, t.promote hasher content window
        = { t with
            identity := t.identity.recognise hasher content window
            comparisonFingerprint := comparison
            fingerprintLen := len }
      ∧ Resumes hasher window id content (t.identity.recognise hasher content window) comparison
          len t.offset := by
  have hwindow := h.len_le_window
  have hpos := length_pos_iff.mpr hsome
  have hunknown := h.fingerprint_eq_zero hhash
  rw [promote]
  split
  next hmore =>
    have hnew : computeFingerprint hasher content window ≠ 0 := by
      rw [Ne, computeFingerprint_eq_zero hhash]
      omega
    obtain ⟨n, hn, hzero, hidentity⟩ := h.recognised
    rw [if_pos hnew, observedFingerprintLen_eq hhash]
    refine ⟨_, _, rfl, ?_⟩
    refine {
      device := by rw [FileIdentity.recognise]; split <;> exact h.device
      inode := by rw [FileIdentity.recognise]; split <;> exact h.inode
      offset_le := hle
      len_le := Nat.min_le_left ..
      len_le_window := Nat.min_le_right ..
      comparison := (computeFingerprint_min content window).symm
      covers := by omega
      recognised := ?_ }
    rw [FileIdentity.recognise]
    split
    next => exact ⟨_, Nat.le_refl _, fun h => h, (computeFingerprint_min content window).symm⟩
    next hne => exact ⟨n, by omega, fun h0 => absurd (hunknown.mpr (hzero h0)) hne, hidentity⟩
  next hsame =>
    -- all there is to know of the file is known
    rw [FileIdentity.recognise_of_known (by omega)]
    exact ⟨_, _, rfl, h.read_on hle (by omega)⟩

/-- An open file whose state fits its content. -/
structure Tails (hasher : Hasher) (window : Nat) (id : FileId) (content : Bytes) (t : Active) :
    Prop where
  file : t.file = ⟨id, t.offset⟩
  readBuf : t.readBuf = []
  resumes : Resumes hasher window id content t.identity t.comparisonFingerprint
    t.fingerprintLen t.offset

/-- A file that has only grown is read on, and nothing else. -/
theorem readNewData_of_tails (host : Host) (now : Nat) {fs : FileSystem} {id : FileId}
    (h : t.Tails hasher window id (fs.content id)) (hhash : Hashed hasher (fs.content id))
    (hbudget : 0 < budget) :
    t.readNewData host hasher now fs budget window = (.noData, t)
        ∧ t.offset = (fs.content id).length
      ∨ ∃ n t', 0 < n
        ∧ t.readNewData host hasher now fs budget window
          = (.data (((fs.content id).drop t.offset).take n), t')
        ∧ t'.Tails hasher window id (fs.content id) ∧ t'.offset = t.offset + n
        ∧ t'.identity = t.identity.recognise hasher (fs.content id) window := by
  have hle := h.resumes.offset_le
  rw [readNewData_eq hasher host now fs h.file h.readBuf hbudget window]
  rw [if_neg (Nat.not_lt.mpr hle)]
  split
  next hend => exact .inl ⟨rfl, hend.symm⟩
  next hend =>
    have hcursor : t.file.cursor = t.offset := by rw [h.file]
    generalize hn : min budget ((fs.content id).length - t.file.cursor) = n
    have hsome : fs.content id ≠ [] := fun h0 => by rw [h0, length_nil] at hend hle; omega
    obtain ⟨comparison, len, hpromote, hresumes⟩ := promote_resumes (t := { t with
        file := { t.file with cursor := t.file.cursor + n }
        offset := t.offset + n
        lastRead := now })
      h.resumes hhash (by show t.offset + n ≤ _; omega) hsome
    have hafter : t.afterRead hasher now (fs.content id) budget window
        = { t with
            identity := t.identity.recognise hasher (fs.content id) window
            comparisonFingerprint := comparison
            fingerprintLen := len
            file := { t.file with cursor := t.file.cursor + n }
            offset := t.offset + n
            lastRead := now } := by
      rw [afterRead, hn]
      exact hpromote
    have hbytes : ((fs.content id).drop t.offset).take budget
        = ((fs.content id).drop t.offset).take n :=
      take_eq_take_iff.mpr (by rw [length_drop]; omega)
    rw [hafter, hbytes]
    refine .inr ⟨n, _, by omega, rfl, ⟨?_, h.readBuf, hresumes⟩, rfl, rfl⟩
    rw [h.file]

end Active

-- == looking again

/-- Looking at a file that has only grown changes nothing. -/
theorem detectChange_of_tails (host : Host) (now : Nat) {fs : FileSystem} {r : FileReader}
    {path : Path} {t : Active} (hid : fs.lookup path = some id)
    (ht : r.files[path]? = some t)
    (htails : t.Tails hasher r.config.fingerprintBytes id (fs.content id))
    (hhash : Hashed hasher (fs.content id)) :
    detectChange host hasher now fs r path = (r, [], false) := by
  have hlinked : fs.hasMetadataIndicatingDeletion t.file = false := by
    have hpos := fs.nlink_pos hid
    rw [htails.file]
    exact beq_false_of_ne (by show fs.nlink id ≠ 0; omega)
  unfold detectChange
  rw [FileSystem.pathExists, hid]
  dsimp only
  rw [if_neg (show ¬ (!(some id).isSome) = true by exact nofun), identifyFile,
    FileSystem.openFile, hid, ht]
  dsimp only [Option.map_some, identifyOpenFile]
  rw [isRotated, ht, Option.any_some, hlinked, shouldRotateFile,
    shouldIdentityRotate_of_resumes htails.resumes hhash (by rfl), Bool.or_false,
    if_neg Bool.false_ne_true, if_neg (by exact nofun)]

end FastForward.Io.Tail
