/-
Lines that are too long to be kept.

Of an unfinished line that is too long only its last bytes are kept, and
the remainder is marked for as long as the line goes on. When its
newline comes the fragment is skipped, so that the lines emitted are
lines of the stream (`Keeps`, `Keeps.read`).

One step does not keep this. A marked source that reads a newline and
behind it again more than can be kept marks the new remainder first and
then clears the mark of the old one, so the new fragment is not marked.
`Fits` is every other step.
-/
import FastForward.Lib.Run
import FastForward.Io.Proofs.Chunking

namespace FastForward.Io

open Core Lib Pipeline List Ascii Segments Option

-- == the first newline

/-- A stream that opens with part of a line, and then has a newline. -/
theorem lines_append_newline {front line : Bytes} (hfront : newline ∉ front)
    (hline : newline ∉ line) (rest : Bytes) :
    closedLines (front ++ (line ++ newline :: rest)) = (front ++ line) :: closedLines rest
      ∧ unfinishedLine (front ++ (line ++ newline :: rest)) = unfinishedLine rest := by
  have hopen : ∀ b ∈ front ++ line, isNewline b = false := by
    refine forall_isNewline.mpr fun hmem => ?_
    exact (mem_append.mp hmem).elim hfront hline
  rw [← append_assoc]
  constructor
  · rw [closedLines, closed_append_cons isNewline_newline, splitOnP_eq_singleton hopen]
    rfl
  · exact rest_append_cons isNewline_newline

-- == passing lines through

/-- Lines that are emitted at once, as they are. -/
def emitLines (lines : List Bytes) : List Emitted :=
  if lines.isEmpty then [] else [⟨terminated lines, none⟩]

theorem bytes_emitLines (lines : List Bytes) :
    (emitLines lines).flatMap (·.bytes) = terminated lines := by
  cases lines with
  | nil => rfl
  | cons line lines => simp [emitLines]

theorem terminated_ne_nil (line : Bytes) (lines : List Bytes) :
    terminated (line :: lines) ≠ [] := by
  rw [terminated_cons]
  exact append_ne_nil_of_right_ne_nil _ (cons_ne_nil _ _)

namespace SourceState

variable {s : SourceState}

theorem decode_nil (s : SourceState) : s.decode (terminated []) = (s, []) :=
  decode_terminated s fun _ h => absurd h not_mem_nil

theorem decode_emitLines (h : s.format.isPassthrough) (lines : List Bytes) :
    s.decode (terminated lines) = (s, emitLines lines) := by
  cases lines with
  | nil => exact decode_nil s
  | cons line lines => exact decode_passthrough h (terminated_ne_nil line lines)

variable {line : Bytes}

/-- The first line of a marked remainder is skipped, and the mark is
cleared. -/
theorem complete_tainted (hline : newline ∉ line) (lines : List Bytes) :
    s.complete true (terminated (line :: lines))
      = { s with overflowTainted := false }.decode (terminated lines) := by
  have hskip : FramedInput.skipFragment true (terminated (line :: lines)) s
      = (line.length + 1, { s with overflowTainted := false }) := by
    rw [FramedInput.skipFragment, if_pos rfl, terminated_cons, memchr_append_cons hline]
  have hdrop : (terminated (line :: lines)).drop (line.length + 1) = terminated lines := by
    exact drop_left' (by simp)
  unfold complete
  rw [hskip]
  dsimp only
  rw [hdrop]
  cases lines with
  | nil =>
    rw [if_neg (by simp [terminated])]
    exact (decode_nil _).symm
  | cons next lines =>
    rw [if_pos]
    have hpos := length_pos_iff.mpr (terminated_ne_nil next lines)
    rw [terminated_cons, length_append, length_cons]
    omega

theorem remainder_keepTail_isSuffix {tail : Bytes} : (s.keepTail tail).remainder <:+ tail := by
  rw [keepTail]
  split
  next =>
    dsimp only
    exact drop_suffix _ tail
  next => exact suffix_rfl

/-- Data with a newline: the line it ends is emitted, or skipped if its
start was lost. -/
theorem read_of_newline (h : s.format.isPassthrough)
    (hremainder : newline ∉ s.remainder) (hline : newline ∉ line)
    (rest : Bytes) :
    ∃ next : Option CheckpointTracker, s.read (line ++ newline :: rest)
      = next.map fun tracker =>
          let kept := { s with remainder := [], tracker }.keepTail (unfinishedLine rest)
          if s.overflowTainted then
            ({ kept with overflowTainted := false }, emitLines (closedLines rest))
          else (kept, emitLines ((s.remainder ++ line) :: closedLines rest)) := by
  obtain ⟨hclosed, hopen⟩ := lines_append_newline hremainder hline rest
  have hfront : newline ∉ s.remainder ++ line := fun hmem =>
    (mem_append.mp hmem).elim hremainder hline
  cases hpos : memrchr newline (s.remainder ++ (line ++ newline :: rest)) with
  | none => exact absurd (by simp) (memrchr_eq_none.mp hpos)
  | some pos =>
    refine ⟨s.tracker.applyRead (line ++ newline :: rest).length
      (FramedInput.newlineInNewBytes (some pos) s.remainder.length), ?_⟩
    rw [read_of_some hpos]
    refine map_congr fun tracker _ => ?_
    have hkept := isPassthrough_keepTail (s := { s with remainder := [], tracker }) h
      (unfinishedLine rest)
    rw [cutTail_eq rfl hpos, hclosed, hopen]
    generalize keepTail _ (unfinishedLine rest) = kept at hkept ⊢
    cases s.overflowTainted with
    | true =>
      rw [complete_tainted hfront, decode_emitLines (by exact hkept)]
      rfl
    | false =>
      rw [complete_untainted (terminated_ne_nil _ _)]
      exact decode_emitLines hkept _

end SourceState

-- == the invariant

/-- A source that has read a stream: its remainder is the line the stream
leaves unfinished, or the end of it if it is marked as too long. -/
structure Keeps (stream : Bytes) (s : SourceState) : Prop where
  passthrough : s.format.isPassthrough = true
  suffix : s.remainder <:+ unfinishedLine stream
  whole : s.overflowTainted = false → s.remainder = unfinishedLine stream
  long : s.overflowTainted = true →
    s.remainder ≠ [] ∧ maxRemainderBytes < (unfinishedLine stream).length

/-- Lines that are some of the lines `all`, in order: at least those that
can be kept. -/
def WritesSome (all : List Bytes) (written : Bytes) : Prop :=
  ∃ lines, lines.Sublist all ∧ written = terminated lines
    ∧ ∀ line ∈ all, line.length ≤ maxRemainderBytes → line ∈ lines

theorem WritesSome.nil : WritesSome [] [] := ⟨[], .slnil, rfl, fun _ h _ => h⟩

variable {all : List Bytes}

theorem WritesSome.append {more : List Bytes} {written bytes : Bytes}
    (h : WritesSome all written) (hmore : WritesSome more bytes) :
    WritesSome (all ++ more) (written ++ bytes) := by
  obtain ⟨lines, hlines, rfl, hfit⟩ := h
  obtain ⟨added, hadded, rfl, hfitMore⟩ := hmore
  refine ⟨lines ++ added, hlines.append hadded, flatMap_append.symm, fun line hline hlength => ?_⟩
  exact mem_append.mpr ((mem_append.mp hline).imp (hfit line · hlength) (hfitMore line · hlength))

/-- All the lines. -/
theorem WritesSome.emitLines (lines : List Bytes) :
    WritesSome lines ((emitLines lines).flatMap (·.bytes)) :=
  ⟨lines, .refl _, bytes_emitLines lines, fun _ h _ => h⟩

/-- A line that is too long need not be there. -/
theorem WritesSome.skip {line written : Bytes} (hlong : maxRemainderBytes < line.length)
    (h : WritesSome all written) : WritesSome (line :: all) written := by
  obtain ⟨lines, hlines, rfl, hfit⟩ := h
  refine ⟨lines, hlines.cons line, rfl, fun other hother hlength => ?_⟩
  rcases mem_cons.mp hother with rfl | hother
  · exact absurd hlength (Nat.not_le_of_lt hlong)
  · exact hfit other hother hlength

/-- The line that an end of file completes, if there is one. -/
def lastLine (stream : Bytes) : List Bytes :=
  if (unfinishedLine stream).isEmpty then [] else [unfinishedLine stream]

/-- A marked source that reads a newline reads no more behind it than can
be kept. -/
def SourceState.Fits (s : SourceState) (bytes : Bytes) : Prop :=
  s.overflowTainted = true → newline ∈ bytes →
    (unfinishedLine bytes).length ≤ maxRemainderBytes

namespace Keeps

variable {stream : Bytes} {s : SourceState} {template : FormatDecoder}

theorem noNewline (h : Keeps stream s) : newline ∉ s.remainder :=
  fun hmem => newline_notMem_unfinishedLine stream (h.suffix.subset hmem)

theorem fresh (h : template.isPassthrough)
    (hstream : unfinishedLine stream = []) : Keeps stream (.fresh template) where
  passthrough := by
    cases template with
    | passthrough | passthroughJson => rfl
    | cri a name | auto a name => cases h
  suffix := nil_suffix
  whole _ := hstream.symm
  long := nofun

theorem keepTail (hpass : s.format.isPassthrough) {tail : Bytes}
    (hsuffix : tail <:+ unfinishedLine stream)
    (hwhole : s.overflowTainted = false → tail = unfinishedLine stream)
    (hlong : s.overflowTainted = true →
      tail ≠ [] ∧ maxRemainderBytes < (unfinishedLine stream).length) :
    Keeps stream (s.keepTail tail) := by
  refine ⟨SourceState.isPassthrough_keepTail hpass tail,
    SourceState.remainder_keepTail_isSuffix.trans hsuffix, ?_, fun htaint => ?_⟩
  · rw [SourceState.keepTail]
    split
    next =>
      intro htaint
      cases htaint
    next => exact hwhole
  · by_cases htail : maxRemainderBytes < tail.length
    · exact ⟨SourceState.remainder_keepTail_ne_nil
        (length_pos_iff.mp (Nat.zero_lt_of_lt htail)),
        Nat.lt_of_lt_of_le htail hsuffix.length_le⟩
    · rw [SourceState.keepTail, if_neg htail] at htaint ⊢
      exact hlong htaint

/-- Forgetting a source with nothing pending loses nothing. -/
theorem retained (h : Keeps stream s) (htemplate : template.isPassthrough) (reclaim : Bool) :
    Keeps stream ((s.retained reclaim).getD (.fresh template)) := by
  rw [SourceState.retained]
  split
  next hreclaim =>
    obtain ⟨-, hdone⟩ := Bool.and_eq_true_iff.mp hreclaim
    simp only [SourceState.isReclaimable, Bool.and_eq_true, List.isEmpty_iff,
      Bool.not_eq_true'] at hdone
    exact fresh htemplate ((h.whole hdone.1.2).symm.trans hdone.1.1)
  next => exact h

/-- Data that fits. -/
theorem read (h : Keeps stream s) {bytes : Bytes} (hfits : s.Fits bytes)
    {r : SourceState × List Emitted} (hr : s.read bytes = some r) :
    Keeps (stream ++ bytes) r.1
      ∧ WritesSome (closedLines (unfinishedLine stream ++ bytes)) (r.2.flatMap (·.bytes)) := by
  by_cases hnewline : newline ∈ bytes
  · -- the first newline ends the unfinished line
    obtain ⟨line, rest, rfl, hline⟩ := eq_append_cons_of_mem hnewline
    have hclosed := (lines_append_newline (newline_notMem_unfinishedLine stream) hline rest).1
    have hopen : ∀ front : Bytes,
        unfinishedLine (front ++ (line ++ newline :: rest)) = unfinishedLine rest := by
      intro front
      rw [← append_assoc]
      exact rest_append_cons isNewline_newline
    obtain ⟨next, hread⟩ := SourceState.read_of_newline h.passthrough h.noNewline hline rest
    rw [hread] at hr
    obtain ⟨tracker, -, rfl⟩ := map_eq_some_iff.mp hr
    rw [hclosed]
    split
    next htaint =>
      have hshort : (unfinishedLine rest).length ≤ maxRemainderBytes := by
        rw [← hopen []]
        exact hfits htaint hnewline
      refine ⟨?_, .skip ?_ (.emitLines _)⟩
      · rw [keepTail_of_le hshort]
        exact ⟨h.passthrough, hopen stream ▸ suffix_rfl, fun _ => (hopen stream).symm, nofun⟩
      · rw [length_append]
        exact Nat.lt_add_right _ (h.long htaint).2
    next htaint =>
      refine ⟨keepTail (by exact h.passthrough) (hopen stream ▸ suffix_rfl)
        (fun _ => (hopen stream).symm) (absurd · htaint), ?_⟩
      rw [h.whole (Bool.eq_false_iff.mpr htaint)]
      exact .emitLines _
  · -- the unfinished line goes on
    have hchunk : newline ∉ s.remainder ++ bytes := fun hmem =>
      (mem_append.mp hmem).elim h.noNewline hnewline
    rw [SourceState.read_of_none (memrchr_eq_none.mpr hchunk)] at hr
    obtain ⟨tracker, -, rfl⟩ := map_eq_some_iff.mp hr
    have hopen := (lines_append_of_notMem stream hnewline).2
    have hclosed : closedLines (unfinishedLine stream ++ bytes) = [] := by
      refine closed_of_forall (forall_isNewline.mpr fun hmem => ?_)
      exact (mem_append.mp hmem).elim (newline_notMem_unfinishedLine stream) hnewline
    rw [hclosed]
    refine ⟨keepTail (by exact h.passthrough) ?_ (fun htaint => ?_) (fun htaint => ?_), .nil⟩ <;>
      rw [hopen]
    · obtain ⟨front, hfront⟩ := h.suffix
      exact ⟨front, by rw [← append_assoc, hfront]⟩
    · rw [h.whole htaint]
    · rw [length_append]
      exact ⟨append_ne_nil_of_left_ne_nil (h.long htaint).1 _,
        Nat.lt_add_right _ (h.long htaint).2⟩

theorem flush (h : Keeps stream s) :
    Keeps [] s.flush.1 ∧ WritesSome (lastLine stream) (s.flush.2.flatMap (·.bytes)) := by
  have hkept : ∀ tracker, Keeps [] { s with remainder := [], tracker, overflowTainted := false } :=
    fun _ => ⟨h.passthrough, nil_suffix, fun _ => rest_nil.symm, nofun⟩
  rw [SourceState.flush]
  split
  next hempty =>
    have htaint : s.overflowTainted = false :=
      Bool.eq_false_iff.mpr fun htaint => (h.long htaint).1 (isEmpty_iff.mp hempty)
    have hlast : lastLine stream = [] := by rw [lastLine, ← h.whole htaint, if_pos hempty]
    rw [hlast]
    refine ⟨⟨h.passthrough, isEmpty_iff.mp hempty ▸ nil_suffix, fun _ => ?_,
      fun htrue => absurd htrue (Bool.eq_false_iff.mp htaint)⟩, .nil⟩
    rw [isEmpty_iff.mp hempty, unfinishedLine, rest_nil]
  next hremainder =>
    have hlength : (s.remainder ++ [newline]).length = s.remainder.length + 1 := by simp
    dsimp only
    cases htaint : s.overflowTainted with
    | true =>
      obtain ⟨-, hlong⟩ := h.long htaint
      have hlast : lastLine stream = [unfinishedLine stream] := by
        refine if_neg fun hempty => ?_
        rw [isEmpty_iff.mp hempty] at hlong
        cases hlong
      rw [memchr_append_cons h.noNewline, if_neg (by rw [hlength]; exact lt_irrefl _), hlast]
      exact ⟨hkept _, .skip hlong .nil⟩
    | false =>
      have hline : s.remainder ++ [newline] = terminated [s.remainder] := by
        rw [terminated_cons]
        rfl
      rw [if_neg Bool.false_ne_true, if_pos (by rw [hlength]; omega), drop_zero, hline,
        SourceState.decode_emitLines (by exact h.passthrough)]
      refine ⟨hkept _, ?_⟩
      rw [lastLine, ← h.whole htaint, if_neg hremainder]
      exact .emitLines _

end Keeps

-- == runs

/-- What a source gives: data, or the end of its file. -/
inductive Arrival
  | data (bytes : Bytes)
  | endOfFile

def Arrival.event (key : Option SourceId) : Arrival → SourceEvent UInt8 Unit
  | .data bytes => .data bytes key bytes.length none
  | .endOfFile => .endOfFile key

/-- A wrapper, with what it has read of a source and emitted for it. -/
structure Followed where
  framed : FramedInput
  /-- The stream since its start or the last end of file. -/
  stream : Bytes
  /-- The lines before it. -/
  ended : List Bytes
  emitted : Bytes

namespace Followed

def start (shouldReclaim : Bool) (template : FormatDecoder) : Followed :=
  { framed := .new shouldReclaim template, stream := [], ended := [], emitted := [] }

/-- The complete lines of the source: each goes from a newline, the start
or an end of file to a newline or an end of file. -/
def completeLines (r : Followed) : List Bytes := r.ended ++ closedLines r.stream

/-- An arrival was handled: the wrapper is `framed` now, and has emitted
`bytes`. -/
def next (r : Followed) (framed : FramedInput) (bytes : Bytes) : Arrival → Followed
  | .data data => { r with framed, stream := r.stream ++ data, emitted := r.emitted ++ bytes }
  | .endOfFile =>
    { framed, stream := [], ended := r.completeLines ++ lastLine r.stream
      emitted := r.emitted ++ bytes }

section Receive

variable (keyOrder : BTreeMap (Option SourceId) SourceState → List (Option SourceId))
  (key : Option SourceId)

def receive (arrival : Arrival) (r : Followed) : Option Followed :=
  (r.framed.processRawEvents keyOrder [arrival.event key]).map fun p =>
    r.next p.1 ((emittedFor key p.2).flatMap (·.bytes)) arrival

/-- Every step but a newline for a marked source with more behind it than
can be kept. -/
def Fits (r : Followed) : Arrival → Prop
  | .data bytes => (r.framed.entry key).Fits bytes
  | .endOfFile => True

variable {keyOrder key} {r r' : Followed}

/-- A step, seen from the source. -/
theorem receive_view (hperm : ∀ m, (keyOrder m).Perm m.keys) {arrival : Arrival}
    (h : receive keyOrder key arrival r = some r') :
    ∃ framed outputs, r' = r.next framed (outputs.flatMap (·.bytes)) arrival
      ∧ entryStep r.framed.shouldReclaim r.framed.formatTemplate key r.framed.sources[key]?
          (arrival.event key) = some (framed.sources[key]?, outputs)
      ∧ framed.shouldReclaim = r.framed.shouldReclaim
      ∧ framed.formatTemplate = r.framed.formatTemplate := by
  obtain ⟨p, hp, rfl⟩ := map_eq_some_iff.mp h
  have hprocess := FramedInput.processRawEvents_eq keyOrder r.framed [arrival.event key]
  rw [hp] at hprocess
  obtain ⟨one, hone, hrest⟩ := bind_eq_some_iff.mp hprocess.symm
  rw [Sources.process, map_some, some.injEq, Prod.mk.injEq, append_nil]
    at hrest
  obtain ⟨hsources, hevents⟩ := hrest
  have hview := Sources.step_view hperm hone key
  have hconfig := Sources.sameConfig_step hone
  rw [hsources, hevents] at hview
  rw [hsources] at hconfig
  exact ⟨p.1, emittedFor key p.2, rfl, hview, hconfig⟩

variable {bytes : Bytes}

/-- Data, seen from the source. -/
theorem receive_data (hperm : ∀ m, (keyOrder m).Perm m.keys)
    (h : receive keyOrder key (.data bytes) r = some r') :
    ∃ framed state outputs,
      r' = r.next framed (outputs.flatMap (·.bytes)) (.data bytes)
      ∧ (r.framed.entry key).read bytes = some (state, outputs)
      ∧ framed.entry key = (state.retained (key.isSome && r.framed.shouldReclaim)).getD
          (.fresh r.framed.formatTemplate)
      ∧ framed.shouldReclaim = r.framed.shouldReclaim
      ∧ framed.formatTemplate = r.framed.formatTemplate := by
  obtain ⟨framed, outputs, rfl, hview, hreclaim, htemplate⟩ := receive_view hperm h
  rw [Arrival.event, entryStep, if_pos rfl] at hview
  obtain ⟨⟨state, written⟩, hread, hpair⟩ := map_eq_some_iff.mp hview
  obtain ⟨hstate, rfl⟩ := Prod.mk.inj hpair
  refine ⟨framed, state, written, rfl, hread, ?_, hreclaim, htemplate⟩
  rw [FramedInput.entry, ← hstate, htemplate]

/-- What holds of a source in every run whose steps fit. -/
structure Invariant (template : FormatDecoder) (key : Option SourceId) (r : Followed) : Prop where
  formatTemplate : r.framed.formatTemplate = template
  keeps : Keeps r.stream (r.framed.entry key)
  writes : WritesSome r.completeLines r.emitted

variable {template : FormatDecoder}

theorem Invariant.start (shouldReclaim : Bool)
    (h : template.isPassthrough) (key : Option SourceId) :
    Invariant template key (start shouldReclaim template) := by
  refine ⟨rfl, ?_, .nil⟩
  exact .fresh h rest_nil

variable (hperm : ∀ m, (keyOrder m).Perm m.keys) (htemplate : template.isPassthrough = true)
  (h : Invariant template key r)

include hperm htemplate h

theorem Invariant.data (hfits : (r.framed.entry key).Fits bytes)
    (hr : receive keyOrder key (.data bytes) r = some r') : Invariant template key r' := by
  obtain ⟨framed, state, outputs, rfl, hread, hentry, -, hformat⟩ := receive_data hperm hr
  obtain ⟨hkeeps, hwrites⟩ := h.keeps.read hfits hread
  refine ⟨hformat.trans h.formatTemplate, ?_, ?_⟩
  · show Keeps (r.stream ++ bytes) (framed.entry key)
    rw [hentry, h.formatTemplate]
    exact hkeeps.retained htemplate _
  · show WritesSome (r.ended ++ closedLines (r.stream ++ bytes)) (r.emitted ++ _)
    rw [closedLines_append, ← append_assoc]
    exact h.writes.append hwrites

theorem Invariant.endOfFile
    (hr : receive keyOrder key .endOfFile r = some r') : Invariant template key r' := by
  obtain ⟨framed, outputs, rfl, hview, -, hformat⟩ := receive_view hperm hr
  rw [Arrival.event, entryStep, if_pos (.inr rfl), some.injEq] at hview
  have hflush : Keeps [] (framed.entry key)
      ∧ WritesSome (lastLine r.stream) (outputs.flatMap (·.bytes)) := by
    have hkeeps := h.keeps
    rw [FramedInput.entry] at hkeeps
    rw [FramedInput.entry, hformat, h.formatTemplate]
    cases hentry : r.framed.sources[key]? with
    | none =>
      rw [hentry] at hview hkeeps
      obtain ⟨hstate, rfl⟩ := Prod.mk.inj hview
      rw [← hstate]
      rw [h.formatTemplate] at hkeeps
      exact Keeps.flush hkeeps
    | some state =>
      rw [hentry] at hview hkeeps
      obtain ⟨hstate, rfl⟩ := Prod.mk.inj hview
      rw [← hstate]
      obtain ⟨hkept, hwrites⟩ := Keeps.flush hkeeps
      exact ⟨hkept.retained htemplate true, hwrites⟩
  refine ⟨hformat.trans h.formatTemplate, hflush.1, ?_⟩
  show WritesSome (r.completeLines ++ lastLine r.stream ++ closedLines []) (r.emitted ++ _)
  rw [closedLines, closed_nil, append_nil]
  exact h.writes.append hflush.2

end Receive

-- == lines that are too long

/-- A line of one byte too many, without its newline. -/
@[irreducible] def overlong (b : UInt8) : Bytes := List.replicate (maxRemainderBytes + 1) b

/-- What is kept of it. -/
@[irreducible] def fragment (b : UInt8) : Bytes := List.replicate maxRemainderBytes b

variable {b : UInt8}

theorem newline_notMem_overlong (h : b ≠ newline) : newline ∉ overlong b := by
  unfold overlong
  exact fun hmem => h (eq_of_mem_replicate hmem).symm

theorem newline_notMem_fragment (h : b ≠ newline) : newline ∉ fragment b := by
  unfold fragment
  exact fun hmem => h (eq_of_mem_replicate hmem).symm

theorem length_overlong (b : UInt8) : (overlong b).length = maxRemainderBytes + 1 := by
  rw [overlong, length_replicate]

theorem overlong_ne_nil (b : UInt8) : overlong b ≠ [] := by
  refine length_pos_iff.mp ?_
  rw [length_overlong]
  exact Nat.succ_pos _

theorem keepTail_overlong (s : SourceState) (b : UInt8) :
    s.keepTail (overlong b)
      = { s with remainder := fragment b, format := s.format.reset, overflowTainted := true } := by
  have hdrop : (overlong b).drop ((overlong b).length - maxRemainderBytes) = fragment b := by
    rw [length_overlong, overlong, drop_replicate, Nat.add_sub_cancel_left,
      Nat.add_sub_cancel, fragment]
  rw [SourceState.keepTail, hdrop, if_pos]
  rw [length_overlong]
  exact Nat.lt_succ_self _

theorem receive_isSome (keyOrder : BTreeMap (Option SourceId) SourceState → List (Option SourceId))
    (key : Option SourceId) (r : Followed) {bytes : Bytes} (h : bytes ≠ []) :
    (receive keyOrder key (.data bytes) r).isSome := by
  rw [receive, isSome_map, ← isSome_map, FramedInput.processRawEvents_eq]
  refine (Sources.process_isSome_iff keyOrder _ _).mpr fun event hevent => ?_
  rw [mem_singleton.mp hevent]
  exact h

/-- A source that is not reclaimed is in state `s`, but for its offsets,
and has read and emitted bytes. -/
structure At (s : CheckpointTracker → SourceState) (stream emitted : Bytes) (r : Followed) :
    Prop where
  entry : ∃ tracker, r.framed.entry (some 1) = s tracker
  shouldReclaim : r.framed.shouldReclaim = false
  stream : r.stream = stream
  ended : r.ended = []
  emitted : r.emitted = emitted

variable {r : Followed}

theorem At.data {s s' : CheckpointTracker → SourceState} {stream emitted bytes : Bytes}
    {outputs : List Emitted} (h : At s stream emitted r) (hne : bytes ≠ [])
    (hread : ∀ tracker p, (s tracker).read bytes = some p →
      ∃ tracker', p = (s' tracker', outputs)) :
    ∃ r', receive (·.keys) (some 1) (.data bytes) r = some r'
      ∧ At s' (stream ++ bytes) (emitted ++ outputs.flatMap (·.bytes)) r' := by
  obtain ⟨r', hr⟩ := isSome_iff_exists.mp (receive_isSome (·.keys) (some 1) r hne)
  obtain ⟨framed, state, written, rfl, hp, hentry, hconfig, -⟩ :=
    receive_data (fun _ => .refl _) hr
  obtain ⟨tracker, hs⟩ := h.entry
  rw [hs] at hp
  obtain ⟨tracker', hpair⟩ := hread tracker _ hp
  obtain ⟨rfl, rfl⟩ := Prod.mk.inj hpair
  rw [h.shouldReclaim] at hentry hconfig
  refine ⟨_, hr, ⟨tracker', hentry⟩, hconfig, ?_, h.ended, ?_⟩
  · exact congrArg (· ++ bytes) h.stream
  · exact congrArg (· ++ written.flatMap (·.bytes)) h.emitted

variable {p : SourceState × List Emitted}

/-- A line that is too long is marked. -/
theorem read_overlong (hb : b ≠ newline) (tracker : CheckpointTracker)
    (h : SourceState.read ⟨[], .passthrough, tracker, false⟩ (overlong b) = some p) :
    ∃ tracker', p = (⟨fragment b, .passthrough, tracker', true⟩, []) := by
  have hnone : memrchr newline ([] ++ overlong b) = none :=
    memrchr_eq_none.mpr (newline_notMem_overlong hb)
  rw [SourceState.read_of_none hnone] at h
  obtain ⟨tracker', -, rfl⟩ := map_eq_some_iff.mp h
  refine ⟨tracker', ?_⟩
  rw [nil_append, keepTail_overlong]
  rfl

/-- Its newline drops it and clears the mark. -/
theorem read_after_fragment {a : UInt8} (ha : a ≠ newline) (rest : Bytes)
    (tracker : CheckpointTracker)
    (h : SourceState.read ⟨fragment a, .passthrough, tracker, true⟩ (newline :: rest) = some p) :
    ∃ tracker', p = ({ SourceState.keepTail ⟨[], .passthrough, tracker', true⟩
      (unfinishedLine rest) with overflowTainted := false }, emitLines (closedLines rest)) := by
  obtain ⟨next, hread⟩ := SourceState.read_of_newline
    (s := ⟨fragment a, .passthrough, tracker, true⟩) rfl (newline_notMem_fragment ha)
    not_mem_nil rest
  rw [show newline :: rest = [] ++ newline :: rest from rfl, hread] at h
  obtain ⟨tracker', -, rfl⟩ := map_eq_some_iff.mp h
  exact ⟨tracker', rfl⟩

/-- **Overflow drops whole lines.** In every run whose steps fit, what is
emitted for a source are lines of it, complete and in order. -/
theorem emits_complete_lines
    (keyOrder : BTreeMap (Option SourceId) SourceState → List (Option SourceId))
    (hperm : ∀ m, (keyOrder m).Perm m.keys) (shouldReclaim : Bool) (template : FormatDecoder)
    (htemplate : template.isPassthrough = true) (key : Option SourceId) (r : Followed)
    (hr : ReachableWhen (receive keyOrder key) (Fits key) (start shouldReclaim template) r) :
    ∃ lines : List Bytes, lines.Sublist r.completeLines ∧ r.emitted = terminated lines := by
  have hinvariant : Invariant template key r := by
    refine ReachableWhen.invariant (Invariant.start shouldReclaim htemplate key) ?_ hr
    intro arrival s s' hs hfits happly
    cases arrival with
    | data bytes => exact hs.data hperm htemplate hfits happly
    | endOfFile => exact hs.endOfFile hperm htemplate happly
  obtain ⟨lines, hlines, hemitted, -⟩ := hinvariant.writes
  exact ⟨lines, hlines, hemitted⟩

/-- A line that is too long and the line after it: only that is emitted. -/
theorem emits_line_after_overlong :
    ∃ r, ReachableWhen (receive (·.keys) (some 1)) (Fits (some 1)) (start false .passthrough) r
      ∧ r.stream = overlong 0x61 ++ [0x0a, 0x62, 0x0a] ∧ r.emitted = [0x62, 0x0a]
      ∧ ∃ lines : List Bytes, lines.Sublist r.completeLines ∧ r.emitted = terminated lines := by
  have hstart : At (⟨[], .passthrough, ·, false⟩) [] [] (start false .passthrough) :=
    ⟨⟨.new 0, rfl⟩, rfl, rfl, rfl, rfl⟩
  obtain ⟨r₁, hr₁, h₁⟩ := hstart.data (overlong_ne_nil 0x61)
    (fun tracker _ h => read_overlong (by decide) tracker h)
  obtain ⟨r₂, hr₂, h₂⟩ := h₁.data (cons_ne_nil newline [0x62, 0x0a])
    (fun tracker _ h => read_after_fragment (by decide) [0x62, 0x0a] tracker h)
  have hreach : ReachableWhen (receive (·.keys) (some 1)) (Fits (some 1))
      (start false .passthrough) r₂ :=
    .step (.data _) (.step (.data _) .init nofun hr₁) (fun _ _ => by decide) hr₂
  exact ⟨r₂, hreach, h₂.stream, h₂.emitted,
    emits_complete_lines (·.keys) (fun _ => .refl _) false .passthrough rfl (some 1) r₂ hreach⟩

-- == the step that does not fit

variable {a : UInt8}

/-- The newline also clears the mark of a line behind it that is too
long. -/
theorem read_newline_overlong (ha : a ≠ newline) (hb : b ≠ newline) (tracker : CheckpointTracker)
    (h : SourceState.read ⟨fragment a, .passthrough, tracker, true⟩ (newline :: overlong b)
      = some p) :
    ∃ tracker', p = (⟨fragment b, .passthrough, tracker', false⟩, []) := by
  have hopen := forall_isNewline.mpr (newline_notMem_overlong hb)
  have hrest : unfinishedLine (overlong b) = overlong b := rest_of_forall hopen
  have hlines : closedLines (overlong b) = [] := closed_of_forall hopen
  obtain ⟨tracker', rfl⟩ := read_after_fragment ha (overlong b) tracker h
  refine ⟨tracker', ?_⟩
  rw [hrest, hlines, keepTail_overlong]
  rfl

/-- So a newline emits it. -/
theorem read_newline (hb : b ≠ newline) (tracker : CheckpointTracker)
    (h : SourceState.read ⟨fragment b, .passthrough, tracker, false⟩ [newline] = some p) :
    ∃ tracker', p = (⟨[], .passthrough, tracker', false⟩, emitLines [fragment b]) := by
  obtain ⟨next, hread⟩ := SourceState.read_of_newline
    (s := ⟨fragment b, .passthrough, tracker, false⟩) rfl (newline_notMem_fragment hb)
    not_mem_nil []
  rw [show [newline] = [] ++ newline :: [] from rfl, hread] at h
  obtain ⟨tracker', -, rfl⟩ := map_eq_some_iff.mp h
  refine ⟨tracker', ?_⟩
  rw [if_neg Bool.false_ne_true, unfinishedLine, rest_nil, closedLines,
    closed_nil, append_nil, keepTail_of_le (Nat.zero_le _)]

/-- The complete lines of two that are too long. -/
theorem completeLines_overlong (hended : r.ended = []) (ha : a ≠ newline) (hb : b ≠ newline)
    (hstream : r.stream = overlong a ++ newline :: overlong b ++ [newline]) :
    r.completeLines = [overlong a, overlong b] := by
  have hfirst := (lines_append_newline not_mem_nil (newline_notMem_overlong ha)
    (overlong b ++ [newline])).1
  have hsecond := (lines_append_newline not_mem_nil (newline_notMem_overlong hb) []).1
  rw [nil_append, nil_append] at hfirst hsecond
  rw [completeLines, hended, hstream, nil_append, append_assoc, cons_append,
    hfirst, hsecond, closedLines, closed_nil]

/-- Lines that are too long do not make up a fragment. -/
theorem terminated_ne_fragment {lines : List Bytes}
    (h : ∀ line ∈ lines, line.length = maxRemainderBytes + 1) (b : UInt8) :
    terminated [fragment b] ≠ terminated lines := by
  intro heq
  have hlength := congrArg length heq
  rw [terminated_cons, length_append, fragment] at hlength
  cases lines with
  | nil => simp [terminated] at hlength
  | cons line lines =>
    rw [terminated_cons, length_append, h line mem_cons_self] at hlength
    simp [terminated] at hlength

/-- A line of `a`s that is too long, then in one chunk its newline and a
line of `b`s that is too long, then a newline: the last `b`s are emitted
as a line. -/
theorem overlongLine_emits_fragment :
    ∃ r, Reachable (receive (·.keys) (some 1)) (start false .passthrough) r
      ∧ ¬ ∃ lines : List Bytes, lines.Sublist r.completeLines ∧ r.emitted = terminated lines := by
  have hstart : At (⟨[], .passthrough, ·, false⟩) [] [] (start false .passthrough) :=
    ⟨⟨.new 0, rfl⟩, rfl, rfl, rfl, rfl⟩
  obtain ⟨r₁, hr₁, h₁⟩ := hstart.data (overlong_ne_nil 0x61)
    (fun tracker _ h => read_overlong (by decide) tracker h)
  obtain ⟨r₂, hr₂, h₂⟩ := h₁.data (cons_ne_nil newline (overlong 0x62))
    (fun tracker _ h => read_newline_overlong (by decide) (by decide) tracker h)
  obtain ⟨r₃, hr₃, h₃⟩ := h₂.data (cons_ne_nil newline [])
    (fun tracker _ h => read_newline (by decide) tracker h)
  refine ⟨r₃, .step _ (.step _ (.step _ .init trivial hr₁) trivial hr₂) trivial hr₃, ?_⟩
  rintro ⟨lines, hlines, hemitted⟩
  rw [completeLines_overlong h₃.ended (by decide) (by decide) h₃.stream] at hlines
  rw [h₃.emitted, bytes_emitLines] at hemitted
  refine terminated_ne_fragment (fun line hline => ?_) 0x62 hemitted
  have hmem := hlines.subset hline
  rw [mem_cons, mem_singleton] at hmem
  rcases hmem with rfl | rfl
  · exact length_overlong 0x61
  · exact length_overlong 0x62

end Followed

end FastForward.Io
