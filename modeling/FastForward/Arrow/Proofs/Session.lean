/-
Whole batches: after the calls of a batch the builder represents the sheet
of those calls, from every state that a builder can be in when the batch
begins.
-/
import FastForward.Arrow.Proofs.Represents
import FastForward.Lib.Fallible

namespace FastForward.Arrow

open Core Lib StreamingBuilder Session Option

variable {F : Type}

-- == frame

/-- What appends leave as it is. -/
structure Frame (b b' : StreamingBuilder F) : Prop where
  buf : b'.buf = b.buf
  lineFieldName : b'.lineFieldName = b.lineFieldName
  resourceAttrs : b'.resourceAttrs = b.resourceAttrs
  state : b'.lifecycle.state = b.lifecycle.state
  rowCount : b'.lifecycle.rowCount = b.lifecycle.rowCount

theorem Frame.refl (b : StreamingBuilder F) : Frame b b := ⟨rfl, rfl, rfl, rfl, rfl⟩

theorem Frame.trans {a b c : StreamingBuilder F} (h : Frame a b) (h' : Frame b c) : Frame a c :=
  ⟨h'.buf.trans h.buf, h'.lineFieldName.trans h.lineFieldName,
    h'.resourceAttrs.trans h.resourceAttrs, h'.state.trans h.state, h'.rowCount.trans h.rowCount⟩

section Frames

variable {b b' : StreamingBuilder F}

theorem frame_setWrittenBits (bits : U64) (b : StreamingBuilder F) :
    Frame b (b.setWrittenBits bits) := ⟨rfl, rfl, rfl, rfl, rfl⟩

variable {idx : Nat}

theorem frame_writeField {push : Nat → FieldColumns F → FieldColumns F}
    (h : b.writeField idx push = some b') : Frame b b' := by
  obtain ⟨fc, -, rfl⟩ := map_eq_some_iff.mp h
  exact ⟨rfl, rfl, rfl, rfl, rfl⟩

theorem frame_appendUnlessWritten {store : StreamingBuilder F → Option (StreamingBuilder F)}
    (hstore : ∀ b b', store b = some b' → Frame b b')
    (h : b.appendUnlessWritten idx store = some b') : Frame b b' := by
  rw [appendUnlessWritten] at h
  split at h
  · cases h
  · dsimp only at h
    split at h
    · cases h
      exact frame_setWrittenBits _ b
    · split at h
      · cases h
      · cases h
        exact frame_setWrittenBits _ b
      · exact (frame_setWrittenBits _ b).trans (hstore _ _ h)

theorem frame_appendDecodedStrInner {value : Bytes}
    (h : b.appendDecodedStrInner idx value = some b') : Frame b b' := by
  rw [appendDecodedStrInner] at h
  split at h
  · cases h
    exact .refl b
  · split at h
    · cases h
      exact .refl b
    · split at h
      · cases h
        exact .refl b
      · have hcopied : Frame b { b with decodedBuf := b.decodedBuf ++ value } :=
          ⟨rfl, rfl, rfl, rfl, rfl⟩
        exact hcopied.trans (frame_writeField h)

theorem frame_appendTyped {α : Type} {push : α → Nat → FieldColumns F → FieldColumns F}
    {value : Option α} (h : b.appendTyped push idx value = some b') : Frame b b' := by
  rw [appendTyped] at h
  split at h
  · cases h
  · dsimp only at h
    split at h
    · cases h
      exact frame_setWrittenBits _ b
    · split at h
      · cases h
      · split at h
        · cases h
          exact frame_setWrittenBits _ b
        · exact (frame_setWrittenBits _ b).trans (frame_writeField h)

/-- An append leaves the row and the batch as they are. -/
theorem frame_appendByIdx [FloatOps F] {value : Append Slice F}
    (h : b.appendByIdx idx value = some b') : Frame b b' := by
  cases value with
  | str value =>
    replace h : b.appendStrByIdx idx value = some b' := h
    refine frame_appendUnlessWritten (fun b b' hstore => ?_) h
    split at hstore
    · cases hstore
      exact .refl b
    · split at hstore
      · cases hstore
        exact .refl b
      · split at hstore
        · cases hstore
        · exact frame_writeField hstore
  | decodedStr value =>
    replace h : b.appendDecodedStrByIdx idx value = some b' := h
    refine frame_appendUnlessWritten (fun b b' hstore => ?_) h
    split at hstore
    · cases hstore
      exact .refl b
    · exact frame_appendDecodedStrInner hstore
  | prevalidatedStr value =>
    exact frame_appendUnlessWritten (fun b b' hstore => frame_appendDecodedStrInner hstore) h
  | int value | i64Value value | float value | f64Value value | bool value =>
    exact frame_appendTyped h
  | null =>
    replace h : b.appendNullByIdx idx = some b' := h
    rw [appendNullByIdx] at h
    split at h
    · cases h
    · exact (frame_setWrittenBits _ b).trans (frame_writeField h)

theorem frame_appendLine {line : Slice} (h : b.appendLine line = some b') : Frame b b' := by
  rw [appendLine] at h
  split at h
  · cases h
  · split at h
    · dsimp only at h
      split at h
      · split at h
        · cases h
          exact .refl b
        · split at h
          · cases h
          · cases h
            exact ⟨rfl, rfl, rfl, rfl, rfl⟩
      · repeat' split at h
        all_goals
          cases h
          exact ⟨rfl, rfl, rfl, rfl, rfl⟩
    · cases h
      exact .refl b

theorem frame_resolveField {key : Bytes} (h : b.resolveField key = some (idx, b')) :
    Frame b b' := by
  rw [resolveField] at h
  split at h
  · cases h
  · split at h
    · cases h
      exact .refl b
    · cases h
      exact ⟨rfl, rfl, rfl, rfl, rfl⟩

end Frames

-- == sessions

/-- The batch that a builder is working on. -/
structure SameBatch (b b' : StreamingBuilder F) : Prop where
  buf : b'.buf = b.buf
  lineFieldName : b'.lineFieldName = b.lineFieldName
  resourceAttrs : b'.resourceAttrs = b.resourceAttrs

variable {b' : StreamingBuilder F}

theorem Frame.sameBatch {b : StreamingBuilder F} (h : Frame b b') : SameBatch b b' :=
  ⟨h.buf, h.lineFieldName, h.resourceAttrs⟩

theorem Frame.overflowing {b : StreamingBuilder F} (h : Frame b b') (hb : Overflowing b) :
    Overflowing b' := ⟨h.state.trans hb.1, h.rowCount.trans hb.2⟩

/-- The builder holds what the sheet says. -/
structure Session.Represents (s : Session F) (sh : Sheet F) : Prop where
  builder : Arrow.Represents s.builder sh
  indices : ∀ key idx, s.indices key = some idx → sh.order[idx]? = some key

theorem Sheet.append_order [FloatOps F] (bufLen : Nat) (key : Bytes) (value : Append Bytes F)
    (sh : Sheet F) : (sh.append bufLen key value).order = sh.order := by
  rw [append]
  repeat' split
  all_goals rfl

theorem Sheet.appendLine_order (bufLen : Nat) (line : Bytes) (sh : Sheet F) :
    (sh.appendLine bufLen line).order = sh.order := by
  rw [appendLine]
  dsimp only
  repeat' split
  all_goals rfl

section Calls

variable [FloatOps F] {s s' : Session F} {sh : Sheet F} {c : Call Slice F}

/-- Calls that begin no row and end none leave the frame. -/
theorem Session.call_frame (hbegin : c ≠ .beginRow) (hend : c ≠ .endRow)
    (hstep : s.call c = some s') : Frame s.builder s'.builder := by
  cases c with
  | beginRow => exact absurd rfl hbegin
  | endRow => exact absurd rfl hend
  | resolveField key =>
    obtain ⟨⟨idx, b'⟩, hb', rfl⟩ := map_eq_some_iff.mp hstep
    exact frame_resolveField hb'
  | append key value =>
    rw [call] at hstep
    split at hstep
    · cases hstep
    · obtain ⟨b', hb', rfl⟩ := map_eq_some_iff.mp hstep
      exact frame_appendByIdx hb'
  | appendLine line =>
    obtain ⟨b', hb', rfl⟩ := map_eq_some_iff.mp hstep
    exact frame_appendLine hb'

/-- A call stays in its batch. -/
theorem Session.call_sameBatch (hstep : s.call c = some s') : SameBatch s.builder s'.builder := by
  cases c with
  | beginRow | endRow =>
    obtain ⟨b', hb', rfl⟩ := map_eq_some_iff.mp hstep
    obtain ⟨l, -, rfl⟩ := map_eq_some_iff.mp hb'
    exact ⟨rfl, rfl, rfl⟩
  | _ => exact (call_frame (by simp) (by simp) hstep).sameBatch

/-- Outside of a batch there are no calls. -/
theorem Session.call_idle (hstate : s.builder.lifecycle.state = .idle) : s.call c = none := by
  have hrow : s.builder.lifecycle.state ≠ .inRow := by simp [hstate]
  cases c with
  | beginRow =>
    rw [call, beginRow, RowLifecycle.beginRow,
      if_pos (by simp [hstate])]
    rfl
  | endRow =>
    rw [call, endRow, RowLifecycle.endRow, if_pos hrow]
    rfl
  | resolveField key =>
    rw [call, resolveField, if_pos hstate]
    rfl
  | append key value =>
    rw [call]
    split
    · rfl
    · rw [appendByIdx_of_ne hrow]
      rfl
  | appendLine line =>
    rw [call, appendLine, if_pos hrow]
    rfl

/-- The row that cannot end goes on. -/
theorem Session.call_overflowing (h : Overflowing s.builder) (hstep : s.call c = some s') :
    Overflowing s'.builder := by
  obtain ⟨hstate, hrows⟩ := h
  cases c with
  | beginRow =>
    obtain ⟨b', hb', rfl⟩ := map_eq_some_iff.mp hstep
    rw [beginRow, RowLifecycle.beginRow, if_pos (by simp [hstate])] at hb'
    cases hb'
  | endRow =>
    obtain ⟨b', hb', rfl⟩ := map_eq_some_iff.mp hstep
    rw [endRow, RowLifecycle.endRow, if_neg (not_not.mpr hstate),
      if_pos hrows] at hb'
    cases hb'
  | _ => exact (call_frame (by simp) (by simp) hstep).overflowing ⟨hstate, hrows⟩

/-- A call keeps the sheet. -/
theorem Session.Represents.call (h : s.Represents sh) (hrows : ¬ Overflowing s.builder)
    (hin : c.InBuf s.builder.buf) (hstep : s.call c = some s') :
    s'.Represents (sh.call s.builder.buf.length s.builder.lineFieldName.isSome
      (c.withText s.builder.buf)) := by
  cases c with
  | beginRow =>
    obtain ⟨b', hb', rfl⟩ := map_eq_some_iff.mp hstep
    exact ⟨h.builder.beginRow hb', h.indices⟩
  | endRow =>
    obtain ⟨b', hb', rfl⟩ := map_eq_some_iff.mp hstep
    exact ⟨h.builder.endRow hb', h.indices⟩
  | resolveField key =>
    obtain ⟨⟨idx, b'⟩, hb', rfl⟩ := map_eq_some_iff.mp hstep
    obtain ⟨hrep, hidx⟩ := h.builder.resolveField hb'
    refine ⟨hrep, fun k i hk => ?_⟩
    dsimp only at hk
    split at hk
    next heq =>
      cases hk
      rw [heq]
      exact hidx
    next =>
      have hold := h.indices k i hk
      show (if sh.order.contains key then sh
        else { sh with order := sh.order ++ [key] }).order[i]? = some k
      split
      · exact hold
      · rw [List.getElem?_append_left (getElem?_eq_some_iff.mp hold).1]
        exact hold
  | append key value =>
    rw [call] at hstep
    split at hstep
    · cases hstep
    next idx hidx =>
      obtain ⟨b', hb', rfl⟩ := map_eq_some_iff.mp hstep
      have hkey := h.indices key idx hidx
      refine ⟨h.builder.append hrows hkey hin hb', fun k i hk => ?_⟩
      rw [Call.withText, Sheet.call, Sheet.append_order]
      exact h.indices k i hk
  | appendLine line =>
    obtain ⟨b', hb', rfl⟩ := map_eq_some_iff.mp hstep
    refine ⟨h.builder.appendLine hin hb', fun k i hk => ?_⟩
    rw [Call.withText, Sheet.call]
    split
    · rw [Sheet.appendLine_order]
      exact h.indices k i hk
    · exact h.indices k i hk

variable {cs : List (Call Slice F)}

theorem Session.calls_sameBatch (hrun : s.calls cs = some s') : SameBatch s.builder s'.builder := by
  induction cs generalizing s with
  | nil =>
    cases hrun
    exact ⟨rfl, rfl, rfl⟩
  | cons c cs ih =>
    obtain ⟨s₁, hstep, hrest⟩ := bind_eq_some_iff.mp hrun
    have hfirst := call_sameBatch hstep
    have hthen := ih hrest
    exact ⟨hthen.buf.trans hfirst.buf, hthen.lineFieldName.trans hfirst.lineFieldName,
      hthen.resourceAttrs.trans hfirst.resourceAttrs⟩

/-- A batch that overflowed stays so. -/
theorem Session.calls_overflowing (h : Overflowing s.builder)
    (hrun : s.calls cs = some s') : Overflowing s'.builder := by
  induction cs generalizing s with
  | nil =>
    cases hrun
    exact h
  | cons c cs ih =>
    obtain ⟨s₁, hstep, hrest⟩ := bind_eq_some_iff.mp hrun
    exact ih (call_overflowing h hstep) hrest

/-- So do all calls of a batch, up to the row that cannot end. -/
theorem Session.Represents.calls (h : s.Represents sh)
    (hin : ∀ c ∈ cs, c.InBuf s.builder.buf) (hrun : s.calls cs = some s') :
    Overflowing s'.builder
      ∨ s'.Represents
        ((cs.map (Call.withText s.builder.buf)).foldl
          (Sheet.call s.builder.buf.length s.builder.lineFieldName.isSome) sh) := by
  induction cs generalizing s sh with
  | nil =>
    cases hrun
    exact .inr h
  | cons c cs ih =>
    obtain ⟨s₁, hstep, hrest⟩ := bind_eq_some_iff.mp hrun
    by_cases hrows : Overflowing s.builder
    · exact .inl (calls_overflowing (call_overflowing hrows hstep) hrest)
    · have hsame := call_sameBatch hstep
      have hnext := h.call hrows (hin c List.mem_cons_self) hstep
      have hthen := ih hnext (fun c hc => hsame.buf ▸ hin c (List.mem_cons_of_mem _ hc)) hrest
      rw [hsame.buf, hsame.lineFieldName] at hthen
      exact hthen

end Calls

-- == runs

/-- What a builder is between calls: at rest with the slots that are not in
use clear, at work on a sheet, or in the row that cannot end. -/
inductive Session.Sound (s : Session F) : Prop
  | idle (hstate : s.builder.lifecycle.state = .idle)
      (hdormant : ∀ i fc, s.builder.numActive ≤ i → s.builder.fields[i]? = some fc →
        fc.clear = fc)
  | working (sh : Sheet F) (h : s.Represents sh)
  | overflowing (h : Overflowing s.builder)

variable {s s' : Session F} {buf : Bytes}

/-- A new batch shows nothing of the last. -/
theorem Session.Sound.beginBatch (h : s.Sound)
    (hstep : s.beginBatch buf = some s') : s'.Represents .empty := by
  obtain ⟨b', hb', rfl⟩ := map_eq_some_iff.mp hstep
  refine ⟨?_, nofun⟩
  cases h with
  | idle _ hdormant => exact represents_beginBatch hdormant hb'
  | working sh h =>
    refine represents_beginBatch (fun i fc hi hfc => ?_) hb'
    exact h.builder.dormant i fc (h.builder.numActive ▸ hi) hfc
  | overflowing h =>
    rw [StreamingBuilder.beginBatch, RowLifecycle.beginBatch, if_pos h.1] at hb'
    split at hb' <;> cases hb'

/-- A finaliser ends the batch or leaves everything as it is. -/
theorem Session.Sound.finished (h : s.Sound)
    {result : Except Failure (RecordBatch F × StreamingBuilder F)}
    (hresult : ∀ batch b', result = .ok (batch, b') → s.builder.lifecycle.state = .inBatch
        ∧ b' = { s.builder with lifecycle := s.builder.lifecycle.finishBatch }) :
    (s.finished result).Sound := by
  cases result with
  | error e => exact h
  | ok r =>
    obtain ⟨batch, b'⟩ := r
    obtain ⟨hstate, rfl⟩ := hresult batch b' rfl
    refine .idle rfl fun i fc hi hfc => ?_
    cases h with
    | idle _ hdormant => exact hdormant i fc hi hfc
    | working sh h => exact h.builder.dormant i fc (h.builder.numActive ▸ hi) hfc
    | overflowing h =>
      rw [h.1] at hstate
      cases hstate

variable {batch : RecordBatch F}

theorem finishBatch_ok [ArrowOps] {b : StreamingBuilder F} :
    b.finishBatch = .ok (batch, b') ↔ b.lifecycle.state = .inBatch ∧ b.buf.length ≤ u32Max
      ∧ b.finishWith b.viewArrays = .ok batch
      ∧ b' = { b with lifecycle := b.lifecycle.finishBatch } := by
  rw [finishBatch]
  split
  next hstate => exact ⟨nofun, fun h => absurd h.1 hstate⟩
  next hstate =>
    split
    next hlen => exact ⟨nofun, fun h => absurd hlen (Nat.not_lt.mpr h.2.1)⟩
    next hlen =>
      rw [map_eq_ok_iff]
      constructor
      · rintro ⟨a, ha, heq⟩
        cases heq
        exact ⟨not_not.mp hstate, Nat.le_of_not_lt hlen, ha, rfl⟩
      · rintro ⟨-, -, ha, rfl⟩
        exact ⟨batch, ha, rfl⟩

theorem finishBatchDetached_ok [ArrowOps] {b : StreamingBuilder F} :
    b.finishBatchDetached = .ok (batch, b') ↔ b.lifecycle.state = .inBatch
      ∧ b.finishWith b.detachedArrays = .ok batch
      ∧ b' = { b with lifecycle := b.lifecycle.finishBatch } := by
  rw [finishBatchDetached]
  split
  next hstate => exact ⟨nofun, fun h => absurd h.1 hstate⟩
  next hstate =>
    rw [map_eq_ok_iff]
    constructor
    · rintro ⟨a, ha, heq⟩
      cases heq
      exact ⟨not_not.mp hstate, ha, rfl⟩
    · rintro ⟨-, ha, rfl⟩
      exact ⟨batch, ha, rfl⟩

/-- Slices are of the buffer of the batch. -/
def Action.InBuf (s : Session F) : Action F → Prop
  | .call c => c.InBuf s.builder.buf
  | _ => True

/-- Every step keeps a session sound. -/
theorem Session.Sound.step [FloatOps F] [ArrowOps] (h : s.Sound) {action : Action F}
    (hin : action.InBuf s) (hstep : s.step action = some s') : s'.Sound := by
  cases action with
  | setResourceAttributes attrs =>
    cases hstep
    cases h with
    | idle hstate hdormant => exact .idle hstate hdormant
    | working sh h =>
      refine .working sh ⟨?_, h.indices⟩
      exact { h.builder with }
    | overflowing h => exact .overflowing h
  | beginBatch buf => exact .working .empty (h.beginBatch hstep)
  | call c =>
    cases h with
    | idle hstate hdormant =>
      replace hstep : s.call c = some s' := hstep
      rw [call_idle hstate] at hstep
      cases hstep
    | working sh h =>
      by_cases hrows : Overflowing s.builder
      · exact .overflowing (call_overflowing hrows hstep)
      · exact .working _ (h.call hrows hin hstep)
    | overflowing h => exact .overflowing (call_overflowing h hstep)
  | finishBatch =>
    cases hstep
    exact h.finished fun batch b' hok => ⟨(finishBatch_ok.mp hok).1, (finishBatch_ok.mp hok).2.2.2⟩
  | finishBatchDetached =>
    cases hstep
    exact h.finished fun batch b' hok =>
      ⟨(finishBatchDetached_ok.mp hok).1, (finishBatchDetached_ok.mp hok).2.2⟩

/-- Every state that a builder can be in. -/
theorem Session.Sound.of_reachable [FloatOps F] [ArrowOps] {line : Option Bytes}
    (hreach : ReachableWhen Session.step (fun s a => a.InBuf s) (.new line) s) : s.Sound := by
  refine hreach.invariant (.idle rfl fun i fc _ hfc => by cases hfc) ?_
  intro action s s' h hin hstep
  exact h.step hin hstep

/-- A batch of any run: `s` is the builder with all rows ended. -/
structure BatchRun [FloatOps F] [ArrowOps] (buf : Bytes) (calls : List (Call Slice F))
    (s : Session F) : Prop where
  begins : ∃ line s₀ s₁, ReachableWhen Session.step (fun s a => a.InBuf s) (.new line) s₀
    ∧ s₀.beginBatch buf = some s₁ ∧ s₁.calls calls = some s
  inBuf : ∀ c ∈ calls, c.InBuf buf
  ended : s.builder.lifecycle.state = .inBatch

/-- Whatever was there before, the builder has the sheet of the batch. -/
theorem BatchRun.represents [FloatOps F] [ArrowOps] {calls : List (Call Slice F)}
    (h : BatchRun buf calls s) :
    s.builder.buf = buf ∧ Represents s.builder
      (.ofCalls buf.length s.builder.lineFieldName.isSome (calls.map (Call.withText buf))) := by
  obtain ⟨line, s₀, s₁, hreach, hbegin, hrun⟩ := h.begins
  have hempty := (Sound.of_reachable hreach).beginBatch hbegin
  have hbuf : s₁.builder.buf = buf := by
    obtain ⟨b', hb', rfl⟩ := map_eq_some_iff.mp hbegin
    rw [StreamingBuilder.beginBatch] at hb'
    split at hb'
    · cases hb'
    · obtain ⟨lifecycle, -, rfl⟩ := map_eq_some_iff.mp hb'
      rfl
  have hsame := calls_sameBatch hrun
  refine ⟨hsame.buf.trans hbuf, ?_⟩
  rcases hempty.calls (fun c hc => hbuf ▸ h.inBuf c hc) hrun with hover | hrep
  · cases h.ended.symm.trans hover.1
  · rw [hbuf, ← hsame.lineFieldName] at hrep
    exact hrep.builder

end FastForward.Arrow
