/-
Scanning into the builder: the calls of a scan never make it panic, so that
a batch comes of a buffer exactly when its table can be made.
-/
import FastForward.Arrow.Scanner
import FastForward.Arrow.Proofs.Finish
import FastForward.Core.Proofs.Stretches

namespace FastForward.Arrow

open Core Lib List StreamingBuilder Session Option

variable {F : Type}

-- == progress

section Progress

variable {b : StreamingBuilder F} {idx : Nat}

/-- Some slot has the index. -/
def HasSlot (b : StreamingBuilder F) (idx : Nat) : Prop := b.fields[idx]?.isSome = true

theorem writeField_isSome (push : Nat → FieldColumns F → FieldColumns F) (h : HasSlot b idx) :
    (b.writeField idx push).isSome := by
  rw [writeField, isSome_map]
  exact h

theorem appendUnlessWritten_isSome {store : StreamingBuilder F → Option (StreamingBuilder F)}
    (hstate : b.lifecycle.state = .inRow) (h : HasSlot b idx)
    (hstore : ∀ bits, (store (b.setWrittenBits bits)).isSome) :
    (b.appendUnlessWritten idx store).isSome := by
  rw [appendUnlessWritten, if_neg (not_not.mpr hstate)]
  dsimp only
  split
  · rfl
  · obtain ⟨fc, hfc⟩ := isSome_iff_exists.mp h
    have hlast : ∃ current, (b.setWrittenBits
        (checkDupBits b.lifecycle.writtenBits idx).2).lastRowIsCurrent idx = some current := by
      rw [lastRowIsCurrent]
      split
      · show ∃ current, b.fields[idx]?.map _ = some current
        rw [hfc]
        exact ⟨_, rfl⟩
      · exact ⟨_, rfl⟩
    obtain ⟨current, hcurrent⟩ := hlast
    rw [hcurrent]
    cases current with
    | true => rfl
    | false => exact hstore _

theorem appendTyped_isSome {α : Type} (push : α → Nat → FieldColumns F → FieldColumns F)
    (value : Option α) (hstate : b.lifecycle.state = .inRow) (h : HasSlot b idx) :
    (b.appendTyped push idx value).isSome := by
  rw [appendTyped, if_neg (not_not.mpr hstate)]
  dsimp only
  split
  · rfl
  · obtain ⟨fc, hfc⟩ := isSome_iff_exists.mp h
    have hslot : (b.setWrittenBits (checkDupBits b.lifecycle.writtenBits idx).2).fields[idx]?
        = some fc := hfc
    rw [hslot]
    dsimp only
    split
    · rfl
    · exact writeField_isSome _ h

theorem appendDecodedStrInner_isSome (value : Bytes) (h : HasSlot b idx) :
    (b.appendDecodedStrInner idx value).isSome := by
  rw [appendDecodedStrInner]
  split
  · rfl
  · split
    · rfl
    · split
      · rfl
      · exact writeField_isSome _ h

theorem appendByIdx_isSome [FloatOps F] {value : Append Slice F} {key : Bytes}
    (hstate : b.lifecycle.state = .inRow) (h : HasSlot b idx)
    (hin : (Call.append key value).InBuf b.buf) : (b.appendByIdx idx value).isSome := by
  cases value with
  | str value =>
    show (b.appendStrByIdx idx value).isSome
    refine appendUnlessWritten_isSome hstate h fun bits => ?_
    split
    · rfl
    · split
      · rfl
      · have hoffset : (b.setWrittenBits bits).offsetOf value = some value.start := if_pos hin
        rw [hoffset]
        exact writeField_isSome _ h
  | decodedStr value =>
    show (b.appendDecodedStrByIdx idx value).isSome = true
    refine appendUnlessWritten_isSome hstate h fun bits => ?_
    split
    · rfl
    · exact appendDecodedStrInner_isSome value h
  | prevalidatedStr value =>
    exact appendUnlessWritten_isSome hstate h fun bits =>
      appendDecodedStrInner_isSome value.bytes h
  | null =>
    show (b.appendNullByIdx idx).isSome = true
    rw [appendNullByIdx, if_neg (not_not.mpr hstate)]
    exact writeField_isSome _ h
  | int value | i64Value value | float value | f64Value value | bool value =>
    exact appendTyped_isSome _ _ hstate h

theorem appendLine_isSome {line : Slice} (hstate : b.lifecycle.state = .inRow)
    (hin : line.InBuf b.buf) : (b.appendLine line).isSome := by
  rw [appendLine, if_neg (not_not.mpr hstate)]
  have hoffset : b.offsetOf line = some line.start := if_pos hin
  split
  · dsimp only
    rw [hoffset]
    split
    · split <;> rfl
    · split
      · rfl
      · split
        · rfl
        · split <;> rfl
  · rfl

theorem resolveField_isSome (key : Bytes) (hstate : b.lifecycle.state ≠ .idle) :
    (b.resolveField key).isSome := by
  rw [resolveField, if_neg hstate]
  split <;> rfl

end Progress

-- == protocol

/-- Where a sequence of calls is: in a row or not, after so many rows, with
these fields resolved. -/
structure Stage where
  inRow : Bool
  rows : Nat
  resolved : List Bytes

/-- The call sequence that the builder asks for. -/
def Stage.call (p : Stage) : Call Bytes F → Option Stage
  | .beginRow => if p.inRow then none else some { p with inRow := true }
  | .endRow => if p.inRow then some { p with inRow := false, rows := p.rows + 1 } else none
  | .resolveField key => some { p with resolved := key :: p.resolved }
  | .append key _ => if p.inRow ∧ p.resolved.contains key then some p else none
  | .appendLine _ => if p.inRow then some p else none

def Stage.calls : Stage → List (Call Bytes F) → Option Stage
  | p, [] => some p
  | p, c :: cs => (p.call c).bind (calls · cs)

theorem Stage.calls_append (p : Stage) (cs ds : List (Call Bytes F)) :
    p.calls (cs ++ ds) = (p.calls cs).bind (·.calls ds) := by
  induction cs generalizing p with
  | nil => rfl
  | cons c cs ih =>
    rw [cons_append, calls, calls]
    cases p.call c with
    | none => rfl
    | some p' => exact ih p'

def Stage.begun (p : Stage) : Nat := p.rows + if p.inRow then 1 else 0

theorem Stage.begun_le_of_call {p p' : Stage} {c : Call Bytes F} (h : p.call c = some p') :
    p.begun ≤ p'.begun := by
  unfold begun
  cases c with
  | beginRow =>
    rw [call] at h
    split at h
    · cases h
    next hrow =>
      cases h
      simp [hrow]
  | endRow =>
    rw [call] at h
    split at h
    next hrow =>
      cases h
      simp [hrow]
    · cases h
  | resolveField key =>
    cases h
    exact Nat.le_refl _
  | append key value | appendLine line =>
    rw [call] at h
    split at h
    · cases h
      exact Nat.le_refl _
    · cases h

theorem Stage.begun_le_of_calls {p p' : Stage} {cs : List (Call Bytes F)}
    (h : p.calls cs = some p') : p.begun ≤ p'.begun := by
  induction cs generalizing p with
  | nil =>
    cases h
    exact Nat.le_refl _
  | cons c cs ih =>
    obtain ⟨p₁, hstep, hrest⟩ := bind_eq_some_iff.mp h
    exact Nat.le_trans (begun_le_of_call hstep) (ih hrest)

/-- The builder is where the calls are. -/
structure Session.At (s : Session F) (p : Stage) : Prop where
  state : s.builder.lifecycle.state = if p.inRow then .inRow else .inBatch
  rows : s.builder.lifecycle.rowCount = p.rows
  resolved : ∀ key ∈ p.resolved, (s.indices key).isSome = true

section Run

variable [FloatOps F] {s : Session F} {sh : Sheet F} {p p' : Stage} {c : Call Slice F}

omit [FloatOps F] in
theorem Session.At.of_frame {b' : StreamingBuilder F} (h : s.At p) (hframe : Frame s.builder b') :
    Session.At { s with builder := b' } p :=
  ⟨hframe.state ▸ h.state, hframe.rowCount ▸ h.rows, h.resolved⟩

/-- A call that comes when it may is made. -/
theorem Session.At.call (h : s.At p) (hrep : s.Represents sh) (hin : c.InBuf s.builder.buf)
    (hstage : p.call (c.withText s.builder.buf) = some p') (hrows : p.begun ≤ u32Max) :
    ∃ s', s.call c = some s' ∧ s'.At p' := by
  have hinRow : p.inRow → s.builder.lifecycle.state = .inRow := fun hrow => by
    rw [h.state, if_pos hrow]
  cases c with
  | beginRow =>
    replace hstage : (if p.inRow then none else some { p with inRow := true }) = some p' := hstage
    split at hstage
    · cases hstage
    next hrow =>
      cases hstage
      have hstate : s.builder.lifecycle.state = .inBatch := by rw [h.state, if_neg hrow]
      rw [call, beginRow, RowLifecycle.beginRow,
        if_neg (not_not.mpr hstate)]
      exact ⟨_, rfl, rfl, h.rows, h.resolved⟩
  | endRow =>
    replace hstage : (if p.inRow then some { p with inRow := false, rows := p.rows + 1 } else none)
      = some p' := hstage
    split at hstage
    next hrow =>
      cases hstage
      have hmax : s.builder.lifecycle.rowCount ≠ u32Max := by
        rw [Stage.begun, if_pos hrow] at hrows
        rw [h.rows]
        omega
      rw [call, endRow, RowLifecycle.endRow, if_neg (not_not.mpr (hinRow hrow)), if_neg hmax]
      exact ⟨_, rfl, rfl, congrArg (· + 1) h.rows, h.resolved⟩
    · cases hstage
  | resolveField key =>
    cases hstage
    have hactive : s.builder.lifecycle.state ≠ .idle := hrep.builder.active
    obtain ⟨⟨idx, b'⟩, hb'⟩ := isSome_iff_exists.mp (resolveField_isSome key hactive)
    rw [call, hb']
    refine ⟨_, rfl, ?_⟩
    have hframe := frame_resolveField hb'
    refine ⟨hframe.state ▸ h.state, hframe.rowCount ▸ h.rows, fun k hk => ?_⟩
    show (if k = key then some idx else s.indices k).isSome = true
    split
    · rfl
    next hne =>
      rcases mem_cons.mp hk with heq | hk
      · exact absurd heq hne
      · exact h.resolved k hk
  | append key value =>
    replace hstage :
        (if p.inRow ∧ p.resolved.contains key then some p else none) = some p' := hstage
    split at hstage
    next hcond =>
      cases hstage
      obtain ⟨idx, hidx⟩ := isSome_iff_exists.mp (h.resolved key (contains_iff_mem.mp hcond.2))
      obtain ⟨fc, hfc, -⟩ := hrep.builder.field idx key (hrep.indices key idx hidx)
      have hslot : HasSlot s.builder idx := isSome_of_eq_some hfc
      obtain ⟨b', hb'⟩ := isSome_iff_exists.mp (appendByIdx_isSome (hinRow hcond.1) hslot hin)
      rw [call, hidx]
      dsimp only
      rw [hb']
      exact ⟨_, rfl, h.of_frame (frame_appendByIdx hb')⟩
    · cases hstage
  | appendLine line =>
    replace hstage : (if p.inRow then some p else none) = some p' := hstage
    split at hstage
    next hrow =>
      cases hstage
      obtain ⟨b', hb'⟩ := isSome_iff_exists.mp (appendLine_isSome (hinRow hrow) hin)
      rw [call, hb']
      exact ⟨_, rfl, h.of_frame (frame_appendLine hb')⟩
    · cases hstage

/-- And so are all calls of a batch. -/
theorem Session.At.calls (h : s.At p) (hrep : s.Represents sh) {cs : List (Call Slice F)}
    (hin : ∀ c ∈ cs, c.InBuf s.builder.buf)
    (hstage : p.calls (cs.map (Call.withText s.builder.buf)) = some p')
    (hrows : p'.begun ≤ u32Max) : ∃ s', s.calls cs = some s' ∧ s'.At p' := by
  induction cs generalizing s sh p with
  | nil =>
    cases hstage
    exact ⟨s, rfl, h⟩
  | cons c cs ih =>
    obtain ⟨p₁, hstep, hrest⟩ := bind_eq_some_iff.mp hstage
    have hbegun := Stage.begun_le_of_call hstep
    have hbegun' := Stage.begun_le_of_calls hrest
    obtain ⟨s₁, hs₁, hat⟩ := h.call hrep (hin c mem_cons_self) hstep (by omega)
    have hover : ¬ Overflowing s.builder := by
      rintro ⟨hstate, hmax⟩
      have hrow : p.inRow := by
        by_contra hrow
        rw [h.state, if_neg hrow] at hstate
        cases hstate
      rw [h.rows] at hmax
      rw [Stage.begun, if_pos hrow] at hbegun
      omega
    have hsame := call_sameBatch hs₁
    obtain ⟨s', hs', hat'⟩ := ih hat (hrep.call hover (hin c mem_cons_self) hs₁)
      (fun c hc => hsame.buf ▸ hin c (mem_cons_of_mem _ hc)) (hsame.buf ▸ hrest)
    exact ⟨s', by rw [calls, hs₁]; exact hs', hat'⟩

end Run

-- == scan calls

section Scan

variable {config : ScanConfig F}

/-- Calls that fit between rows, with at most `n` rows among them. -/
def KeepsOrder (n : Nat) (cs : List ScanCall) : Prop :=
  ∀ p : Stage, p.inRow = false →
    ∃ p', p.calls (cs.map (callOf : ScanCall → Call Bytes F)) = some p' ∧ p'.inRow = false
      ∧ p'.rows ≤ p.rows + n

theorem calls_resolve (fields : List (Bytes × FieldValue)) (p : Stage) :
    p.calls ((fields.map fun f => ScanCall.resolveField f.1).map (callOf : ScanCall → Call Bytes F))
      = some { p with resolved := (fields.map Prod.fst).reverse ++ p.resolved } := by
  induction fields generalizing p with
  | nil => rfl
  | cons f fields ih =>
    simp only [map_cons, reverse_cons, append_assoc]
    exact ih { p with resolved := f.1 :: p.resolved }

variable {p : Stage}

theorem calls_append {fields : List (Bytes × FieldValue)} (hrow : p.inRow)
    (hresolved : ∀ f ∈ fields, f.1 ∈ p.resolved) :
    p.calls ((fields.map fun f => ScanCall.append f.1 f.2).map
      (callOf : ScanCall → Call Bytes F)) = some p := by
  induction fields with
  | nil => rfl
  | cons f fields ih =>
    have hstep : p.call (callOf (.append f.1 f.2) : Call Bytes F) = some p :=
      if_pos ⟨hrow, contains_iff_mem.mpr (hresolved f mem_cons_self)⟩
    rw [map_cons, map_cons, Stage.calls, hstep]
    exact ih fun f hf => hresolved f (mem_cons_of_mem _ hf)

theorem calls_resolve_append (fields : List (Bytes × FieldValue)) (hrow : p.inRow) :
    p.calls ((fields.flatMap fun f => [ScanCall.resolveField f.1, .append f.1 f.2]).map
        (callOf : ScanCall → Call Bytes F))
      = some { p with resolved := (fields.map Prod.fst).reverse ++ p.resolved } := by
  induction fields generalizing p with
  | nil => rfl
  | cons f fields ih =>
    have hstep : Stage.call { p with resolved := f.1 :: p.resolved }
        (callOf (.append f.1 f.2) : Call Bytes F)
        = some { p with resolved := f.1 :: p.resolved } :=
      if_pos ⟨hrow, contains_iff_mem.mpr mem_cons_self⟩
    simp only [map_cons, reverse_cons, append_assoc]
    show (Stage.calls { p with resolved := f.1 :: p.resolved } (_ :: _)) = _
    rw [Stage.calls, hstep]
    exact ih hrow

theorem calls_capture (line : Bytes) (hrow : p.inRow) :
    p.calls ((captureCalls config line).map (callOf : ScanCall → Call Bytes F)) = some p := by
  rw [captureCalls]
  split
  · show (Stage.call p (.appendLine line)).bind _ = some p
    rw [Stage.call, if_pos hrow]
    rfl
  · rfl

variable {cs : List ScanCall}

/-- A row that begins, has calls that leave its stage in the row, and
ends. -/
theorem calls_row {p' : Stage} (hrow : p.inRow = false)
    (hcs : Stage.calls { p with inRow := true } (cs.map (callOf : ScanCall → Call Bytes F))
      = some p') (hrow' : p'.inRow) :
    p.calls ((ScanCall.beginRow :: cs ++ [ScanCall.endRow]).map (callOf : ScanCall → Call Bytes F))
      = some { p' with inRow := false, rows := p'.rows + 1 } := by
  have hbegin : p.call (callOf .beginRow : Call Bytes F) = some { p with inRow := true } :=
    if_neg (by rw [hrow]; exact Bool.false_ne_true)
  have hend : p'.call (callOf .endRow : Call Bytes F)
      = some { p' with inRow := false, rows := p'.rows + 1 } := if_pos hrow'
  rw [cons_append, map_cons, Stage.calls, hbegin, map_append]
  show Stage.calls _ _ = _
  rw [Stage.calls_append, hcs]
  show (Stage.call p' _).bind _ = _
  rw [hend]
  rfl

variable [FloatOps F]

/-- The calls of a line are at most one row. -/
theorem keepsOrder_lineCalls (line : Bytes) (members : List Member) :
    KeepsOrder (F := F) 1 (lineCalls config line members) := by
  intro p hrow
  let p' : Stage :=
    { inRow := true, rows := p.rows
      resolved := ((wantedFields config members).map Prod.fst).reverse ++ p.resolved }
  rw [lineCalls]
  split
  next predicate _ =>
    rw [filteredCalls, map_append, Stage.calls_append, calls_resolve]
    split
    · have hcs : Stage.calls p' ((captureCalls config line
            ++ (wantedFields config members).map fun f => ScanCall.append f.1 f.2).map
              (callOf : ScanCall → Call Bytes F)) = some p' := by
        rw [map_append, Stage.calls_append, calls_capture line rfl]
        refine calls_append rfl fun f hf => mem_append_left _ ?_
        exact mem_reverse.mpr (mem_map.mpr ⟨f, hf, rfl⟩)
      refine ⟨_, calls_row hrow hcs rfl, rfl, Nat.le_refl _⟩
    · exact ⟨_, rfl, hrow, Nat.le_add_right _ _⟩
  next =>
    have hcs : Stage.calls { p with inRow := true }
        ((captureCalls config line ++ (wantedFields config members).flatMap
          fun f => [ScanCall.resolveField f.1, .append f.1 f.2]).map
            (callOf : ScanCall → Call Bytes F)) = some p' := by
      rw [map_append, Stage.calls_append, calls_capture line rfl]
      exact calls_resolve_append _ rfl
    exact ⟨_, calls_row hrow hcs rfl, rfl, Nat.le_refl _⟩

variable {m n : Nat}

omit [FloatOps F] in
theorem KeepsOrder.append {ds : List ScanCall} (hcs : KeepsOrder (F := F) m cs)
    (hds : KeepsOrder (F := F) n ds) : KeepsOrder (F := F) (m + n) (cs ++ ds) := by
  intro p hrow
  obtain ⟨p₁, hp₁, hrow₁, hle₁⟩ := hcs p hrow
  obtain ⟨p₂, hp₂, hrow₂, hle₂⟩ := hds p₁ hrow₁
  refine ⟨p₂, ?_, hrow₂, by omega⟩
  rw [map_append, Stage.calls_append, hp₁]
  exact hp₂

omit [FloatOps F] in
theorem KeepsOrder.mono (hcs : KeepsOrder (F := F) m cs)
    (h : m ≤ n) : KeepsOrder (F := F) n cs := by
  intro p hrow
  obtain ⟨p', hp', hrow', hle⟩ := hcs p hrow
  exact ⟨p', hp', hrow', by omega⟩

theorem keepsOrder_readLineCalls (st : QuoteState) (line : Bytes) :
    KeepsOrder (F := F) line.length (readLineCalls config st line) := by
  rw [readLineCalls]
  split
  · exact fun p hrow => ⟨p, rfl, hrow, Nat.le_add_right _ _⟩
  next hbody =>
    refine (keepsOrder_lineCalls (stripCr line) _).mono ?_
    have hlen := (stripCr_isPrefix line).length_le
    have hpos := length_pos_iff.mpr hbody
    omega

/-- There are no more rows than bytes. -/
theorem keepsOrder_readLines (config : ScanConfig F) (lines : List Bytes) (st : QuoteState) :
    KeepsOrder (F := F) (joinLines lines).length (readLines config st lines) := by
  induction lines generalizing st with
  | nil => exact fun p hrow => ⟨p, rfl, hrow, Nat.le_add_right _ _⟩
  | cons line rest ih =>
    refine ((keepsOrder_readLineCalls st line).append (ih _)).mono ?_
    by_cases hrest : rest = []
    · subst hrest
      exact Nat.le_refl _
    · rw [joinLines_cons hrest, length_append, length_cons]
      omega

theorem keepsOrder_scanStreaming (config : ScanConfig F) (buf : Bytes) :
    KeepsOrder (F := F) buf.length (scanStreaming buf config) := by
  have h := scanStreaming_joinLines config (newline_notMem_linesOf buf)
  rw [joinLines_linesOf] at h
  rw [h]
  have hrows := keepsOrder_readLines config (Core.linesOf buf) .start
  rw [joinLines_linesOf] at hrows
  exact hrows

end Scan

-- == slices

section Slices

variable {buf text : Bytes} {c : ScanCall}

theorem exists_slice (h : text <:+: buf) : ∃ s : Slice, s.InBuf buf ∧ s.bytes buf = text := by
  obtain ⟨before, behind, rfl⟩ := h
  refine ⟨⟨before.length, text.length⟩, ?_, ?_⟩
  · show before.length + text.length ≤ _
    simp only [length_append]
    omega
  · rw [Slice.bytes, slice, append_assoc, drop_left, Nat.add_sub_cancel_left, take_left]

/-- A call whose text stands in the buffer can be located. -/
theorem exists_located_call (h : StandsIn buf c) :
    ∃ c' : Call Slice F, c'.InBuf buf ∧ c'.withText buf = callOf c := by
  cases c with
  | beginRow => exact ⟨.beginRow, trivial, rfl⟩
  | endRow => exact ⟨.endRow, trivial, rfl⟩
  | resolveField key => exact ⟨.resolveField key, trivial, rfl⟩
  | appendLine line =>
    obtain ⟨s, hin, hs⟩ := exists_slice h
    exact ⟨.appendLine s, hin, congrArg Call.appendLine hs⟩
  | append key value =>
    cases value with
    | str value =>
      obtain ⟨s, hin, hs⟩ := exists_slice h
      exact ⟨.append key (.str s), hin, congrArg (fun t => Call.append key (.str t)) hs⟩
    | decodedStr value => exact ⟨.append key (.decodedStr value), trivial, rfl⟩
    | int value => exact ⟨.append key (.int value), trivial, rfl⟩
    | float value => exact ⟨.append key (.float value), trivial, rfl⟩
    | bool value => exact ⟨.append key (.bool value), trivial, rfl⟩
    | null => exact ⟨.append key .null, trivial, rfl⟩

theorem exists_located_calls {scan : List ScanCall}
    (h : ∀ c ∈ scan, StandsIn buf c) : ∃ calls : List (Call Slice F), Located buf scan calls := by
  induction scan with
  | nil => exact ⟨[], nofun, rfl⟩
  | cons c scan ih =>
    obtain ⟨calls, hcalls⟩ := ih fun c hc => h c (mem_cons_of_mem _ hc)
    obtain ⟨c', hin, hc'⟩ := exists_located_call (h c mem_cons_self)
    refine ⟨c' :: calls, forall_mem_cons.mpr ⟨hin, hcalls.inBuf⟩, ?_⟩
    rw [map_cons, map_cons, hc', hcalls.texts]

variable [FloatOps F] (config : ScanConfig F)

/-- The calls of every scan can be made with slices of the buffer. -/
theorem exists_located (buf : Bytes) :
    ∃ calls : List (Call Slice F), Located buf (scanStreaming buf config) calls := by
  refine exists_located_calls fun c hc => ?_
  obtain ⟨line, hline, -, rfl | hc⟩ := exists_line_of_mem_scanStreaming hc
  · exact (stripCr_isPrefix line).isInfix.trans hline
  · exact hc.within ((drop_suffix 1 line).isInfix.trans hline)

end Slices

-- == batches

/-- A table comes of a batch exactly when it can be made. -/
theorem finishBatch_ok_iff_fits [ArrowOps] {b : StreamingBuilder F} {sh : Sheet F}
    (h : Represents b sh) (hbatch : b.lifecycle.state = .inBatch) :
    (∃ r, b.finishBatch = .ok r)
      ↔ sh.contents.Fits (viewSpec b.buf.length sh.decoded) b.lineFieldName b.resourceAttrs := by
  have hfaithful := faithful_viewArrays b
  rw [h.decoded] at hfaithful
  constructor
  · rintro ⟨⟨batch, b'⟩, hok⟩
    exact ((finishWith_ok h hbatch hfaithful batch).mp (finishBatch_ok.mp hok).2.2.1).1
  · intro hfits
    have hlengths : ∀ column ∈ sh.contents.columns (viewSpec b.buf.length sh.decoded)
        b.lineFieldName b.resourceAttrs, column.2.length = sh.rows :=
      fun column => length_of_mem_columns hfaithful.validity hfits.lines
    have hwith := (finishWith_ok h hbatch hfaithful ⟨sh.rows, _, hlengths⟩).mpr ⟨hfits, rfl, rfl⟩
    exact ⟨_, finishBatch_ok.mpr ⟨hbatch, h.fits, hwith, rfl⟩⟩

variable {s : Session F}

theorem Session.lineFieldName_step [FloatOps F] [ArrowOps] {s' : Session F} {action : Action F}
    (hstep : s.step action = some s') : s'.builder.lineFieldName = s.builder.lineFieldName := by
  have hfinished : ∀ {result : Except Failure (RecordBatch F × StreamingBuilder F)},
      (∀ batch b', result = .ok (batch, b') → b'.lineFieldName = s.builder.lineFieldName) →
      (s.finished result).builder.lineFieldName = s.builder.lineFieldName := by
    intro result hresult
    cases result with
    | error e => rfl
    | ok r => exact hresult r.1 r.2 rfl
  cases action with
  | setResourceAttributes attrs =>
    cases hstep
    rfl
  | beginBatch buf =>
    obtain ⟨b', hb', rfl⟩ := map_eq_some_iff.mp hstep
    rw [StreamingBuilder.beginBatch] at hb'
    split at hb'
    · cases hb'
    · obtain ⟨lifecycle, -, rfl⟩ := map_eq_some_iff.mp hb'
      rfl
  | call c => exact (call_sameBatch hstep).lineFieldName
  | finishBatch =>
    cases hstep
    refine hfinished fun batch b' hok => ?_
    rw [(finishBatch_ok.mp hok).2.2.2]
  | finishBatchDetached =>
    cases hstep
    refine hfinished fun batch b' hok => ?_
    rw [(finishBatchDetached_ok.mp hok).2.2]

theorem Session.lineFieldName_of_reachable [FloatOps F] [ArrowOps] {line : Option Bytes}
    (hreach : ReachableWhen step (fun s a => a.InBuf s) (.new line) s) :
    s.builder.lineFieldName = line := by
  refine hreach.invariant (I := fun s => s.builder.lineFieldName = line) rfl ?_
  intro action s s' h _ hstep
  exact (lineFieldName_step hstep).trans h

/-- What a scan makes of a buffer. -/
def scannedSheet [FloatOps F] (config : ScanConfig F) (buf : Bytes) : Sheet F :=
  .ofCalls buf.length config.capturesLine ((scanStreaming buf config).map callOf)

/-- A scan never panics in its calls, and leaves the builder with the sheet
of the buffer. -/
theorem Session.scan_represents [FloatOps F] {config : ScanConfig F} {s₁ : Session F} {buf : Bytes}
    (hrep : s₁.Represents .empty) (hbuf : s₁.builder.buf = buf)
    (hline : s₁.builder.lineFieldName = config.lineFieldName)
    (hat : s₁.At { inRow := false, rows := 0, resolved := [] }) (hlen : buf.length ≤ u32Max)
    {calls : List (Call Slice F)} (hcalls : Located buf (scanStreaming buf config) calls) :
    ∃ s, s₁.calls calls = some s ∧ s.builder.lifecycle.state = .inBatch
      ∧ s.Represents (scannedSheet config buf) := by
  obtain ⟨p', hstage, hrow', hrows⟩ :=
    keepsOrder_scanStreaming config buf { inRow := false, rows := 0, resolved := [] } rfl
  have hbegun : p'.begun ≤ u32Max := by
    rw [Stage.begun, hrow']
    exact Nat.le_trans hrows (Nat.le_trans (Nat.le_of_eq (Nat.zero_add _)) hlen)
  rw [← hcalls.texts, ← hbuf] at hstage
  have hin : ∀ c ∈ calls, c.InBuf s₁.builder.buf := hbuf ▸ hcalls.inBuf
  obtain ⟨s, hs, hat'⟩ := hat.calls hrep hin hstage hbegun
  have hstate : s.builder.lifecycle.state = .inBatch := by rw [hat'.state, hrow']; rfl
  refine ⟨s, hs, hstate, ?_⟩
  rcases hrep.calls hin hs with hover | hrep'
  · cases hstate.symm.trans hover.1
  · rw [hbuf, hline, hcalls.texts] at hrep'
    exact hrep'

/-- Whatever is in a buffer, its scan returns a batch exactly when the table
can be made. -/
theorem scan_returns_batch_iff_fits [FloatOps F] [ArrowOps] {sc : Scanner F}
    (hreach : ReachableWhen step (fun s a => a.InBuf s) (.new sc.config.lineFieldName)
      sc.session)
    (hrow : sc.session.builder.lifecycle.state ≠ .inRow) (hutf8 : sc.validateUtf8 = false)
    {buf : Bytes} (hlen : buf.length < 2 ^ 32) {calls : List (Call Slice F)}
    (hcalls : Located buf (scanStreaming buf sc.config) calls) :
    (∃ r, sc.scan calls buf = .ok r)
      ↔ (scannedSheet sc.config buf).contents.Fits
        (viewSpec buf.length (scannedSheet sc.config buf).decoded) sc.config.lineFieldName
        sc.resourceAttrs := by
  have hle : buf.length ≤ u32Max := by
    rw [u32Max]
    omega
  have hbegin : ∃ s₁, sc.session.beginBatch buf = some s₁ ∧ s₁.builder.buf = buf
      ∧ s₁.builder.lineFieldName = sc.session.builder.lineFieldName
      ∧ s₁.At { inRow := false, rows := 0, resolved := [] } := by
    rw [Session.beginBatch, StreamingBuilder.beginBatch, if_neg (Nat.not_lt.mpr hle),
      RowLifecycle.beginBatch, if_neg hrow]
    exact ⟨_, rfl, rfl, rfl, rfl, rfl, by simp⟩
  obtain ⟨s₁, hs₁, hbuf, hline, hat⟩ := hbegin
  rw [lineFieldName_of_reachable hreach] at hline
  have hrep := (Sound.of_reachable hreach).beginBatch hs₁
  have hrep' : Session.Represents
      { s₁ with builder := s₁.builder.setResourceAttributes sc.resourceAttrs } .empty :=
    ⟨{ hrep.builder with }, hrep.indices⟩
  obtain ⟨s, hs, hstate, hsheet⟩ :=
    scan_represents hrep' hbuf hline ⟨hat.state, hat.rows, hat.resolved⟩ hle hcalls
  have hsame := calls_sameBatch hs
  have hscan : sc.scan calls buf = s.builder.finishBatch.map fun r =>
      (r.1, { sc with session := { s with builder := r.2 } }) := by
    rw [Scanner.scan, hutf8, hs₁]
    dsimp only
    rw [hs]
    rfl
  have hfinish := finishBatch_ok_iff_fits hsheet.builder hstate
  have hbuf' : s.builder.buf = buf := hsame.buf.trans hbuf
  have hline' : s.builder.lineFieldName = sc.config.lineFieldName :=
    hsame.lineFieldName.trans hline
  have hattrs : s.builder.resourceAttrs = sc.resourceAttrs := hsame.resourceAttrs
  rw [hbuf', hline', hattrs] at hfinish
  rw [hscan]
  refine .trans ⟨?_, ?_⟩ hfinish
  · intro hok
    obtain ⟨r, hr⟩ := hok
    obtain ⟨a, ha, -⟩ := map_eq_ok_iff.mp hr
    exact ⟨a, ha⟩
  · intro hok
    obtain ⟨a, ha⟩ := hok
    exact ⟨_, map_eq_ok_iff.mpr ⟨a, ha, rfl⟩⟩

/-- The lines `{"a":1}` and `{"a":"x","b":2}`. -/
def fieldLines : Bytes :=
  [0x7b, 0x22, 0x61, 0x22, 0x3a, 0x31, 0x7d, 0x0a,
   0x7b, 0x22, 0x61, 0x22, 0x3a, 0x22, 0x78, 0x22, 0x2c, 0x22, 0x62, 0x22, 0x3a, 0x32, 0x7d, 0x0a]

/-- Every line is captured, as `l`. -/
def capturing : ScanConfig Int := { ScanConfig.default with lineFieldName := some [0x6c] }

/-- The resource attribute `k`, with the value `v`. -/
def oneAttribute : List (Str × Str) :=
  [(⟨[0x6b], by decide +kernel⟩, ⟨[0x76], by decide +kernel⟩)]

def fieldLinesCalls : List (Call Slice Int) :=
  [.beginRow, .appendLine ⟨0, 7⟩, .resolveField [0x61], .append [0x61] (.int [0x31]), .endRow,
    .beginRow, .appendLine ⟨8, 15⟩, .resolveField [0x61], .append [0x61] (.str ⟨14, 1⟩),
    .resolveField [0x62], .append [0x62] (.int [0x32]), .endRow]

/-- A field with values of two types, one with a value in one row, the lines
and the attribute: a table comes of them, and they fit. -/
theorem field_lines_fit :
    (∃ r, (Scanner.withResourceAttrs capturing false oneAttribute).scan fieldLinesCalls fieldLines
        = .ok r)
      ∧ (scannedSheet capturing fieldLines).contents.Fits
        (viewSpec 24 (scannedSheet capturing fieldLines).decoded) (some [0x6c]) oneAttribute := by
  have hscan : scanStreaming fieldLines capturing
      = [.beginRow, .appendLine (slice fieldLines 0 7), .resolveField [0x61],
          .append [0x61] (.int [0x31]), .endRow,
        .beginRow, .appendLine (slice fieldLines 8 23), .resolveField [0x61],
          .append [0x61] (.str [0x78]), .resolveField [0x62], .append [0x62] (.int [0x32]),
          .endRow] := by
    decide +kernel
  have hcalls : Located fieldLines (scanStreaming fieldLines capturing) fieldLinesCalls := by
    refine ⟨by simp [fieldLinesCalls, Call.InBuf, Slice.InBuf, fieldLines], ?_⟩
    rw [hscan]
    rfl
  have hisOk : ∀ {α : Type} {x : Except Failure α}, x.isOk → ∃ r, x = .ok r := by
    intro α x hx
    cases x with
    | ok r => exact ⟨r, rfl⟩
    | error e => cases hx
  exact (and_iff_left_of_imp
    (@scan_returns_batch_iff_fits Int _ _ (.withResourceAttrs capturing false oneAttribute)
      .init (by decide) rfl fieldLines (by decide) fieldLinesCalls hcalls).mp).mpr
    (hisOk (by decide +kernel))

/-- A line with two keys that are not UTF-8: `{"?":1,"?":2}`, with 0xff and
0xfe for the question marks. -/
def poisonLine : Bytes :=
  [0x7b, 0x22, 0xff, 0x22, 0x3a, 0x31, 0x2c, 0x22, 0xfe, 0x22, 0x3a, 0x32, 0x7d]

def poisonCalls : List (Call Slice Int) :=
  [.beginRow, .resolveField [0xff], .append [0xff] (.int [0x31]), .resolveField [0xfe],
    .append [0xfe] (.int [0x32]), .endRow]

theorem poison_line_fails_the_batch :
    Located poisonLine (scanStreaming poisonLine (.default : ScanConfig Int)) poisonCalls
      ∧ poisonLine.length < 2 ^ 32
      ∧ ¬ ∃ r, (Scanner.withResourceAttrs (.default : ScanConfig Int) false []).scan poisonCalls
        poisonLine = .ok r := by
  have hscan : scanStreaming poisonLine (.default : ScanConfig Int)
      = [.beginRow, .resolveField [0xff], .append [0xff] (.int [0x31]), .resolveField [0xfe],
        .append [0xfe] (.int [0x32]), .endRow] := by decide +kernel
  have hfails : ((Scanner.withResourceAttrs (.default : ScanConfig Int) false []).scan poisonCalls
      poisonLine).isOk = false := by decide +kernel
  refine ⟨⟨?_, ?_⟩, by decide, ?_⟩
  · simp [poisonCalls, Call.InBuf]
  · rw [hscan]
    rfl
  · intro hok
    obtain ⟨r, hr⟩ := hok
    rw [hr] at hfails
    cases hfails

end FastForward.Arrow
