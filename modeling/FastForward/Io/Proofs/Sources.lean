/-
Sources of a framed input as machines.

A source's machine is its state: it reads data, is flushed at end of file
and is forgotten on rotation or truncation. What it does depends on
nothing but that state (`SourceState.read`, `SourceState.flush`). The
wrapper is a family of such machines, one for each key (`Sources`), that
shares nothing between them.
-/
import FastForward.Io.Framed
import FastForward.Io.Proofs.Format

namespace FastForward.Io

open Core Lib Pipeline List Ascii

-- == one source

/-- Data that a source emits at once. -/
structure Emitted where
  bytes : Bytes
  criMetadata : Option CriMetadata
  deriving DecidableEq, Repr

/-- A sidecar without rows is none. -/
def sidecarOf (metadata : Option CriMetadata) : Option CriMetadata :=
  metadata.filter fun m => !m.isEmpty

namespace SourceState

def decode (s : SourceState) (lines : Bytes) : SourceState × List Emitted :=
  let decoded := s.format.processLinesWithMetadata lines [] (some .empty)
  ({ s with format := decoded.format },
    if decoded.out.isEmpty then [] else [⟨decoded.out, sidecarOf decoded.metadata⟩])

/-- Decode the complete lines of a chunk. -/
def complete (s : SourceState) (taintedOnEntry : Bool) (lines : Bytes) :
    SourceState × List Emitted :=
  let skip := FramedInput.skipFragment taintedOnEntry lines s
  if skip.1 < lines.length then skip.2.decode (lines.drop skip.1) else (skip.2, [])

def read (s : SourceState) (bytes : Bytes) : Option (SourceState × List Emitted) :=
  let chunk := s.remainder ++ bytes
  let lastNewlinePos := memrchr newline chunk
  (s.tracker.applyRead bytes.length
      (FramedInput.newlineInNewBytes lastNewlinePos s.remainder.length)).map fun tracker =>
    let taken := { s with remainder := [], tracker }
    match lastNewlinePos with
    | some pos =>
      let cut := taken.cutTail chunk pos
      cut.1.complete s.overflowTainted cut.2
    | none => (taken.keepTail chunk, [])

/-- End of file. -/
def flush (s : SourceState) : SourceState × List Emitted :=
  if s.remainder.isEmpty then (s, [])
  else
    let line := s.remainder ++ [newline]
    let state := { s with remainder := [], overflowTainted := false }
    let start := if s.overflowTainted then (memchr newline line).elim 0 (· + 1) else 0
    let r := if start < line.length then state.decode (line.drop start) else (state, [])
    ({ r.1 with tracker := r.1.tracker.applyRemainderConsumed }, r.2)

/-- A state that may be forgotten is. -/
def retained (reclaim : Bool) (s : SourceState) : Option SourceState :=
  if reclaim && s.isReclaimable then none else some s

end SourceState

-- == all sources

/-- The wrapper without its scratch space. -/
structure Sources where
  shouldReclaim : Bool
  formatTemplate : FormatDecoder
  states : BTreeMap (Option SourceId) SourceState

namespace Sources

variable {R : Type}

def entry (S : Sources) (key : Option SourceId) : SourceState :=
  (S.states[key]?).getD (.fresh S.formatTemplate)

def update (S : Sources) (key : Option SourceId) (state : Option SourceState) : Sources :=
  { S with
    states :=
      match state with
      | some state => S.states.insert key state
      | none => S.states.erase key }

def dataEvents (key : Option SourceId) (outputs : List Emitted) : List (SourceEvent UInt8 R) :=
  outputs.map fun e => .data e.bytes key 0 e.criMetadata

def data (S : Sources) (key : Option SourceId) (bytes : Bytes) :
    Option (Sources × List (SourceEvent UInt8 R)) :=
  ((S.entry key).read bytes).map fun r =>
    (S.update key (r.1.retained (key.isSome && S.shouldReclaim)), dataEvents key r.2)

/-- End of file of a source. -/
def flush (S : Sources) (key : Option SourceId) : Sources × List (SourceEvent UInt8 R) :=
  match S.states[key]? with
  | some state =>
    (S.update key (state.flush.1.retained true), dataEvents key state.flush.2)
  | none => (S, [])

/-- After rotation or truncation. -/
def forget (S : Sources) : Option SourceId → Sources
  | some id => S.update (some id) none
  | none => { S with states := ∅ }

section Events

variable (keyOrder : BTreeMap (Option SourceId) SourceState → List (Option SourceId))

/-- The sources an end of file is for. -/
def keysToFlush (S : Sources) : Option SourceId → List (Option SourceId)
  | some id => [some id]
  | none => keyOrder S.states

/-- One raw event. -/
def step (S : Sources) :
    SourceEvent UInt8 R → Option (Sources × List (SourceEvent UInt8 R))
  | .data bytes sourceId _ _ => S.data sourceId bytes
  | .batch batch sourceId _ => some (S, [.batch batch sourceId 0])
  | .rotated sourceId => some (S.forget sourceId, [.rotated sourceId])
  | .truncated sourceId => some (S.forget sourceId, [.truncated sourceId])
  | .endOfFile sourceId => some (Transducer.run flush S (S.keysToFlush keyOrder sourceId))

/-- Raw events, one after the other. -/
def process (S : Sources) : List (SourceEvent UInt8 R) →
    Option (Sources × List (SourceEvent UInt8 R))
  | [] => some (S, [])
  | event :: rest =>
    (S.step keyOrder event).bind fun r =>
      (r.1.process rest).map fun t => (t.1, r.2 ++ t.2)

end Events

end Sources

-- == decoding, any buffer

/-- What a decoder appends does not depend on what it appends to. -/
theorem processLinesWithMetadata_out (format : FormatDecoder) (chunk out : Bytes)
    (metadata : Option CriMetadata) :
    format.processLinesWithMetadata chunk out metadata
      = { format.processLinesWithMetadata chunk [] metadata with
          out := out ++ (format.processLinesWithMetadata chunk [] metadata).out } := by
  cases hcri : format.emitsCriMetadata with
  | true => simp [processLinesWithMetadata_eq hcri]
  | false =>
    cases format with
    | passthrough | passthroughJson => rfl
    | cri a name | auto a name => cases hcri

theorem sidecarOf_getD (metadata : Option CriMetadata) :
    sidecarOf (some (metadata.getD .empty)) = sidecarOf metadata := by
  cases metadata <;> rfl

theorem decode_passthrough {s : SourceState} (h : s.format.isPassthrough)
    {lines : Bytes} (hlines : lines ≠ []) : s.decode lines = (s, [⟨lines, none⟩]) := by
  obtain ⟨remainder, format, tracker, tainted⟩ := s
  cases format with
  | passthrough | passthroughJson =>
    simp [SourceState.decode, FormatDecoder.processLinesWithMetadata, hlines]; rfl
  | cri a name | auto a name => cases h

-- == tails and lines

theorem memrchr_newline_lt {bytes : Bytes} {pos : Nat}
    (h : memrchr newline bytes = some pos) : pos < bytes.length := by
  rcases memrchr_newline bytes with ⟨hnone, -⟩ | ⟨front, hsome, hbytes, -⟩
  · rw [hnone] at h
    cases h
  · rw [hsome, Option.some.injEq] at h
    rw [hbytes, length_append, length_cons]
    omega

/-- Lines up to a newline. -/
theorem take_newline_ne_nil {bytes : Bytes} {pos : Nat}
    (h : memrchr newline bytes = some pos) : bytes.take (pos + 1) ≠ [] := by
  have hne : bytes ≠ [] := by
    rintro rfl
    cases h
  simp [hne]

namespace SourceState

variable {s : SourceState}

theorem remainder_keepTail_ne_nil {tail : Bytes} (h : tail ≠ []) :
    (s.keepTail tail).remainder ≠ [] := by
  rw [keepTail]
  split
  next hlong =>
    refine length_pos_iff.mp ?_
    rw [length_drop]
    have hmax : 0 < maxRemainderBytes := by decide
    omega
  next => exact h

theorem isPassthrough_keepTail (h : s.format.isPassthrough)
    (tail : Bytes) : (s.keepTail tail).format.isPassthrough := by
  rw [keepTail]
  split
  next =>
    cases hformat : s.format with
    | passthrough | passthroughJson => rfl
    | cri a name | auto a name => rw [hformat] at h; cases h
  next => exact h

theorem retained_of_remainder (h : s.remainder ≠ []) (reclaim : Bool) :
    s.retained reclaim = some s := by
  have hempty : s.remainder.isEmpty = false := by
    rw [← Bool.not_eq_true, List.isEmpty_iff]
    exact h
  rw [retained, isReclaimable, hempty]
  simp

theorem applyRead_isSome {t t' : CheckpointTracker} {n : Nat} {pos : Option Nat}
    (h : t.applyRead n pos = some t') : n ≠ 0 := by
  rintro rfl
  cases h

/-- Without newline a chunk is kept. -/
theorem read_of_none {bytes : Bytes} (hpos : memrchr newline (s.remainder ++ bytes) = none) :
    s.read bytes = (s.tracker.applyRead bytes.length none).map fun tracker =>
      ({ s with remainder := [], tracker }.keepTail (s.remainder ++ bytes), []) := by
  rw [read, hpos]
  rfl

/-- With one, its lines are complete. -/
theorem read_of_some {bytes : Bytes} {pos : Nat}
    (hpos : memrchr newline (s.remainder ++ bytes) = some pos) :
    s.read bytes = (s.tracker.applyRead bytes.length
        (FramedInput.newlineInNewBytes (some pos) s.remainder.length)).map fun tracker =>
      ({ s with remainder := [], tracker }.cutTail (s.remainder ++ bytes) pos).1.complete
        s.overflowTainted
        ({ s with remainder := [], tracker }.cutTail (s.remainder ++ bytes) pos).2 := by
  rw [read, hpos]

theorem complete_passthrough (h : s.format.isPassthrough)
    {lines : Bytes} (hlines : lines ≠ []) : s.complete false lines = (s, [⟨lines, none⟩]) := by
  show (if 0 < lines.length then s.decode lines else _) = _
  rw [if_pos (length_pos_iff.mpr hlines)]
  exact decode_passthrough h hlines

end SourceState

-- == data, by case

namespace Sources

variable {R : Type} (S : Sources) {key : Option SourceId} {bytes : Bytes}

/-- A chunk without newline is kept, and its source with it. -/
theorem data_of_none (hpos : memrchr newline ((S.entry key).remainder ++ bytes) = none) :
    S.data (R := R) key bytes
      = ((S.entry key).tracker.applyRead bytes.length none).map fun tracker =>
          (S.update key (some ({ S.entry key with remainder := [], tracker }.keepTail
            ((S.entry key).remainder ++ bytes))), []) := by
  rw [data, SourceState.read_of_none hpos]
  cases happly : (S.entry key).tracker.applyRead bytes.length none with
  | none => rfl
  | some tracker =>
    have hne : (S.entry key).remainder ++ bytes ≠ [] :=
      append_ne_nil_of_right_ne_nil _ (length_pos_iff.mp
        (Nat.pos_of_ne_zero (SourceState.applyRead_isSome happly)))
    dsimp only [Option.map_some]
    rw [SourceState.retained_of_remainder (SourceState.remainder_keepTail_ne_nil hne)]
    rfl

/-- A chunk with a newline: its lines are complete. -/
theorem data_of_some {pos : Nat}
    (hpos : memrchr newline ((S.entry key).remainder ++ bytes) = some pos) :
    S.data (R := R) key bytes
      = ((S.entry key).tracker.applyRead bytes.length
          (FramedInput.newlineInNewBytes (some pos) (S.entry key).remainder.length)).map
          fun tracker =>
            let cut := { S.entry key with remainder := [], tracker }.cutTail
              ((S.entry key).remainder ++ bytes) pos
            let r := cut.1.complete (S.entry key).overflowTainted cut.2
            (S.update key (r.1.retained (key.isSome && S.shouldReclaim)), dataEvents key r.2) := by
  rw [data, SourceState.read_of_some hpos, Option.map_map]
  rfl

/-- The same where lines pass through and nothing is kept. -/
theorem data_passthrough (hpass : (S.entry key).format.isPassthrough)
    (hremainder : (S.entry key).remainder = [])
    (htaint : (S.entry key).overflowTainted = false) {pos : Nat}
    (hpos : memrchr newline bytes = some pos) :
    S.data (R := R) key bytes
      = ((S.entry key).tracker.applyRead bytes.length (some pos)).map fun tracker =>
          if pos + 1 = bytes.length then
            (S.update key (SourceState.retained (key.isSome && S.shouldReclaim)
                { S.entry key with tracker }), dataEvents key [⟨bytes, none⟩])
          else
            (S.update key (some ({ S.entry key with tracker }.keepTail (bytes.drop (pos + 1)))),
              dataEvents key [⟨bytes.take (pos + 1), none⟩]) := by
  have hlt := memrchr_newline_lt hpos
  rw [S.data_of_some (by rw [hremainder]; exact hpos)]
  generalize S.entry key = state at hpass hremainder htaint ⊢
  obtain ⟨remainder, format, tracker, tainted⟩ := state
  obtain rfl : remainder = [] := hremainder
  obtain rfl : tainted = false := htaint
  refine congrArg (fun g => Option.map g (tracker.applyRead bytes.length (some pos))) ?_
  funext tracker'
  dsimp only [nil_append]
  by_cases hend : pos + 1 = bytes.length
  · have hne : bytes ≠ [] := length_pos_iff.mp (by omega)
    rw [if_pos hend, SourceState.cutTail, if_neg (by omega),
      SourceState.complete_passthrough (by exact hpass) hne]
  · have hne : bytes.drop (pos + 1) ≠ [] := drop_eq_nil_iff.not.mpr (by omega)
    have hkept := SourceState.isPassthrough_keepTail
      (s := ⟨[], format, tracker', false⟩) hpass (bytes.drop (pos + 1))
    rw [if_neg hend, SourceState.cutTail, if_pos (by omega)]
    rw [SourceState.complete_passthrough hkept (take_newline_ne_nil hpos),
      SourceState.retained_of_remainder (SourceState.remainder_keepTail_ne_nil hne)]

end Sources

-- == totality

/-- The assertions of the tracker hold for data that is not empty. -/
theorem SourceState.read_isSome_iff (s : SourceState) {bytes : Bytes} :
    (s.read bytes).isSome = true ↔ bytes ≠ [] := by
  rw [read, Option.isSome_map]
  constructor
  · rintro h rfl
    cases h
  · intro h
    have hlength : bytes.length ≠ 0 := fun h0 => h (length_eq_zero_iff.mp h0)
    cases hpos : memrchr newline (s.remainder ++ bytes) with
    | none => simp [FramedInput.newlineInNewBytes, CheckpointTracker.applyRead, hlength]
    | some pos =>
      have hlt := memrchr_newline_lt hpos
      rw [length_append] at hlt
      rw [FramedInput.newlineInNewBytes, Option.bind_some]
      split
      next hle =>
        rw [CheckpointTracker.applyRead, if_neg hlength]
        rw [if_neg (by omega)]
        rfl
      next => simp [CheckpointTracker.applyRead, hlength]

variable {R : Type}

/-- Data that is not empty, and any other event. -/
def NonemptyData : SourceEvent UInt8 R → Prop
  | .data bytes _ _ _ => bytes ≠ []
  | _ => True

namespace Sources

variable (keyOrder : BTreeMap (Option SourceId) SourceState → List (Option SourceId))

theorem step_isSome_iff (S : Sources) {event : SourceEvent UInt8 R} :
    (S.step keyOrder event).isSome = true ↔ NonemptyData event := by
  cases event with
  | data bytes sourceId _ _ =>
    rw [step, data, Option.isSome_map]
    exact (S.entry sourceId).read_isSome_iff
  | batch _ _ _ | rotated _ | truncated _ | endOfFile _ => exact iff_of_true rfl trivial

/-- A run fails an assertion only on empty data. -/
theorem process_isSome_iff (S : Sources) (events : List (SourceEvent UInt8 R)) :
    (S.process keyOrder events).isSome = true ↔ ∀ event ∈ events, NonemptyData event := by
  induction events generalizing S with
  | nil => exact iff_of_true rfl fun _ h => absurd h not_mem_nil
  | cons event rest ih =>
    rw [process, forall_mem_cons, ← S.step_isSome_iff keyOrder]
    cases S.step keyOrder event with
    | none => simp
    | some r => simp [ih]

end Sources

end FastForward.Io
