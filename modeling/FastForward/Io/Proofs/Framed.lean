/-
The two entry points of the framing wrapper.

Both are the family of source machines, the poll path with its outputs as
events (`processRawEvents_eq`) and the shared-buffer path with the same
outputs as ranges of the buffer (`processRawEventsInto_eq`): the scratch
buffers that the sources share, and the fast path, make no difference.
-/
import FastForward.Io.Proofs.Sources

namespace FastForward.Io

open Core Lib Pipeline List Ascii SourceState BTreeMap Option Std.ExtTreeMap

-- == parts of the wrapper

namespace FramedInput

variable {R : Type}

def toSources (f : FramedInput) : Sources :=
  { shouldReclaim := f.shouldReclaim, formatTemplate := f.formatTemplate, states := f.sources }

theorem toSources_setSource (f : FramedInput) (key : Option SourceId) (state : SourceState) :
    (f.setSource key state).toSources = f.toSources.update key (some state) := rfl

theorem toSources_forget (f : FramedInput) (sourceId : Option SourceId) :
    (f.forget sourceId).toSources = f.toSources.forget sourceId := by
  cases sourceId <;> rfl

variable (m : BTreeMap (Option SourceId) SourceState) (key : Option SourceId)

theorem erase_insert (state : SourceState) : (m.insert key state).erase key = m.erase key := by
  refine ext_getElem? fun k => ?_
  rw [getElem?_erase_eq, getElem?_erase_eq, getElem?_insert_eq]
  by_cases hk : key = k
  · rw [if_pos hk, if_pos hk]
  · rw [if_neg hk, if_neg hk, if_neg hk]

theorem insert_insert (state state' : SourceState) :
    (m.insert key state).insert key state' = m.insert key state' := by
  refine ext_getElem? fun k => ?_
  rw [getElem?_insert_eq, getElem?_insert_eq, getElem?_insert_eq]
  by_cases hk : key = k
  · rw [if_pos hk, if_pos hk]
  · rw [if_neg hk, if_neg hk, if_neg hk]

variable {key : Option SourceId} {state : SourceState} {f : FramedInput} {S : Sources}

theorem toSources_removeCompleted (h : f.toSources = S.update key (some state)) :
    (f.removeCompleted key).toSources = S.update key (state.retained true) := by
  have hsources : f.sources = S.states.insert key state := congrArg Sources.states h
  have hlookup : f.sources[key]? = some state := by
    rw [hsources, getElem?_insert_eq, if_pos rfl]
  rw [removeCompleted, hlookup, any_some, retained, Bool.true_and]
  split
  next =>
    show Sources.mk f.toSources.shouldReclaim f.toSources.formatTemplate (f.sources.erase key) = _
    rw [h, hsources, erase_insert]
    rfl
  next => exact h

theorem toSources_reclaimCompleted (h : f.toSources = S.update key (some state)) :
    (f.reclaimCompleted key).toSources
      = S.update key (state.retained (key.isSome && S.shouldReclaim)) := by
  have hreclaim : f.shouldReclaim = S.shouldReclaim := congrArg Sources.shouldReclaim h
  rw [reclaimCompleted, hreclaim]
  cases key.isSome && S.shouldReclaim with
  | true => exact toSources_removeCompleted h
  | false => exact h

variable (f : FramedInput)

/-- The sidecar is taken when it has rows, and the rest stays. -/
theorem criMetadataForEmittedData_fst :
    f.criMetadataForEmittedData.1 = sidecarOf (some f.criMetadataBuf) := by
  rw [criMetadataForEmittedData, sidecarOf, filter_some]
  cases f.criMetadataBuf.isEmpty <;> rfl

theorem toSources_criMetadataForEmittedData :
    f.criMetadataForEmittedData.2.toSources = f.toSources := by
  rw [criMetadataForEmittedData]
  split <;> rfl

variable (key : Option SourceId)

theorem toSources_emitOutBuf :
    (f.emitOutBuf (R := R) key).1.toSources = f.toSources := by
  rw [emitOutBuf]
  split
  next => rfl
  next => exact toSources_criMetadataForEmittedData { f with outBuf := [] }

theorem emitOutBuf_snd :
    (f.emitOutBuf (R := R) key).2
      = if f.outBuf.isEmpty then []
        else [.data f.outBuf key 0 (sidecarOf (some f.criMetadataBuf))] := by
  rw [emitOutBuf]
  split
  next => rfl
  next =>
    show [SourceEvent.data f.outBuf key 0 _] = _
    rw [criMetadataForEmittedData_fst]

/-- Complete lines, decoded and emitted. -/
theorem emitOutBuf_processLines (state : SourceState)
    (lines : Bytes) :
    let g := { f with outBuf := [], criMetadataBuf := .empty }.processLines key state lines
    (g.emitOutBuf (R := R) key).1.toSources = f.toSources.update key (some (state.decode lines).1)
      ∧ (g.emitOutBuf (R := R) key).2 = Sources.dataEvents key (state.decode lines).2 := by
  intro g
  constructor
  · rw [toSources_emitOutBuf]
    rfl
  · rw [emitOutBuf_snd]
    show (if (state.format.processLinesWithMetadata lines [] (some .empty)).out.isEmpty then []
      else [_]) = Sources.dataEvents key (if _ then [] else [_])
    split
    next => rfl
    next =>
      exact congrArg (fun m => [SourceEvent.data _ key 0 m]) (sidecarOf_getD _)

end FramedInput

-- == poll path

namespace FramedInput

variable {R : Type}

theorem entry_toSources (f : FramedInput) (key : Option SourceId) :
    f.toSources.entry key = f.entry key := rfl

variable {key : Option SourceId}

variable (f : FramedInput)

theorem processFast_eq {bytes : Bytes}
    (hpass : (f.entry key).format.isPassthrough)
    (hremainder : (f.entry key).remainder = []) (htaint : (f.entry key).overflowTainted = false) :
    (f.processFast (R := R) bytes key).map (fun r => (r.1.toSources, r.2))
      = f.toSources.data key bytes := by
  unfold processFast
  cases hpos : memrchr newline bytes with
  | none =>
    rw [f.toSources.data_of_none (by rw [entry_toSources, hremainder]; exact hpos),
      Option.map_map, entry_toSources, hremainder]
    rfl
  | some pos =>
    rw [f.toSources.data_passthrough hpass hremainder htaint hpos, Option.map_map]
    refine map_congr fun tracker _ => ?_
    split
    next => exact Prod.ext (toSources_reclaimCompleted rfl) rfl
    next => rfl

theorem processComplete_eq (key : Option SourceId) (state : SourceState)
    (taintedOnEntry : Bool) (chunk : Bytes) :
    let r := f.processComplete (R := R) key state taintedOnEntry chunk
    (r.1.toSources, r.2)
      = (f.toSources.update key ((state.complete taintedOnEntry chunk).1.retained
            (key.isSome && f.toSources.shouldReclaim)),
          Sources.dataEvents key (state.complete taintedOnEntry chunk).2) := by
  unfold processComplete complete
  dsimp only
  split
  next =>
    obtain ⟨hsources, hevents⟩ := emitOutBuf_processLines f key
      (skipFragment taintedOnEntry chunk state).2
      (chunk.drop (skipFragment taintedOnEntry chunk state).1)
    exact Prod.ext (toSources_reclaimCompleted hsources) hevents
  next => exact Prod.ext (toSources_reclaimCompleted (toSources_emitOutBuf ..)) (emitOutBuf_snd ..)

theorem processGeneral_eq (bytes : Bytes) (key : Option SourceId) :
    (f.processGeneral (R := R) bytes key).map (fun r => (r.1.toSources, r.2))
      = f.toSources.data key bytes := by
  have hfront : ((f.entry key).remainder ++ bytes).length - bytes.length
      = (f.entry key).remainder.length := by
    rw [length_append, Nat.add_sub_cancel]
  unfold processGeneral
  dsimp only
  rw [hfront]
  cases hpos : memrchr newline ((f.entry key).remainder ++ bytes) with
  | none =>
    rw [f.toSources.data_of_none hpos, Option.map_map]
    rfl
  | some pos =>
    rw [f.toSources.data_of_some hpos, Option.map_map]
    refine map_congr fun tracker _ => ?_
    exact processComplete_eq f key _ _ _

/-- Data on the poll path. -/
theorem processData_eq (bytes : Bytes) (key : Option SourceId) :
    (f.processData (R := R) bytes key).map (fun r => (r.1.toSources, r.2))
      = f.toSources.data key bytes := by
  unfold processData
  dsimp only
  split
  next hfast =>
    simp only [Bool.and_eq_true, List.isEmpty_iff, Bool.not_eq_true'] at hfast
    exact processFast_eq f hfast.1.1 hfast.1.2 hfast.2
  next => exact processGeneral_eq f bytes key

variable {state : SourceState} {f : FramedInput} {S : Sources}

theorem entry_of_toSources (h : f.toSources = S.update key (some state)) : f.entry key = state := by
  rw [← entry_toSources, h]
  show (((S.states.insert key state)[key]?).getD _) = state
  rw [getElem?_insert_eq, if_pos rfl, getD_some]

theorem toSources_setSource_of
    (h : f.toSources = S.update key (some state)) (state' : SourceState) :
    (f.setSource key state').toSources = S.update key (some state') := by
  rw [toSources_setSource, h]
  show Sources.mk _ _ ((S.states.insert key state).insert key state') = _
  rw [insert_insert]
  rfl

theorem update_self
    (h : f.sources[key]? = some state) : f.toSources.update key (some state) = f.toSources := by
  have hinsert : f.sources.insert key state = f.sources := by
    refine ext_getElem? fun k => ?_
    rw [getElem?_insert_eq]
    by_cases hk : key = k
    · rw [if_pos hk, ← hk, h]
    · rw [if_neg hk]
  show Sources.mk _ _ (f.sources.insert key state) = _
  rw [hinsert]
  rfl

/-- The tracker is told of a flush, whatever was written. -/
theorem emitOutBuf_consumed (h : f.toSources = S.update key (some state)) :
    let g := f.setSource key
      { f.entry key with tracker := (f.entry key).tracker.applyRemainderConsumed }
    ((g.emitOutBuf (R := R) key).1.removeCompleted key).toSources
        = S.update key
            (retained true { state with tracker := state.tracker.applyRemainderConsumed })
      ∧ (g.emitOutBuf (R := R) key).2 = (f.emitOutBuf key).2 := by
  rw [entry_of_toSources h]
  constructor
  · refine toSources_removeCompleted ?_
    rw [toSources_emitOutBuf]
    exact toSources_setSource_of h _
  · rw [emitOutBuf_snd, emitOutBuf_snd]
    rfl

variable (f : FramedInput)

/-- End of file on the poll path. -/
theorem flushSource_eq (key : Option SourceId) :
    ((f.flushSource (R := R) key).1.toSources, (f.flushSource (R := R) key).2)
      = f.toSources.flush key := by
  unfold flushSource Sources.flush
  rw [show f.toSources.states = f.sources from rfl]
  cases hstate : f.sources[key]? with
  | none =>
    dsimp only
    rw [removeCompleted, hstate]
    rfl
  | some state =>
    dsimp only
    by_cases hempty : state.remainder.isEmpty
    · rw [if_pos hempty, flush, if_pos hempty]
      exact Prod.ext (toSources_removeCompleted (update_self hstate).symm) rfl
    · rw [if_neg hempty, flush]
      dsimp only
      generalize (if state.overflowTainted then _ else 0) = start
      split
      next =>
        obtain ⟨hsources, hevents⟩ := emitOutBuf_processLines f key
          { state with remainder := [], overflowTainted := false }
          ((state.remainder ++ [newline]).drop start)
        rw [toSources_emitOutBuf] at hsources
        obtain ⟨hremoved, hsame⟩ := emitOutBuf_consumed hsources
        exact Prod.ext hremoved (hsame.trans hevents)
      next =>
        obtain ⟨hremoved, hsame⟩ := emitOutBuf_consumed
          (toSources_setSource { f with outBuf := [], criMetadataBuf := .empty } key
            { state with remainder := [], overflowTainted := false })
        exact Prod.ext hremoved (hsame.trans (emitOutBuf_snd ..))

theorem flushSources_eq (keys : List (Option SourceId)) :
    ((f.flushSources (R := R) keys).1.toSources, (f.flushSources (R := R) keys).2)
      = Transducer.run Sources.flush f.toSources keys := by
  induction keys generalizing f with
  | nil => rfl
  | cons key keys ih =>
    rw [Transducer.run_cons, ← flushSource_eq, flushSources]
    rw [← ih]

theorem keysToFlush_toSources
    (keyOrder : BTreeMap (Option SourceId) SourceState → List (Option SourceId))
    (sourceId : Option SourceId) :
    f.toSources.keysToFlush keyOrder sourceId = f.keysToFlush keyOrder sourceId := by
  cases sourceId <;> rfl

section Events

variable (keyOrder : BTreeMap (Option SourceId) SourceState → List (Option SourceId))

variable (f : FramedInput)

theorem processRawEvent_eq (event : SourceEvent UInt8 R) :
    (f.processRawEvent keyOrder event).map (fun r => (r.1.toSources, r.2))
      = f.toSources.step keyOrder event := by
  cases event with
  | data bytes sourceId _ _ => exact processData_eq f bytes sourceId
  | batch batch sourceId _ => rfl
  | rotated sourceId | truncated sourceId =>
    exact congrArg some (Prod.ext (toSources_forget f sourceId) rfl)
  | endOfFile sourceId =>
    rw [Sources.step, ← flushSources_eq]
    rfl

variable (events : List (SourceEvent UInt8 R))

theorem processEach_eq :
    (f.processEach keyOrder events).map (fun r => (r.1.toSources, r.2))
      = f.toSources.process keyOrder events := by
  induction events generalizing f with
  | nil => rfl
  | cons event rest ih =>
    rw [processEach, Sources.process, ← processRawEvent_eq]
    cases f.processRawEvent keyOrder event with
    | none => rfl
    | some r =>
      show Option.map _ ((r.1.processEach keyOrder rest).bind _) = _
      rw [map_some, bind_some, ← ih]
      cases r.1.processEach keyOrder rest <;> rfl

/-- The poll path is the family of source machines. -/
theorem processRawEvents_eq :
    (f.processRawEvents keyOrder events).map (fun r => (r.1.toSources, r.2))
      = f.toSources.process keyOrder events := by
  rw [processRawEvents, processEach_eq]
  rfl

end Events

-- == poll-into path

/-- A structured batch, which the poll-into path refuses. -/
def isBatch : SourceEvent UInt8 R → Bool
  | .batch .. => true
  | _ => false

def payload (events : List (SourceEvent UInt8 R)) : Bytes :=
  events.flatMap fun
    | .data bytes _ _ _ => bytes
    | _ => []

/-- Events whose data is appended to a buffer, as ranges from `start`. -/
def ranges (start : Nat) : List (SourceEvent UInt8 R) → List FramedReadEvent
  | [] => []
  | .data bytes sourceId _ criMetadata :: rest =>
    .data start (start + bytes.length) sourceId criMetadata
      :: ranges (start + bytes.length) rest
  | .rotated sourceId :: rest => .rotated sourceId :: ranges start rest
  | .truncated sourceId :: rest => .truncated sourceId :: ranges start rest
  | .batch .. :: rest | .endOfFile .. :: rest => ranges start rest

@[simp] theorem payload_append (front back : List (SourceEvent UInt8 R)) :
    payload (front ++ back) = payload front ++ payload back := flatMap_append

theorem ranges_append (start : Nat) (front back : List (SourceEvent UInt8 R)) :
    ranges start (front ++ back)
      = ranges start front ++ ranges (start + (payload front).length) back := by
  induction front generalizing start with
  | nil => rfl
  | cons event front ih =>
    cases event with
    | data bytes sourceId accounted criMetadata =>
      rw [cons_append, ranges, ih, ranges, cons_append, add_assoc, ← length_append]
      rfl
    | batch _ _ _ => exact ih start
    | rotated sourceId => exact congrArg (.rotated sourceId :: ·) (ih start)
    | truncated sourceId => exact congrArg (.truncated sourceId :: ·) (ih start)
    | endOfFile _ => exact ih start

namespace Into

/-- What matters of the shared-buffer path. -/
def view (x : Into) : Sources × Bytes × List FramedReadEvent :=
  (x.framed.toSources, x.dst, x.events)

/-- The same after outputs of the source machines. -/
def after (x : Into) (r : Sources × List (SourceEvent UInt8 R)) :
    Sources × Bytes × List FramedReadEvent :=
  (r.1, x.dst ++ payload r.2, x.events ++ ranges x.dst.length r.2)

variable {y : Into}

/-- Outputs one after the other. -/
theorem after_after {x : Into} {r : Sources × List (SourceEvent UInt8 R)}
    (h : y.view = x.after r) (t : Sources × List (SourceEvent UInt8 R)) :
    y.after t = x.after (t.1, r.2 ++ t.2) := by
  have hdst : y.dst = x.dst ++ payload r.2 := congrArg (·.2.1) h
  have hevents : y.events = x.events ++ ranges x.dst.length r.2 := congrArg (·.2.2) h
  simp only [after, hdst, hevents, payload_append, ranges_append, length_append, append_assoc]

variable (x : Into)

theorem after_nil (S : Sources) : x.after (R := R) (S, []) = (S, x.dst, x.events) := by
  simp [after, payload, ranges]

theorem after_data (S : Sources) (key : Option SourceId) (e : Emitted) :
    x.after (R := R) (S, Sources.dataEvents key [e])
      = (S, x.dst ++ e.bytes,
          x.events ++ [.data x.dst.length (x.dst.length + e.bytes.length) key e.criMetadata]) := by
  simp [after, payload, ranges, Sources.dataEvents]

variable {events : List (SourceEvent UInt8 R)}

/-- Two steps that write the same from where they are. -/
theorem view_eq_after {x : Into}
    (h : y.view = x.after (S, events)) (g : FramedInput → FramedInput) {S' : Sources}
    (hg : (g y.framed).toSources = S') : (y.mapFramed g).view = x.after (S', events) :=
  Prod.ext hg (congrArg Prod.snd h :)

theorem view_appendBufferedData {data : Bytes} (h : data ≠ []) (key : Option SourceId) :
    (x.appendBufferedData data key).view
      = x.after (R := R) (x.framed.toSources, Sources.dataEvents key [⟨data, none⟩]) := by
  rw [appendBufferedData, if_neg (by simpa using h), after_data, ← length_append]
  rfl

/-- Complete lines, decoded into the buffer. -/
theorem view_processLines (key : Option SourceId) (state : SourceState) (lines : Bytes) :
    (x.processLines key state lines).view
      = x.after (R := R) (x.framed.toSources.update key (some (state.decode lines).1),
          Sources.dataEvents key (state.decode lines).2) := by
  unfold processLines decode
  rw [processLinesWithMetadata_out]
  dsimp only
  generalize state.format.processLinesWithMetadata lines [] (some .empty) = decoded
  obtain ⟨format, out, metadata⟩ := decoded
  by_cases hempty : out = []
  · rw [hempty, append_nil, if_neg (lt_irrefl _)]
    exact (after_nil x _).symm
  · have hlt : x.dst.length < (x.dst ++ out).length := by
      rw [length_append]
      exact Nat.lt_add_of_pos_right (length_pos_iff.mpr hempty)
    rw [if_pos hlt, if_neg (by simpa using hempty), after_data, ← length_append,
      ← sidecarOf_getD metadata]
    refine Prod.ext (toSources_criMetadataForEmittedData _) (Prod.ext rfl ?_)
    dsimp only [view]
    rw [criMetadataForEmittedData_fst]

theorem view_processFast {bytes : Bytes} (hpass : (x.framed.entry key).format.isPassthrough)
    (hremainder : (x.framed.entry key).remainder = [])
    (htaint : (x.framed.entry key).overflowTainted = false) :
    (x.processFast bytes key).map view
      = (x.framed.toSources.data (R := R) key bytes).map x.after := by
  unfold processFast
  cases hpos : memrchr newline bytes with
  | none =>
    rw [x.framed.toSources.data_of_none (by rw [entry_toSources, hremainder]; exact hpos),
      Option.map_map, Option.map_map, entry_toSources, hremainder]
    refine map_congr fun tracker _ => ?_
    exact (after_nil x _).symm
  | some pos =>
    rw [x.framed.toSources.data_passthrough hpass hremainder htaint hpos, Option.map_map,
      Option.map_map]
    refine map_congr fun tracker _ => ?_
    split
    next hend =>
      have hne : bytes ≠ [] := length_pos_iff.mp (by omega)
      have happended := view_appendBufferedData (R := R)
        (x.mapFramed (·.setSource key { x.framed.entry key with tracker })) hne key
      exact view_eq_after happended _ (toSources_reclaimCompleted (congrArg Prod.fst happended :))
    next => exact view_appendBufferedData _ (take_newline_ne_nil hpos) key

theorem view_processComplete (key : Option SourceId) (state : SourceState)
    (taintedOnEntry : Bool) (chunk : Bytes) :
    (x.processComplete key state taintedOnEntry chunk).view
      = x.after (R := R)
          (x.framed.toSources.update key ((state.complete taintedOnEntry chunk).1.retained
              (key.isSome && x.framed.toSources.shouldReclaim)),
            Sources.dataEvents key (state.complete taintedOnEntry chunk).2) := by
  unfold processComplete complete
  dsimp only
  split
  next =>
    have hlines := view_processLines (R := R) x key (skipFragment taintedOnEntry chunk state).2
      (chunk.drop (skipFragment taintedOnEntry chunk state).1)
    exact view_eq_after hlines _ (toSources_reclaimCompleted (congrArg Prod.fst hlines :))
  next =>
    have hset : (x.mapFramed (·.setSource key (skipFragment taintedOnEntry chunk state).2)).view
        = x.after (R := R) (x.framed.toSources.update key
            (some (skipFragment taintedOnEntry chunk state).2), []) := (after_nil x _).symm
    exact view_eq_after hset _ (toSources_reclaimCompleted rfl)

theorem view_processGeneral (bytes : Bytes) (key : Option SourceId) :
    (x.processGeneral bytes key).map view
      = (x.framed.toSources.data (R := R) key bytes).map x.after := by
  have hfront : ((x.framed.entry key).remainder ++ bytes).length - bytes.length
      = (x.framed.entry key).remainder.length := by
    rw [length_append, Nat.add_sub_cancel]
  unfold processGeneral
  dsimp only
  rw [hfront]
  cases hpos : memrchr newline ((x.framed.entry key).remainder ++ bytes) with
  | none =>
    rw [x.framed.toSources.data_of_none hpos, Option.map_map, Option.map_map]
    refine map_congr fun tracker _ => ?_
    exact (after_nil x _).symm
  | some pos =>
    rw [x.framed.toSources.data_of_some hpos, Option.map_map, Option.map_map]
    refine map_congr fun tracker _ => ?_
    exact view_processComplete x key _ _ _

/-- Data on the poll-into path. -/
theorem view_processData (bytes : Bytes) (key : Option SourceId) :
    (x.processData bytes key).map view
      = (x.framed.toSources.data (R := R) key bytes).map x.after := by
  unfold processData
  dsimp only
  split
  next hfast =>
    simp only [Bool.and_eq_true, List.isEmpty_iff, Bool.not_eq_true'] at hfast
    exact view_processFast x hfast.1.1 hfast.1.2 hfast.2
  next => exact view_processGeneral x bytes key

/-- The tracker is told of a flush. -/
theorem view_consumed {x : Into} (h : y.view = x.after (S.update key (some state), events)) :
    ((y.mapFramed (·.setSource key { y.framed.entry key with
        tracker := (y.framed.entry key).tracker.applyRemainderConsumed })).mapFramed
          (·.removeCompleted key)).view
      = x.after (S.update key (retained true
          { state with tracker := state.tracker.applyRemainderConsumed }), events) := by
  have hsources : y.framed.toSources = S.update key (some state) := congrArg Prod.fst h
  have hset := view_eq_after h (·.setSource key { y.framed.entry key with
    tracker := (y.framed.entry key).tracker.applyRemainderConsumed })
    (toSources_setSource_of hsources _)
  rw [entry_of_toSources hsources] at hset ⊢
  exact view_eq_after hset _ (toSources_removeCompleted (congrArg Prod.fst hset :))

/-- End of file on the poll-into path. -/
theorem view_flushSource (key : Option SourceId) :
    (x.flushSource key).view = x.after (x.framed.toSources.flush (R := R) key) := by
  unfold flushSource Sources.flush
  rw [show x.framed.toSources.states = x.framed.sources from rfl]
  cases hstate : x.framed.sources[key]? with
  | none =>
    rw [after_nil]
    show ((x.framed.removeCompleted key).toSources, _) = _
    rw [removeCompleted, hstate]
    rfl
  | some state =>
    dsimp only
    by_cases hempty : state.remainder.isEmpty
    · rw [if_pos hempty, flush, if_pos hempty]
      exact view_eq_after (after_nil x _).symm _
        (toSources_removeCompleted (update_self hstate).symm)
    · rw [if_neg hempty, flush]
      dsimp only
      generalize (if state.overflowTainted then _ else 0) = start
      split
      next =>
        refine view_consumed ?_
        exact view_processLines (x.mapFramed ({ · with criMetadataBuf := .empty }))
          key { state with remainder := [], overflowTainted := false }
          ((state.remainder ++ [newline]).drop start)
      next =>
        refine view_consumed ?_
        exact (after_nil x _).symm

theorem view_flushSources (keys : List (Option SourceId)) :
    (keys.foldl flushSource x).view
      = x.after (Transducer.run (Sources.flush (R := R)) x.framed.toSources keys) := by
  induction keys generalizing x with
  | nil => exact (after_nil x _).symm
  | cons key keys ih =>
    have hflush := view_flushSource (R := R) x key
    have hsources : (x.flushSource key).framed.toSources = _ := congrArg Prod.fst hflush
    rw [foldl_cons, ih, after_after hflush, hsources]
    rfl

section Events

variable (keyOrder : BTreeMap (Option SourceId) SourceState → List (Option SourceId))

theorem view_processRawEvent (x : Into) {event : SourceEvent UInt8 R} (h : isBatch event = false) :
    (x.processRawEvent keyOrder event).map (Except.map view)
      = (x.framed.toSources.step keyOrder event).map fun r => .ok (x.after r) := by
  cases event with
  | data bytes sourceId _ _ =>
    have hdata := congrArg (Option.map (.ok : _ → Except String _))
      (view_processData (R := R) x bytes sourceId)
    rw [Option.map_map, Option.map_map] at hdata
    rw [processRawEvent, Option.map_map]
    exact hdata
  | batch batch sourceId accounted => cases h
  | rotated sourceId | truncated sourceId =>
    refine congrArg (fun v => some (Except.ok v)) ?_
    refine Prod.ext (toSources_forget x.framed sourceId) ?_
    simp [view, after, payload, ranges]
  | endOfFile sourceId =>
    refine congrArg (fun v => some (Except.ok v)) ?_
    rw [view_flushSources, keysToFlush_toSources]

theorem view_processEach (x : Into) {events : List (SourceEvent UInt8 R)}
    (h : ∀ event ∈ events, isBatch event = false) :
    (x.processEach keyOrder events).map (Except.map view)
      = (x.framed.toSources.process keyOrder events).map fun r => .ok (x.after r) := by
  induction events generalizing x with
  | nil => exact congrArg (fun v => some (Except.ok v)) (after_nil x _).symm
  | cons event rest ih =>
    have hevent := view_processRawEvent keyOrder x (h event mem_cons_self)
    rw [processEach, Sources.process]
    cases hstep : x.framed.toSources.step keyOrder event with
    | none =>
      rw [hstep, map_none, map_eq_none_iff] at hevent
      rw [hevent]
      rfl
    | some r =>
      rw [hstep, map_some, map_eq_some_iff] at hevent
      obtain ⟨result, hresult, hview⟩ := hevent
      rw [hresult]
      cases result with
      | error e => cases hview
      | ok y =>
        have hafter : y.view = x.after r := Except.ok.inj hview
        have hsources : y.framed.toSources = r.1 := congrArg Prod.fst hafter
        rw [ih y fun e he => h e (mem_cons_of_mem event he), hsources,
          bind_some, Option.map_map]
        refine map_congr fun t _ => ?_
        exact congrArg Except.ok (after_after hafter t)

end Events

end Into

section Agreement

variable (keyOrder : BTreeMap (Option SourceId) SourceState → List (Option SourceId))
  {events : List (SourceEvent UInt8 R)}

/-- The poll-into path is the family of source machines, its outputs as
ranges. -/
theorem processRawEventsInto_eq (f : FramedInput)
    (h : ∀ event ∈ events, isBatch event = false) (dst : Bytes) :
    (f.processRawEventsInto keyOrder events dst).map (Except.map Into.view)
      = (f.toSources.process keyOrder events).map fun r =>
          .ok (r.1, dst ++ payload r.2, ranges dst.length r.2) := by
  rw [processRawEventsInto, Into.view_processEach keyOrder _ h]
  refine map_congr fun r _ => ?_
  simp [Into.after]

/-- A range event with its bytes looked up in the buffer. -/
def resolve (dst : Bytes) : FramedReadEvent → SourceEvent UInt8 R
  | .data start stop sourceId criMetadata =>
    .data ((dst.drop start).take (stop - start)) sourceId 0 criMetadata
  | .rotated sourceId => .rotated sourceId
  | .truncated sourceId => .truncated sourceId

/-- Events that can be written as ranges: accounting is the caller's. -/
def IsPlain : SourceEvent UInt8 R → Prop
  | .data _ _ accounted _ => accounted = 0
  | .rotated _ | .truncated _ => True
  | .batch .. | .endOfFile .. => False

/-- Ranges lead back to the events they were made of. -/
theorem resolve_ranges (front : Bytes) (h : ∀ event ∈ events, IsPlain event) :
    (ranges front.length events).map (resolve (front ++ payload events)) = events := by
  induction events generalizing front with
  | nil => rfl
  | cons event rest ih =>
    have hrest : ∀ e ∈ rest, IsPlain e := fun e he => h e (mem_cons_of_mem event he)
    have hevent := h event mem_cons_self
    cases event with
    | data bytes sourceId accounted criMetadata =>
      obtain rfl : accounted = 0 := hevent
      have hih := ih (front ++ bytes) hrest
      rw [length_append, append_assoc] at hih
      show resolve (front ++ (bytes ++ payload rest)) (.data _ _ _ _)
        :: map (resolve (front ++ (bytes ++ payload rest))) _ = _
      rw [hih, resolve]
      simp
    | batch _ _ _ => exact hevent.elim
    | rotated sourceId => exact congrArg (.rotated sourceId :: ·) (ih front hrest)
    | truncated sourceId => exact congrArg (.truncated sourceId :: ·) (ih front hrest)
    | endOfFile _ => exact hevent.elim

theorem isPlain_dataEvents (key : Option SourceId) (outputs : List Emitted) :
    ∀ event ∈ Sources.dataEvents (R := R) key outputs, IsPlain event := by
  intro event hevent
  obtain ⟨e, -, rfl⟩ := mem_map.mp hevent
  exact rfl

theorem isPlain_flushes (S : Sources) (keys : List (Option SourceId)) :
    ∀ event ∈ (Transducer.run (Sources.flush (R := R)) S keys).2, IsPlain event := by
  refine (Transducer.run_invariant Sources.flush (fun _ => True) IsPlain (fun _ => True)
    (fun S key _ _ => ⟨trivial, ?_⟩) trivial fun _ _ => trivial).2
  unfold Sources.flush
  split
  next => exact isPlain_dataEvents key _
  next => exact fun _ h => absurd h not_mem_nil

variable {r : Sources × List (SourceEvent UInt8 R)}

theorem isPlain_step {event : SourceEvent UInt8 R} (h : isBatch event = false)
    (hr : S.step keyOrder event = some r) :
    ∀ output ∈ r.2, IsPlain output := by
  cases event with
  | data bytes sourceId _ _ =>
    obtain ⟨t, -, rfl⟩ := map_eq_some_iff.mp hr
    exact isPlain_dataEvents sourceId t.2
  | batch _ _ _ => cases h
  | rotated sourceId | truncated sourceId =>
    cases hr
    simp [IsPlain]
  | endOfFile sourceId =>
    cases hr
    exact isPlain_flushes S _

theorem isPlain_process (h : ∀ event ∈ events, isBatch event = false)
    (hr : S.process keyOrder events = some r) :
    ∀ output ∈ r.2, IsPlain output := by
  induction events generalizing S r with
  | nil =>
    cases hr
    exact fun _ h => absurd h not_mem_nil
  | cons event rest ih =>
    obtain ⟨one, hone, hr⟩ := bind_eq_some_iff.mp hr
    obtain ⟨more, hmore, rfl⟩ := map_eq_some_iff.mp hr
    intro output houtput
    rcases mem_append.mp houtput with hmem | hmem
    · exact isPlain_step keyOrder (h event mem_cons_self) hone output hmem
    · exact ih (fun e he => h e (mem_cons_of_mem event he)) hmore output hmem

/-- A poll that gave events and one into a buffer did the same: the
buffer got the bytes of the events, its ranges are those events, and every
source is left in the same state. -/
structure Agree (dst : Bytes) (poll : FramedInput × List (SourceEvent UInt8 R)) (into : Into) :
    Prop where
  bytes : into.dst = dst ++ payload poll.2
  events : into.events.map (resolve into.dst) = poll.2
  sources : into.framed.sources = poll.1.sources
  shouldReclaim : into.framed.shouldReclaim = poll.1.shouldReclaim
  formatTemplate : into.framed.formatTemplate = poll.1.formatTemplate

/-- **The entry points agree.** On raw events without batches the poll
path and the poll-into path both succeed and do the same, unless data is
empty: then both fail an assertion of the tracker. -/
theorem entryPoints_agree (f : FramedInput) (events : List (SourceEvent UInt8 R))
    (h : ∀ event ∈ events, isBatch event = false) (dst : Bytes) :
    ((∀ event ∈ events, NonemptyData event)
        ∧ ∃ poll into, f.processRawEvents keyOrder events = some poll
          ∧ f.processRawEventsInto keyOrder events dst = some (.ok into) ∧ Agree dst poll into)
      ∨ ((∃ event ∈ events, ¬ NonemptyData event)
        ∧ f.processRawEvents keyOrder events = none
        ∧ f.processRawEventsInto keyOrder events dst = none) := by
  have hpoll := processRawEvents_eq keyOrder f events
  have hinto := processRawEventsInto_eq keyOrder f h dst
  have htotal := f.toSources.process_isSome_iff keyOrder events
  cases hprocess : f.toSources.process keyOrder events with
  | none =>
    rw [hprocess, map_eq_none_iff] at hpoll
    rw [hprocess, map_none, map_eq_none_iff] at hinto
    rw [hprocess] at htotal
    refine .inr ⟨?_, hpoll, hinto⟩
    by_contra hdata
    exact Bool.false_ne_true (htotal.mpr fun event hevent => not_not.mp fun hempty =>
      hdata ⟨event, hevent, hempty⟩)
  | some r =>
    rw [hprocess, map_eq_some_iff] at hpoll
    rw [hprocess, map_some, map_eq_some_iff] at hinto
    obtain ⟨poll, hpoll, rfl⟩ := hpoll
    obtain ⟨result, hinto, hview⟩ := hinto
    have hplain := isPlain_process keyOrder h hprocess
    rw [hprocess] at htotal
    cases result with
    | error e => cases hview
    | ok into =>
      have hview : into.view = _ := Except.ok.inj hview
      have hsources : into.framed.toSources = poll.1.toSources := congrArg (·.1) hview
      have hdst : into.dst = dst ++ payload poll.2 := congrArg (·.2.1) hview
      have hevents : into.events = ranges dst.length poll.2 := congrArg (·.2.2) hview
      refine .inl ⟨htotal.mp rfl, poll, into, hpoll, hinto, hdst, ?_,
        congrArg (·.states) hsources, congrArg (·.shouldReclaim) hsources,
        congrArg (·.formatTemplate) hsources⟩
      rw [hevents, hdst]
      exact resolve_ranges dst hplain

/-- A line in two pieces, and the end of the file behind an open one. -/
def splitLineEvents : List (SourceEvent UInt8 Unit) :=
  [.data [0x61] (some 1) 1 none, .data [0x62, 0x0a, 0x63] (some 1) 3 none, .endOfFile none]

theorem splitLineEvents_agree :
    ∃ poll into,
      (FramedInput.new false .passthrough).processRawEvents (·.keys) splitLineEvents = some poll
      ∧ (FramedInput.new false .passthrough).processRawEventsInto (·.keys) splitLineEvents []
        = some (.ok into) ∧ Agree [] poll into := by
  have hdata : ∀ event ∈ splitLineEvents, NonemptyData event := by
    simp [splitLineEvents, NonemptyData]
  have hagree := entryPoints_agree (·.keys) (FramedInput.new false .passthrough) splitLineEvents
    (by simp [splitLineEvents, isBatch]) []
  exact (hagree.resolve_right fun ⟨⟨event, hevent, hempty⟩, _⟩ => hempty (hdata event hevent)).2

end Agreement

end FramedInput

end FastForward.Io
