/-
Sources do not see each other.

What an event does to the state of one source, and what is emitted for
it, depends on that state and the event alone (`entryStep`); events that
do not concern the source leave both alone. So a run of the whole family,
looked at from one source, is the run of the events that concern it.

Rotation, truncation and end of file may come without a source id. Then
they concern every source.
-/
import FastForward.Io.Proofs.Framed

namespace FastForward.Io

open Core Lib Pipeline List FramedInput Option Std.ExtTreeMap

variable {R : Type}

-- == one source's view

def concerns (key : Option SourceId) : SourceEvent UInt8 R → Bool
  | .data _ sourceId _ _ => sourceId == key
  | .batch .. => false
  | .rotated sourceId | .truncated sourceId | .endOfFile sourceId =>
    decide (sourceId = none ∨ sourceId = key)

def emittedFor (key : Option SourceId) (events : List (SourceEvent UInt8 R)) : List Emitted :=
  events.filterMap fun
    | .data bytes sourceId _ criMetadata =>
      if sourceId = key then some ⟨bytes, criMetadata⟩ else none
    | _ => none

@[simp] theorem emittedFor_nil (key : Option SourceId) :
    emittedFor key ([] : List (SourceEvent UInt8 R)) = [] := rfl

@[simp] theorem emittedFor_append (key : Option SourceId)
    (front back : List (SourceEvent UInt8 R)) :
    emittedFor key (front ++ back) = emittedFor key front ++ emittedFor key back :=
  filterMap_append

theorem emittedFor_dataEvents (key key' : Option SourceId) (outputs : List Emitted) :
    emittedFor key (Sources.dataEvents (R := R) key' outputs)
      = if key' = key then outputs else [] := by
  rw [emittedFor, Sources.dataEvents]
  by_cases hkey : key' = key
  · simp [hkey]
  · simp [hkey]

/-- End of file for the state of a source, if it has one. -/
def flushEntry (entry : Option SourceState) : Option SourceState × List Emitted :=
  match entry with
  | some state => (state.flush.1.retained true, state.flush.2)
  | none => (none, [])

section Entry

variable (shouldReclaim : Bool) (formatTemplate : FormatDecoder) (key : Option SourceId)

def entryStep (entry : Option SourceState) :
    SourceEvent UInt8 R → Option (Option SourceState × List Emitted)
  | .data bytes sourceId _ _ =>
    if sourceId = key then
      ((entry.getD (.fresh formatTemplate)).read bytes).map fun r =>
        (r.1.retained (key.isSome && shouldReclaim), r.2)
    else some (entry, [])
  | .batch .. => some (entry, [])
  | .rotated sourceId | .truncated sourceId =>
    if sourceId = none ∨ sourceId = key then some (none, []) else some (entry, [])
  | .endOfFile sourceId =>
    if sourceId = none ∨ sourceId = key then some (flushEntry entry) else some (entry, [])

/-- Events one after the other. -/
def entryRun (entry : Option SourceState) :
    List (SourceEvent UInt8 R) → Option (Option SourceState × List Emitted)
  | [] => some (entry, [])
  | event :: rest =>
    (entryStep shouldReclaim formatTemplate key entry event).bind fun r =>
      (entryRun r.1 rest).map fun t => (t.1, r.2 ++ t.2)

variable {key}

/-- Other events do nothing. -/
theorem entryStep_of_not_concerns (entry : Option SourceState) {event : SourceEvent UInt8 R}
    (h : concerns key event = false) :
    entryStep shouldReclaim formatTemplate key entry event = some (entry, []) := by
  cases event with
  | data bytes sourceId _ _ => exact if_neg (beq_eq_false_iff_ne.mp h)
  | batch _ _ _ => rfl
  | rotated sourceId | truncated sourceId | endOfFile sourceId =>
    exact if_neg (of_decide_eq_false h)

theorem entryRun_filter (entry : Option SourceState) (events : List (SourceEvent UInt8 R)) :
    entryRun shouldReclaim formatTemplate key entry (events.filter (concerns key))
      = entryRun shouldReclaim formatTemplate key entry events := by
  induction events generalizing entry with
  | nil => rfl
  | cons event rest ih =>
    cases hconcerns : concerns key event with
    | true =>
      rw [filter_cons_of_pos hconcerns, entryRun, entryRun]
      simp only [ih]
    | false =>
      rw [filter_cons_of_neg (by rw [hconcerns]; decide), ih, entryRun,
        entryStep_of_not_concerns shouldReclaim formatTemplate entry hconcerns,
        bind_some]
      cases entryRun shouldReclaim formatTemplate key entry rest <;> rfl

end Entry

-- == the family's steps

namespace Sources

variable (S : Sources)

theorem getElem?_update (key k : Option SourceId) (state : Option SourceState) :
    (S.update key state).states[k]? = if key = k then state else S.states[k]? := by
  cases state with
  | some state => exact BTreeMap.getElem?_insert_eq S.states key k state
  | none => exact BTreeMap.getElem?_erase_eq S.states key k

theorem getElem?_forget (sourceId k : Option SourceId) :
    (S.forget sourceId).states[k]?
      = if sourceId = none ∨ sourceId = k then none else S.states[k]? := by
  cases sourceId with
  | none =>
    exact getElem?_empty
  | some id =>
    rw [forget, getElem?_update]
    simp

/-- End of file of one source, seen from any. -/
theorem flush_view (key k : Option SourceId) :
    (S.flush (R := R) key).1.states[k]?
        = (if key = k then (flushEntry S.states[k]?).1 else S.states[k]?)
      ∧ emittedFor k (S.flush (R := R) key).2
        = if key = k then (flushEntry S.states[k]?).2 else [] := by
  rw [flush]
  by_cases hkey : key = k
  · subst hkey
    cases hstate : S.states[key]? with
    | none => simp [flushEntry, hstate]
    | some state => simp [flushEntry, getElem?_update, emittedFor_dataEvents]
  · cases hstate : S.states[key]? with
    | none => simp [hkey]
    | some state => simp [hkey, getElem?_update, emittedFor_dataEvents]

/-- End of file of several, each once. -/
theorem flushes_view {keys : List (Option SourceId)} (hnodup : keys.Nodup)
    (k : Option SourceId) :
    let r := Transducer.run (flush (R := R)) S keys
    r.1.states[k]? = (if k ∈ keys then (flushEntry S.states[k]?).1 else S.states[k]?)
      ∧ emittedFor k r.2 = if k ∈ keys then (flushEntry S.states[k]?).2 else [] := by
  induction keys generalizing S with
  | nil => exact ⟨rfl, rfl⟩
  | cons key keys ih =>
    obtain ⟨hnotMem, hrest⟩ := nodup_cons.mp hnodup
    obtain ⟨hstate, hemitted⟩ := S.flush_view key k
    obtain ⟨ihstate, ihemitted⟩ := ih (S.flush key).1 hrest
    rw [Transducer.run_cons]
    dsimp only
    rw [emittedFor_append, ihstate, ihemitted, hstate, hemitted]
    by_cases hkey : key = k
    · subst hkey
      simp [hnotMem]
    · have hmem : k ∈ key :: keys ↔ k ∈ keys := by simp [Ne.symm hkey]
      simp [hkey, hmem]

def SameConfig (S T : Sources) : Prop :=
  T.shouldReclaim = S.shouldReclaim ∧ T.formatTemplate = S.formatTemplate

theorem sameConfig_flush {S T : Sources} (h : SameConfig S T) (key : Option SourceId) :
    SameConfig S (T.flush (R := R) key).1 := by
  rw [flush]
  split
  next => exact h
  next => exact h

section Events

variable {keyOrder : BTreeMap (Option SourceId) SourceState → List (Option SourceId)}
  {r : Sources × List (SourceEvent UInt8 R)} {event : SourceEvent UInt8 R} {S : Sources}

theorem sameConfig_step (hr : S.step keyOrder event = some r) : SameConfig S r.1 := by
  cases event with
  | data bytes sourceId _ _ =>
    obtain ⟨t, -, rfl⟩ := map_eq_some_iff.mp hr
    exact ⟨rfl, rfl⟩
  | batch _ _ _ =>
    cases hr
    exact ⟨rfl, rfl⟩
  | rotated sourceId | truncated sourceId =>
    cases hr
    cases sourceId <;> exact ⟨rfl, rfl⟩
  | endOfFile sourceId =>
    cases hr
    exact (Transducer.run_invariant flush (SameConfig S) (fun _ => True) (fun _ => True)
      (fun T key hT _ => ⟨sameConfig_flush hT key, fun _ _ => trivial⟩) ⟨rfl, rfl⟩
      fun _ _ => trivial).1

/-- An event of the family, seen from one source. -/
theorem step_view (hperm : ∀ m, (keyOrder m).Perm m.keys)
    (hr : S.step keyOrder event = some r) (k : Option SourceId) :
    entryStep S.shouldReclaim S.formatTemplate k S.states[k]? event
      = some (r.1.states[k]?, emittedFor k r.2) := by
  cases event with
  | data bytes sourceId _ _ =>
    obtain ⟨t, ht, rfl⟩ := map_eq_some_iff.mp hr
    rw [entryStep, getElem?_update, emittedFor_dataEvents]
    by_cases hkey : sourceId = k
    · subst hkey
      rw [entry] at ht
      rw [if_pos rfl, if_pos rfl, if_pos rfl, ht]
      rfl
    · rw [if_neg hkey, if_neg hkey, if_neg hkey]
  | batch _ _ _ =>
    cases hr
    rfl
  | rotated sourceId | truncated sourceId =>
    cases hr
    rw [entryStep, getElem?_forget]
    split <;> rfl
  | endOfFile sourceId =>
    cases hr
    cases sourceId with
    | some id =>
      have hnodup : [some id].Nodup := by simp
      obtain ⟨hstate, hemitted⟩ := S.flushes_view hnodup k
      rw [entryStep, keysToFlush, hstate, hemitted]
      by_cases hkey : some id = k
      · rw [if_pos (.inr hkey), if_pos (by simp [hkey]), if_pos (by simp [hkey])]
      · rw [if_neg (by simp [hkey]), if_neg (by simpa using Ne.symm hkey),
          if_neg (by simpa using Ne.symm hkey)]
    | none =>
      -- all keys of the map are flushed; a source that has no state is not affected
      have hmem : k ∈ keyOrder S.states ↔ k ∈ S.states := by
        rw [(hperm S.states).mem_iff, Std.ExtTreeMap.mem_keys]
      obtain ⟨hstate, hemitted⟩ := S.flushes_view
        ((hperm S.states).nodup_iff.mpr nodup_keys) k
      rw [entryStep, keysToFlush, hstate, hemitted, if_pos (.inl rfl)]
      by_cases hk : k ∈ S.states
      · rw [if_pos (hmem.mpr hk), if_pos (hmem.mpr hk)]
      · rw [if_neg (hk ∘ hmem.mp), if_neg (hk ∘ hmem.mp), getElem?_eq_none hk]
        rfl

/-- A run of the family, seen from one source. -/
theorem process_view (hperm : ∀ m, (keyOrder m).Perm m.keys) {events : List (SourceEvent UInt8 R)}
    (hr : S.process keyOrder events = some r) (k : Option SourceId) :
    entryRun S.shouldReclaim S.formatTemplate k S.states[k]? events
      = some (r.1.states[k]?, emittedFor k r.2) := by
  induction events generalizing S r with
  | nil =>
    cases hr
    rfl
  | cons event rest ih =>
    obtain ⟨one, hone, hr⟩ := bind_eq_some_iff.mp hr
    obtain ⟨more, hmore, rfl⟩ := map_eq_some_iff.mp hr
    obtain ⟨hreclaim, htemplate⟩ := sameConfig_step hone
    have hrest := ih hmore
    rw [hreclaim, htemplate] at hrest
    rw [entryRun, step_view hperm hone k, bind_some]
    rw [hrest, map_some, emittedFor_append]

end Events

end Sources

-- == isolation

/-- Two runs of a wrapper look the same to a source: what is emitted for
it, its state, and its checkpoint. -/
structure SameFor (key : Option SourceId) (a b : FramedInput × List (SourceEvent UInt8 R)) :
    Prop where
  emitted : emittedFor key a.2 = emittedFor key b.2
  state : a.1.sources[key]? = b.1.sources[key]?
  checkpoint : ∀ sid offset, key = some sid →
    a.1.checkpointData [(sid, offset)] = b.1.checkpointData [(sid, offset)]

/-- **Isolation.** In every interleaving of events, of which data is not
empty, a source sees the same as with those events alone that concern it:
its own data, and rotation, truncation and end of file with its id or with
none. -/
theorem sources_isolated
    (keyOrder : BTreeMap (Option SourceId) SourceState → List (Option SourceId))
    (hperm : ∀ m, (keyOrder m).Perm m.keys) (f : FramedInput)
    (events : List (SourceEvent UInt8 R)) (hdata : ∀ event ∈ events, NonemptyData event)
    (key : Option SourceId) :
    ∃ all own, f.processRawEvents keyOrder events = some all
      ∧ f.processRawEvents keyOrder (events.filter (concerns key)) = some own
      ∧ SameFor key all own := by
  have hrun : ∀ events : List (SourceEvent UInt8 R), (∀ event ∈ events, NonemptyData event) →
      ∃ r, f.processRawEvents keyOrder events = some r
        ∧ entryRun f.shouldReclaim f.formatTemplate key f.sources[key]? events
          = some (r.1.sources[key]?, emittedFor key r.2) := by
    intro events hdata
    have hsome := (f.toSources.process_isSome_iff keyOrder _).mpr hdata
    rw [← processRawEvents_eq, isSome_map, isSome_iff_exists] at hsome
    obtain ⟨r, hr⟩ := hsome
    have hprocess := processRawEvents_eq keyOrder f events
    rw [hr] at hprocess
    exact ⟨r, hr, Sources.process_view hperm hprocess.symm key⟩
  obtain ⟨all, hall, hallRun⟩ := hrun events hdata
  obtain ⟨own, hown, hownRun⟩ := hrun (events.filter (concerns key)) fun event hevent =>
    hdata event (mem_filter.mp hevent).1
  rw [entryRun_filter, hallRun, some.injEq, Prod.mk.injEq] at hownRun
  refine ⟨all, own, hall, hown, hownRun.2, hownRun.1, ?_⟩
  rintro sid offset rfl
  rw [checkpointData, checkpointData, map_singleton, map_singleton]
  dsimp only
  rw [hownRun.1]

/-- A line of source 1 in two pieces, between them a piece of source 2 and
its truncation, then a line of source 2. -/
def interleaved : List (SourceEvent UInt8 Unit) :=
  [.data [0x61, 0x62] (some 1) 2 none, .data [0x78] (some 2) 1 none, .truncated (some 2),
    .data [0x63, 0x0a] (some 1) 2 none, .data [0x79, 0x0a] (some 2) 2 none]

/-- Source 1 keeps its first piece over the truncation of source 2. -/
theorem interleaved_isolated :
    interleaved.filter (concerns (some 1))
        = [.data [0x61, 0x62] (some 1) 2 none, .data [0x63, 0x0a] (some 1) 2 none]
      ∧ ∃ all own, (new false .passthrough).processRawEvents (·.keys) interleaved = some all
        ∧ (new false .passthrough).processRawEvents (·.keys)
            (interleaved.filter (concerns (some 1))) = some own
        ∧ SameFor (some 1) all own :=
  ⟨rfl, sources_isolated (·.keys) (fun m => List.Perm.refl m.keys) (new false .passthrough)
    interleaved (by simp [interleaved, NonemptyData]) (some 1)⟩

/-- A truncation without id, between two pieces of a line. -/
def truncatedLine : List (SourceEvent UInt8 Unit) :=
  [.data [0x61, 0x62] (some 1) 2 none, .truncated none, .data [0x63, 0x0a] (some 1) 2 none]

/-- With the truncation the source loses the first piece of its line,
though the truncation does not name it. -/
theorem truncatedLine_loses_piece :
    ((new false .passthrough).processRawEvents (·.keys) truncatedLine).map
        (fun r => emittedFor (some 1) r.2)
      = some [⟨[0x63, 0x0a], none⟩]
    ∧ ((new false .passthrough).processRawEvents (·.keys)
        [SourceEvent.data (R := Unit) [0x61, 0x62] (some 1) 2 none,
          .data [0x63, 0x0a] (some 1) 2 none]).map (fun r => emittedFor (some 1) r.2)
      = some [⟨[0x61, 0x62, 0x63, 0x0a], none⟩] := by
  decide +kernel

end FastForward.Io
