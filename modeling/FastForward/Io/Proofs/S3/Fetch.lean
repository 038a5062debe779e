/-
Lines of an object that is fetched in several attempts.

Whatever an attempt sends, it sends chunks of the object from its start
and then an end of file, or nothing at all (`Delivers`, `Outcome`). The
end of file leaves the framer with nothing of the object, so that the next
attempt is framed from the start and no line has bytes of two attempts
(`Delivers.process`). The line in which a failed attempt stops is flushed
as it is.

A chunk is never longer than what the framer keeps of a line. So every
step fits, and of the lines that are too long none is emitted in part.
-/
import FastForward.Io.S3.Fetch
import FastForward.Io.Proofs.Overflow

namespace FastForward.Io.S3

open Core Lib Pipeline List FramedInput Sources

variable {R : Type} {id : SourceId} {first fails : Bool} {received : Bytes}
  {r : List ChunkPayload × Bool}

-- == what is sent

/-- Events that bring bytes, in chunks, and then end the file. -/
inductive Delivers (id : SourceId) : List (SourceEvent UInt8 R) → Bytes → Prop
  | eof : Delivers id [.endOfFile (some id)] []
  | data {bytes sent : Bytes} {rest : List (SourceEvent UInt8 R)} (size : Nat) : bytes ≠ [] →
      bytes.length ≤ outputChunkSize → Delivers id rest sent →
      Delivers id (.data bytes (some id) size none :: rest) (bytes ++ sent)

theorem events_chunk {bytes : Bytes} (h : bytes ≠ []) (size : Nat) (isEof : Bool) :
    ChunkPayload.events (R := R) ⟨bytes, size, id, isEof⟩
      = .data bytes (some id) size none :: if isEof then [.endOfFile (some id)] else [] := by
  simp [ChunkPayload.events, h]

/-- How an attempt goes on, with nothing sent yet if `first`. -/
structure Outcome (R : Type) (id : SourceId) (first fails : Bool) (received : Bytes)
    (r : List ChunkPayload × Bool) : Prop where
  succeeds : r.2 = !fails
  delivers : Delivers (R := R) id (r.1.flatMap (·.events)) (r.1.flatMap (·.bytes))
    ∨ r.1 = [] ∧ first = true ∧ fails = true
  front : r.1.flatMap (·.bytes) <+: received
  whole : fails = false → r.1.flatMap (·.bytes) = received

namespace Outcome

theorem ended : Outcome R id first false [] ([eofPayload id], true) :=
  ⟨rfl, .inl .eof, nil_prefix, fun _ => rfl⟩

theorem failed (first : Bool) (received : Bytes) :
    Outcome R id first true received (failed id first) := by
  cases first with
  | false => exact ⟨rfl, .inl .eof, nil_prefix, nofun⟩
  | true => exact ⟨rfl, .inr ⟨rfl, rfl, rfl⟩, nil_prefix, nofun⟩

theorem chunk (first : Bool) {bytes : Bytes} (size : Nat) (hne : bytes ≠ [])
    (hlength : bytes.length ≤ outputChunkSize) (h : Outcome R id false fails received r) :
    Outcome R id first fails (bytes ++ received) (⟨bytes, size, id, false⟩ :: r.1, r.2) := by
  have hrest := h.delivers.resolve_right fun hnone => Bool.false_ne_true hnone.2.1
  refine ⟨h.succeeds, .inl ?_, ?_, fun hok => ?_⟩
  · rw [flatMap_cons, events_chunk hne]
    exact .data size hne hlength hrest
  · exact (prefix_append_right_inj bytes).mpr h.front
  · exact congrArg (bytes ++ ·) (h.whole hok)

variable {fuel : Nat}

/-- A part goes before the others. -/
theorem part (size : Nat) {data : Bytes} (hfuel : data.length ≤ fuel)
    (h : Outcome R id (first && data.isEmpty) fails received r) :
    Outcome R id first fails (data ++ received) (sendPart id size first fuel data ++ r.1, r.2) := by
  induction fuel generalizing first data with
  | zero =>
    obtain rfl := length_eq_zero_iff.mp (Nat.le_zero.mp hfuel)
    simpa [sendPart] using h
  | succ fuel ih =>
    unfold sendPart
    by_cases hempty : data = []
    · subst hempty
      simpa using h
    · have hnot : data.isEmpty = false := by simp [hempty]
      rw [hnot, Bool.and_false] at h
      have hrest : Outcome R id false fails (data.drop outputChunkSize ++ received)
          (sendPart id size false fuel (data.drop outputChunkSize) ++ r.1, r.2) := by
        refine ih ?_ h
        have hchunk : 0 < outputChunkSize := by decide
        rw [length_drop]
        omega
      have hne : data.take outputChunkSize ≠ [] := by simp [hempty, outputChunkSize]
      rw [if_neg (by simp [hnot]), ← take_append_drop outputChunkSize data,
        append_assoc, take_append_drop]
      exact hrest.chunk first _ hne (length_take_le _ _)

theorem fetchStream (size : Nat) {stream : Bytes} (hfuel : stream.length < fuel) :
    Outcome R id first fails stream (fetchStream id size fails first fuel stream) := by
  induction fuel generalizing first stream with
  | zero => cases hfuel
  | succ fuel ih =>
    have hchunk : 0 < outputChunkSize := by decide
    have hlength : (stream.take outputChunkSize).length = min outputChunkSize stream.length := by
      simp
    unfold S3.fetchStream
    by_cases hshort : (stream.take outputChunkSize).length < outputChunkSize
    · cases fails with
      | true =>
        simpa only [hshort, decide_true, Bool.and_self, ↓reduceIte] using failed first stream
      | false =>
        have hall : stream.take outputChunkSize = stream := take_of_length_le (by omega)
        rw [hall] at hshort ⊢
        by_cases hempty : stream = []
        · subst hempty
          simpa using ended
        · simp only [Bool.false_and, Bool.false_eq_true, ↓reduceIte, List.isEmpty_iff, hempty,
            hshort]
          refine ⟨rfl, .inl ?_, ?_, fun _ => ?_⟩ <;> simp only [flatMap_singleton]
          · rw [chunkPayload, events_chunk hempty]
            simpa using Delivers.data _ hempty hshort.le .eof
          · exact prefix_rfl
          · rfl
    · have hne : stream.take outputChunkSize ≠ [] := length_pos_iff.mp (by omega)
      have hfuel : (stream.drop outputChunkSize).length < fuel := by
        rw [length_drop]
        omega
      have hrest := (ih hfuel).chunk first (if first then size else 0) hne (length_take_le _ _)
      rw [take_append_drop] at hrest
      simp only [hshort, decide_false, Bool.and_false,
        List.isEmpty_iff, hne]
      exact hrest

end Outcome

/-- An attempt sends what it received, up to a failure. -/
theorem Attempt.outcome (id : SourceId) (a : Attempt) :
    Outcome R id true a.fails a.received (a.fetchObject id) := by
  cases a with
  | stream size bytes fails => exact .fetchStream size (Nat.lt_succ_self _)
  | parallel size parts =>
    unfold received fails fetchObject
    generalize true = first
    induction parts generalizing first with
    | nil => exact .ended
    | cons part rest ih =>
      cases part with
      | none => simpa [fetchParallelStream] using .failed first []
      | some data =>
        simpa [fetchParallelStream] using (ih (first && data.isEmpty)).part size (le_refl _)

-- == how it is framed

/-- The lines of an object. The last one may lack its newline. -/
def objectLines (content : Bytes) : List Bytes := closedLines content ++ lastLine content

section Framer

variable (keyOrder : BTreeMap (Option SourceId) SourceState → List (Option SourceId)) {S : Sources}
  {stream : Bytes}

theorem process_append (S : Sources) (front back : List (SourceEvent UInt8 R)) :
    S.process keyOrder (front ++ back)
      = (S.process keyOrder front).bind fun r =>
          (r.1.process keyOrder back).map fun t => (t.1, r.2 ++ t.2) := by
  induction front generalizing S with
  | nil => simp [process]
  | cons event rest ih =>
    simp only [cons_append, process, ih, Option.bind_assoc, Option.bind_map]
    simp [Function.comp_def]

/-- The framer has read `stream` of the object. -/
def Holds (S : Sources) (id : SourceId) (stream : Bytes) : Prop :=
  S.formatTemplate = .passthrough ∧ Keeps stream (S.entry (some id))

theorem Holds.update (h : S.formatTemplate = .passthrough) {state : SourceState}
    (hkeeps : Keeps stream state) (reclaim : Bool) :
    Holds (S.update (some id) (state.retained reclaim)) id stream := by
  refine ⟨h, ?_⟩
  rw [Sources.entry, getElem?_update, if_pos rfl]
  exact hkeeps.retained (congrArg FormatDecoder.isPassthrough h) reclaim

/-- A chunk completes lines. -/
theorem Holds.data (h : Holds S id stream) {bytes : Bytes} (hne : bytes ≠ [])
    (hlength : bytes.length ≤ outputChunkSize) (size : Nat) :
    ∃ S' events, S.step (R := R) keyOrder (.data bytes (some id) size none) = some (S', events)
      ∧ Holds S' id (stream ++ bytes)
      ∧ WritesSome (closedLines (unfinishedLine stream ++ bytes)) (payload events) := by
  have hfits : (S.entry (some id)).Fits bytes := fun _ _ =>
    calc (unfinishedLine bytes).length
      _ ≤ bytes.length := (Segments.rest_isSuffix _ bytes).length_le
      _ ≤ outputChunkSize := hlength
      _ ≤ maxRemainderBytes := by decide
  obtain ⟨⟨state, outputs⟩, hread⟩ :=
    Option.isSome_iff_exists.mp ((S.entry (some id)).read_isSome_iff.mpr hne)
  obtain ⟨hkeeps, hwrites⟩ := h.2.read hfits hread
  refine ⟨_, dataEvents (some id) outputs, ?_, .update h.1 hkeeps S.shouldReclaim, ?_⟩
  · rw [step, Sources.data, hread]
    rfl
  · rw [payload_dataEvents]
    exact hwrites

/-- The end of the file completes the last one, and nothing is left. -/
theorem Holds.flush (h : Holds S id stream) :
    ∃ S' events, S.step (R := R) keyOrder (.endOfFile (some id)) = some (S', events)
      ∧ Holds S' id [] ∧ WritesSome (lastLine stream) (payload events) := by
  obtain ⟨htemplate, hkeeps⟩ := h
  rw [step, Sources.keysToFlush, Transducer.run_cons, Sources.flush]
  rw [Sources.entry] at hkeeps
  cases hstate : S.states[some id]? with
  | none =>
    rw [hstate] at hkeeps
    obtain ⟨hkept, hwrites⟩ := Keeps.flush hkeeps
    refine ⟨S, [], rfl, ⟨htemplate, ?_⟩, hwrites⟩
    rw [Sources.entry, hstate]
    exact hkept
  | some state =>
    rw [hstate] at hkeeps
    obtain ⟨hkept, hwrites⟩ := Keeps.flush hkeeps
    refine ⟨_, dataEvents (some id) state.flush.2, by simp, Holds.update htemplate hkept true, ?_⟩
    rw [payload_dataEvents]
    exact hwrites

/-- What an attempt delivers is framed from the start to the end. -/
theorem Delivers.process {events : List (SourceEvent UInt8 R)} {sent : Bytes}
    (h : Delivers id events sent) (hS : Holds S id stream) :
    ∃ S' output, S.process keyOrder events = some (S', output) ∧ Holds S' id []
      ∧ WritesSome (closedLines (unfinishedLine stream ++ sent) ++ lastLine (stream ++ sent))
        (payload output) := by
  induction h generalizing S stream with
  | eof =>
    obtain ⟨S', output, hstep, hS', hwrites⟩ := hS.flush keyOrder
    refine ⟨S', output, by simp [process, hstep], hS', ?_⟩
    rw [append_nil, append_nil, closedLines, Segments.closed_of_forall (Segments.rest_forall _ _)]
    exact hwrites
  | @data bytes sent rest size hne hlength _ ih =>
    obtain ⟨S', lines, hstep, hS', hlines⟩ := hS.data keyOrder hne hlength size
    obtain ⟨S'', output, hrest, hS'', hwrites⟩ := ih hS'
    refine ⟨S'', lines ++ output, by simp [process, hstep, hrest], hS'', ?_⟩
    rw [payload_append, ← append_assoc, ← append_assoc, closedLines_append,
      ← unfinishedLine_append, append_assoc]
    exact hlines.append hwrites

-- == several attempts

/-- The requests of an attempt return the object, from its start up to a
failure. -/
def Attempt.Reads (content : Bytes) (a : Attempt) : Prop :=
  a.received <+: content ∧ (a.fails = false → a.received = content)

/-- Lines that attempts may give: those of the object, and the last one of
a failed attempt. After a success none is missing that can be kept. -/
structure LinesOf (id : SourceId) (content : Bytes) (attempts : List Attempt) (ok : Bool)
    (lines : List Bytes) : Prop where
  only : ∀ line ∈ lines, line ∈ objectLines content
    ∨ ∃ a ∈ attempts, a.fails = true ∧ line ∈ lastLine (a.sent id)
  all : ok = true → ∀ line ∈ objectLines content, line.length ≤ maxRemainderBytes → line ∈ lines

variable {content : Bytes} {a : Attempt} {attempts : List Attempt}

theorem Attempt.process (a : Attempt) (hS : Holds S id []) :
    ∃ S' output, S.process (R := R) keyOrder ((a.fetchObject id).1.flatMap (·.events))
          = some (S', output)
        ∧ Holds S' id [] ∧ WritesSome (objectLines (a.sent id)) (payload output) := by
  rcases (a.outcome (R := R) id).delivers with hdelivers | ⟨hnone, -⟩
  · obtain ⟨S', output, hprocess, hS', hwrites⟩ := hdelivers.process keyOrder hS
    rw [unfinishedLine, Segments.rest_nil, nil_append] at hwrites
    exact ⟨S', output, hprocess, hS', hwrites⟩
  · exact ⟨S, [], by rw [hnone]; rfl, hS, by rw [sent, hnone]; exact .nil⟩

/-- Lines of what an attempt has sent. -/
theorem Attempt.Reads.linesOf (ha : a.Reads content) (hmem : a ∈ attempts) {lines : List Bytes}
    (hlines : lines.Sublist (objectLines (a.sent id)))
    (hfit : ∀ line ∈ objectLines (a.sent id), line.length ≤ maxRemainderBytes → line ∈ lines) :
    LinesOf id content attempts (!a.fails) lines := by
  have houtcome := a.outcome (R := Unit) id
  constructor
  · intro line hline
    have hline := hlines.subset hline
    cases hfails : a.fails with
    | false =>
      rw [sent, houtcome.whole hfails, ha.2 hfails] at hline
      exact .inl hline
    | true =>
      obtain hclosed | hlast := mem_append.mp hline
      · obtain ⟨more, rfl⟩ := houtcome.front.trans ha.1
        refine .inl (mem_append_left _ ?_)
        rw [closedLines_append]
        exact mem_append_left _ hclosed
      · exact .inr ⟨a, hmem, hfails, hlast⟩
  · intro hok line hline
    have hfails : a.fails = false := by simpa using hok
    rw [← ha.2 hfails, ← houtcome.whole hfails] at hline
    exact hfit line hline

theorem LinesOf.append {lines more : List Bytes} {ok : Bool}
    (h : LinesOf id content attempts false lines) (hmore : LinesOf id content attempts ok more) :
    LinesOf id content attempts ok (lines ++ more) :=
  ⟨fun line hline => (mem_append.mp hline).elim (h.only line) (hmore.only line),
    fun hok line hline hlength => mem_append_right _ (hmore.all hok line hline hlength)⟩

theorem fetchUntil_process (hS : Holds S id [])
    {rest : List Attempt} (hrest : rest ⊆ attempts) (hreads : ∀ a ∈ rest, a.Reads content) :
    ∃ S' output lines,
      S.process (R := R) keyOrder ((fetchUntil id rest).1.flatMap (·.events)) = some (S', output)
        ∧ payload output = terminated lines
        ∧ LinesOf id content attempts (fetchUntil id rest).2 lines := by
  induction rest generalizing S with
  | nil => exact ⟨S, [], [], rfl, rfl, nofun, nofun⟩
  | cons a rest ih =>
    obtain ⟨hmem, hsubset⟩ := cons_subset.mp hrest
    have ha := hreads a mem_cons_self
    obtain ⟨S', output, hprocess, hS', lines, hsent, hpayload, hfit⟩ := a.process keyOrder hS
    have hlines : LinesOf id content attempts (a.fetchObject id).2 lines := by
      rw [(a.outcome (R := R) id).succeeds]
      exact ha.linesOf hmem hsent hfit
    unfold fetchUntil
    cases h : (a.fetchObject id).2 with
    | true =>
      exact ⟨S', output, _, by simpa [h] using hprocess, hpayload, by simpa [h] using hlines⟩
    | false =>
      rw [h] at hlines
      obtain ⟨S'', output', lines', hprocess', hpayload', hlines'⟩ :=
        ih hS' hsubset fun b hb => hreads b (mem_cons_of_mem a hb)
      refine ⟨S'', output ++ output', lines ++ lines', ?_, ?_, ?_⟩
      · simp [h, process_append, hprocess, hprocess']
      · rw [payload_append, hpayload, hpayload']
        exact flatMap_append.symm
      · simpa [h] using hlines.append hlines'

-- == polls

/-- The events of one poll after another. -/
def pollEach (keyOrder : BTreeMap (Option SourceId) SourceState → List (Option SourceId))
    (f : FramedInput) : List (List (SourceEvent UInt8 R)) →
      Option (FramedInput × List (SourceEvent UInt8 R))
  | [] => some (f, [])
  | events :: rest => do
      let (f, output) ← f.processRawEvents keyOrder events
      let (f, more) ← pollEach keyOrder f rest
      pure (f, output ++ more)

theorem pollEach_eq (f : FramedInput) (polls : List (List (SourceEvent UInt8 R))) :
    (pollEach keyOrder f polls).map (fun r => (r.1.toSources, r.2))
      = f.toSources.process keyOrder polls.flatten := by
  induction polls generalizing f with
  | nil => rfl
  | cons events rest ih =>
    rw [pollEach, flatten_cons, process_append, ← processRawEvents_eq]
    cases f.processRawEvents keyOrder events with
    | none => rfl
    | some r =>
      show Option.map _ ((pollEach keyOrder r.1 rest).bind _) = _
      rw [Option.map_some, Option.bind_some, ← ih]
      cases pollEach keyOrder r.1 rest <;> rfl

end Framer

/-- **Attempts are never joined in a line.** However an object is cut into
parts and chunks, wherever its attempts fail and however the polls cut
what is sent: the framer emits lines of the object and, for an attempt that
failed, the part of a line that it had sent last. After a success every line
was emitted that is not too long to be kept. -/
theorem fetched_lines (R : Type)
    (keyOrder : BTreeMap (Option SourceId) SourceState → List (Option SourceId))
    (shouldReclaim : Bool) (id : SourceId) (content : Bytes)
    (attempts : List Attempt) (hreads : ∀ a ∈ attempts, a.Reads content)
    (polls : List (List ChunkPayload)) (hpolls : polls.flatten = (fetchAttempts id attempts).1) :
    ∃ r lines, pollEach (R := R) keyOrder (.new shouldReclaim .passthrough)
          (polls.map (·.flatMap (·.events))) = some r
      ∧ payload r.2 = terminated lines
      ∧ LinesOf id content attempts (fetchAttempts id attempts).2 lines := by
  have hstart : Holds (new shouldReclaim .passthrough).toSources id [] := by
    refine ⟨rfl, ?_⟩
    exact .fresh rfl Segments.rest_nil
  obtain ⟨S, output, lines, hprocess, hpayload, hlines⟩ := fetchUntil_process keyOrder
    hstart (take_subset maxFetchAttempts attempts)
    fun a ha => hreads a (mem_of_mem_take ha)
  have hflat : (polls.map (·.flatMap (·.events (R := R)))).flatten
      = (fetchAttempts id attempts).1.flatMap (·.events) := by
    rw [← hpolls, flatMap_def, map_flatten, flatten_flatten, map_map]
    rfl
  rw [← fetchAttempts, ← hflat, ← pollEach_eq] at hprocess
  obtain ⟨r, hr, hpair⟩ := Option.map_eq_some_iff.mp hprocess
  refine ⟨r, lines, hr, ?_, hlines⟩
  rw [(Prod.mk.inj hpair).2, hpayload]

/-- An object in two parts. The second one is not to be had at first. -/
def secondPartFails : List Attempt :=
  [.parallel 3 [some [0x61], none], .parallel 3 [some [0x61], some [0x62, 0x0a]]]

theorem secondPartFails_lines :
    ∃ r lines, pollEach (R := Unit) (·.keys) (.new true .passthrough)
          [(fetchAttempts 1 secondPartFails).1.flatMap (·.events)] = some r
      ∧ payload r.2 = terminated lines
      ∧ LinesOf 1 [0x61, 0x62, 0x0a] secondPartFails true lines :=
  fetched_lines Unit (·.keys) true 1 [0x61, 0x62, 0x0a] secondPartFails
    (by simp [secondPartFails, Attempt.Reads]; decide) [(fetchAttempts 1 secondPartFails).1]
    (append_nil _)

/-- The part before the failure is emitted as a line. -/
theorem failed_attempt_cuts_line :
    ((new true .passthrough).processRawEvents (R := Unit) (·.keys)
        ((fetchAttempts 1 secondPartFails).1.flatMap (·.events))).map (payload ·.2)
      = some (terminated [[0x61], [0x61, 0x62]])
    ∧ objectLines [0x61, 0x62, 0x0a] = [[0x61, 0x62]] := by
  decide +kernel

end FastForward.Io.S3
