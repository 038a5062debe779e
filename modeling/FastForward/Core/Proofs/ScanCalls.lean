/-
The calls of the scanner are those of the reading, for every buffer.

With the positions tied to the cells (ScanLine.lean) both loops over the
members, the plain one and the one that defers its calls until a
predicate has been evaluated, are followed turn by turn. For lines joined
by newlines the whole scan is then `readLines`: the calls of each line,
read in the state the lines before it leave.
-/
import FastForward.Core.Proofs.ScanLine

namespace FastForward.Core

open Lib List Ascii

-- == calls of the members

section Calls

variable {F : Type} {buf : Bytes} {stop : Nat} (hstop : stop ≤ buf.length) {blocks : StoredBitmasks}
  (hmasks : MasksOk buf blocks) (config : ScanConfig F)

/-- The calls for wanted fields, one after the other. -/
def fieldCalls (fields : List (Bytes × FieldValue)) : List ScanCall :=
  fields.flatMap fun f => [.resolveField f.1, .append f.1 f.2]

theorem wantedFields_append (a b : List Member) :
    wantedFields config (a ++ b) = wantedFields config a ++ wantedFields config b :=
  filterMap_append

theorem wantedFields_cons (m : Member) (rest : List Member) :
    wantedFields config (m :: rest) = wantedFields config [m] ++ wantedFields config rest :=
  wantedFields_append config [m] rest

variable {value : RawValue} {v : FieldValue} {key : Bytes}

theorem wantedFields_some (h : value.fieldValue = some v) :
    wantedFields config [⟨key, value⟩] = if config.isWanted key then [(key, v)] else [] := by
  rw [wantedFields, filterMap_cons]
  cases config.isWanted key <;> simp [h]

theorem wantedFields_malformed (key : Bytes) : wantedFields config [⟨key, .malformed⟩] = [] := by
  rw [wantedFields, filterMap_cons]
  cases config.isWanted key <;> rfl

theorem emit_eq (h : value.fieldValue = some v) :
    emit (config.isWanted key) key v = fieldCalls (wantedFields config [⟨key, value⟩]) := by
  rw [wantedFields_some config h, emit]
  split <;> rfl

include hstop

/-- The calls for the value at `pos` are those for the value read there. -/
theorem scanValue_eq (key : Bytes) (pos : Nat) :
    scanValue buf blocks config stop key pos
      = (scanRaw buf blocks stop pos).map fun r =>
          (fieldCalls (wantedFields config [⟨key, r.1⟩]), r.2) := by
  have hemit : ∀ {value v} (pos : Nat), value.fieldValue = some v →
      some (emit (config.isWanted key) key v, pos)
        = some (fieldCalls (wantedFields config [⟨key, value⟩]), pos) := by
    intro value v pos hv
    rw [emit_eq config hv]
  have hmalformed : ∀ pos : Nat,
      some ([], pos) = some (fieldCalls (wantedFields config [⟨key, .malformed⟩]), pos) := by
    intro pos
    rw [wantedFields_malformed]
    rfl
  rw [scanValue, scanRaw]
  dsimp only
  split
  · rw [Option.map_map]
    cases nextQuote blocks stop (pos + 1) with
    | none => rfl
    | some valEnd => exact hemit _ rfl
  · split
    · exact hemit _ rfl
    · split
      · split
        · exact hemit _ rfl
        · exact hmalformed _
      · split
        · split
          · exact hemit _ rfl
          · exact hmalformed _
        · split
          · split
            · exact hemit _ rfl
            · exact hmalformed _
          · rw [numberEnd_eq hstop]
            exact hemit _ rfl

include hmasks

/-- One turn of the loop takes the member read there. -/
theorem scanMember_ahead (pos : Nat) :
    (scanMember buf blocks config stop pos).map (fun r => (r.1, ahead buf stop r.2))
      = (readMember (ahead buf stop pos)).map fun r =>
          (fieldCalls (wantedFields config [r.1]), r.2) := by
  rw [scanMember, readMember, readKey_ahead hstop hmasks]
  cases hkey : scanKey buf blocks stop pos with
  | none => rfl
  | some r =>
    obtain ⟨key, valueAt⟩ := r
    have hbound := scanKey_bounds hkey
    simp only [Option.map_some]
    rw [scanValue_eq hstop, readValue_ahead hstop hmasks hbound.2]
    cases scanRaw buf blocks stop valueAt with
    | none => rfl
    | some r =>
      simp only [Option.map_some]
      rw [skipComma_ahead hstop]

/-- The loop over the members makes the calls for all members read. -/
theorem scanMembers_eq (pos : Nat) :
    scanMembers buf blocks config stop pos
      = fieldCalls (wantedFields config (readMembers (ahead buf stop pos))) := by
  fun_induction scanMembers buf blocks config stop pos with
  | case1 pos hmember =>
    have h := scanMember_ahead hstop hmasks config pos
    rw [hmember] at h
    rw [readMembers]
    split
    next => rfl
    next m rest hread =>
      rw [hread] at h
      cases h
  | case2 pos calls pos' hmember ih =>
    have h := scanMember_ahead hstop hmasks config pos
    rw [hmember] at h
    rw [readMembers]
    split
    next hread =>
      rw [hread] at h
      cases h
    next m rest hread =>
      rw [hread, Option.map_some, Option.map_some, Option.some.injEq, Prod.mk.injEq] at h
      have hcalls : calls = fieldCalls (wantedFields config [m]) := h.1
      have hrest : ahead buf stop pos' = rest := h.2
      rw [ih, wantedFields_cons, hcalls, hrest, fieldCalls, fieldCalls, fieldCalls, flatMap_append]

end Calls

-- == calls of a filtered line

/-- The four cases of a string value defer it as any other value. -/
theorem predicateStr_eq {F : Type} (buf : Bytes) (wanted isPredField : Bool) (key : Bytes)
    (start stop : Nat) :
    (predicateStr buf wanted isPredField key start stop : PredicateStep F)
      = predicateStep wanted isPredField key
          (if (slice buf start stop).contains backslash then
            .decodedStr (decodeJsonEscapes (slice buf start stop))
          else .str start stop) (some (.str (decodeText (slice buf start stop)))) := by
  rw [predicateStr, decodeText]
  cases wanted <;> cases isPredField <;>
    cases (slice buf start stop).contains backslash <;> rfl

section Filtered

variable {F : Type} [FloatOps F] (buf : Bytes) (config : ScanConfig F) (predicate : ScanPredicate F)

/-- What the filtered scan gathers of some members: the columns resolved,
the calls deferred, and the fields recorded for the predicate. -/
structure Gathers (members : List Member) (step : PredicateStep F) : Prop where
  resolved : step.resolved = (wantedFields config members).map Prod.fst
  deferred : step.deferred.map (DeferredField.call buf)
    = (wantedFields config members).map fun f => .append f.1 f.2
  fields : step.fields = memberFields predicate members

variable {buf config predicate}

theorem Gathers.none : Gathers buf config predicate [] {} := ⟨rfl, rfl, rfl⟩

theorem Gathers.malformed (key : Bytes) : Gathers buf config predicate [⟨key, .malformed⟩] {} := by
  refine ⟨?_, ?_, ?_⟩
  · rw [wantedFields_malformed]; rfl
  · rw [wantedFields_malformed]; rfl
  · rw [memberFields, filterMap_cons]
    cases predicate.referencesField key <;> rfl

/-- A value that is deferred in a form that makes its call. -/
theorem Gathers.predicateStep {key : Bytes} (value : RawValue) {v : FieldValue}
    {kind : DeferredValue} (hv : value.fieldValue = some v)
    (hkind : DeferredField.call buf ⟨key, kind⟩ = .append key v) :
    Gathers buf config predicate [⟨key, value⟩]
      (predicateStep (config.isWanted key) (predicate.referencesField key) key kind
        value.predicateValue) := by
  refine ⟨?_, ?_, ?_⟩
  · rw [wantedFields_some config hv]
    cases config.isWanted key <;> rfl
  · rw [wantedFields_some config hv]
    cases config.isWanted key
    · rfl
    · exact congrArg (fun call => [call]) hkind
  · rw [memberFields, filterMap_cons]
    cases predicate.referencesField key
    · rfl
    · simp only [if_true]
      cases (value.predicateValue : Option (PredicateFieldValue F)) <;> rfl

theorem Gathers.append {m : Member} {rest : List Member} {s t : PredicateStep F}
    (hs : Gathers buf config predicate [m] s) (ht : Gathers buf config predicate rest t) :
    Gathers buf config predicate (m :: rest)
      { resolved := s.resolved ++ t.resolved
        deferred := s.deferred ++ t.deferred
        fields := s.fields ++ t.fields } := by
  refine ⟨?_, ?_, ?_⟩
  · rw [wantedFields_cons, map_append, ← hs.resolved, ← ht.resolved]
  · rw [wantedFields_cons, map_append, map_append, ← hs.deferred, ← ht.deferred]
  · have hcons : memberFields predicate (m :: rest)
        = memberFields predicate [m] ++ memberFields predicate rest := by
      rw [memberFields, memberFields, memberFields, ← filterMap_append]
      rfl
    rw [hcons, ← hs.fields, ← ht.fields]

theorem Gathers.predicateStr (key : Bytes) (start stop : Nat) :
    Gathers buf config predicate [⟨key, .str (slice buf start stop)⟩]
      (predicateStr buf (config.isWanted key) (predicate.referencesField key) key start stop) := by
  rw [predicateStr_eq]
  refine .predicateStep (.str (slice buf start stop)) rfl ?_
  rw [strValue]
  split <;> rfl

theorem Gathers.number (key : Bytes) (start stop : Nat) :
    let text := slice buf start stop
    Gathers buf config predicate [⟨key, .number text⟩]
      (Core.predicateStep (config.isWanted key) (predicate.referencesField key) key
        (deferredNumber buf start stop (text.any isFloatMark))
        (predicateNumber text (text.any isFloatMark))) := by
  refine .predicateStep (.number (slice buf start stop)) rfl ?_
  rw [deferredNumber, numberValue]
  cases (slice buf start stop).any isFloatMark
  · cases (parseIntFast (slice buf start stop)).isSome <;> rfl
  · rfl

variable (buf config predicate) in
/-- Where the value read at some position and what was gathered of it
agree: nothing where there is none, else the same end. -/
def GathersValue (key : Bytes) (raw : Option (RawValue × Nat))
    (found : Option (PredicateStep F × Nat)) : Prop :=
  match raw with
  | none => found = none
  | some (value, pos') =>
    ∃ step, found = some (step, pos') ∧ Gathers buf config predicate [⟨key, value⟩] step

variable (config predicate) {stop : Nat} (hstop : stop ≤ buf.length) {blocks : StoredBitmasks}
  (hmasks : MasksOk buf blocks)
include hstop

/-- The value at `pos` is gathered, and ends where the plain scan ends it. -/
theorem scanValueWithPredicate_eq (key : Bytes) (pos : Nat) :
    GathersValue buf config predicate key (scanRaw buf blocks stop pos)
      (scanValueWithPredicate buf blocks config predicate stop key pos) := by
  rw [scanValueWithPredicate, scanRaw]
  dsimp only
  split
  · cases nextQuote blocks stop (pos + 1) with
    | none => rfl
    | some valEnd => exact ⟨_, rfl, .predicateStr key _ _⟩
  · split
    · exact ⟨_, rfl, .predicateStep (.nested _) rfl rfl⟩
    · split
      · split
        · exact ⟨_, rfl, .predicateStep (.bool true) rfl rfl⟩
        · exact ⟨_, rfl, .malformed key⟩
      · split
        · split
          · exact ⟨_, rfl, .predicateStep (.bool false) rfl rfl⟩
          · exact ⟨_, rfl, .malformed key⟩
        · split
          · split
            · exact ⟨_, rfl, .predicateStep .null rfl rfl⟩
            · exact ⟨_, rfl, .malformed key⟩
          · rw [numberEnd_eq hstop]
            exact ⟨_, rfl, .number key _ _⟩

include hmasks

/-- One turn of the loop gathers the member read there. -/
theorem scanMemberWithPredicate_ahead (pos : Nat) :
    match readMember (ahead buf stop pos) with
    | none => scanMemberWithPredicate buf blocks config predicate stop pos = none
    | some (m, rest) => ∃ step pos',
        scanMemberWithPredicate buf blocks config predicate stop pos = some (step, pos')
          ∧ rest = ahead buf stop pos' ∧ Gathers buf config predicate [m] step := by
  rw [scanMemberWithPredicate, readMember, readKey_ahead hstop hmasks]
  cases hkey : scanKey buf blocks stop pos with
  | none => rfl
  | some r =>
    obtain ⟨key, valueAt⟩ := r
    have hbound := scanKey_bounds hkey
    have hvalue : GathersValue buf config predicate key (scanRaw buf blocks stop valueAt) _ :=
      scanValueWithPredicate_eq config predicate hstop key valueAt
    simp only [Option.map_some]
    rw [readValue_ahead hstop hmasks hbound.2]
    cases hraw : scanRaw buf blocks stop valueAt with
    | none =>
      rw [hraw] at hvalue
      have hnone : scanValueWithPredicate buf blocks config predicate stop key valueAt
        = none := hvalue
      rw [hnone]
      rfl
    | some r =>
      rw [hraw] at hvalue
      obtain ⟨step, hstep, hgathers⟩ := hvalue
      rw [hstep]
      exact ⟨step, _, rfl, skipComma_ahead hstop r.2, hgathers⟩

theorem scanMembersWithPredicate_gathers (pos : Nat) :
    Gathers buf config predicate (readMembers (ahead buf stop pos))
      (scanMembersWithPredicate buf blocks config predicate stop pos) := by
  fun_induction scanMembersWithPredicate buf blocks config predicate stop pos with
  | case1 pos hmember =>
    have h := scanMemberWithPredicate_ahead config predicate hstop hmasks pos
    rw [readMembers]
    split
    next => exact .none
    next m rest hread =>
      rw [hread] at h
      obtain ⟨step, pos', hsome, _⟩ := h
      rw [hmember] at hsome
      cases hsome
  | case2 pos step pos' hmember rest ih =>
    have h := scanMemberWithPredicate_ahead config predicate hstop hmasks pos
    rw [readMembers]
    split
    next hread =>
      rw [hread] at h
      have hnone : scanMemberWithPredicate buf blocks config predicate stop pos = none := h
      rw [hmember] at hnone
      cases hnone
    next m rest' hread =>
      rw [hread] at h
      obtain ⟨step', pos'', hsome, hrest, hgathers⟩ := h
      cases hmember.symm.trans hsome
      rw [hrest]
      exact hgathers.append ih

end Filtered

-- == lines

section Line

variable {F : Type} {buf : Bytes} {stop : Nat} (hstop : stop ≤ buf.length) {blocks : StoredBitmasks}
  (hmasks : MasksOk buf blocks) (config : ScanConfig F)

include hstop in
theorem readLine_ahead (start : Nat) :
    readLine (ahead buf stop start)
      = match openLine buf start stop with
        | none => []
        | some pos => readMembers (ahead buf stop pos) := by
  rw [readLine, openLine, trimStart_ahead hstop]
  generalize skipWhitespace buf stop start = p
  rcases Nat.lt_or_ge p stop with hlt | hge
  · rw [ahead_cons hstop hlt]
    by_cases hopen : byteAt buf p = openBrace
    · have hnone : ¬ (stop ≤ p ∨ byteAt buf p ≠ openBrace) :=
        fun h => h.elim (by omega) (· hopen)
      rw [if_neg hnone]
      exact if_pos hopen
    · rw [if_pos (.inr hopen)]
      exact if_neg hopen
  · rw [ahead_nil hge, if_pos (.inl hge)]

include hstop hmasks in
theorem scanLine_eq [FloatOps F] (start : Nat) :
    scanLine buf blocks config start stop
      = lineCalls config (slice buf start stop) (readLine (ahead buf stop start)) := by
  have hcapture : lineCapture buf config start stop
      = captureCalls config (slice buf start stop) := rfl
  rw [scanLine, lineCalls, readLine_ahead hstop]
  cases config.rowPredicate with
  | none =>
    rw [scanLinePlain]
    cases openLine buf start stop with
    | none => rfl
    | some pos =>
      simp only
      rw [scanMembers_eq hstop hmasks]
      rfl
  | some predicate =>
    have hline : lineFields buf config predicate start stop
        = lineField config predicate (slice buf start stop) := rfl
    simp only
    rw [scanLineWithPredicate, filteredCalls, keepsRow, predicateFields, hline, hcapture]
    cases openLine buf start stop with
    | none => simp [wantedFields, memberFields]
    | some pos =>
      have hgathers := scanMembersWithPredicate_gathers config predicate hstop hmasks pos
      simp only
      rw [hgathers.resolved, hgathers.deferred, hgathers.fields]
      split
      · simp [Function.comp_def]
      · simp [Function.comp_def]

end Line

-- == buffers

theorem stripCr_isPrefix (line : Bytes) : stripCr line <+: line := by
  rw [stripCr]
  split
  · exact dropLast_prefix line
  · exact prefix_refl line

section Buffer

variable {F : Type} [FloatOps F] (config : ScanConfig F)

theorem scanLine_lineRange (before line behind : Bytes) :
    let buf := before ++ (line ++ behind)
    (lineRange buf before.length (before.length + line.length)).flatMap
        (fun range => scanLine buf (firstPass buf).blocks config range.1 range.2)
      = readLineCalls config (QuoteState.start.run before) line := by
  intro buf
  obtain ⟨cr, hcr⟩ := stripCr_isPrefix line
  have hbuf : buf = before ++ (stripCr line ++ (cr ++ behind)) := by
    rw [← append_assoc (stripCr line), hcr]
  have hstop : before.length + (stripCr line).length ≤ buf.length := by
    rw [hbuf, length_append, length_append]
    omega
  have hslice : slice buf before.length (before.length + (stripCr line).length) = stripCr line := by
    rw [slice, hbuf, drop_left, Nat.add_sub_cancel_left, take_left]
  have hstate : stateAt buf before.length = QuoteState.start.run before := by
    rw [stateAt, take_left]
  rw [lineRange_of_text, readLineCalls]
  split
  · rfl
  · rw [flatMap_singleton, scanLine_eq hstop (masksOk_firstPass buf), ahead, hslice, hstate]

/-- The lines from some position on. -/
theorem scanLine_rangesOf (lines : List Bytes) (before : Bytes) :
    let buf := before ++ joinLines lines
    (rangesOf buf before.length lines).flatMap
        (fun range => scanLine buf (firstPass buf).blocks config range.1 range.2)
      = readLines config (QuoteState.start.run before) lines := by
  induction lines generalizing before with
  | nil => rfl
  | cons line rest ih =>
    intro buf
    rw [rangesOf, flatMap_append]
    by_cases hrest : rest = []
    · subst hrest
      have hbuf : buf = before ++ (line ++ []) := by rw [append_nil]; rfl
      rw [hbuf, scanLine_lineRange]
      rfl
    · have hbuf : buf = before ++ (line ++ newline :: joinLines rest) := by
        rw [← joinLines_cons hrest]
      have hnext : buf = (before ++ (line ++ [newline])) ++ joinLines rest := by
        rw [hbuf, append_assoc, append_assoc]
        rfl
      have hlen : before.length + line.length + 1 = (before ++ (line ++ [newline])).length := by
        simp only [length_append, length_singleton]
        omega
      congr 1
      · rw [hbuf, scanLine_lineRange]
      · rw [← QuoteState.run_append, hlen, hnext]
        exact ih _

/-- The scan of lines joined by newlines is their reading, whatever the
lines are and wherever they stand relative to the blocks. -/
theorem scanStreaming_joinLines {lines : List Bytes} (hlines : ∀ line ∈ lines, newline ∉ line) :
    scanStreaming (joinLines lines) config = readLines config .start lines := by
  have hranges := scanLine_rangesOf config lines []
  dsimp only at hranges
  rw [nil_append, length_nil, ← lineRanges_joinLines hlines] at hranges
  rw [scanStreaming]
  split
  next hempty =>
    rw [hempty] at hranges
    exact hranges
  next => exact hranges

end Buffer

end FastForward.Core
