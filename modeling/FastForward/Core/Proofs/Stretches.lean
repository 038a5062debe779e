/-
The texts that a scan reports, as stretches of the buffer.

A string value and a nested value stand in their line behind its brace,
as they are or with their escapes; a captured line stands in the buffer.
-/
import FastForward.Core.Proofs.ScanCalls
import Mathlib.Data.List.Infix

namespace FastForward.Core

open List Option

/-- The text of a call, where it has one, stands in the buffer. -/
def StandsIn (buf : Bytes) : ScanCall → Prop
  | .appendLine line => line <:+: buf
  | .append _ (.str value) => value <:+: buf
  | .append _ (.decodedStr value) => ∃ raw, decodeJsonEscapes raw = value ∧ raw <:+: buf
  | _ => True

variable {buf text : Bytes} {c : ScanCall}

/-- In a part of the buffer, so in the buffer. -/
theorem StandsIn.within (h : text <:+: buf) (hc : StandsIn text c) : StandsIn buf c := by
  cases c with
  | append key value =>
    cases value with
    | str value => exact .trans hc h
    | decodedStr value =>
      obtain ⟨raw, rfl, hraw⟩ := hc
      exact ⟨raw, rfl, hraw.trans h⟩
    | _ => trivial
  | appendLine line => exact .trans hc h
  | _ => trivial

-- == members

/-- The text of a member stands in the line. -/
def MemberIn (text : Bytes) (m : Member) : Prop :=
  ∀ v, m.value.fieldValue = some v → StandsIn text (.append m.key v)

variable {behind input : List Cell}

theorem splitQuote_front {before : List Cell}
    (h : splitQuote input = some (before, behind)) : before <+: input := by
  induction input generalizing before with
  | nil => cases h
  | cons c rest ih =>
    rw [splitQuote] at h
    split at h
    · cases h
      exact nil_prefix
    · obtain ⟨r, hr, heq⟩ := map_eq_some_iff.mp h
      cases heq
      exact (prefix_cons_inj c).mpr (ih hr)

variable {a b : List Cell}

theorem textOf_isInfix (h : a <:+: b) : textOf a <:+: textOf b :=
  h.map Cell.byte

/-- The text of a value stands where the value was read. -/
theorem readValue_standsIn {value : RawValue} {key : Bytes}
    (h : readValue input = some (value, behind)) : MemberIn (textOf input) ⟨key, value⟩ := by
  have hliteral : ∀ {word : Bytes} {v : RawValue},
      (∀ w, v.fieldValue = some w → StandsIn (textOf input) (.append key w)) →
      some (readLiteral word v input) = some (value, behind) →
      MemberIn (textOf input) ⟨key, value⟩ := by
    intro word v hv hr
    rw [readLiteral] at hr
    split at hr
    · cases hr
      exact hv
    · cases hr
      intro w hw
      cases hw
  cases input with
  | nil => cases h
  | cons c rest =>
    rw [readValue] at h
    split at h
    · obtain ⟨r, hr, heq⟩ := map_eq_some_iff.mp h
      cases heq
      intro v hv
      cases hv
      have hwithin : textOf r.1 <:+: textOf (c :: rest) :=
        textOf_isInfix ((splitQuote_front hr).isInfix.trans (suffix_cons c rest).isInfix)
      rw [strValue]
      split
      · exact ⟨_, rfl, hwithin⟩
      · exact hwithin
    · split at h
      · cases h
        intro v hv
        cases hv
        exact textOf_isInfix ( take_prefix _ _).isInfix
      · split at h
        · exact hliteral (fun w hw => by cases hw; trivial) h
        · split at h
          · exact hliteral (fun w hw => by cases hw; trivial) h
          · split at h
            · exact hliteral (fun w hw => by cases hw; trivial) h
            · cases h
              intro v hv
              cases hv
              rw [numberValue]
              split
              · trivial
              · split <;> trivial

theorem MemberIn.of_suffix (h : a <:+ b) {m : Member}
    (hm : MemberIn (textOf a) m) : MemberIn (textOf b) m :=
  fun v hv => (hm v hv).within (textOf_isInfix h.isInfix)

theorem readMembers_standsIn (input : List Cell) :
    ∀ m ∈ readMembers input, MemberIn (textOf input) m := by
  fun_induction readMembers input with
  | case1 input h => exact nofun
  | case2 input m rest h ih =>
    rw [readMember] at h
    split at h
    · cases h
    next key atValue hkey =>
      obtain ⟨r, hr, heq⟩ := map_eq_some_iff.mp h
      cases heq
      obtain ⟨colon, behind, hvalue, hbehind⟩ := readKey_suffix hkey
      have hat : atValue <:+ input :=
        hvalue.trans ((suffix_cons colon behind).trans hbehind)
      have hrest : dropComma r.2 <:+ input :=
        (dropComma_suffix r.2).trans ((readValue_suffix hr).trans hat)
      refine forall_mem_cons.mpr ⟨(readValue_standsIn hr).of_suffix hat, fun m hm => ?_⟩
      exact (ih m hm).of_suffix hrest

/-- Members stand behind the opening brace. -/
theorem readLine_standsIn (input : List Cell) :
    ∀ m ∈ readLine input, MemberIn (textOf (input.drop 1)) m := by
  rw [readLine]
  split
  · exact nofun
  next c rest htrim =>
    split
    · intro m hm
      have hopen : c :: rest <:+ input := htrim ▸ trimStart_suffix input
      have hlen := hopen.length_le
      refine (readMembers_standsIn rest m hm).of_suffix ?_
      refine suffix_of_suffix_length_le ((suffix_cons c rest).trans hopen) (drop_suffix 1 input) ?_
      rw [length_drop]
      rw [length_cons] at hlen
      omega
    · exact nofun

-- == calls

variable {F : Type} [FloatOps F] {config : ScanConfig F}

/-- A call of a line captures it, is made of a member, or has no text. -/
theorem mem_lineCalls {line : Bytes} {members : List Member}
    (hc : c ∈ lineCalls config line members) :
    c = .appendLine line
      ∨ (∃ m ∈ members, ∃ v, m.value.fieldValue = some v ∧ c = .append m.key v)
      ∨ ∀ text, StandsIn text c := by
  have hfields : ∀ f ∈ wantedFields config members,
      ∃ m ∈ members, ∃ v, m.value.fieldValue = some v ∧ f = (m.key, v) := by
    intro f hf
    obtain ⟨m, hm, hf⟩ := mem_filterMap.mp hf
    split at hf
    · obtain ⟨v, hv, rfl⟩ := map_eq_some_iff.mp hf
      exact ⟨m, hm, v, hv, rfl⟩
    · cases hf
  have happend : ∀ f ∈ wantedFields config members, c = .append f.1 f.2 →
      ∃ m ∈ members, ∃ v, m.value.fieldValue = some v ∧ c = .append m.key v := by
    intro f hf heq
    obtain ⟨m, hm, v, hv, rfl⟩ := hfields f hf
    exact ⟨m, hm, v, hv, heq⟩
  have hcapture : c ∈ captureCalls config line → c = .appendLine line := by
    intro hc
    rw [captureCalls] at hc
    split at hc
    · exact mem_singleton.mp hc
    · cases hc
  rw [lineCalls] at hc
  split at hc
  · rw [filteredCalls, mem_append] at hc
    rcases hc with hc | hc
    · obtain ⟨f, -, rfl⟩ := mem_map.mp hc
      exact .inr (.inr fun _ => trivial)
    · split at hc
      · simp only [cons_append, mem_cons, mem_append, not_mem_nil, or_false] at hc
        rcases hc with rfl | (hc | hc) | rfl
        · exact .inr (.inr fun _ => trivial)
        · exact .inl (hcapture hc)
        · obtain ⟨f, hf, heq⟩ := mem_map.mp hc
          exact .inr (.inl (happend f hf heq.symm))
        · exact .inr (.inr fun _ => trivial)
      · cases hc
  · rw [plainCalls] at hc
    simp only [cons_append, mem_cons, mem_append, mem_flatMap, not_mem_nil, or_false] at hc
    rcases hc with rfl | (hc | ⟨f, hf, rfl | hc⟩) | rfl
    · exact .inr (.inr fun _ => trivial)
    · exact .inl (hcapture hc)
    · exact .inr (.inr fun _ => trivial)
    · exact .inr (.inl (happend f hf hc))
    · exact .inr (.inr fun _ => trivial)

/-- A call captures a line, or its text stands behind the first byte of
one. -/
theorem exists_line_of_mem_readLines {lines : List Bytes} {st : QuoteState}
    (hc : c ∈ readLines config st lines) :
    ∃ line ∈ lines, c = .appendLine (stripCr line) ∨ StandsIn (line.drop 1) c := by
  induction lines generalizing st with
  | nil => cases hc
  | cons line rest ih =>
    rw [readLines, mem_append] at hc
    rcases hc with hc | hc
    · refine ⟨line, mem_cons_self, ?_⟩
      rw [readLineCalls] at hc
      split at hc
      · cases hc
      · rcases mem_lineCalls hc with heq | ⟨m, hm, v, hv, rfl⟩ | htext
        · exact .inl heq
        · have hmember := readLine_standsIn _ m hm v hv
          rw [textOf, map_drop, ← textOf, textOf_classify] at hmember
          exact .inr (hmember.within ((stripCr_isPrefix line).drop 1).isInfix)
        · exact .inr (htext _)
    · obtain ⟨line, hline, hc⟩ := ih hc
      exact ⟨line, mem_cons_of_mem _ hline, hc⟩

theorem isInfix_joinLines {lines : List Bytes} {line : Bytes} (h : line ∈ lines) :
    line <:+: joinLines lines := by
  induction lines with
  | nil => cases h
  | cons first rest ih =>
    by_cases hrest : rest = []
    · subst hrest
      rw [mem_singleton.mp h]
      exact infix_refl first
    · rw [joinLines_cons hrest]
      rcases mem_cons.mp h with rfl | h
      · exact (prefix_append line _).isInfix
      · exact (ih h).trans (suffix_append_of_suffix (suffix_cons _ _)).isInfix

/-- The lines of a buffer are what the calls of its scan are read from. -/
theorem exists_line_of_mem_scanStreaming (hc : c ∈ scanStreaming buf config) :
    ∃ line, line <:+: buf ∧ Ascii.newline ∉ line
      ∧ (c = .appendLine (stripCr line) ∨ StandsIn (line.drop 1) c) := by
  have hscan := scanStreaming_joinLines config (newline_notMem_linesOf buf)
  rw [joinLines_linesOf] at hscan
  rw [hscan] at hc
  obtain ⟨line, hline, hc⟩ := exists_line_of_mem_readLines hc
  have hinfix := isInfix_joinLines hline
  rw [joinLines_linesOf] at hinfix
  exact ⟨line, hinfix, newline_notMem_linesOf buf line hline, hc⟩

end FastForward.Core
