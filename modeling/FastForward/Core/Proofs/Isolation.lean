/-
What a line can do to the lines behind it.

The automaton's state is carried from line to line. The newline clears an
escape, so only the parity of the unescaped quotes so far reaches the
next line, and a reading looks at it only to skip a nested value: up to
the first nested value both parities read the same members, and there one
of them, the one that takes the value for the inside of a string, takes
the rest of the line for the value.
-/
import FastForward.Core.Proofs.ScanCalls
import Mathlib.Data.List.Induction

namespace FastForward.Core

open List Ascii QuoteState

-- == the other parity

/-- The same state at the other parity of quotes. -/
def QuoteState.flip (s : QuoteState) : QuoteState := { s with inString := !s.inString }

def Cell.flip (c : Cell) : Cell := { c with state := c.state.flip }

theorem QuoteState.step_flip (s : QuoteState) (b : UInt8) : s.flip.step b = (s.step b).flip := by
  rw [flip, step, step]
  cases s.inString <;> cases (b == quote && !s.escaped) <;> rfl

theorem classify_flip (s : QuoteState) (bytes : Bytes) :
    classify s.flip bytes = (classify s bytes).map Cell.flip := by
  induction bytes generalizing s with
  | nil => rfl
  | cons b bytes ih =>
    rw [classify, step_flip, ih]
    rfl

theorem textOf_flip (cells : List Cell) : textOf (cells.map Cell.flip) = textOf cells := by
  rw [textOf, map_map]
  rfl

section Flip

variable (input : List Cell)

theorem trimStart_flip : trimStart (input.map Cell.flip) = (trimStart input).map Cell.flip :=
  dropWhile_map

theorem splitBare_flip :
    splitBare (input.map Cell.flip)
      = ((splitBare input).1.map Cell.flip, (splitBare input).2.map Cell.flip) := by
  rw [splitBare, takeWhile_map, dropWhile_map]
  rfl

theorem splitQuote_flip :
    splitQuote (input.map Cell.flip)
      = (splitQuote input).map fun r => (r.1.map Cell.flip, r.2.map Cell.flip) := by
  induction input with
  | nil => rfl
  | cons c rest ih =>
    have hquote : c.flip.isQuote = c.isQuote := rfl
    rw [map_cons, splitQuote, splitQuote, hquote, ih]
    split
    · rfl
    · rw [Option.map_map, Option.map_map]
      rfl

theorem dropComma_flip : dropComma (input.map Cell.flip) = (dropComma input).map Cell.flip := by
  rw [dropComma, dropComma, trimStart_flip]
  cases trimStart input with
  | nil => rfl
  | cons c rest =>
    have hbyte : c.flip.byte = c.byte := rfl
    simp only [map_cons, hbyte]
    split <;> rfl

theorem readKey_flip :
    readKey (input.map Cell.flip) = (readKey input).map fun r => (r.1, r.2.map Cell.flip) := by
  have hbyte : ∀ c : Cell, c.flip.byte = c.byte := fun _ => rfl
  rw [readKey, readKey, trimStart_flip]
  cases trimStart input with
  | nil => rfl
  | cons c rest =>
    simp only [map_cons, hbyte]
    rw [splitQuote_flip]
    split
    · rfl
    · cases splitQuote rest with
      | none => rfl
      | some r =>
        simp only [Option.map_some]
        rw [trimStart_flip, textOf_flip]
        cases trimStart r.2 with
        | nil => rfl
        | cons c rest =>
          simp only [map_cons, hbyte]
          rw [trimStart_flip]
          split
          · rfl
          · cases trimStart rest with
            | nil | cons c rest => rfl

theorem readLiteral_flip (word : Bytes) (value : RawValue) :
    readLiteral word value (input.map Cell.flip)
      = ((readLiteral word value input).1, (readLiteral word value input).2.map Cell.flip) := by
  have hstarts : startsLiteral word (input.map .flip) = startsLiteral word input := by
    rw [startsLiteral, startsLiteral, textOf_flip, ← map_drop, head?_map]
    cases (input.drop word.length).head? <;> rfl
  rw [readLiteral, readLiteral, hstarts, splitBare_flip, ← map_drop]
  split <;> rfl

/-- Does a nested value start here? -/
def startsNested : List Cell → Bool
  | [] => false
  | c :: _ => c.byte == openBrace || c.byte == openBracket

theorem startsNested_flip : startsNested (input.map Cell.flip) = startsNested input := by
  cases input <;> rfl

variable {input} in
/-- Apart from nested values the parity does not matter. -/
theorem readValue_flip (h : startsNested input = false) :
    readValue (input.map Cell.flip) = (readValue input).map fun r => (r.1, r.2.map Cell.flip) := by
  cases input with
  | nil => rfl
  | cons c rest =>
    have hopen : ¬ (c.byte = openBrace ∨ c.byte = openBracket) := by
      simpa [startsNested] using h
    have hbyte : c.flip.byte = c.byte := rfl
    have hlit := readLiteral_flip (c :: rest)
    have hbare := splitBare_flip (c :: rest)
    rw [map_cons] at hlit hbare
    rw [map_cons, readValue, readValue, hbyte,
      splitQuote_flip, hlit, hlit, hlit, hbare, textOf_flip]
    split
    · rw [Option.map_map, Option.map_map]
      refine congrArg (Option.map · _) (funext fun r => ?_)
      simp only [Function.comp, textOf_flip]
    · repeat' split
      all_goals rfl

end Flip

-- == up to the first nested value

/-- The members in front of the first nested value; its key, and the
cells from it on. -/
def splitNested (input : List Cell) : List Member × Option (Bytes × List Cell) :=
  match _h : readKey input with
  | none => ([], none)
  | some (key, atValue) =>
    if startsNested atValue then ([], some (key, atValue))
    else
      match _h' : readValue atValue with
      | none => ([], none)
      | some (value, behind) =>
        let r := splitNested (dropComma behind)
        (⟨key, value⟩ :: r.1, r.2)
termination_by input.length
decreasing_by
  exact Nat.lt_of_le_of_lt ((dropComma_suffix behind).trans (readValue_suffix ‹_›)).length_le
    (readKey_length_lt ‹_›)

/-- The members from a nested value on. -/
def nestedMembers (key : Bytes) (atValue : List Cell) : List Member :=
  let behind := skipValue [] atValue
  ⟨key, .nested (textOf (atValue.take (atValue.length - behind.length)))⟩
    :: readMembers (dropComma behind)

variable {input : List Cell}

theorem readMembers_of_readMember :
    readMembers input
      = match readMember input with
        | none => []
        | some r => r.1 :: readMembers r.2 := by
  rw [readMembers]
  split <;> rename_i h <;> rw [h]

theorem readValue_nested (h : startsNested input) :
    readValue input
      = some (.nested (textOf (input.take (input.length - (skipValue [] input).length))),
          skipValue [] input) := by
  cases input with
  | nil => cases h
  | cons c rest =>
    have hopen : c.byte = openBrace ∨ c.byte = openBracket := by
      simpa [startsNested] using h
    have hquote : c.byte ≠ quote := by
      rcases hopen with hb | hb <;> rw [hb] <;> decide
    rw [readValue, if_neg hquote, if_pos hopen]

theorem readMembers_split (input : List Cell) :
    readMembers input
      = (splitNested input).1
        ++ match (splitNested input).2 with
          | none => []
          | some r => nestedMembers r.1 r.2 := by
  fun_induction splitNested input with
  | case1 input hkey =>
    rw [readMembers_of_readMember, readMember, hkey]
    rfl
  | case2 input key atValue hkey hnested =>
    rw [readMembers_of_readMember, readMember, hkey]
    simp only [readValue_nested hnested]
    rfl
  | case3 input key atValue hkey hnested hvalue =>
    rw [readMembers_of_readMember, readMember, hkey]
    simp only [hvalue]
    rfl
  | case4 input key atValue hkey hnested value behind hvalue r ih =>
    rw [readMembers_of_readMember, readMember, hkey]
    simp only [hvalue, Option.map_some]
    rw [ih]
    rfl

theorem splitNested_eq (input : List Cell) :
    splitNested input
      = match readKey input with
        | none => ([], none)
        | some r =>
          if startsNested r.2 then ([], some r)
          else
            match readValue r.2 with
            | none => ([], none)
            | some v =>
              (⟨r.1, v.1⟩ :: (splitNested (dropComma v.2)).1, (splitNested (dropComma v.2)).2) := by
  rw [splitNested]
  split <;> rename_i hkey <;> rw [hkey]
  dsimp only
  split
  · rfl
  · split <;> rename_i hvalue <;> rw [hvalue]

/-- Both parities meet the same first nested value. -/
theorem splitNested_flip (input : List Cell) :
    splitNested (input.map Cell.flip)
      = ((splitNested input).1, (splitNested input).2.map fun r => (r.1, r.2.map Cell.flip)) := by
  fun_induction splitNested input with
  | case1 input hkey =>
    rw [splitNested_eq, readKey_flip, hkey]
    rfl
  | case2 input key atValue hkey hnested =>
    rw [splitNested_eq, readKey_flip, hkey]
    simp only [Option.map_some, startsNested_flip, hnested, if_true]
  | case3 input key atValue hkey hnested hvalue =>
    have hflip := readValue_flip (Bool.eq_false_iff.mpr hnested)
    rw [splitNested_eq, readKey_flip, hkey]
    simp only [Option.map_some, startsNested_flip, hnested, hflip, hvalue]
    rfl
  | case4 input key atValue hkey hnested value behind hvalue r ih =>
    have hflip := readValue_flip (Bool.eq_false_iff.mpr hnested)
    rw [splitNested_eq, readKey_flip, hkey]
    simp only [Option.map_some, startsNested_flip, hnested, hflip, hvalue, dropComma_flip, ih]
    rfl

-- == inside a string

variable {s : QuoteState}

/-- Behind the next quote the parity is the other one. -/
theorem splitQuote_classify {bytes : Bytes} {before behind : List Cell}
    (h : splitQuote (classify s bytes) = some (before, behind)) :
    ∃ s' bytes', behind = classify s' bytes' ∧ s'.inString = !s.inString
      ∧ bytes'.length < bytes.length := by
  induction bytes generalizing s before with
  | nil => cases h
  | cons b bytes ih =>
    rw [classify, splitQuote] at h
    by_cases hquote : (⟨b, s⟩ : Cell).isQuote
    · rw [if_pos hquote] at h
      cases h
      refine ⟨_, bytes, rfl, ?_, Nat.lt_succ_self _⟩
      rw [Cell.isQuote] at hquote
      simp only [step, hquote, Bool.xor_true]
    · rw [if_neg hquote] at h
      obtain ⟨r, hr, heq⟩ := Option.map_eq_some_iff.mp h
      cases heq
      obtain ⟨s', bytes', hbehind, hstate, hlen⟩ := ih hr
      have hsame : (s.step b).inString = s.inString := by
        have hfalse : (b == quote && !s.escaped) = false := Bool.eq_false_iff.mpr hquote
        simp only [step, hfalse, Bool.xor_false]
      exact ⟨s', bytes', hbehind, hstate.trans (by rw [hsame]), Nat.lt_succ_of_lt hlen⟩

/-- A nested value entered at the wrong parity takes the whole line: no
bracket counts, and the strings skipped are the gaps between strings. -/
theorem skipValue_inString (openers : List UInt8) (hs : s.inString)
    (bytes : Bytes) : skipValue openers (classify s bytes) = [] := by
  induction hn : bytes.length using Nat.strongRecOn generalizing s bytes with
  | _ n ih =>
    cases bytes with
    | nil => rw [classify, skipValue_nil]
    | cons b bytes =>
      subst hn
      rw [classify]
      by_cases hquote : (⟨b, s⟩ : Cell).isQuote
      · rw [skipValue_quote hquote]
        cases hsplit : splitQuote (classify (s.step b) bytes) with
        | none => rfl
        | some r =>
          obtain ⟨s', bytes', hbehind, hstate, hlen⟩ := splitQuote_classify hsplit
          have hstep : (s.step b).inString = false := by
            rw [Cell.isQuote] at hquote
            simp only [step, hquote, hs]
            rfl
          simp only
          rw [hbehind]
          exact ih _ (Nat.lt_succ_of_lt hlen) (hstate.trans (by rw [hstep]; rfl)) _ rfl
      · have hfalse : (b == quote && !s.escaped) = false :=
          Bool.eq_false_iff.mpr hquote
        rw [skipValue_other (by simp [Cell.isOpen, hs]) (by simp [Cell.isClose, hs])
          (Bool.eq_false_iff.mpr hquote)]
        refine ih _ (Nat.lt_succ_self _) ?_ _ rfl
        simp only [step, hfalse, Bool.xor_false, hs]

/-- Cells that are the classification of their text. -/
def Coherent (input : List Cell) : Prop := ∃ s, input = classify s (textOf input)

theorem coherent_classify (s : QuoteState) (bytes : Bytes) : Coherent (classify s bytes) :=
  ⟨s, by rw [textOf_classify]⟩

variable {rest : List Cell}

theorem Coherent.suffix (h : Coherent input) (hsuffix : rest <:+ input) : Coherent rest := by
  obtain ⟨s, hinput⟩ := h
  obtain ⟨front, rfl⟩ := hsuffix
  have htext : textOf (front ++ rest) = textOf front ++ textOf rest := map_append
  rw [htext, classify_append] at hinput
  have hlen : front.length = (classify s (textOf front)).length := by
    rw [length_classify, textOf, length_map]
  exact ⟨_, (append_inj hinput hlen).2⟩

/-- The first nested value is met at its opening bracket. -/
theorem splitNested_some {atValue : List Cell} {key : Bytes}
    (h : (splitNested input).2 = some (key, atValue)) :
    startsNested atValue ∧ atValue <:+ input := by
  fun_induction splitNested input with
  | case1 => cases h
  | case2 input key' atValue' hkey hnested =>
    cases h
    obtain ⟨colon, rest, hvalue, hrest⟩ := readKey_suffix hkey
    exact ⟨hnested, hvalue.trans ((suffix_cons colon rest).trans hrest)⟩
  | case3 => cases h
  | case4 input key' atValue' hkey hnested value behind hvalue r ih =>
    obtain ⟨hnested', hsuffix⟩ := ih h
    obtain ⟨colon, rest, hvalue', hrest⟩ := readKey_suffix hkey
    exact ⟨hnested', hsuffix.trans ((dropComma_suffix behind).trans ((readValue_suffix
      hvalue).trans (hvalue'.trans ((suffix_cons colon rest).trans hrest))))⟩

-- == the two readings of a line

/-- Behind the opening brace of a line, if it has one. -/
def openCells (input : List Cell) : Option (List Cell) :=
  match trimStart input with
  | [] => none
  | c :: rest => if c.byte = openBrace then some rest else none

theorem readLine_openCells (input : List Cell) :
    readLine input = ((openCells input).map readMembers).getD [] := by
  rw [readLine, openCells]
  cases trimStart input with
  | nil => rfl
  | cons c rest =>
    dsimp only
    split <;> rfl

theorem openCells_flip (input : List Cell) :
    openCells (input.map Cell.flip) = (openCells input).map fun rest => rest.map Cell.flip := by
  rw [openCells, openCells, trimStart_flip]
  cases trimStart input with
  | nil => rfl
  | cons c rest =>
    have hbyte : c.flip.byte = c.byte := rfl
    simp only [map_cons, hbyte]
    split <;> rfl

theorem openCells_suffix (h : openCells input = some rest) : rest <:+ input := by
  rw [openCells] at h
  split at h
  · cases h
  next c rest' hcells =>
    split at h
    · cases h
      exact (suffix_cons c rest).trans (hcells ▸ trimStart_suffix input)
    · cases h

/-- The first nested value of a line: the members before it, its key, and
the line from it on. -/
structure FirstNested where
  before : List Member
  key : Bytes
  text : Bytes

namespace FirstNested

/-- Behind the value, where its brackets close. -/
def behind (f : FirstNested) : List Cell := skipValue [] (cells f.text)

def value (f : FirstNested) : Bytes := f.text.take (f.text.length - f.behind.length)

/-- The members behind the value. -/
def after (f : FirstNested) : List Member := readMembers (dropComma f.behind)

/-- The members when the value ends with its brackets. -/
def cut (f : FirstNested) : List Member := f.before ++ ⟨f.key, .nested f.value⟩ :: f.after

/-- The members when the value is taken for the inside of a string. -/
def whole (f : FirstNested) : List Member := f.before ++ [⟨f.key, .nested f.text⟩]

theorem behind_length_le (f : FirstNested) : f.behind.length ≤ f.text.length := by
  have hle := (skipValue_suffix [] (cells f.text)).length_le
  rwa [cells, length_classify] at hle

theorem value_eq_text_iff (f : FirstNested) : f.value = f.text ↔ f.behind = [] := by
  have hle := f.behind_length_le
  constructor
  · intro hvalue
    have hlen := congrArg length hvalue
    rw [value, length_take] at hlen
    exact length_eq_zero_iff.mp (by omega)
  · intro hbehind
    rw [value, hbehind]
    exact take_length

end FirstNested

def firstNested (line : Bytes) : Option FirstNested :=
  (openCells (cells line)).bind fun rest =>
    (splitNested rest).2.map fun r => ⟨(splitNested rest).1, r.1, textOf r.2⟩

/-- At the wrong parity the value is the rest of the line. -/
theorem nestedMembers_inString (key : Bytes) (hs : s.inString)
    (text : Bytes) : nestedMembers key (classify s text) = [⟨key, .nested text⟩] := by
  have hrest : readMembers (dropComma []) = [] := by
    rw [readMembers_of_readMember]
    rfl
  rw [nestedMembers, skipValue_inString [] hs]
  simp only [length_nil, Nat.sub_zero, take_length, textOf_classify, hrest]

/-- At the right parity the value is read as if it stood alone. -/
theorem nestedMembers_outside (before : List Member) (key : Bytes)
    (hs : s.inString = false) {text : Bytes}
    (hnested : startsNested (classify s text)) :
    let f : FirstNested := ⟨before, key, text⟩
    nestedMembers key (classify s text) = ⟨key, .nested f.value⟩ :: f.after := by
  intro f
  have hskip : skipValue [] (classify s text) = f.behind := by
    show _ = skipValue [] (cells text)
    cases text with
    | nil => cases hnested
    | cons b rest =>
      have hopen : b = openBrace ∨ b = openBracket := by
        simpa [classify, startsNested] using hnested
      -- the bracket itself clears an escape, so the state behind it is known
      have hstep : ∀ e, (⟨e, false⟩ : QuoteState).step b = .start := by
        rcases hopen with rfl | rfl <;> decide
      have hcell : ∀ e, (⟨b, ⟨e, false⟩⟩ : Cell).isOpen = true := by
        intro e
        simpa [Cell.isOpen] using hopen
      obtain ⟨e, i⟩ := s
      cases hs
      have halone : cells (b :: rest) = ⟨b, ⟨false, false⟩⟩ :: cells rest := by
        exact congrArg (_ :: classify · rest) (hstep false)
      rw [halone, classify, hstep, skipValue_open (hcell e), skipValue_open (hcell false)]
      rfl
  have htext : ∀ n, textOf ((classify s text).take n) = text.take n := by
    intro n
    rw [textOf, map_take]
    exact congrArg (take n) (textOf_classify s text)
  rw [nestedMembers, hskip]
  simp only [htext, length_classify]
  rfl

/-- Both parities read the same members up to the first nested value;
there one of them reads it to its end, the other to the end of the line. -/
theorem readLine_parities (line : Bytes) :
    match firstNested line with
    | none => readLine (classify .inside line) = readLine (cells line)
    | some f =>
      readLine (cells line) = f.cut ∧ readLine (classify .inside line) = f.whole
        ∨ readLine (cells line) = f.whole ∧ readLine (classify .inside line) = f.cut := by
  have hflip : classify .inside line = (cells line).map .flip := classify_flip .start line
  rw [hflip, readLine_openCells, readLine_openCells, openCells_flip, firstNested]
  cases hopen : openCells (cells line) with
  | none => rfl
  | some rest =>
    simp only [Option.map_some, Option.bind_some]
    rw [readMembers_split rest, readMembers_split (rest.map .flip), splitNested_flip]
    cases hnested : (splitNested rest).2 with
    | none => rfl
    | some r =>
      obtain ⟨key, atValue⟩ := r
      obtain ⟨hstarts, hsuffix⟩ := splitNested_some hnested
      obtain ⟨s, hcells⟩ := (coherent_classify .start line).suffix
        (hsuffix.trans (openCells_suffix hopen))
      simp only [Option.map_some]
      rw [hcells, ← classify_flip]
      rw [hcells] at hstarts
      rw [textOf_classify]
      generalize textOf atValue = text at hstarts
      have hstarts' : startsNested (classify s.flip text) := by
        rw [classify_flip, startsNested_flip]
        exact hstarts
      cases hs : s.inString with
      | false =>
        have hs' : s.flip.inString := by simp [QuoteState.flip, hs]
        rw [nestedMembers_outside (splitNested rest).1 key hs hstarts,
          nestedMembers_inString key hs']
        exact .inl ⟨rfl, rfl⟩
      | true =>
        have hs' : s.flip.inString = false := by simp [QuoteState.flip, hs]
        rw [nestedMembers_outside (splitNested rest).1 key hs' hstarts',
          nestedMembers_inString key hs]
        exact .inr ⟨rfl, rfl⟩

-- == equal calls

section Calls

variable {F : Type} [FloatOps F] (config : ScanConfig F)

/-- Does the line make a row? -/
def keepsLine (line : Bytes) (members : List Member) : Bool :=
  match config.rowPredicate with
  | none => true
  | some predicate => keepsRow config predicate line members

variable {f g : List (Bytes × FieldValue)}

omit [FloatOps F] in
theorem fieldCalls_injective (h : fieldCalls f = fieldCalls g) : f = g := by
  induction f generalizing g with
  | nil =>
    cases g with
    | nil => rfl
    | cons y g => cases h
  | cons x f ih =>
    cases g with
    | nil => cases h
    | cons y g =>
      have hhead : x = y := by
        have hcall := (cons.inj (cons.inj h).2).1
        cases x
        cases y
        cases hcall
        rfl
      rw [hhead, ih (cons.inj (cons.inj h).2).2]

/-- The columns resolved can be told from what follows them. -/
theorem resolves_append_inj {f g : List Bytes} {x y : List ScanCall}
    (hx : ∀ key, x.head? ≠ some (.resolveField key))
    (hy : ∀ key, y.head? ≠ some (.resolveField key)) :
    f.map ScanCall.resolveField ++ x = g.map ScanCall.resolveField ++ y ↔ f = g ∧ x = y := by
  induction f generalizing g with
  | nil =>
    cases g with
    | nil => simp
    | cons k g =>
      refine ⟨fun h => ?_, fun h => absurd h.1 (cons_ne_nil k g).symm⟩
      exact absurd (congrArg head? h) (hx k)
  | cons k f ih =>
    cases g with
    | nil =>
      refine ⟨fun h => ?_, fun h => absurd h.1 (cons_ne_nil k f)⟩
      exact absurd (congrArg head? h).symm (hy k)
    | cons k' g =>
      simp only [map_cons, cons_append, cons.injEq, ScanCall.resolveField.injEq, ih, and_assoc]

/-- The calls of a row whose columns are resolved. -/
def rowCalls (line : Bytes) (fields : List (Bytes × FieldValue)) : List ScanCall :=
  .beginRow :: captureCalls config line ++ fields.map (fun f => .append f.1 f.2) ++ [.endRow]

omit [FloatOps F] in
theorem rowCalls_injective {line : Bytes}
    (h : rowCalls config line f = rowCalls config line g) : f = g := by
  have happend : f.map (fun f => .append f.1 f.2)
      = g.map (fun f => ScanCall.append f.1 f.2) :=
    append_cancel_left (append_cancel_right h)
  have hpair : ∀ x y : Bytes × FieldValue,
      .append x.1 x.2 = ScanCall.append y.1 y.2 → x = y := by
    intro x y hxy
    cases x
    cases y
    cases hxy
    rfl
  exact map_inj_right hpair |>.mp happend

theorem filteredCalls_eq (predicate : ScanPredicate F) (line : Bytes) (m : List Member) :
    filteredCalls config predicate line m
      = ((wantedFields config m).map Prod.fst).map ScanCall.resolveField
        ++ if keepsRow config predicate line m then rowCalls config line (wantedFields config m)
          else [] := by
  rw [map_map]
  rfl

/-- When two lists of members make the same calls for a line. -/
theorem lineCalls_eq_iff (line : Bytes) (a b : List Member) :
    lineCalls config line a = lineCalls config line b
      ↔ (wantedFields config a).map Prod.fst = (wantedFields config b).map Prod.fst
        ∧ keepsLine config line a = keepsLine config line b
        ∧ (keepsLine config line b → wantedFields config a = wantedFields config b) := by
  rw [lineCalls, lineCalls, keepsLine, keepsLine]
  cases config.rowPredicate with
  | none =>
    simp only [plainCalls, true_and, forall_const]
    constructor
    · intro h
      have hfields : wantedFields config a = wantedFields config b :=
        fieldCalls_injective (append_cancel_left (append_cancel_right h))
      exact ⟨congrArg _ hfields, hfields⟩
    · intro h
      rw [h.2]
  | some predicate =>
    have hhead : ∀ (keep : Bool) (fields : List (Bytes × FieldValue)) (key : Bytes),
        (if keep then rowCalls config line fields else []).head?
          ≠ some (.resolveField key) := by
      intro keep fields key
      cases keep <;> exact fun h => by cases h
    simp only [filteredCalls_eq]
    rw [resolves_append_inj (hhead _ _) (hhead _ _)]
    refine and_congr_right fun _ => ?_
    cases keepsRow config predicate line a <;> cases keepsRow config predicate line b
    · simp
    · simp [rowCalls]
    · simp [rowCalls]
    · simp only [true_and, forall_const]
      exact ⟨rowCalls_injective config, fun h => by rw [h]⟩

/-- Nothing depends on how far the nested value is taken: no field behind
it is wanted, the predicate decides alike, and where the row is kept and
the value is itself wanted, it ends the line. -/
structure FirstNested.Harmless (line : Bytes) (f : FirstNested) : Prop where
  noneWanted : wantedFields config f.after = []
  sameDecision : keepsLine config line f.whole = keepsLine config line f.cut
  endsLine : keepsLine config line f.cut = true → config.isWanted f.key = true →
    f.behind = []

/-- Both parities make the same calls exactly when nothing depends on it. -/
theorem FirstNested.harmless_iff (line : Bytes) (f : FirstNested) :
    lineCalls config line f.whole = lineCalls config line f.cut ↔ f.Harmless config line := by
  have hnested : ∀ text, wantedFields config [⟨f.key, .nested text⟩]
      = if config.isWanted f.key then [(f.key, .str text)] else [] :=
    fun text => wantedFields_some config rfl
  have hwhole : wantedFields config f.whole = wantedFields config f.before
      ++ if config.isWanted f.key then [(f.key, .str f.text)] else [] := by
    rw [whole, wantedFields_append, hnested]
  have hcut : wantedFields config f.cut = wantedFields config f.before
      ++ ((if config.isWanted f.key then [(f.key, .str f.value)] else [])
        ++ wantedFields config f.after) := by
    rw [cut, wantedFields_append, wantedFields_cons, hnested]
  have hkeys : (wantedFields config f.whole).map Prod.fst
      = (wantedFields config f.cut).map Prod.fst ↔ wantedFields config f.after = [] := by
    rw [hwhole, hcut]
    cases config.isWanted f.key <;> simp
  have hfields : wantedFields config f.after = [] →
      (wantedFields config f.whole = wantedFields config f.cut
        ↔ (config.isWanted f.key → f.behind = [])) := by
    intro hafter
    rw [hwhole, hcut, hafter, ← f.value_eq_text_iff]
    cases config.isWanted f.key <;> simp [eq_comm]
  rw [lineCalls_eq_iff, hkeys]
  constructor
  · intro ⟨hafter, hdecision, hrow⟩
    exact ⟨hafter, hdecision, fun hkeep => (hfields hafter).mp (hrow hkeep)⟩
  · intro h
    exact ⟨h.noneWanted, h.sameDecision, fun hkeep => (hfields h.noneWanted).mpr (h.endsLine hkeep)⟩

/-- The line reads the same whatever the parity of the quotes before it. -/
def Isolated (line : Bytes) : Prop :=
  ∀ f, firstNested (stripCr line) = some f → f.Harmless config (stripCr line)

theorem readLineCalls_parity_iff (line : Bytes) :
    readLineCalls config .inside line = readLineCalls config .start line
      ↔ Isolated config line := by
  have hparities := readLine_parities (stripCr line)
  rw [cells] at hparities
  rw [readLineCalls, readLineCalls, Isolated]
  by_cases hempty : stripCr line = []
  · rw [hempty]
    exact ⟨fun _ f hf => (by cases hf), fun _ => rfl⟩
  · rw [if_neg hempty, if_neg hempty]
    cases hnested : firstNested (stripCr line) with
    | none =>
      rw [hnested] at hparities
      refine ⟨by simp, fun _ => ?_⟩
      exact congrArg (lineCalls config (stripCr line)) hparities
    | some f =>
      rw [hnested] at hparities
      have hsome : (∀ g, some f = some g → g.Harmless config (stripCr line))
          ↔ f.Harmless config (stripCr line) :=
        ⟨fun h => h f rfl, fun h g hg => by cases hg; exact h⟩
      rw [hsome, ← f.harmless_iff]
      rcases hparities with ⟨hstart, hinside⟩ | ⟨hstart, hinside⟩
      · rw [hstart, hinside]
      · rw [hstart, hinside]
        exact eq_comm

end Calls

-- == many lines

def stateBehind (lines : List Bytes) : QuoteState :=
  start.run (lines.flatMap (· ++ [newline]))

/-- The lines hold an odd number of unescaped quotes. -/
def oddQuotes (lines : List Bytes) : Bool := (stateBehind lines).inString

variable (lines : List Bytes)

theorem stateBehind_concat (line : Bytes) :
    stateBehind (lines ++ [line]) = (stateBehind lines).run (line ++ [newline]) := by
  rw [stateBehind, flatMap_append, run_append, flatMap_singleton]
  rfl

/-- No escape reaches the next line. -/
theorem stateBehind_escaped : (stateBehind lines).escaped = false := by
  rcases eq_nil_or_concat lines with rfl | ⟨front, line, rfl⟩
  · rfl
  · rw [concat_eq_append, stateBehind_concat, run_append]
    rfl

theorem stateBehind_eq :
    stateBehind lines = if oddQuotes lines then .inside else .start := by
  have hescaped := stateBehind_escaped lines
  rw [oddQuotes]
  generalize stateBehind lines = s at hescaped ⊢
  obtain ⟨escaped, inString⟩ := s
  cases hescaped
  cases inString <;> rfl

section Lines

variable {F : Type} [FloatOps F] (config : ScanConfig F)

theorem readLines_concat (s : QuoteState) (lines : List Bytes) (line : Bytes) :
    readLines config s (lines ++ [line])
      = readLines config s lines
        ++ readLineCalls config (s.run (lines.flatMap (· ++ [newline]))) line := by
  induction lines generalizing s with
  | nil => exact append_nil _
  | cons first rest ih =>
    rw [cons_append, readLines, readLines, ih, append_assoc, flatMap_cons,
      run_append s (first ++ [newline])]

/-- Scanning the lines together is scanning each alone. -/
def ScansAlone (lines : List Bytes) : Prop :=
  scanStreaming (joinLines lines) config = lines.flatMap fun line => scanStreaming line config

variable {line : Bytes}

theorem scanStreaming_single (h : newline ∉ line) :
    scanStreaming line config = readLineCalls config .start line := by
  have hscan : scanStreaming (joinLines [line]) config = readLines config .start [line] :=
    scanStreaming_joinLines config fun l hl => by rwa [mem_singleton.mp hl]
  rw [readLines, readLines, append_nil] at hscan
  exact hscan

/-- One more line scans alone exactly when it reads the same at the parity
the lines before it leave. -/
theorem scansAlone_concat_iff {lines : List Bytes}
    (hlines : ∀ l ∈ lines ++ [line], newline ∉ l) (halone : ScansAlone config lines) :
    ScansAlone config (lines ++ [line]) ↔ (oddQuotes lines → Isolated config line) := by
  have hfront : ∀ l ∈ lines, newline ∉ l :=
    fun l hl => hlines l (mem_append_left _ hl)
  have hline : newline ∉ line :=
    hlines line (mem_append_right _ mem_cons_self)
  rw [ScansAlone, scanStreaming_joinLines config hfront] at halone
  rw [ScansAlone, scanStreaming_joinLines config hlines, readLines_concat, halone,
    flatMap_append, append_right_inj, flatMap_singleton,
    scanStreaming_single config hline, ← readLineCalls_parity_iff]
  show readLineCalls config (stateBehind lines) line = _ ↔ _
  rw [stateBehind_eq]
  cases oddQuotes lines <;> simp

/-- Every line of a buffer, and of all its prefixes, scans as it does
alone, exactly when each line behind an odd number of quotes reads the
same at either parity. -/
theorem lines_isolated_iff (lines : List Bytes)
    (hlines : ∀ line ∈ lines, newline ∉ line) :
    (∀ front, front <+: lines → ScansAlone config front)
      ↔ ∀ front line, front ++ [line] <+: lines → oddQuotes front = true →
          Isolated config line := by
  have hmem : ∀ {front}, front <+: lines → ∀ line ∈ front, newline ∉ line :=
    fun hfront line hl => hlines line (hfront.subset hl)
  constructor
  · intro h front line hpre
    have hfront := (prefix_append front [line]).trans hpre
    exact (scansAlone_concat_iff config (hmem hpre) (h front hfront)).mp (h _ hpre)
  · intro h front
    -- by induction from the back: a prefix is the empty one or one line longer
    induction front using reverseRecOn with
    | nil => exact fun _ => rfl
    | append_singleton front line ih =>
      intro hpre
      have hfront := (prefix_append front [line]).trans hpre
      exact (scansAlone_concat_iff config (hmem hpre) (ih hfront)).mpr (h front line hpre)

end Lines

/-- `"`, then `{"a":{"b":1},"c":2}`. -/
def openQuoteLines : List Bytes :=
  [ [0x22],
    [0x7b, 0x22, 0x61, 0x22, 0x3a, 0x7b, 0x22, 0x62, 0x22, 0x3a, 0x31, 0x7d, 0x2c, 0x22, 0x63,
      0x22, 0x3a, 0x32, 0x7d] ]

/-- The open quote of the first line changes what is read of the second:
`a` takes the rest of the line and `c` is lost. -/
theorem openQuote_changes_next_line :
    ¬ ScansAlone (ScanConfig.default : ScanConfig Int) openQuoteLines := by
  unfold ScansAlone
  decide +kernel

/-- Behind the same open quote `{"c":2}` scans as it does alone. -/
theorem lines_isolated_iff_flatLine :
    let lines : List Bytes := [[0x22], [0x7b, 0x22, 0x63, 0x22, 0x3a, 0x32, 0x7d]]
    ScansAlone (ScanConfig.default : ScanConfig Int) lines := by
  intro lines
  have hflat : ∀ line ∈ lines, (firstNested (stripCr line)).isNone := by decide +kernel
  refine (lines_isolated_iff .default lines (by decide)).mpr ?_ lines (prefix_refl lines)
  intro front line hpre _ f hf
  have hnone := hflat line (hpre.subset (mem_append_right _ mem_cons_self))
  rw [hf] at hnone
  cases hnone

end FastForward.Core
