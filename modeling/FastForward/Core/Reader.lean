/-
What the scanner is for, without bitmasks or positions: a byte automaton
tells for every byte whether it is escaped and whether it stands inside
a string, and a line is read off the bytes so marked, member by member.

The scanner is shown to compute exactly this reading, for arbitrary
bytes (Proofs/ScanLine.lean); whatever is then proved about lines or
predicates is proved about the reading.
-/
import FastForward.Core.JsonScanner

namespace FastForward.Core

open List Ascii

-- == the automaton

/-- What the bytes so far say about the next one. -/
structure QuoteState where
  escaped : Bool
  inString : Bool
  deriving DecidableEq, Repr

namespace QuoteState

def start : QuoteState := ⟨false, false⟩

/-- Inside a string, at an unescaped byte. -/
def inside : QuoteState := ⟨false, true⟩

/-- A backslash escapes the next byte unless it is escaped itself; an
unescaped quote enters or leaves a string. -/
def step (s : QuoteState) (b : UInt8) : QuoteState :=
  { escaped := b == backslash && !s.escaped
    inString := s.inString ^^ (b == Ascii.quote && !s.escaped) }

def run (s : QuoteState) (bytes : Bytes) : QuoteState := bytes.foldl step s

@[simp] theorem run_nil (s : QuoteState) : s.run [] = s := rfl

@[simp] theorem run_cons (s : QuoteState) (b : UInt8) (bytes : Bytes) :
    s.run (b :: bytes) = (s.step b).run bytes := rfl

theorem run_append (s : QuoteState) (a b : Bytes) : s.run (a ++ b) = (s.run a).run b :=
  foldl_append

end QuoteState

/-- A byte with the state it is read in. -/
structure Cell where
  byte : UInt8
  state : QuoteState
  deriving DecidableEq, Repr

/-- Bytes with the states they are read in. -/
def classify : QuoteState → Bytes → List Cell
  | _, [] => []
  | s, b :: rest => ⟨b, s⟩ :: classify (s.step b) rest

/-- The cells of a text entered outside strings. -/
def cells (bytes : Bytes) : List Cell := classify .start bytes

def textOf (cells : List Cell) : Bytes := cells.map Cell.byte

namespace Cell

/-- A quote that delimits a string. -/
def isQuote (c : Cell) : Bool := c.byte == Ascii.quote && !c.state.escaped

/-- An opening brace or bracket outside strings. -/
def isOpen (c : Cell) : Bool :=
  (c.byte == openBrace || c.byte == openBracket) && !c.state.inString

/-- A closing brace or bracket outside strings. -/
def isClose (c : Cell) : Bool :=
  (c.byte == closeBrace || c.byte == closeBracket) && !c.state.inString

/-- Whitespace inside a line. -/
def isSpace (c : Cell) : Bool :=
  c.byte == space || c.byte == tab || c.byte == carriageReturn

/-- Part of a bare value. -/
def isBare (c : Cell) : Bool := !isJsonDelimiter c.byte

end Cell

-- == pieces of a line

/-- The cells before and behind the next string delimiter. -/
def splitQuote : List Cell → Option (List Cell × List Cell)
  | [] => none
  | c :: rest =>
    if c.isQuote then some ([], rest)
    else (splitQuote rest).map fun r => (c :: r.1, r.2)

/-- Without leading whitespace. -/
def trimStart (cells : List Cell) : List Cell := cells.dropWhile Cell.isSpace

variable {input before behind : List Cell}

theorem splitQuote_suffix
    (h : splitQuote input = some (before, behind)) : ∃ c, c :: behind <:+ input := by
  induction input generalizing before with
  | nil => cases h
  | cons c rest ih =>
    rw [splitQuote] at h
    split at h
    · cases h
      exact ⟨c, suffix_refl _⟩
    · obtain ⟨r, hr, heq⟩ := Option.map_eq_some_iff.mp h
      cases heq
      obtain ⟨quote, hquote⟩ := ih hr
      exact ⟨quote, hquote.trans (suffix_cons c rest)⟩

theorem splitQuote_length_lt
    (h : splitQuote input = some (before, behind)) : behind.length < input.length := by
  obtain ⟨c, hsuffix⟩ := splitQuote_suffix h
  exact hsuffix.length_le

/-- What stands behind a nested value, given the openers still open. A
closer that does not match is left standing; an unterminated string or
value takes the rest of the line. -/
def skipValue (openers : List UInt8) (cells : List Cell) : List Cell :=
  match cells with
  | [] => []
  | c :: rest =>
    if c.isOpen then skipValue (c.byte :: openers) rest
    else if c.isClose then
      match openers with
      | [] => c :: rest
      | opener :: openers =>
        if c.byte ≠ closerOf opener then c :: rest
        else if openers = [] then rest
        else skipValue openers rest
    else if c.isQuote then
      match _h : splitQuote rest with
      | none => []
      | some (_, behind) => skipValue openers behind
    else skipValue openers rest
termination_by cells.length
decreasing_by
  all_goals first
    | (simp only [length_cons]; omega)
    | (have hsplit := splitQuote_length_lt ‹_›; simp only [length_cons]; omega)

theorem Cell.isOpen_of_isClose {c : Cell} (h : c.isClose) : c.isOpen = false := by
  rw [isClose, Bool.and_eq_true, Bool.or_eq_true, beq_iff_eq, beq_iff_eq] at h
  rcases h.1 with hb | hb <;> rw [isOpen, hb] <;> rfl

theorem Cell.isOpen_of_isQuote {c : Cell} (h : c.isQuote) : c.isOpen = false := by
  rw [isQuote, Bool.and_eq_true, beq_iff_eq] at h
  rw [isOpen, h.1]
  rfl

theorem Cell.isClose_of_isQuote {c : Cell} (h : c.isQuote) : c.isClose = false := by
  rw [isQuote, Bool.and_eq_true, beq_iff_eq] at h
  rw [isClose, h.1]
  rfl

section SkipValue

variable {openers : List UInt8} {c : Cell} {rest : List Cell}

@[simp] theorem skipValue_nil (openers : List UInt8) : skipValue openers [] = [] := by
  rw [skipValue.eq_def]

theorem skipValue_open (h : c.isOpen) :
    skipValue openers (c :: rest) = skipValue (c.byte :: openers) rest := by
  rw [skipValue.eq_def]
  simp only [h, if_true]

theorem skipValue_close (h : c.isClose) :
    skipValue openers (c :: rest)
      = match openers with
        | [] => c :: rest
        | opener :: openers =>
          if c.byte ≠ closerOf opener then c :: rest
          else if openers = [] then rest
          else skipValue openers rest := by
  rw [skipValue.eq_def]
  simp only [h, Cell.isOpen_of_isClose h, if_true, Bool.false_eq_true, if_false]

theorem skipValue_quote (h : c.isQuote) :
    skipValue openers (c :: rest)
      = match splitQuote rest with
        | none => []
        | some r => skipValue openers r.2 := by
  rw [skipValue.eq_def]
  simp only [h, Cell.isOpen_of_isQuote h, Cell.isClose_of_isQuote h, if_true,
    Bool.false_eq_true, if_false]
  split <;> rename_i hsplit <;> simp only [hsplit]

theorem skipValue_other (hopen : c.isOpen = false) (hclose : c.isClose = false)
    (hquote : c.isQuote = false) : skipValue openers (c :: rest) = skipValue openers rest := by
  rw [skipValue.eq_def]
  simp only [hopen, hclose, hquote, Bool.false_eq_true, if_false]

end SkipValue

/-- Up to the first value delimiter. -/
def splitBare (cells : List Cell) : List Cell × List Cell :=
  (cells.takeWhile Cell.isBare, cells.dropWhile Cell.isBare)

/-- Does the literal stand here, with a delimiter or the end behind it? -/
def startsLiteral (word : Bytes) (cells : List Cell) : Bool :=
  word.isPrefixOf (textOf cells)
    && (cells.drop word.length).head?.all fun c => isJsonDelimiter c.byte

-- == members

/-- The value of a member as it stands in the line. -/
inductive RawValue
  | str (raw : Bytes)
  | nested (text : Bytes)
  | number (text : Bytes)
  | bool (b : Bool)
  | null
  /-- A bare word that is no literal; it is skipped. -/
  | malformed
  deriving DecidableEq, Repr

/-- A member, its key decoded. -/
structure Member where
  key : Bytes
  value : RawValue
  deriving DecidableEq, Repr

/-- The key at the front and what stands behind its colon. None where the
line has no further member. -/
def readKey (cells : List Cell) : Option (Bytes × List Cell) :=
  match trimStart cells with
  | [] => none
  | c :: rest =>
    if c.byte ≠ Ascii.quote then none
    else
      match splitQuote rest with
      | none => none
      | some (key, behind) =>
        match trimStart behind with
        | [] => none
        | c :: rest =>
          if c.byte ≠ Ascii.colon then none
          else
            match trimStart rest with
            | [] => none
            | value => some (decodeText (textOf key), value)

def readLiteral (word : Bytes) (value : RawValue) (cells : List Cell) :
    RawValue × List Cell :=
  if startsLiteral word cells then (value, cells.drop word.length)
  else (.malformed, (splitBare cells).2)

def readValue (cells : List Cell) : Option (RawValue × List Cell) :=
  match cells with
  | [] => none
  | c :: rest =>
    if c.byte = Ascii.quote then
      (splitQuote rest).map fun r => (.str (textOf r.1), r.2)
    else if c.byte = openBrace ∨ c.byte = openBracket then
      let behind := skipValue [] cells
      some (.nested (textOf (cells.take (cells.length - behind.length))), behind)
    else if c.byte = lowerT then
      some (readLiteral trueWord (.bool true) cells)
    else if c.byte = lowerF then
      some (readLiteral falseWord (.bool false) cells)
    else if c.byte = lowerN then
      some (readLiteral nullWord .null cells)
    else some (.number (textOf (splitBare cells).1), (splitBare cells).2)

/-- Behind the comma, if there is one. -/
def dropComma (cells : List Cell) : List Cell :=
  match trimStart cells with
  | c :: rest => if c.byte = comma then rest else c :: rest
  | [] => []

def readMember (cells : List Cell) : Option (Member × List Cell) :=
  match readKey cells with
  | none => none
  | some (key, atValue) =>
    (readValue atValue).map fun r => (⟨key, r.1⟩, dropComma r.2)

-- == what is left is a suffix

theorem trimStart_suffix (input : List Cell) : trimStart input <:+ input :=
  dropWhile_suffix _

theorem splitBare_suffix (input : List Cell) : (splitBare input).2 <:+ input :=
  dropWhile_suffix _

theorem skipValue_suffix (openers : List UInt8) (input : List Cell) :
    skipValue openers input <:+ input := by
  fun_induction skipValue openers input with
  | case8 openers c rest _ _ _ before behind h ih =>
    obtain ⟨quote, hquote⟩ := splitQuote_suffix h
    exact (ih.trans (suffix_cons quote behind)).trans (hquote.trans (suffix_cons c rest))
  | _ =>
    first
      | exact suffix_refl _
      | exact nil_suffix
      | exact suffix_cons _ _
      | (rename_i ih; exact ih.trans (suffix_cons _ _))

variable {atValue : List Cell} {key : Bytes}

/-- A value starts behind a colon. -/
theorem readKey_suffix (h : readKey input = some (key, atValue)) :
    ∃ colon rest, atValue <:+ rest ∧ colon :: rest <:+ input := by
  rw [readKey] at h
  split at h
  · cases h
  next c rest hcells =>
    have hrest : rest <:+ input :=
      (suffix_cons c rest).trans (hcells ▸ trimStart_suffix input)
    split at h
    · cases h
    · split at h
      · cases h
      next keyCells behind hquote =>
        obtain ⟨quote, hbehind⟩ := splitQuote_suffix hquote
        split at h
        · cases h
        next colon value hcolon =>
          have hvalue : colon :: value <:+ behind := hcolon ▸ trimStart_suffix behind
          split at h
          · cases h
          · split at h
            · cases h
            · cases h
              exact ⟨colon, value, trimStart_suffix value,
                hvalue.trans ((suffix_cons quote behind).trans (hbehind.trans hrest))⟩

theorem readLiteral_suffix (word : Bytes) (value : RawValue) (input : List Cell) :
    (readLiteral word value input).2 <:+ input := by
  rw [readLiteral]
  split
  · exact drop_suffix _ _
  · exact splitBare_suffix input

theorem readValue_suffix {value : RawValue}
    (h : readValue input = some (value, behind)) : behind <:+ input := by
  cases input with
  | nil => cases h
  | cons c rest =>
    have hlit : ∀ (word : Bytes) (v : RawValue),
        some (readLiteral word v (c :: rest)) = some (value, behind) →
          behind <:+ c :: rest := by
      intro word v hv
      have hsuffix := readLiteral_suffix word v (c :: rest)
      rwa [Option.some.inj hv] at hsuffix
    rw [readValue] at h
    split at h
    · obtain ⟨r, hr, heq⟩ := Option.map_eq_some_iff.mp h
      cases heq
      obtain ⟨quote, hquote⟩ := splitQuote_suffix hr
      exact (suffix_cons quote r.2).trans (hquote.trans (suffix_cons c rest))
    · split at h
      · cases h
        exact skipValue_suffix [] (c :: rest)
      · split at h
        · exact hlit _ _ h
        · split at h
          · exact hlit _ _ h
          · split at h
            · exact hlit _ _ h
            · cases h
              exact splitBare_suffix (c :: rest)

theorem dropComma_suffix (input : List Cell) : dropComma input <:+ input := by
  have htrim := trimStart_suffix input
  rw [dropComma]
  split
  next c rest h =>
    rw [h] at htrim
    split
    · exact (suffix_cons c rest).trans htrim
    · exact htrim
  next => exact nil_suffix

theorem readKey_length_lt
    (h : readKey input = some (key, atValue)) : atValue.length < input.length := by
  obtain ⟨colon, rest, hvalue, hrest⟩ := readKey_suffix h
  exact Nat.lt_of_le_of_lt hvalue.length_le hrest.length_le

theorem readMember_length_lt {m : Member}
    (h : readMember input = some (m, behind)) : behind.length < input.length := by
  rw [readMember] at h
  split at h
  · cases h
  next key atValue hkey =>
    obtain ⟨r, hr, heq⟩ := Option.map_eq_some_iff.mp h
    cases heq
    exact Nat.lt_of_le_of_lt ((dropComma_suffix r.2).trans (readValue_suffix hr)).length_le
      (readKey_length_lt hkey)

-- == lines

def readMembers (cells : List Cell) : List Member :=
  match _h : readMember cells with
  | none => []
  | some (m, rest) => m :: readMembers rest
termination_by cells.length
decreasing_by exact readMember_length_lt ‹_›

/-- The members of a line; none unless it opens with a brace. -/
def readLine (cells : List Cell) : List Member :=
  match trimStart cells with
  | [] => []
  | c :: rest => if c.byte = openBrace then readMembers rest else []

-- == calls of a line

/-- A byte that makes a number a float. -/
def isFloatMark (b : UInt8) : Bool :=
  b == dot || b == lowerE || b == upperE

/-- The append call a value makes. -/
def RawValue.fieldValue : RawValue → Option FieldValue
  | .str raw => some (strValue raw)
  | .nested text => some (.str text)
  | .number text => some (numberValue text (text.any isFloatMark))
  | .bool b => some (.bool b)
  | .null => some .null
  | .malformed => none

def RawValue.predicateValue {F : Type} [FloatOps F] :
    RawValue → Option (PredicateFieldValue F)
  | .str raw => some (.str (decodeText raw))
  | .nested text => some (.str text)
  | .number text => predicateNumber text (text.any isFloatMark)
  | .bool b => some (.bool b)
  | .null => some .null
  | .malformed => none

section Calls

variable {F : Type}

/-- The wanted fields of a line with their values, in order. -/
def wantedFields (config : ScanConfig F) (members : List Member) :
    List (Bytes × FieldValue) :=
  members.filterMap fun m =>
    if config.isWanted m.key then m.value.fieldValue.map fun v => (m.key, v) else none

def captureCalls (config : ScanConfig F) (line : Bytes) : List ScanCall :=
  if config.capturesLine then [.appendLine line] else []

/-- The calls for a line without predicate. -/
def plainCalls (config : ScanConfig F) (line : Bytes) (members : List Member) :
    List ScanCall :=
  .beginRow :: captureCalls config line
    ++ (wantedFields config members).flatMap
      (fun f => [.resolveField f.1, .append f.1 f.2])
    ++ [.endRow]

variable [FloatOps F]

/-- The captured line, when the predicate mentions its column. -/
def lineField (config : ScanConfig F) (predicate : ScanPredicate F) (line : Bytes) :
    PredicateScratch F :=
  match config.lineFieldName with
  | some name => if predicate.referencesField name then [(name, .str line)] else []
  | none => []

/-- The members the predicate can look up. -/
def memberFields (predicate : ScanPredicate F) (members : List Member) :
    PredicateScratch F :=
  members.filterMap fun m =>
    if predicate.referencesField m.key then
      m.value.predicateValue.map fun v => (m.key, v)
    else none

/-- The fields the predicate can look up, the captured line first. -/
def predicateFields (config : ScanConfig F) (predicate : ScanPredicate F)
    (line : Bytes) (members : List Member) : PredicateScratch F :=
  lineField config predicate line ++ memberFields predicate members

/-- Does the row pass? -/
def keepsRow (config : ScanConfig F) (predicate : ScanPredicate F) (line : Bytes)
    (members : List Member) : Bool :=
  predicate.evaluate
    (PredicateScratch.lookup (predicateFields config predicate line members))

def filteredCalls (config : ScanConfig F) (predicate : ScanPredicate F) (line : Bytes)
    (members : List Member) : List ScanCall :=
  (wantedFields config members).map (fun f => .resolveField f.1)
    ++ if keepsRow config predicate line members then
        .beginRow :: captureCalls config line
          ++ (wantedFields config members).map (fun f => .append f.1 f.2)
          ++ [.endRow]
      else []

def lineCalls (config : ScanConfig F) (line : Bytes) (members : List Member) :
    List ScanCall :=
  match config.rowPredicate with
  | some predicate => filteredCalls config predicate line members
  | none => plainCalls config line members

-- == calls of a buffer

/-- A line without its trailing CR. -/
def stripCr (line : Bytes) : Bytes :=
  if line.getLast? = some carriageReturn then line.dropLast else line

/-- The calls for one line that is entered in state `s`. -/
def readLineCalls (config : ScanConfig F) (s : QuoteState) (line : Bytes) :
    List ScanCall :=
  let body := stripCr line
  if body = [] then [] else lineCalls config body (readLine (classify s body))

/-- The calls for a list of lines, the state carried from line to line. -/
def readLines (config : ScanConfig F) : QuoteState → List Bytes → List ScanCall
  | _, [] => []
  | s, line :: rest =>
    readLineCalls config s line
      ++ readLines config (s.run (line ++ [newline])) rest

end Calls

def joinLines : List Bytes → Bytes
  | [] => []
  | [line] => line
  | line :: rest => line ++ newline :: joinLines rest

end FastForward.Core
