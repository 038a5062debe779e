/-
Scanning well-formed NDJSON.

Every text of the grammar is balanced: the automaton leaves it in the
state it entered it, and a nested skip passes over it. Balanced texts are
closed under concatenation and bracketing, so the whole grammar is by
induction over its trees. Each reader of Reader.lean then takes its piece
of a rendered line and leaves the rest, and the calls of a buffer are
those its lines should make.
-/
import FastForward.Core.Proofs.Scalars
import FastForward.Core.Proofs.ScanCalls

namespace FastForward.Core

open List Ascii QuoteState

-- == plain bytes

variable {s : QuoteState} {bytes : Bytes}

/-- Classifying adds no bytes. -/
theorem mem_of_mem_classify {c : Cell} (h : c ∈ classify s bytes) : c.byte ∈ bytes := by
  have hmem : c.byte ∈ textOf (classify s bytes) := mem_map_of_mem h
  rwa [textOf_classify] at hmem

/-- A byte that neither delimits a string nor escapes. -/
def isPlain (b : UInt8) : Bool := b != quote && b != backslash

variable {b : UInt8}

/-- A plain byte changes nothing about quotes. -/
theorem QuoteState.step_plain (hs : s.escaped = false) (hb : isPlain b) : s.step b = s := by
  rw [isPlain, Bool.and_eq_true, bne_iff_ne, bne_iff_ne] at hb
  have hquote : (b == quote) = false := beq_false_of_ne hb.1
  have hback : (b == backslash) = false := beq_false_of_ne hb.2
  rw [step, hquote, hback, Bool.false_and, Bool.xor_false, ← hs]

/-- Nor do plain bytes in a row. -/
theorem QuoteState.run_plain (hs : s.escaped = false)
    (h : ∀ b ∈ bytes, isPlain b) : s.run bytes = s := by
  induction bytes with
  | nil => rfl
  | cons b bytes ih =>
    rw [run_cons, step_plain hs (h b mem_cons_self)]
    exact ih fun b' hb' => h b' (mem_cons_of_mem b hb')

theorem isQuote_of_plain {c : Cell} (h : isPlain c.byte) : c.isQuote = false := by
  simp only [isPlain, Bool.and_eq_true, bne_iff_ne] at h
  simp [Cell.isQuote, h.1]

-- == strings

/-- What holds no quote is split off whole. -/
theorem splitQuote_append {a : List Cell} (h : ∀ c ∈ a, c.isQuote = false) (b : List Cell) :
    splitQuote (a ++ b) = (splitQuote b).map fun r => (a ++ r.1, r.2) := by
  induction a with
  | nil => simp
  | cons c a ih =>
    rw [cons_append, splitQuote, h c mem_cons_self, ih fun c' hc' => h c' (mem_cons_of_mem c hc')]
    simp [Function.comp_def]

/-- Hex digits are plain. -/
theorem isPlain_hexByte (d : HexDigit) : isPlain d.byte = true := by
  obtain ⟨value, upper⟩ := d
  revert value upper
  decide

theorem isPlain_hexBytes (q : HexQuad) :
    ∀ b ∈ [q.a.byte, q.b.byte, q.c.byte, q.d.byte], isPlain b := by
  intro b hb
  simp only [mem_cons, not_mem_nil, or_false] at hb
  rcases hb with rfl | rfl | rfl | rfl <;> exact isPlain_hexByte _

/-- A piece of a string keeps the automaton inside, and none of its bytes
delimits the string. -/
theorem inside_text (unit : StringUnit) :
    QuoteState.inside.run unit.text = .inside
      ∧ ∀ c ∈ classify .inside unit.text, c.isQuote = false := by
  cases unit with
  | raw b plain =>
    have hb : isPlain b := by simp [isPlain, plain.2.1, plain.2.2]
    refine ⟨step_plain rfl hb, fun c hc => isQuote_of_plain ?_⟩
    rwa [mem_singleton.mp (mem_of_mem_classify hc : c.byte ∈ [b])]
  | escape e => cases e <;> decide
  | unicode q =>
    have hplain := isPlain_hexBytes q
    have hfront : ∀ c ∈ classify .inside [backslash, lowerU], c.isQuote = false := by decide
    have hsteps : inside.run [backslash, lowerU] = .inside := rfl
    have htext : (StringUnit.unicode q).text = [backslash, lowerU]
        ++ [q.a.byte, q.b.byte, q.c.byte, q.d.byte] := rfl
    rw [htext, run_append, classify_append]
    refine ⟨run_plain rfl hplain, fun c hc => ?_⟩
    rcases mem_append.mp hc with hc | hc
    · exact hfront c hc
    · exact isQuote_of_plain (hplain _ (mem_of_mem_classify hc))

variable (units : List StringUnit)

/-- The text of a string ends where it began, inside the quotes. -/
theorem run_stringText : QuoteState.inside.run (stringText units) = .inside := by
  induction units with
  | nil => rfl
  | cons unit rest ih =>
    rw [stringText_cons, run_append, (inside_text unit).1, ih]

/-- No quote of a string's text ends the string. -/
theorem isQuote_stringText : ∀ c ∈ classify .inside (stringText units), c.isQuote = false := by
  induction units with
  | nil => exact fun c hc => absurd hc not_mem_nil
  | cons unit units ih =>
    intro c hc
    rw [stringText_cons, classify_append, (inside_text unit).1] at hc
    exact (mem_append.mp hc).elim ((inside_text unit).2 c) (ih c)

/-- A string ends at its closing quote. -/
theorem splitQuote_stringText (rest : Bytes) :
    splitQuote (classify .inside (stringText units ++ quote :: rest))
      = some (classify .inside (stringText units), cells rest) := by
  rw [classify_append, run_stringText, splitQuote_append (isQuote_stringText units)]
  show some (_ ++ [], _) = _
  rw [append_nil]
  rfl

/-- A quoted string leaves the scanner outside of quotes. -/
theorem run_quoted : start.run (quoted units) = .start := by
  have hopen : start.step quote = .inside := rfl
  rw [quoted, run_cons, hopen, run_append, run_stringText]
  rfl

/-- Behind the opening quote of a string. -/
theorem cells_quoted (rest : Bytes) :
    cells (quoted units ++ rest)
      = ⟨quote, .start⟩ :: classify .inside (stringText units ++ quote :: rest) := by
  rw [quoted, cons_append, append_assoc]
  rfl

-- == balanced texts

/-- Text that keeps the automaton outside strings, that a nested skip
passes over, and that stays in its line. -/
structure Balanced (bytes : Bytes) : Prop where
  clean : start.run bytes = .start
  skip : ∀ (openers : List UInt8) (rest : Bytes), openers ≠ [] →
    skipValue openers (cells (bytes ++ rest)) = skipValue openers (cells rest)
  inLine : newline ∉ bytes

variable {a : Bytes}

/-- Behind balanced text, bytes are classified as if from a start. -/
theorem Balanced.cells_append (h : Balanced a) (b : Bytes) :
    cells (a ++ b) = cells a ++ cells b := by
  rw [cells, classify_append, h.clean]
  rfl

theorem Balanced.nil : Balanced [] :=
  ⟨rfl, fun _ _ _ => rfl, not_mem_nil⟩

/-- Balanced texts in a row are balanced. -/
theorem Balanced.append {a b : Bytes} (ha : Balanced a) (hb : Balanced b) : Balanced (a ++ b) := by
  refine ⟨?_, fun openers rest hne => ?_, ?_⟩
  · rw [run_append, ha.clean, hb.clean]
  · rw [append_assoc, ha.skip openers _ hne, hb.skip openers _ hne]
  · rw [mem_append]
    exact fun h => h.elim ha.inLine hb.inLine

/-- A byte that means nothing to a nested skip. -/
def isInert (b : UInt8) : Bool :=
  isPlain b && b != openBrace && b != openBracket && b != closeBrace
    && b != closeBracket && b != newline

/-- A byte that is neither quote nor bracket is balanced. -/
theorem Balanced.inert (h : isInert b) : Balanced [b] := by
  simp only [isInert, Bool.and_eq_true, bne_iff_ne] at h
  obtain ⟨⟨⟨⟨⟨hplain, hopen⟩, hopen'⟩, hclose⟩, hclose'⟩, hline⟩ := h
  have hstep : start.step b = .start := step_plain rfl hplain
  refine ⟨hstep, fun openers rest _ => ?_, by simpa using Ne.symm hline⟩
  have hcells : cells ([b] ++ rest) = ⟨b, .start⟩ :: cells rest := by
    rw [singleton_append, cells, classify, hstep]
    rfl
  rw [hcells]
  exact skipValue_other (by simp [Cell.isOpen, hopen, hopen'])
    (by simp [Cell.isClose, hclose, hclose']) (isQuote_of_plain hplain)

/-- So is a text of such bytes. -/
theorem Balanced.inerts (h : bytes.all isInert) : Balanced bytes := by
  induction bytes with
  | nil => exact .nil
  | cons b bytes ih =>
    rw [all_cons, Bool.and_eq_true] at h
    exact (inert h.1).append (ih h.2)

/-- A string holds no raw newline. -/
theorem newline_notMem_stringText : newline ∉ stringText units := by
  have hhex : ∀ d : HexDigit, d.byte ≠ newline := by
    intro d
    obtain ⟨value, upper⟩ := d
    revert value upper
    decide
  intro hmem
  obtain ⟨unit, -, hin⟩ := mem_flatMap.mp hmem
  cases unit with
  | raw b plain =>
    rw [StringUnit.text, mem_singleton] at hin
    subst hin
    exact absurd plain.1 (by decide)
  | escape e =>
    revert hin
    cases e <;> decide
  | unicode q =>
    simp only [StringUnit.text, HexQuad.text, mem_cons, not_mem_nil, or_false] at hin
    rcases hin with h | h | h | h | h | h
    · exact absurd h (by decide)
    · exact absurd h (by decide)
    · exact hhex _ h.symm
    · exact hhex _ h.symm
    · exact hhex _ h.symm
    · exact hhex _ h.symm

/-- A string is balanced, whatever brackets it holds. -/
theorem Balanced.quoted : Balanced (quoted units) := by
  refine ⟨run_quoted units, fun openers rest _ => ?_, ?_⟩
  · rw [cells_quoted, skipValue_quote rfl, splitQuote_stringText]
  · have hquote : newline ≠ quote := by decide
    simp [Core.quoted, newline_notMem_stringText, hquote]

theorem cells_opening (kind : Kind) (rest : Bytes) :
    cells (kind.opening :: rest) = ⟨kind.opening, .start⟩ :: cells rest := by
  cases kind <;> rfl

theorem cells_closing (kind : Kind) (rest : Bytes) :
    cells (kind.closing :: rest) = ⟨kind.closing, .start⟩ :: cells rest := by
  cases kind <;> rfl

variable {inner : Bytes}

/-- Skipping goes from an opening bracket to the one that closes it. -/
theorem Balanced.skip_bracketed (h : Balanced inner) (kind : Kind)
    (openers : List UInt8) (rest : Bytes) :
    skipValue openers (cells (kind.opening :: (inner ++ [kind.closing]) ++ rest))
      = if openers = [] then cells rest else skipValue openers (cells rest) := by
  have hopen : (⟨kind.opening, .start⟩ : Cell).isOpen := by cases kind <;> rfl
  have hclose : (⟨kind.closing, .start⟩ : Cell).isClose := by cases kind <;> rfl
  have hmatch : ¬ kind.closing ≠ closerOf kind.opening := by cases kind <;> decide
  rw [cons_append, append_assoc, singleton_append, cells_opening,
    skipValue_open hopen, h.skip _ _ (cons_ne_nil _ _), cells_closing,
    skipValue_close hclose]
  exact if_neg hmatch

/-- Balanced text in brackets is balanced. -/
theorem Balanced.bracketed (h : Balanced inner) (kind : Kind) :
    Balanced (kind.opening :: (inner ++ [kind.closing])) := by
  refine ⟨?_, fun openers rest hne => ?_, ?_⟩
  · have hopen : start.step kind.opening = .start := by cases kind <;> rfl
    have hclose : start.run [kind.closing] = .start := by cases kind <;> rfl
    rw [run_cons, hopen, run_append, h.clean, hclose]
  · rw [h.skip_bracketed, if_neg hne]
  · have hopen : newline ≠ kind.opening := by cases kind <;> decide
    have hclose : newline ≠ kind.closing := by cases kind <;> decide
    simp [h.inLine, hopen, hclose]

-- == the grammar

variable (ws : List Blank)

theorem Balanced.blanks : Balanced (blanks ws) := by
  refine .inerts (all_eq_true.mpr fun b hb => ?_)
  obtain ⟨w, -, rfl⟩ := mem_map.mp hb
  cases w <;> rfl

/-- The bytes number texts are made of. -/
def numberBytes : Bytes :=
  [0x2b, 0x2d, 0x2e, 0x30, 0x31, 0x32, 0x33, 0x34, 0x35, 0x36, 0x37, 0x38, 0x39, 0x45, 0x65]

theorem digitsText_numberBytes (ds : List (Fin 10)) : ∀ b ∈ digitsText ds, b ∈ numberBytes := by
  have hdigit : ∀ d : Fin 10, digitByte d ∈ numberBytes := by decide
  intro b hb
  obtain ⟨d, -, rfl⟩ := mem_map.mp hb
  exact hdigit d

theorem Exponent.text_numberBytes (e : Exponent) : ∀ b ∈ e.text, b ∈ numberBytes := by
  intro b hb
  rw [text, mem_cons, mem_append] at hb
  rcases hb with rfl | hb | hb
  · cases e.upper <;> decide
  · have hsign : e.sign.text.all numberBytes.contains = true := by cases e.sign <;> decide
    exact contains_iff_mem.mp (all_eq_true.mp hsign b hb)
  · exact digitsText_numberBytes _ b hb

variable (n : Number)

/-- A number is written in the bytes of numbers. -/
theorem Number.text_numberBytes : ∀ b ∈ n.text, b ∈ numberBytes := by
  intro b hb
  rw [text, mem_append, mem_append, mem_append] at hb
  rcases hb with ((hb | hb) | hb) | hb
  · have hminus : (if n.minus then [Ascii.minus] else []).all numberBytes.contains := by
      cases n.minus <;> decide
    exact contains_iff_mem.mp (all_eq_true.mp hminus b hb)
  · exact digitsText_numberBytes _ b hb
  · cases hfrac : n.fraction with
    | none => rw [hfrac] at hb; exact absurd hb not_mem_nil
    | some f =>
      rw [hfrac] at hb
      rcases mem_cons.mp hb with rfl | hb
      · decide
      · exact digitsText_numberBytes _ b hb
  · cases hexp : n.exponent with
    | none => rw [hexp] at hb; exact absurd hb not_mem_nil
    | some e => rw [hexp] at hb; exact e.text_numberBytes b hb

/-- What all bytes of numbers satisfy, those of a number do. -/
theorem Number.all_text {p : UInt8 → Bool} (h : numberBytes.all p) : n.text.all p :=
  all_eq_true.mpr fun b hb => all_eq_true.mp h b (n.text_numberBytes b hb)

theorem Number.text_ne_nil : n.text ≠ [] := by
  obtain ⟨d, ds, hds⟩ := exists_cons_of_ne_nil (toDigits_ne_nil n.whole)
  simp [text, hds, digitsText]

theorem Balanced.number : Balanced n.text :=
  .inerts (n.all_text (by decide))

theorem Balanced.name (name : Name) : Balanced name.text :=
  (((Balanced.blanks _).append (.quoted _)).append (.blanks _)).append (.inert rfl)

/-- So is what stands before an item: a name, or nothing. -/
theorem Balanced.label {kind : Kind} (label : Label kind) : Balanced (labelText label) := by
  cases kind with
  | array => exact .nil
  | object => exact .name label

/-- Every text of the grammar is balanced. -/
theorem balanced_render {part : Option Kind} (j : Json part) : Balanced j.render := by
  induction j with
  | str units => exact .quoted units
  | number n => exact .number n
  | bool b =>
    refine .inerts ?_
    cases b <;> decide
  | null => exact .inerts (by decide)
  | empty kind inside => exact (Balanced.blanks inside).bracketed kind
  | @container kind items ih => exact ih.bracketed kind
  | last label before value behind ih =>
    exact (Balanced.label label).append ((Balanced.blanks _).append (ih.append (.blanks _)))
  | more label before value behind rest ih ihrest =>
    have hcomma : Balanced [comma] := .inert rfl
    exact (Balanced.label label).append ((Balanced.blanks _).append (ih.append
      ((Balanced.blanks _).append (hcomma.append ihrest))))

-- == pieces of a line

/-- Whitespace, or the end of a member. -/
def EndsValue (rest : Bytes) : Prop := ∀ b ∈ rest.head?, isJsonDelimiter b = true

/-- Blanks and a delimiter end a value. -/
theorem EndsValue.blanks (h : isJsonDelimiter b) (ws : List Blank)
    (rest : Bytes) : EndsValue (blanks ws ++ b :: rest) := by
  cases ws with
  | nil =>
    intro b' hb'
    cases hb'
    exact h
  | cons w ws =>
    intro b' hb'
    cases hb'
    cases w <;> rfl

/-- Trimming removes blanks. -/
theorem trimStart_blanks (rest : Bytes) :
    trimStart (cells (blanks ws ++ rest)) = trimStart (cells rest) := by
  rw [(Balanced.blanks ws).cells_append, trimStart, trimStart, dropWhile_append_of_pos]
  intro c hc
  obtain ⟨w, -, hw⟩ := mem_map.mp (mem_of_mem_classify hc)
  rw [Cell.isSpace, ← hw]
  cases w <;> rfl

/-- A byte that is not skipped as whitespace. -/
def isSolid (b : UInt8) : Bool :=
  b != space && b != tab && b != carriageReturn

/-- A byte that is no blank stays. -/
theorem trimStart_solid (h : isSolid b) (rest : Bytes) :
    trimStart (cells (b :: rest)) = cells (b :: rest) := by
  rw [cells, classify, trimStart]
  simp only [isSolid, Bool.and_eq_true, bne_iff_ne] at h
  simp [Cell.isSpace, h.1.1, h.1.2, h.2]

/-- A value begins with a byte that is no blank. -/
theorem solid_render (v : Json none) : ∃ b tail, v.render = b :: tail ∧ isSolid b := by
  cases v with
  | str units => exact ⟨_, _, rfl, rfl⟩
  | number n =>
    have hsolid : n.text.all isSolid := n.all_text (by decide)
    obtain ⟨b, tail, htext⟩ := exists_cons_of_ne_nil n.text_ne_nil
    rw [htext, all_cons, Bool.and_eq_true] at hsolid
    exact ⟨b, tail, htext, hsolid.1⟩
  | bool b => cases b <;> exact ⟨_, _, rfl, rfl⟩
  | null => exact ⟨_, _, rfl, rfl⟩
  | empty kind inside | @container kind items => cases kind <;> exact ⟨_, _, rfl, rfl⟩

/-- The value as it stands in its line. -/
def Json.raw : Json none → RawValue
  | str units => .str (stringText units)
  | number n => .number n.text
  | bool b => .bool b
  | null => .null
  | value => .nested value.render

/-- The raw form is read as the value. -/
theorem Json.fieldValue_raw (v : Json none) : v.raw.fieldValue = some v.fieldValue := by
  cases v with
  | str units => exact congrArg some (strValue_stringText units)
  | number n => exact congrArg some (numberValue_text n)
  | bool b | null | empty kind inside | container items => rfl

theorem length_cells (bytes : Bytes) : (cells bytes).length = bytes.length :=
  length_classify .start bytes

theorem textOf_cells (bytes : Bytes) : textOf (cells bytes) = bytes :=
  textOf_classify .start bytes

/-- Behind a balanced text stand the cells of what follows. -/
theorem drop_cells (h : Balanced a) (b : Bytes) : (cells (a ++ b)).drop a.length = cells b := by
  rw [h.cells_append, drop_left' (length_cells a)]

/-- Up to there stand its own. -/
theorem take_cells (h : Balanced a) (b : Bytes) : (cells (a ++ b)).take a.length = cells a := by
  rw [h.cells_append, take_left' (length_cells a)]

variable {rest : Bytes}

/-- A literal is read up to the end of its word. -/
theorem readLiteral_word {word : Bytes} (h : Balanced word) (value : RawValue)
    (hrest : EndsValue rest) :
    readLiteral word value (cells (word ++ rest)) = (value, cells rest) := by
  have hstarts : startsLiteral word (cells (word ++ rest)) := by
    rw [startsLiteral, drop_cells h, textOf_cells, Bool.and_eq_true, isPrefixOf_iff_prefix]
    refine ⟨prefix_append word rest, ?_⟩
    cases rest with
    | nil => rfl
    | cons b rest => exact hrest b rfl
  rw [readLiteral, if_pos hstarts, drop_cells h]

/-- A number is read up to the end of its digits. -/
theorem readValue_number (hrest : EndsValue rest) :
    readValue (cells (n.text ++ rest)) = some (.number n.text, cells rest) := by
  have hbare : n.text.all (fun b => !isJsonDelimiter b) = true := n.all_text (by decide)
  have hother : n.text.all (fun b => decide (b ≠ quote
      ∧ ¬ (b = openBrace ∨ b = openBracket) ∧ b ≠ lowerT
      ∧ b ≠ lowerF ∧ b ≠ lowerN)) = true := n.all_text (by decide)
  have hsplit : splitBare (cells (n.text ++ rest)) = (cells n.text, cells rest) := by
    have hall : ∀ c ∈ cells n.text, c.isBare = true := fun c hc =>
      all_eq_true.mp hbare c.byte (mem_of_mem_classify hc)
    have hstop : (cells rest).takeWhile Cell.isBare = []
        ∧ (cells rest).dropWhile Cell.isBare = cells rest := by
      cases rest with
      | nil => exact ⟨rfl, rfl⟩
      | cons b rest =>
        have hneg : ¬ (⟨b, .start⟩ : Cell).isBare := by
          simp [Cell.isBare, hrest b rfl]
        exact ⟨takeWhile_cons_of_neg hneg, dropWhile_cons_of_neg hneg⟩
    rw [splitBare, (Balanced.number n).cells_append, takeWhile_append_of_pos hall,
      dropWhile_append_of_pos hall, hstop.1, hstop.2, append_nil]
  obtain ⟨b, tail, htext⟩ := exists_cons_of_ne_nil n.text_ne_nil
  rw [htext, all_cons, Bool.and_eq_true, decide_eq_true_eq] at hother
  obtain ⟨hquote, hopen, ht, hf, hn⟩ := hother.1
  have hcells : cells (n.text ++ rest) = ⟨b, .start⟩ :: classify (start.step b) (tail ++ rest) := by
    rw [htext]
    rfl
  rw [hcells, readValue, if_neg hquote, if_neg hopen, if_neg ht, if_neg hf, if_neg hn,
    ← hcells, hsplit, textOf_cells]

/-- An object or array is taken as its text. -/
theorem readValue_bracketed (h : Balanced inner) (kind : Kind) (rest : Bytes) :
    readValue (cells (kind.opening :: (inner ++ [kind.closing]) ++ rest))
      = some (.nested (kind.opening :: (inner ++ [kind.closing])), cells rest) := by
  have hbalanced := h.bracketed kind
  have hskip := h.skip_bracketed kind [] rest
  rw [if_pos rfl] at hskip
  have hlen : (cells (kind.opening :: (inner ++ [kind.closing]) ++ rest)).length
      - (cells rest).length = (kind.opening :: (inner ++ [kind.closing])).length := by
    rw [hbalanced.cells_append, length_append, Nat.add_sub_cancel, length_cells]
  have hquote : kind.opening ≠ quote := by cases kind <;> decide
  have hopen : kind.opening = openBrace ∨ kind.opening = openBracket := by
    cases kind <;> decide
  have hcells : cells (kind.opening :: (inner ++ [kind.closing]) ++ rest)
      = ⟨kind.opening, .start⟩ :: cells (inner ++ [kind.closing] ++ rest) := by
    rw [cons_append, cells_opening]
  rw [hcells, readValue, if_neg hquote, if_pos hopen, ← hcells]
  simp only [hskip]
  rw [hlen, take_cells hbalanced, textOf_cells]

/-- A value is read off in front of a delimiter. -/
theorem readValue_render (v : Json none) (hrest : EndsValue rest) :
    readValue (cells (v.render ++ rest)) = some (v.raw, cells rest) := by
  cases v with
  | str units =>
    rw [Json.render, cells_quoted, readValue, splitQuote_stringText,
      Option.map_some, textOf_classify]
    rfl
  | number n => exact readValue_number n hrest
  | bool b =>
    cases b with
    | true | false => exact congrArg some (readLiteral_word (.inerts (by decide)) _ hrest)
  | null => exact congrArg some (readLiteral_word (.inerts (by decide)) _ hrest)
  | empty kind inside => exact readValue_bracketed (.blanks inside) kind rest
  | @container kind items => exact readValue_bracketed (balanced_render items) kind rest

-- == members and lines

/-- The member a name and a value make. -/
def memberOf (entry : List StringUnit × Json none) : Member :=
  ⟨decodeUnits entry.1, entry.2.raw⟩

/-- A name is read and decoded, with the colon and the blanks. -/
theorem readKey_name (name : Name) (before : List Blank) (v : Json none) (rest : Bytes) :
    readKey (cells (name.text ++ (blanks before ++ (v.render ++ rest))))
      = some (decodeUnits name.units, cells (v.render ++ rest)) := by
  have hcolon : ∀ rest, cells (colon :: rest) = ⟨colon, .start⟩ :: cells rest :=
    fun _ => rfl
  have hvalue : trimStart (cells (v.render ++ rest)) = cells (v.render ++ rest) := by
    obtain ⟨b, tail, hrender, hsolid⟩ := solid_render v
    rw [hrender, cons_append, trimStart_solid hsolid]
  rw [readKey, Name.text, append_assoc, append_assoc, append_assoc, trimStart_blanks,
    cells_quoted, trimStart, dropWhile_cons_of_neg (by decide)]
  simp only [ne_eq]
  rw [splitQuote_stringText]
  simp only
  rw [trimStart_blanks, singleton_append, trimStart_solid rfl, hcolon]
  simp only [not_true_eq_false]
  rw [trimStart_blanks, hvalue, textOf_classify, decodeText_stringText]
  obtain ⟨b, tail, hrender, _⟩ := solid_render v
  rw [hrender]
  rfl

/-- A comma behind blanks is dropped. -/
theorem dropComma_comma (rest : Bytes) :
    dropComma (cells (blanks ws ++ comma :: rest)) = cells rest := by
  rw [dropComma, trimStart_blanks]
  exact if_pos rfl

/-- A closing brace stays. -/
theorem dropComma_close (rest : Bytes) :
    dropComma (cells (blanks ws ++ closeBrace :: rest)) = cells (closeBrace :: rest) := by
  rw [dropComma, trimStart_blanks]
  exact if_neg (by decide)

/-- One member: its name, its value, and the comma behind it. -/
theorem readMember_name (name : Name) (before : List Blank) (v : Json none)
    (hrest : EndsValue rest) :
    readMember (cells (name.text ++ (blanks before ++ (v.render ++ rest))))
      = some (memberOf (name.units, v), dropComma (cells rest)) := by
  rw [readMember, readKey_name]
  simp only
  rw [readValue_render v hrest]
  rfl

/-- Members are read one after the other. -/
theorem readMembers_some {input rest : List Cell} {m : Member}
    (h : readMember input = some (m, rest)) : readMembers input = m :: readMembers rest := by
  rw [readMembers]
  split
  next hnone => rw [h] at hnone; cases hnone
  next m' rest' hsome =>
    rw [h] at hsome
    cases hsome
    rfl

/-- At its closing brace an object has no further members. -/
theorem readMembers_close (rest : Bytes) :
    readMembers (cells (blanks ws ++ closeBrace :: rest)) = [] := by
  have hkey : readKey (cells (blanks ws ++ closeBrace :: rest)) = none := by
    rw [readKey, trimStart_blanks]
    exact if_pos (by decide)
  have hmember : readMember (cells (blanks ws ++ closeBrace :: rest)) = none := by
    rw [readMember, hkey]
  rw [readMembers]
  split
  next => rfl
  next m rest' hsome =>
    rw [hmember] at hsome
    cases hsome

/-- All items of an object are read, in order. -/
theorem readMembers_render (items : Json (some .object)) (rest : Bytes) :
    readMembers (cells (items.render ++ closeBrace :: rest)) = items.items.map memberOf := by
  match items with
  | .last (name : Name) before value behind =>
    have hends : EndsValue (blanks behind ++ closeBrace :: rest) := .blanks rfl _ _
    have hmember := readMember_name name before value hends
    rw [dropComma_close] at hmember
    have hclose := readMembers_close [] rest
    rw [Json.render, append_assoc, append_assoc, append_assoc]
    exact (readMembers_some hmember).trans (congrArg (memberOf (name.units, value) :: ·) hclose)
  | .more (name : Name) before value behind items =>
    have hends : EndsValue (blanks behind ++ comma :: (items.render
      ++ closeBrace :: rest)) := .blanks rfl _ _
    have hmember := readMember_name name before value hends
    rw [dropComma_comma] at hmember
    rw [Json.render, append_assoc, append_assoc, append_assoc, append_assoc]
    exact (readMembers_some hmember).trans
      (congrArg (memberOf (name.units, value) :: ·) (readMembers_render items rest))

/-- So are the entries of an object with its blanks. -/
theorem readMembers_object (object : ObjectText) (rest : Bytes) :
    readMembers (cells (object.inner ++ closeBrace :: rest)) = object.entries.map memberOf := by
  cases object with
  | empty inside => exact readMembers_close inside rest
  | members items => exact readMembers_render items rest

variable (line : Line)

/-- A line gives the entries of its object. -/
theorem readLine_body : readLine (cells line.body) = line.object.entries.map memberOf := by
  have hopen : ∀ rest, cells (openBrace :: rest) = ⟨openBrace, .start⟩ :: cells rest := fun _ => rfl
  rw [readLine, Line.body, trimStart_blanks]
  exact readMembers_object line.object _

-- == buffers

theorem ObjectText.balanced_inner (object : ObjectText) : Balanced object.inner := by
  cases object with
  | empty inside => exact .blanks inside
  | members items => exact balanced_render items

theorem Line.balanced_body : Balanced line.body := by
  have hobject := line.object.balanced_inner.bracketed .object
  have hbody : line.body = blanks line.lead ++ ((Kind.object.opening
      :: (line.object.inner ++ [Kind.object.closing])) ++ blanks line.trail) := by
    rw [cons_append, append_assoc]
    rfl
  rw [hbody]
  exact (Balanced.blanks _).append (hobject.append (.blanks _))

/-- A whole line is balanced, so that the next begins outside of quotes. -/
theorem Line.balanced_text : Balanced line.text := by
  refine line.balanced_body.append (.inerts ?_)
  cases line.cr <;> decide

/-- A line ends with its closing brace or a blank. -/
theorem Line.getLast?_body : line.body.getLast? ≠ some carriageReturn := by
  intro hlast
  have hend : (blanks line.trail).getLast?.getD closeBrace = carriageReturn := by
    simpa [body, getLast?_cons] using hlast
  cases htrail : (blanks line.trail).getLast? with
  | none =>
    rw [htrail] at hend
    exact absurd hend (by decide)
  | some b =>
    obtain ⟨w, -, hw⟩ := mem_map.mp (mem_of_getLast? htrail)
    rw [htrail, ← hw] at hend
    revert hend
    cases w <;> decide

/-- A carriage return at the end is no part of the body. -/
theorem Line.stripCr_text : stripCr line.text = line.body := by
  rw [stripCr, text]
  cases line.cr with
  | false =>
    simp only [Bool.false_eq_true, if_false, append_nil]
    exact if_neg line.getLast?_body
  | true => simp

/-- The fields of a line all of whose members are wanted. -/
theorem wantedFields_entries {F : Type} {config : ScanConfig F}
    (hall : config.extractAll) (entries : List (List StringUnit × Json none)) :
    wantedFields config (entries.map memberOf)
      = entries.map fun entry => (decodeUnits entry.1, entry.2.fieldValue) := by
  have hwanted : ∀ key, config.isWanted key = true := fun key => by
    rw [ScanConfig.isWanted, hall, Bool.true_or]
  induction entries with
  | nil => rfl
  | cons entry rest ih =>
    rw [map_cons, wantedFields_cons, ih, memberOf,
      wantedFields_some config entry.2.fieldValue_raw, hwanted]
    rfl

section Scan

variable {F : Type} [FloatOps F] {config : ScanConfig F} (hall : config.extractAll = true)
  (hpredicate : config.rowPredicate = none)
include hall hpredicate

/-- A line makes the calls its entries ask for. -/
theorem readLineCalls_text (line : Line) :
    readLineCalls config .start line.text = line.calls config := by
  have hne : line.body ≠ [] := by simp [Line.body]
  have hread := readLine_body line
  rw [cells] at hread
  rw [readLineCalls, line.stripCr_text]
  simp only [if_neg hne]
  rw [hread, lineCalls, hpredicate]
  rw [plainCalls, wantedFields_entries hall, Line.calls, flatMap_map]

variable (lines : List Line) (finalNewline : Bool)

/-- Lines make their calls, line by line. -/
theorem readLines_text :
    readLines config .start (lines.map Line.text ++ if finalNewline then [[]] else [])
      = lines.flatMap (Line.calls config) := by
  induction lines with
  | nil => cases finalNewline <;> rfl
  | cons line rest ih =>
    have hnewline : start.run [newline] = .start := rfl
    rw [map_cons, cons_append, readLines, flatMap_cons,
      readLineCalls_text hall hpredicate, run_append, line.balanced_text.clean,
      hnewline, ih]

/-- The scanner makes the calls of the lines it is given. -/
theorem scanStreaming_lineTexts :
    scanStreaming (joinLines (lines.map Line.text ++ if finalNewline then [[]] else [])) config
      = lines.flatMap (Line.calls config) := by
  have hlines : ∀ line ∈ lines.map Line.text ++ (if finalNewline then [[]] else []),
      newline ∉ line := by
    intro text htext
    rcases mem_append.mp htext with htext | htext
    · obtain ⟨line, -, rfl⟩ := mem_map.mp htext
      exact line.balanced_text.inLine
    · cases finalNewline
      · exact absurd htext not_mem_nil
      · rw [mem_singleton.mp htext]
        exact not_mem_nil
  rw [scanStreaming_joinLines config hlines]
  exact readLines_text hall hpredicate lines finalNewline

/-- The scan of well-formed NDJSON reports exactly its rows and members. -/
theorem scanStreaming_serialize (lines : List Line) (finalNewline : Bool) :
    scanStreaming (serialize lines finalNewline) config
      = lines.flatMap (Line.calls config) :=
  scanStreaming_lineTexts hall hpredicate lines finalNewline

end Scan

/-- `{"a\t": [{"b":"]"}]}` with a CR, then `{ "n":-12,"x":1.5 }`. -/
def sampleLines : List Line :=
  let a : StringUnit := .raw lowerA (by decide)
  let b : StringUnit := .raw lowerB (by decide)
  let n : StringUnit := .raw lowerN (by decide)
  let x : StringUnit := .raw 0x78 (by decide)
  let bracket : StringUnit := .raw closeBracket (by decide)
  let inner : Json none := @Json.container .object (.last ⟨[], [b], []⟩ [] (.str [bracket]) [])
  let list : Json none := @Json.container .array (.last () [] inner [])
  let minusTwelve : Number := ⟨true, .digits ⟨0, by decide⟩ [⟨2, by decide⟩], none, none⟩
  let oneAndHalf : Number := ⟨false, .digits ⟨0, by decide⟩ [], some ⟨⟨5, by decide⟩, []⟩, none⟩
  [ ⟨[], .members (.last ⟨[], [a, .escape .tab], []⟩ [.space] list []), [], true⟩,
    ⟨[], .members (.more ⟨[.space], [n], []⟩ [] (.number minusTwelve) []
        (.last ⟨[], [x], []⟩ [] (.number oneAndHalf) [.space])),
      [], false⟩ ]

/-- A line with brackets and quotes in a string, and its calls. -/
theorem scanStreaming_serialize_sampleLines :
    scanStreaming (serialize sampleLines true) (ScanConfig.default : ScanConfig Int)
      = [.beginRow, .resolveField [0x61, 0x09],
          .append [0x61, 0x09] (.str [0x5b, 0x7b, 0x22, 0x62, 0x22, 0x3a, 0x22, 0x5d, 0x22,
            0x7d, 0x5d]),
          .endRow,
          .beginRow, .resolveField [0x6e], .append [0x6e] (.int [0x2d, 0x31, 0x32]),
          .resolveField [0x78], .append [0x78] (.float [0x31, 0x2e, 0x35]), .endRow] :=
  (scanStreaming_serialize rfl rfl sampleLines true).trans (by decide +kernel)

end FastForward.Core
