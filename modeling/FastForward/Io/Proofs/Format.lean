/-
Decoders as machines that read lines.

A decoder reads a line and writes at most one output row: the bytes of
one line, and what the sidecar says of it (`readLine`). What a call
appends to its output buffer and to the sidecar is what reading the
lines of its chunk writes (`processLinesWithMetadata_eq`).

The rows of the CRI formats are exactly one scanner row each. For that
no newline may hide in a message that is being reassembled, which holds
of every decoder that is only ever fed lines (`Reached`).
-/
import FastForward.Core.Proofs.Newlines
import FastForward.Core.Proofs.Reassembly
import FastForward.Io.Format
import FastForward.Io.Proofs.Sidecar
import FastForward.Lib.Transducer

namespace FastForward.Io

open Core Lib List Ascii CriMetadata Transducer

-- == lines of a chunk

theorem chunkLines_nil : chunkLines [] = [] := by
  unfold chunkLines
  rw [if_pos rfl]

theorem chunkLines_line {line rest : Bytes} (h : newline ∉ line) :
    chunkLines (line ++ newline :: rest) = line :: chunkLines rest := by
  conv => lhs; unfold chunkLines
  rw [memchr_append_cons h]
  simp

theorem chunkLines_open {bytes : Bytes} (hne : bytes ≠ []) (h : newline ∉ bytes) :
    chunkLines bytes = [bytes] := by
  unfold chunkLines
  rw [if_neg hne, memchr_eq_none.mpr h]

theorem newline_notMem_chunkLines (input : Bytes) : ∀ line ∈ chunkLines input, newline ∉ line := by
  induction input using Segments.segmentInduction isNewline with
  | isOpen bytes h =>
    intro line hline
    by_cases hne : bytes = []
    · rw [hne, chunkLines_nil] at hline
      exact absurd hline not_mem_nil
    · rw [chunkLines_open hne (forall_isNewline.mp h)] at hline
      rw [mem_singleton.mp hline]
      exact forall_isNewline.mp h
  | isClosed first sep rest h hsep ih =>
    obtain rfl := eq_newline hsep
    intro line hline
    rw [chunkLines_line (forall_isNewline.mp h)] at hline
    rcases mem_cons.mp hline with rfl | hline
    · exact forall_isNewline.mp h
    · exact ih line hline

/-- Lines, each closed by its newline. -/
def terminated (lines : List Bytes) : Bytes := lines.flatMap (· ++ [newline])

theorem terminated_cons (line : Bytes) (lines : List Bytes) :
    terminated (line :: lines) = line ++ newline :: terminated lines := by
  rw [terminated, flatMap_cons, append_assoc]
  rfl

/-- Lines that are ended come back. -/
theorem chunkLines_terminated {lines : List Bytes}
    (h : ∀ line ∈ lines, newline ∉ line) : chunkLines (terminated lines) = lines := by
  induction lines with
  | nil => exact chunkLines_nil
  | cons line lines ih =>
    rw [terminated_cons, chunkLines_line (h line mem_cons_self),
      ih fun l hl => h l (mem_cons_of_mem line hl)]

-- == the line machine

/-- What the sidecar gets for an output row. -/
inductive SidecarRow
  | untracked
  | null
  | value (timestamp stream : Bytes)

/-- One line of output. -/
structure OutputRow where
  text : Bytes
  sidecar : SidecarRow

/-- The sidecar with one more row. -/
def CriMetadata.addRow (m : CriMetadata) (row : OutputRow) : CriMetadata :=
  match row.sidecar with
  | .untracked => m
  | .null => m.appendNullRows 1
  | .value timestamp stream => m.appendValue timestamp stream

/-- The text of rows. -/
def texts (rows : List OutputRow) : Bytes := rows.flatMap (·.text)

@[simp] theorem texts_nil : texts [] = [] := rfl

@[simp] theorem texts_append (front back : List OutputRow) :
    texts (front ++ back) = texts front ++ texts back := flatMap_append

/-- The row a line of a CRI format gives, and what stays pending. -/
def Aggregators.readLine (plainTextFieldName : Bytes) (passthroughOnFail : Bool)
    (a : Aggregators) (line : Bytes) : Aggregators × List OutputRow :=
  match parseCriLine line with
  | some cri =>
    let fed := (a.get cri.stream).feed cri.message cri.isFull
    match fed.1 with
    | .complete msg | .truncated msg =>
      (a.set cri.stream fed.2.reset,
        [⟨writeCriMessage msg plainTextFieldName, .value cri.timestamp cri.stream⟩])
    | .pending => (a.set cri.stream fed.2, [])
  | none =>
    (a.reset,
      if !line.isEmpty && passthroughOnFail then
        if startsWithJsonObject line then [⟨line ++ [newline], .null⟩]
        else
          match normalizePlainTextFallback line with
          | some text => [⟨writePlainTextFallback text plainTextFieldName, .null⟩]
          | none => []
      else [])

variable {line : Bytes}

/-- A line of the format, read. -/
theorem Aggregators.readLine_of_parse {cri : CriLine}
    (h : parseCriLine line = some cri) (name : Bytes) (onFail : Bool) (a : Aggregators) :
    a.readLine name onFail line
      = if cri.isFull then
          (a.set cri.stream (a.get cri.stream).reset,
            [⟨writeCriMessage ((a.get cri.stream).extend cri.message).pending name,
              .value cri.timestamp cri.stream⟩])
        else (a.set cri.stream ((a.get cri.stream).extend cri.message), []) := by
  obtain ⟨timestamp, stream, isFull, message⟩ := cri
  unfold readLine
  rw [h]
  cases isFull with
  | false => rfl
  | true =>
    obtain ⟨hfed, hreset⟩ := (a.get stream).feed_full message
    rcases hfed with hfed | hfed
    · dsimp only
      rw [hfed, hreset]
      rfl
    · dsimp only
      rw [hfed, hreset]
      rfl

/-- A line, by the format. -/
def FormatDecoder.readLine : FormatDecoder → Bytes → FormatDecoder × List OutputRow
  | passthrough, line => (passthrough, [⟨line ++ [newline], .untracked⟩])
  | passthroughJson, line => (passthroughJson, [⟨line ++ [newline], .untracked⟩])
  | cri a name, line => (cri (a.readLine name false line).1 name, (a.readLine name false line).2)
  | auto a name, line => (auto (a.readLine name true line).1 name, (a.readLine name true line).2)

/-- Lines, one after the other. -/
abbrev FormatDecoder.readLines : FormatDecoder → List Bytes → FormatDecoder × List OutputRow :=
  run FormatDecoder.readLine

variable (name : Bytes) (onFail : Bool) (x : Extraction)

/-- The loop body reads one line. -/
theorem extractCriLine_eq (line : Bytes) :
    extractCriLine name onFail x line
      = { aggregators := (x.aggregators.readLine name onFail line).1
          out := x.out ++ texts (x.aggregators.readLine name onFail line).2
          metadata := x.metadata.map fun m =>
            (x.aggregators.readLine name onFail line).2.foldl addRow m } := by
  unfold extractCriLine Aggregators.readLine
  cases parseCriLine line with
  | some cri =>
    dsimp only
    cases ((x.aggregators.get cri.stream).feed cri.message cri.isFull).1 <;>
      simp [texts, addRow]
  | none =>
    dsimp only
    split
    next =>
      split
      next => simp [texts, addRow]
      next => cases normalizePlainTextFallback line <;> simp [texts, addRow]
    next => simp

theorem foldl_extractCriLine (lines : List Bytes) :
    lines.foldl (extractCriLine name onFail) x
      = { aggregators :=
            (run (Aggregators.readLine name onFail) x.aggregators lines).1
          out := x.out ++ texts (run (Aggregators.readLine name onFail) x.aggregators lines).2
          metadata := x.metadata.map fun m =>
            (run (Aggregators.readLine name onFail) x.aggregators lines).2.foldl
              addRow m } := by
  induction lines generalizing x with
  | nil => simp
  | cons line lines ih =>
    rw [foldl_cons, ih, extractCriLine_eq, run_cons]
    simp only [texts_append, append_assoc, foldl_append, Option.map_map, Function.comp_def]

/-- A call of a CRI format appends the rows of its chunk's lines. -/
theorem processLinesWithMetadata_eq {format : FormatDecoder}
    (h : format.emitsCriMetadata) (chunk out : Bytes) (metadata : Option CriMetadata) :
    format.processLinesWithMetadata chunk out metadata
      = { format := (format.readLines (chunkLines chunk)).1
          out := out ++ texts (format.readLines (chunkLines chunk)).2
          metadata := metadata.map fun m =>
            (format.readLines (chunkLines chunk)).2.foldl addRow m } := by
  cases format with
  | passthrough | passthroughJson => cases h
  | cri a name =>
    have hrun := run_embed (Aggregators.readLine name false)
      FormatDecoder.readLine (.cri · name) (fun _ _ => rfl) a (chunkLines chunk)
    rw [FormatDecoder.processLinesWithMetadata, extractCriMessages, foldl_extractCriLine,
      FormatDecoder.readLines, hrun]
  | auto a name =>
    have hrun := run_embed (Aggregators.readLine name true)
      FormatDecoder.readLine (.auto · name) (fun _ _ => rfl) a (chunkLines chunk)
    rw [FormatDecoder.processLinesWithMetadata, extractCriMessages, foldl_extractCriLine,
      FormatDecoder.readLines, hrun]

-- == single rows

/-- The text of a row is one line, of which something is left when a
final carriage return is dropped, and the sidecar has a row for it. -/
structure OutputRow.IsScannerRow (row : OutputRow) : Prop where
  line : ∃ body, row.text = body ++ [newline] ∧ newline ∉ body
    ∧ ∃ b ∈ body, b ≠ carriageReturn
  tracked : row.sidecar ≠ .untracked

theorem newline_notMem_jsonEscapedByte (b : UInt8) : newline ∉ jsonEscapedByte b := by
  have hall : ∀ i : Fin 256, newline ∉ jsonEscapedByte (UInt8.ofFin i) := by
    decide +kernel
  exact hall b.toFin

theorem newline_notMem_jsonEscaped (src : Bytes) : newline ∉ jsonEscaped src := by
  intro h
  obtain ⟨b, -, hb⟩ := mem_flatMap.mp h
  exact newline_notMem_jsonEscapedByte b hb

theorem newline_notMem_wrapPlainText (text name : Bytes) : newline ∉ wrapPlainText text name := by
  have htext := newline_notMem_jsonEscaped text
  have hname := newline_notMem_jsonEscaped name
  simp only [wrapPlainText, mem_append, htext, hname]
  decide

variable {sidecar : SidecarRow}

/-- An object text is written as one line. -/
theorem isScannerRow_of_openBrace {body : Bytes} (hbody : newline ∉ body)
    (hbrace : openBrace ∈ body) (hsidecar : sidecar ≠ .untracked) :
    OutputRow.IsScannerRow ⟨body ++ [newline], sidecar⟩ :=
  ⟨⟨body, rfl, hbody, openBrace, hbrace, by decide⟩, hsidecar⟩

theorem openBrace_mem_wrapPlainText (text name : Bytes) : openBrace ∈ wrapPlainText text name := by
  simp [wrapPlainText]

theorem isScannerRow_writeCriMessage {msg : Bytes} (h : newline ∉ msg) (name : Bytes)
    (hsidecar : sidecar ≠ .untracked) :
    OutputRow.IsScannerRow ⟨writeCriMessage msg name, sidecar⟩ := by
  rw [writeCriMessage]
  split
  next hjson =>
    refine isScannerRow_of_openBrace (fun hmem => h ?_) (mem_of_mem_head? hjson) hsidecar
    exact (dropWhile_suffix _).subset hmem
  next =>
    exact isScannerRow_of_openBrace (newline_notMem_wrapPlainText msg name)
      (openBrace_mem_wrapPlainText msg name) hsidecar

theorem isScannerRow_startsWithJsonObject (h : newline ∉ line)
    (hjson : startsWithJsonObject line) :
    OutputRow.IsScannerRow ⟨line ++ [newline], .null⟩ := by
  refine isScannerRow_of_openBrace h ?_ nofun
  exact (dropWhile_suffix _).subset (mem_of_mem_head? (beq_iff_eq.mp hjson))

/-- The sidecar gets one row for each. -/
theorem rows_addRows {rows : List OutputRow} (h : ∀ row ∈ rows, row.IsScannerRow)
    (m : CriMetadata) : (rows.foldl addRow m).rows = m.rows + rows.length := by
  induction rows generalizing m with
  | nil => rfl
  | cons row rows ih =>
    have hone : (m.addRow row).rows = m.rows + 1 := by
      have htracked := (h row mem_cons_self).tracked
      unfold addRow
      cases hsidecar : row.sidecar with
      | untracked => exact absurd hsidecar htracked
      | null => exact rows_appendNullRows m 1
      | value timestamp stream => exact rows_appendValue m timestamp stream
    rw [foldl_cons, ih fun r hr => h r (mem_cons_of_mem row hr), hone,
      length_cons, add_assoc, add_comm 1]

theorem CriMetadata.Sound.addRows {m : CriMetadata} (h : m.Sound) (rows : List OutputRow) :
    (rows.foldl addRow m).Sound := by
  induction rows generalizing m with
  | nil => exact h
  | cons row rows ih =>
    refine ih ?_
    unfold addRow
    cases row.sidecar with
    | untracked => exact h
    | null => exact h.appendNullRows 1
    | value timestamp stream => exact h.appendValue timestamp stream

/-- A line of another format breaks off what is pending; what it gives
does not depend on that. -/
theorem Aggregators.readLine_of_none (h : parseCriLine line = none) (name : Bytes)
    (onFail : Bool) : ∃ rows, (∀ a : Aggregators, a.readLine name onFail line = (a.reset, rows))
      ∧ ∀ row ∈ rows, (∃ body, row.text = body ++ [newline])
        ∧ (newline ∉ line → row.IsScannerRow) := by
  unfold readLine
  rw [h]
  refine ⟨_, fun a => rfl, fun row hrow => ?_⟩
  split at hrow
  next =>
    split at hrow
    next hjson =>
      rw [mem_singleton.mp hrow]
      exact ⟨⟨line, rfl⟩, fun hline => isScannerRow_startsWithJsonObject hline hjson⟩
    next =>
      split at hrow
      next text _ =>
        rw [mem_singleton.mp hrow]
        exact ⟨⟨_, rfl⟩, fun _ => isScannerRow_of_openBrace (newline_notMem_wrapPlainText text name)
          (openBrace_mem_wrapPlainText text name) nofun⟩
      next => exact absurd hrow not_mem_nil
  next => exact absurd hrow not_mem_nil

-- == line-free

/-- The message of a line is the end of it. -/
theorem parseCriLine_message {cri : CriLine} (h : parseCriLine line = some cri) :
    cri.message <:+ line := by
  unfold parseCriLine at h
  split at h
  next => cases h
  next sp1 _ =>
    split at h
    next => cases h
    next =>
      split at h
      next => cases h
      next sp2 _ =>
        split at h
        next => cases h
        next =>
          dsimp only at h
          split at h
          next => cases h
          next =>
            obtain ⟨isFull, -, rfl⟩ := Option.map_eq_some_iff.mp h
            exact drop_suffix _ _

namespace Aggregators

/-- No newline is pending. -/
structure LineFree (a : Aggregators) : Prop where
  stdout : newline ∉ a.stdout.pending
  stderr : newline ∉ a.stderr.pending

theorem LineFree.new (maxMessageSize : Nat) : (new maxMessageSize).LineFree :=
  ⟨not_mem_nil, not_mem_nil⟩

theorem LineFree.reset (a : Aggregators) : a.reset.LineFree :=
  ⟨not_mem_nil, not_mem_nil⟩

variable {a : Aggregators}

theorem LineFree.get (h : a.LineFree) (stream : Bytes) : newline ∉ (a.get stream).pending := by
  rw [Aggregators.get]
  split
  · exact h.stderr
  · exact h.stdout

theorem LineFree.set (h : a.LineFree) (stream : Bytes) {r : CriReassembler}
    (hr : newline ∉ r.pending) : (a.set stream r).LineFree := by
  rw [Aggregators.set]
  split
  · exact ⟨h.stdout, hr⟩
  · exact ⟨hr, h.stderr⟩

end Aggregators

theorem newline_notMem_extend {r : CriReassembler} {message : Bytes}
    (hr : newline ∉ r.pending) (hmessage : newline ∉ message) :
    newline ∉ (r.extend message).pending := by
  intro h
  rcases mem_append.mp h with h | h
  · exact hr h
  · exact hmessage (mem_of_mem_take h)

/-- A line leaves no newline pending and gives rows of one line each. -/
theorem Aggregators.LineFree.readLine {a : Aggregators} (h : a.LineFree) (name : Bytes)
    (onFail : Bool) (hline : newline ∉ line) :
    (a.readLine name onFail line).1.LineFree
      ∧ ∀ row ∈ (a.readLine name onFail line).2, row.IsScannerRow := by
  cases hparse : parseCriLine line with
  | some cri =>
    have hmessage : newline ∉ cri.message := fun hmem =>
      hline ((parseCriLine_message hparse).subset hmem)
    have hextend := newline_notMem_extend (h.get cri.stream) hmessage
    rw [readLine_of_parse hparse]
    split
    · refine ⟨h.set cri.stream not_mem_nil, fun row hrow => ?_⟩
      rw [mem_singleton.mp hrow]
      exact isScannerRow_writeCriMessage hextend name nofun
    · exact ⟨h.set cri.stream hextend, fun _ hrow => absurd hrow not_mem_nil⟩
  | none =>
    obtain ⟨rows, hread, hrows⟩ := readLine_of_none hparse name onFail
    rw [hread]
    exact ⟨.reset a, fun row hrow => (hrows row hrow).2 hline⟩

namespace FormatDecoder

/-- Nothing that is pending holds a newline. -/
def LineFree : FormatDecoder → Prop
  | cri a _ | auto a _ => a.LineFree
  | _ => True

/-- Decoders that are built by their constructors and only ever process
chunks, or are reset. -/
inductive Reached : FormatDecoder → Prop
  | passthrough : Reached .passthrough
  | passthroughJson : Reached .passthroughJson
  | cri (maxMessageSize : Nat) (name : Bytes) : Reached (.cri (.new maxMessageSize) name)
  | auto (maxMessageSize : Nat) (name : Bytes) : Reached (.auto (.new maxMessageSize) name)
  | process {format : FormatDecoder} (chunk out : Bytes) (metadata : Option CriMetadata) :
      Reached format → Reached (format.processLinesWithMetadata chunk out metadata).format
  | reset {format : FormatDecoder} : Reached format → Reached format.reset

variable {format : FormatDecoder}

/-- A line leaves no newline behind. -/
theorem LineFree.readLine (h : format.LineFree)
    (hcri : format.emitsCriMetadata) (hline : newline ∉ line) :
    ((format.readLine line).1.LineFree ∧ (format.readLine line).1.emitsCriMetadata)
      ∧ ∀ row ∈ (format.readLine line).2, row.IsScannerRow := by
  cases format with
  | passthrough | passthroughJson => cases hcri
  | cri a name =>
    obtain ⟨hfree, hrows⟩ := Aggregators.LineFree.readLine h name false hline
    exact ⟨⟨hfree, rfl⟩, hrows⟩
  | auto a name =>
    obtain ⟨hfree, hrows⟩ := Aggregators.LineFree.readLine h name true hline
    exact ⟨⟨hfree, rfl⟩, hrows⟩

theorem LineFree.readLines (h : format.LineFree)
    (hcri : format.emitsCriMetadata) {lines : List Bytes}
    (hlines : ∀ line ∈ lines, newline ∉ line) :
    ((format.readLines lines).1.LineFree ∧ (format.readLines lines).1.emitsCriMetadata)
      ∧ ∀ row ∈ (format.readLines lines).2, row.IsScannerRow :=
  run_invariant FormatDecoder.readLine
    (fun format => format.LineFree ∧ format.emitsCriMetadata = true) OutputRow.IsScannerRow
    (newline ∉ ·) (fun _ _ h hline => LineFree.readLine h.1 h.2 hline) ⟨h, hcri⟩ hlines

/-- No decoder ever holds one. -/
theorem Reached.lineFree (h : format.Reached) : format.LineFree := by
  induction h with
  | passthrough | passthroughJson => trivial
  | cri maxMessageSize name | auto maxMessageSize name =>
    exact Aggregators.LineFree.new maxMessageSize
  | @process format chunk out metadata _ ih =>
    cases hcri : format.emitsCriMetadata with
    | true =>
      rw [processLinesWithMetadata_eq hcri]
      exact (ih.readLines hcri (newline_notMem_chunkLines chunk)).1.1
    | false =>
      cases format with
      | passthrough | passthroughJson => trivial
      | cri a name | auto a name => cases hcri
  | @reset format _ ih =>
    cases format with
    | passthrough | passthroughJson => trivial
    | cri a name | auto a name => exact Aggregators.LineFree.reset a

end FormatDecoder

end FastForward.Io
