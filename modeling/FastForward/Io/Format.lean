/-
Format processing of framed lines (`format.rs`): a decoder turns
complete lines into scanner-ready output, and into a row of the CRI
sidecar for every line of that output.

A writer of the source that appends to an output buffer is the function
that gives the appended bytes. Parse-error counters and logging are left
out.
-/
import FastForward.Io.Input

namespace FastForward.Io

open Core Ascii

/-- Default maximum of a CRI message. -/
def criMaxMessage : Nat := 2 * 1024 * 1024

-- == writers

/-- Whitespace of JSON. -/
def isJsonWhitespace (b : UInt8) : Bool :=
  b == space || b == tab || b == newline || b == carriageReturn

/-- One byte inside a JSON string. -/
def jsonEscapedByte (b : UInt8) : Bytes :=
  if b = quote then [backslash, quote]
  else if b = backslash then [backslash, backslash]
  else if b = 0x08 then [backslash, lowerB]
  else if b = tab then [backslash, lowerT]
  else if b = newline then [backslash, lowerN]
  else if b = 0x0c then [backslash, lowerF]
  else if b = carriageReturn then [backslash, lowerR]
  else if b ≤ 0x1f ∨ 0x7f ≤ b then jsonByteEscape b
  else [b]

/-- A text as it stands in a JSON string. -/
def jsonEscaped (src : Bytes) : Bytes := src.flatMap jsonEscapedByte

/-- Plain text as an object of one field: `{"name":"text"}`. -/
def wrapPlainText (text plainTextFieldName : Bytes) : Bytes :=
  [openBrace, quote] ++ jsonEscaped plainTextFieldName
    ++ [quote, colon, quote] ++ jsonEscaped text
    ++ [quote, closeBrace]

/-- A line that is no CRI, wrapped as a record. -/
def writePlainTextFallback (line plainTextFieldName : Bytes) : Bytes :=
  wrapPlainText line plainTextFieldName ++ [newline]

/-- A message that begins an object is written as it is. -/
def writeCriMessage (msg plainTextFieldName : Bytes) : Bytes :=
  let json := msg.dropWhile isJsonWhitespace
  (if json.head? = some openBrace then json else wrapPlainText msg plainTextFieldName)
    ++ [newline]

/-- A line that needs no wrapping. -/
def startsWithJsonObject (line : Bytes) : Bool :=
  (line.dropWhile fun b =>
    b == space || b == tab || b == carriageReturn).head?
      == some openBrace

/-- A plain line without a final carriage return, if anything is left. -/
def normalizePlainTextFallback (line : Bytes) : Option Bytes :=
  let line := if line.getLast? = some carriageReturn then line.dropLast else line
  if line = [] then none else some line

-- == aggregators

/-- The two reassemblers of a decoder, one per stream. -/
structure Aggregators where
  stdout : CriReassembler
  stderr : CriReassembler
  deriving DecidableEq, Repr

namespace Aggregators

def new (maxMessageSize : Nat) : Aggregators :=
  { stdout := .new maxMessageSize, stderr := .new maxMessageSize }

/-- `stream_aggregator`. -/
def get (a : Aggregators) (stream : Bytes) : CriReassembler :=
  if stream = stderrToken then a.stderr else a.stdout

def set (a : Aggregators) (stream : Bytes) (r : CriReassembler) : Aggregators :=
  if stream = stderrToken then { a with stderr := r } else { a with stdout := r }

/-- Both streams begin anew. -/
def reset (a : Aggregators) : Aggregators :=
  { stdout := a.stdout.reset, stderr := a.stderr.reset }

/-- A partial message waits in a stream. -/
def hasBufferedState (a : Aggregators) : Bool :=
  a.stdout.hasBufferedState || a.stderr.hasBufferedState

end Aggregators

-- == extraction

/-- What `extract_cri_messages` updates. -/
structure Extraction where
  aggregators : Aggregators
  out : Bytes
  metadata : Option CriMetadata

/-- The lines of a chunk; a last one without newline counts if it is not
empty. -/
def chunkLines (input : Bytes) : List Bytes :=
  if input = [] then []
  else
    match memchr newline input with
    | some eol => input.take eol :: chunkLines (input.drop (eol + 1))
    | none => [input]
termination_by input.length
decreasing_by
  rw [List.length_drop]
  have := List.length_pos_iff.mpr ‹¬ input = []›
  omega

/-- A line of a CRI log. -/
def extractCriLine (plainTextFieldName : Bytes) (passthroughOnFail : Bool)
    (x : Extraction) (line : Bytes) : Extraction :=
  match parseCriLine line with
  | some cri =>
    let (result, aggregator) := (x.aggregators.get cri.stream).feed cri.message cri.isFull
    match result with
    | .complete msg | .truncated msg =>
      { aggregators := x.aggregators.set cri.stream aggregator.reset
        out := x.out ++ writeCriMessage msg plainTextFieldName
        metadata := x.metadata.map (·.appendValue cri.timestamp cri.stream) }
    | .pending => { x with aggregators := x.aggregators.set cri.stream aggregator }
  | none =>
    -- a line of another format breaks off what is pending
    let x := { x with aggregators := x.aggregators.reset }
    if !line.isEmpty && passthroughOnFail then
      if startsWithJsonObject line then
        { x with
          out := x.out ++ (line ++ [newline])
          metadata := x.metadata.map (·.appendNullRows 1) }
      else
        match normalizePlainTextFallback line with
        | some line =>
          { x with
            out := x.out ++ writePlainTextFallback line plainTextFieldName
            metadata := x.metadata.map (·.appendNullRows 1) }
        | none => x
    else x

/-- All lines of a chunk. -/
def extractCriMessages (input : Bytes) (x : Extraction) (plainTextFieldName : Bytes)
    (passthroughOnFail : Bool) : Extraction :=
  (chunkLines input).foldl (extractCriLine plainTextFieldName passthroughOnFail) x

-- == decoders

/-- The decoder of each format. -/
inductive FormatDecoder
  | passthrough
  | passthroughJson
  | cri (aggregators : Aggregators) (plainTextFieldName : Bytes)
  | auto (aggregators : Aggregators) (plainTextFieldName : Bytes)
  deriving DecidableEq, Repr

/-- A decoder after some lines, and its output. -/
structure Decoded where
  format : FormatDecoder
  out : Bytes
  metadata : Option CriMetadata

namespace FormatDecoder

def emitsCriMetadata : FormatDecoder → Bool
  | cri _ _ | auto _ _ => true
  | _ => false

def isPassthrough : FormatDecoder → Bool
  | passthrough | passthroughJson => true
  | _ => false

/-- Fresh state, same format. -/
def newInstance : FormatDecoder → FormatDecoder
  | passthrough => passthrough
  | passthroughJson => passthroughJson
  | cri aggregators name => cri (.new aggregators.stdout.maxMessageSize) name
  | auto aggregators name => auto (.new aggregators.stdout.maxMessageSize) name

/-- The lines of a chunk, by the format. -/
def processLinesWithMetadata (format : FormatDecoder) (chunk out : Bytes)
    (metadata : Option CriMetadata) : Decoded :=
  match format with
  | passthrough => ⟨passthrough, out ++ chunk, metadata⟩
  | passthroughJson => ⟨passthroughJson, out ++ chunk, metadata⟩
  | cri aggregators name =>
    let x := extractCriMessages chunk ⟨aggregators, out, metadata⟩ name false
    ⟨cri x.aggregators name, x.out, x.metadata⟩
  | auto aggregators name =>
    let x := extractCriMessages chunk ⟨aggregators, out, metadata⟩ name true
    ⟨auto x.aggregators name, x.out, x.metadata⟩

/-- Forget what is pending. -/
def reset : FormatDecoder → FormatDecoder
  | cri aggregators name => cri aggregators.reset name
  | auto aggregators name => auto aggregators.reset name
  | format => format

/-- Does anything have to survive to a later chunk? -/
def hasPendingState : FormatDecoder → Bool
  | cri aggregators _ | auto aggregators _ => aggregators.hasBufferedState
  | _ => false

end FormatDecoder

end FastForward.Io
