/-
The scanner on top of the builder (`scanner.rs`): a buffer is scanned
into a batch of the builder and the batch is finished.

The calls of a scan come with texts (`Core.scanStreaming`); the builder
is given slices of the buffer. `Located` says that slices have the texts
of a scan. Where in the buffer they stand is left open: a text may stand
in several places, and what is shown holds for all of them.
-/
import FastForward.Arrow.Sheet
import FastForward.Core.JsonScanner

namespace FastForward.Arrow

open Core

variable {F : Type}

/-- A value as it is appended. -/
def appendOf : FieldValue → Append Bytes F
  | .str value => .str value
  | .decodedStr value => .decodedStr value
  | .int value => .int value
  | .float value => .float value
  | .bool value => .bool value
  | .null => .null

/-- A call of the scanner on the builder. -/
def callOf : ScanCall → Call Bytes F
  | .beginRow => .beginRow
  | .endRow => .endRow
  | .appendLine line => .appendLine line
  | .resolveField key => .resolveField key
  | .append key value => .append key (appendOf value)

/-- Slices of the buffer with the texts of a scan. -/
structure Located (buf : Bytes) (scan : List ScanCall) (calls : List (Call Slice F)) : Prop where
  inBuf : ∀ c ∈ calls, c.InBuf buf
  texts : calls.map (Call.withText buf) = scan.map callOf

/-- The scanner and its builder. -/
structure Scanner (F : Type) where
  session : Session F
  config : ScanConfig F
  validateUtf8 : Bool
  resourceAttrs : List (Str × Str)

namespace Scanner

/-- A scanner with attributes for its batches. -/
def withResourceAttrs (config : ScanConfig F) (validateUtf8 : Bool)
    (resourceAttrs : List (Str × Str)) : Scanner F :=
  { session := .new config.lineFieldName, config, validateUtf8, resourceAttrs }

/-- `calls` are the ones that `scan_streaming` makes. -/
def scan [FloatOps F] [ArrowOps] (calls : List (Call Slice F)) (buf : Bytes) (sc : Scanner F) :
    Except Failure (RecordBatch F × Scanner F) :=
  if sc.validateUtf8 && !validUtf8 buf then
    .error (.invalidArgument "Scanner: input is not valid UTF-8")
  else
    match sc.session.beginBatch buf with
    | none => .error (.panic "begin_batch")
    | some s =>
      match Session.calls { s with builder := s.builder.setResourceAttributes sc.resourceAttrs }
          calls with
      | none => .error (.panic "scan_streaming")
      | some s =>
        s.builder.finishBatch.map fun (batch, builder) =>
          (batch, { sc with session := { s with builder } })

end Scanner

end FastForward.Arrow
