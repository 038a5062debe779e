/-
Scan configuration and the integer fast path (`scan_config.rs`). UTF-8
validation happens before the scan, in the caller, so the flag for it is
left out.
-/
import FastForward.Core.ScanPredicate

namespace FastForward.Core

structure FieldSpec where
  name : Bytes
  aliases : List Bytes

/-- Which fields to extract, and whether to capture the line. -/
structure ScanConfig (F : Type) where
  wantedFields : List FieldSpec
  extractAll : Bool
  lineFieldName : Option Bytes
  rowPredicate : Option (ScanPredicate F)

variable {F : Type}

namespace ScanConfig

/-- Everything, unfiltered. -/
def default : ScanConfig F :=
  { wantedFields := [], extractAll := true, lineFieldName := none, rowPredicate := none }

def capturesLine (config : ScanConfig F) : Bool := config.lineFieldName.isSome

/-- Is this field name wanted? -/
def isWanted (config : ScanConfig F) (key : Bytes) : Bool :=
  config.extractAll || config.wantedFields.any fun fs =>
    eqIgnoreAsciiCase key fs.name || fs.aliases.any (eqIgnoreAsciiCase key)

end ScanConfig

/-- Parse a slice as a signed 64-bit integer: an optional minus, then
digits. -/
def parseIntFast (bytes : Bytes) : Option Int :=
  match bytes with
  | [] => none
  | b :: rest =>
    if b = Ascii.minus then
      if rest = [] then none else parseDigits true 0 rest
    else parseDigits false 0 bytes

end FastForward.Core
