/-
Timestamps on their way into the star schema (`star_schema/helpers.rs`,
`flat_to_star.rs`): a column of an Arrow timestamp type is written as
text, in nanoseconds, and read back by a parser that guesses the unit
from the magnitude.

`str::trim` is a parameter, and so is `parse_rfc3339_nanos`, which only
a text that is no integer reaches.
-/
import FastForward.Core.Sql

namespace FastForward.Arrow.StarSchema

open Core List

/-- The units of a timestamp column. -/
inductive TimeUnit
  | second
  | millisecond
  | microsecond
  | nanosecond

/-- Nanoseconds in a unit. -/
def TimeUnit.nanos : TimeUnit → Int
  | second => 1_000_000_000
  | millisecond => 1_000_000
  | microsecond => 1_000
  | nanosecond => 1

/-- `i64::saturating_mul`. -/
def saturatingMul (a b : Int) : Int := max (-(2 ^ 63)) (min (2 ^ 63 - 1) (a * b))

/-- `i64::checked_mul`. -/
def checkedMul (a b : Int) : Option Int := if inI64 (a * b) then some (a * b) else none

/-- The `Timestamp` arms of `str_value_at`. -/
def strValueAt (value : Int) : TimeUnit → Bytes
  | .nanosecond => renderInt value
  | unit => renderInt (saturatingMul value unit.nanos)

/-- Library functions on texts, and the one law that is used. -/
structure TextOps where
  trim : Bytes → Bytes
  parseRfc3339Nanos : Bytes → Option Int
  trim_integer : ∀ n, trim (renderInt n) = renderInt n

/-- An integer text: nanoseconds, or fewer of a coarser unit. -/
def nanosOfMagnitude (ns : Int) : Option Int :=
  if 100_000_000_000_000_000 < ns.natAbs then some ns
  else if 100_000_000_000_000 < ns.natAbs then checkedMul ns 1_000
  else if 100_000_000_000 < ns.natAbs then checkedMul ns 1_000_000
  else checkedMul ns 1_000_000_000

variable (ops : TextOps)

/-- An integer or an RFC 3339 text. -/
def parseTimestampToNanos (s : Bytes) : Option Int :=
  let s := ops.trim s
  if s.isEmpty then none
  else match parseI64 s with
    | some ns => nanosOfMagnitude ns
    | none => ops.parseRfc3339Nanos s

/-- The `time_unix_nano` of `build_logs_fact`, null where the timestamp
is. -/
def timeUnixNano (unit : TimeUnit) (column : List (Option Int)) : List (Option Int) :=
  column.map fun value => value.bind fun v => parseTimestampToNanos ops (strValueAt v unit)

end FastForward.Arrow.StarSchema
