/-
The protobuf wire format (`ffwd-core/src/otlp.rs`): varints, tags and the
fields of each wire type, as they are written and as they are skipped, and
the decoder the proof harnesses take as reference (`ffwd-kani/src/proto.rs`).

A `u64` is a natural number below `2 ^ 64`, and a loop that walks a buffer
gets the bytes from its position on.
-/
import FastForward.Core.Bytes

namespace FastForward.Core.Wire

-- ==== writing

/-- Seven bits to a byte, the lowest first; every byte but the last has its
high bit set. -/
def encodeVarint (value : Nat) : Bytes :=
  if value < 0x80 then [value.toUInt8]
  else (value.toUInt8 &&& 0x7f ||| 0x80) :: encodeVarint (value >>> 7)
termination_by value
decreasing_by rw [Nat.shiftRight_eq_div_pow]; omega

/-- The length of an encoding, by a table. -/
def varintLen (value : Nat) : Nat :=
  if value ≤ 0x7f then 1
  else if value ≤ 0x3fff then 2
  else if value ≤ 0x1fffff then 3
  else if value ≤ 0xfffffff then 4
  else if value ≤ 0x7ffffffff then 5
  else if value ≤ 0x3ffffffffff then 6
  else if value ≤ 0x1ffffffffffff then 7
  else if value ≤ 0xffffffffffffff then 8
  else if value ≤ 0x7fffffffffffffff then 9
  else 10

/-- The field number over the three bits of the wire type. -/
def encodeTag (fieldNumber wireType : Nat) : Bytes :=
  encodeVarint (fieldNumber <<< 3 ||| wireType)

/-- `to_le_bytes` of an integer of `n` bytes. -/
def toLeBytes (n value : Nat) : Bytes := (List.range n).map fun i => (value >>> (8 * i)).toUInt8

def encodeFixed64 (fieldNumber value : Nat) : Bytes := encodeTag fieldNumber 1 ++ toLeBytes 8 value

def encodeVarintField (fieldNumber value : Nat) : Bytes :=
  encodeTag fieldNumber 0 ++ encodeVarint value

def encodeBytesField (fieldNumber : Nat) (data : Bytes) : Bytes :=
  encodeTag fieldNumber 2 ++ encodeVarint data.length ++ data

def encodeFixed32 (fieldNumber value : Nat) : Bytes := encodeTag fieldNumber 5 ++ toLeBytes 4 value

/-- The size of a tag, counted for wire type 2. -/
def tagSize (fieldNumber : Nat) : Nat := varintLen (fieldNumber <<< 3 ||| 2)

/-- Tag, length and data of a length-delimited field. -/
def bytesFieldTotalSize (fieldNumber dataLen : Nat) : Nat :=
  tagSize fieldNumber + varintLen dataLen + dataLen

def bytesFieldSize (fieldNumber dataLen : Nat) : Nat := bytesFieldTotalSize fieldNumber dataLen

-- ==== reading

/-- The loop of `decode_varint`, on the bytes from `i` on. The limit on the
payload is tested once `shift` has moved on, on the byte before it. -/
def decodeVarintLoop (value shift i : Nat) : Bytes → Except String (Nat × Nat)
  | [] => .error "varint: unexpected end of input"
  | byte :: rest =>
    let value := value ||| ((byte &&& 0x7f).toNat <<< shift) % 2 ^ 64
    if byte &&& 0x80 = 0 then .ok (value, i + 1)
    else if 64 ≤ shift + 7 ∨ shift + 7 = 63 ∧ 1 < byte &&& 0x7f then
      .error "varint: too many bytes"
    else decodeVarintLoop value (shift + 7) (i + 1) rest

/-- The value that begins at `pos`, and the position behind it. -/
def decodeVarint (buf : Bytes) (pos : Nat) : Except String (Nat × Nat) :=
  decodeVarintLoop 0 0 pos (buf.drop pos)

/-- The loop of the reference, which tests the byte it is about to shift. -/
def decodeVarintOracleLoop (value shift i : Nat) : Bytes → Option (Nat × Nat)
  | [] => none
  | byte :: rest =>
    if shift = 63 ∧ 1 < byte &&& 0x7f then none
    else
      let value := value ||| ((byte &&& 0x7f).toNat <<< shift) % 2 ^ 64
      if byte &&& 0x80 = 0 then some (value, i + 1)
      else if 64 ≤ shift + 7 then none
      else decodeVarintOracleLoop value (shift + 7) (i + 1) rest

/-- The reference starts at the front of its slice. -/
def decodeVarintOracle (data : Bytes) : Option (Nat × Nat) :=
  if data.isEmpty then none else decodeVarintOracleLoop 0 0 0 data

/-- Field number, wire type and the position behind the tag. -/
def decodeTag (buf : Bytes) (pos : Nat) : Except String (Nat × Nat × Nat) := do
  let (tag, newPos) ← decodeVarint buf pos
  return (tag >>> 3 % 2 ^ 32, tag &&& 7, newPos)

/-- `checked_add` of a `usize`, and the check that the buffer reaches as
far. -/
def skipBytes (buf : Bytes) (pos len : Nat) (error : String) : Except String Nat :=
  if pos + len < 2 ^ 64 ∧ pos + len ≤ buf.length then .ok (pos + len) else .error error

/-- The position behind a field's value. -/
def skipField (buf : Bytes) (wireType pos : Nat) : Except String Nat :=
  match wireType with
  | 0 => do
    let (_, newPos) ← decodeVarint buf pos
    return newPos
  | 1 => skipBytes buf pos 8 "skip: truncated fixed64"
  | 2 => do
    let (len, newPos) ← decodeVarint buf pos
    skipBytes buf newPos len "skip: length-delimited overflow"
  | 5 => skipBytes buf pos 4 "skip: truncated fixed32"
  | _ => .error "skip: unsupported wire type"

-- ==== what the decoder can read

/-- Whether the decoder takes a value that begins at byte `k`: the ninth
byte, if it goes on, has at most one in it. From the start (`k = 0`) these
are the values below `2 ^ 63` and those whose bits 56 to 62 hold at most
one. -/
def Supported (k v : Nat) : Prop := v >>> (56 - 7 * k) < 128 ∨ v >>> (56 - 7 * k) % 128 ≤ 1

instance {k v : Nat} : Decidable (Supported k v) := inferInstanceAs (Decidable (_ ∨ _))

/-- Where the two decoders agree, the ninth byte standing at `m`: if nine
bytes go on, the tenth holds at most one exactly if the ninth does and it
ends there. -/
def AgreesAt (m : Nat) (bytes : Bytes) : Prop :=
  (∀ b ∈ bytes.take (m + 1), 128 ≤ b.toNat) → ∀ ninth ∈ bytes[m]?, ∀ tenth ∈ bytes[m + 1]?,
    (tenth.toNat ≤ 1 ↔ ninth.toNat % 128 ≤ 1 ∧ tenth.toNat < 128)

-- ==== fields in a row

/-- A field of each kind that is written, with its number. -/
inductive Field
  | varint (number value : Nat)
  | fixed64 (number value : Nat)
  | bytes (number : Nat) (data : Bytes)
  | fixed32 (number value : Nat)

namespace Field

/-- A field as the writers write it. -/
def encode : Field → Bytes
  | varint number value => encodeVarintField number value
  | fixed64 number value => encodeFixed64 number value
  | bytes number data => encodeBytesField number data
  | fixed32 number value => encodeFixed32 number value

/-- What stands behind the tag. -/
def body : Field → Bytes
  | varint _ value => encodeVarint value
  | fixed64 _ value => toLeBytes 8 value
  | bytes _ data => encodeVarint data.length ++ data
  | fixed32 _ value => toLeBytes 4 value

/-- The field number and the wire type. -/
def tag : Field → Nat × Nat
  | varint number _ => (number, 0)
  | fixed64 number _ => (number, 1)
  | bytes number _ => (number, 2)
  | fixed32 number _ => (number, 5)

/-- The number is one protobuf allows, and the value one its type holds and
the decoder can read. -/
def Valid (f : Field) : Prop :=
  1 ≤ f.tag.1 ∧ f.tag.1 < 2 ^ 29 ∧ match f with
    | varint _ value => value < 2 ^ 64 ∧ Supported 0 value
    | fixed64 _ value => value < 2 ^ 64
    | bytes _ _ => True
    | fixed32 _ value => value < 2 ^ 32

end Field

/-- The tag at `pos`, and the position behind its field. -/
def visitField (buf : Bytes) (pos : Nat) : Except String ((Nat × Nat) × Nat) := do
  let (number, wireType, pos) ← decodeTag buf pos
  let pos ← skipField buf wireType pos
  return ((number, wireType), pos)

/-- The tags met from `pos` on, in so many steps or up to the end of the
buffer, and where the walk ends. -/
def walk (buf : Bytes) : (steps pos : Nat) → Except String (List (Nat × Nat) × Nat)
  | 0, pos => .ok ([], pos)
  | steps + 1, pos =>
    if buf.length ≤ pos then .ok ([], pos)
    else do
      let (tag, pos) ← visitField buf pos
      let (tags, pos) ← walk buf steps pos
      return (tag :: tags, pos)

end FastForward.Core.Wire
