/-
What the varint decoder makes of an encoding, and that skipping walks the
fields that were written.

The decoder applies the limit on the tenth byte to the ninth: an encoding
whose ninth byte goes on with more than one in it is refused, and a tenth
byte loses all bits but the lowest. Lengths and tags stay clear of that, so
that a message is walked whatever its payloads hold.
-/
import FastForward.Core.Wire

namespace FastForward.Core.Wire

open List

variable {value shift v k i : Nat}

-- ==== one byte

/-- The high bit is clear below 128. -/
theorem and_0x80_eq_zero (b : UInt8) : b &&& 0x80 = 0 ↔ b.toNat < 128 := by
  revert b
  exact forall_byte (by decide +kernel)

/-- The payload of a byte. -/
theorem toNat_and_0x7f (b : UInt8) : (b &&& 0x7f).toNat = b.toNat % 128 := by
  revert b
  exact forall_byte (by decide +kernel)

theorem one_lt_and_0x7f (b : UInt8) : 1 < b &&& 0x7f ↔ 1 < b.toNat % 128 := by
  rw [UInt8.lt_iff_toNat_lt, toNat_and_0x7f]
  rfl

/-- A byte that goes on holds the lowest seven bits. -/
theorem toNat_goesOn (v : Nat) : (v.toUInt8 &&& 0x7f ||| 0x80).toNat = v % 128 + 128 := by
  have hbyte (b : UInt8) : (b &&& 0x7f ||| 0x80).toNat = b.toNat % 128 + 128 := by
    revert b
    exact forall_byte (by decide +kernel)
  rw [hbyte]
  show v % 256 % 128 + 128 = _
  omega

/-- A value is its lowest seven bits and what is left of it. -/
theorem mul_pow_split (v k : Nat) :
    v * 2 ^ (7 * k) = v % 128 * 2 ^ (7 * k) + v >>> 7 * 2 ^ (7 * (k + 1)) := by
  rw [Nat.mul_succ, Nat.pow_add, Nat.mul_comm (2 ^ (7 * k)), Nat.shiftRight_eq_div_pow,
    ← Nat.mul_assoc, ← Nat.add_mul]
  congr 1
  omega

/-- Or-ing in a payload above the bits read so far adds it. -/
theorem or_shiftLeft (hvalue : value < 2 ^ shift) (hv : value + v * 2 ^ shift < 2 ^ 64) :
    value ||| (v <<< shift) % 2 ^ 64 = value + v * 2 ^ shift := by
  rw [Nat.shiftLeft_eq, Nat.mod_eq_of_lt (by omega), Nat.mul_comm, Nat.or_comm,
    ← Nat.two_pow_add_eq_or_of_lt hvalue, Nat.add_comm]

-- ==== decoding an encoding

/-- Up to the ninth byte, what is left of a value is as readable as the
value. -/
theorem supported_shiftRight (hk : k < 8) : Supported (k + 1) (v >>> 7) ↔ Supported k v := by
  have hshift : 7 + (56 - 7 * (k + 1)) = 56 - 7 * k := by omega
  rw [Supported, ← Nat.shiftRight_add, hshift, Supported]

/-- The loop on an encoding that begins at byte `k`, with the value of the
bytes before: it returns the whole, or refuses it at the ninth byte. -/
theorem decodeVarintLoop_encodeVarint (v : Nat) (rest : Bytes) (hvalue : value < 2 ^ (7 * k))
    (hv : value + v * 2 ^ (7 * k) < 2 ^ 64) :
    decodeVarintLoop value (7 * k) i (encodeVarint v ++ rest) = if Supported k v then
      .ok (value + v * 2 ^ (7 * k), i + (encodeVarint v).length)
      else .error "varint: too many bytes" := by
  fun_induction encodeVarint v generalizing value k i with
  | case1 v hlt =>
    have hbyte : v.toUInt8.toNat = v := Nat.mod_eq_of_lt (by omega)
    have hsupported : Supported k v := .inl (Nat.lt_of_le_of_lt (Nat.shiftRight_le ..) hlt)
    rw [if_pos hsupported, cons_append, decodeVarintLoop,
      if_pos ((and_0x80_eq_zero _).mpr (by omega)), toNat_and_0x7f, hbyte, Nat.mod_eq_of_lt hlt,
      or_shiftLeft hvalue hv]
    rfl
  | case2 v hge ih =>
    have hpow : 2 ^ (7 * (k + 1)) = 128 * 2 ^ (7 * k) := by
      rw [Nat.mul_succ, Nat.pow_add, Nat.mul_comm]
    have hshift : v >>> 7 = v / 128 := Nat.shiftRight_eq_div_pow v 7
    have hsplit := mul_pow_split v k
    have hfirst : v % 128 * 2 ^ (7 * k) + 2 ^ (7 * k) ≤ 128 * 2 ^ (7 * k) := by
      rw [← Nat.succ_mul]
      exact Nat.mul_le_mul_right _ (by omega)
    have hmore : 2 ^ (7 * (k + 1)) ≤ v * 2 ^ (7 * k) := by
      rw [hpow]
      exact Nat.mul_le_mul_right _ (by omega)
    have hk : 7 * (k + 1) < 64 := (Nat.pow_lt_pow_iff_right (a := 2) (by decide)).mp (by omega)
    have hvalue' := or_shiftLeft (v := v % 128) hvalue (by omega)
    rw [cons_append, decodeVarintLoop, if_neg (by rw [and_0x80_eq_zero, toNat_goesOn]; omega)]
    simp only [one_lt_and_0x7f, toNat_and_0x7f, toNat_goesOn, Nat.add_mod_right, Nat.mod_mod, hvalue']
    split
    next hlimit =>
      obtain rfl : k = 8 := by omega
      have hno : ¬ Supported 8 v := by
        show ¬ (v < 128 ∨ v % 128 ≤ 1)
        omega
      rw [if_neg hno]
    next hlimit =>
      have hsupported : Supported (k + 1) (v >>> 7) ↔ Supported k v := by
        rcases Nat.lt_or_ge k 8 with hlt | hge
        · exact supported_shiftRight hlt
        · -- the tenth byte of a `u64` is a last one
          obtain rfl : k = 8 := by omega
          refine iff_of_true (.inl ?_) (.inr ?_)
          · show v >>> 7 < 128
            omega
          · show v % 128 ≤ 1
            omega
      rw [show 7 * k + 7 = 7 * (k + 1) from rfl, ih (by omega) (by omega), hsplit]
      simp only [hsupported, length_cons, Nat.add_assoc, Nat.add_comm 1]

/-- The table gives the length of what is written. -/
theorem length_encodeVarint (hv : v < 2 ^ 64) : (encodeVarint v).length = varintLen v := by
  fun_induction encodeVarint v with
  | case1 v hlt => rw [varintLen, if_pos (by omega)]; rfl
  | case2 v hge ih =>
    rw [Nat.shiftRight_eq_div_pow] at ih ⊢
    rw [length_cons, ih (by omega), varintLen]
    repeat' split
    all_goals first | omega | simp (disch := omega) only [varintLen, if_neg, if_pos]

-- ==== against the reference

/-- From byte `k` on the two loops end alike exactly where they agree. The
byte they treat differently is the ninth that goes on, and the one after. -/
theorem decodeVarintLoop_eq_oracle_iff (value i pos : Nat) (hk : k ≤ 8) (bytes : Bytes) :
    (decodeVarintLoop value (7 * k) (pos + i) bytes).toOption
        = (decodeVarintOracleLoop value (7 * k) i bytes).map (Prod.map id (pos + ·))
      ↔ AgreesAt (8 - k) bytes := by
  induction bytes generalizing value k i with
  | nil => exact iff_of_true rfl fun _ _ h => absurd h (by simp)
  | cons b bytes ih =>
    have hshift : ¬ 7 * k = 63 := by omega
    simp only [decodeVarintLoop, decodeVarintOracleLoop, and_0x80_eq_zero, one_lt_and_0x7f,
      hshift, false_and, if_false]
    by_cases hb : b.toNat < 128
    · rw [if_pos hb, if_pos hb]
      refine iff_of_true rfl fun h => ?_
      have := h b (by simp)
      omega
    · rw [if_neg hb, if_neg hb]
      by_cases hlt : k < 8
      · rw [if_neg (by omega), if_neg (by omega), show 7 * k + 7 = 7 * (k + 1) from rfl,
          Nat.add_assoc, ih _ _ hlt]
        have hm : 8 - k = 8 - (k + 1) + 1 := by omega
        simp [AgreesAt, hm, Nat.not_lt.mp hb]
      · obtain rfl : k = 8 := by omega
        have hagrees : AgreesAt 0 (b :: bytes) ↔ ∀ t ∈ bytes.head?,
            (t.toNat ≤ 1 ↔ b.toNat % 128 ≤ 1 ∧ t.toNat < 128) := by
          simp [AgreesAt, Nat.not_lt.mp hb, head?_eq_getElem?]
        rw [Nat.sub_self, hagrees]
        cases bytes with
        | nil =>
          refine iff_of_true ?_ fun t h => absurd h (by simp)
          split <;> rfl
        | cons t bytes =>
          simp only [decodeVarintLoop, decodeVarintOracleLoop, and_0x80_eq_zero, one_lt_and_0x7f,
            head?_cons, Option.mem_some_iff, forall_eq', true_and]
          repeat' split
          all_goals simp [Except.toOption, Nat.add_assoc]
          all_goals omega

/-- The test for an empty slice changes nothing. -/
theorem decodeVarintOracle_eq (data : Bytes) :
    decodeVarintOracle data = decodeVarintOracleLoop 0 0 0 data := by
  cases data <;> rfl

/-- **The varint codec.** What is written has the length that is counted
and is read back exactly if it is supported, and the decoder does what the
reference does exactly where the two agree. -/
theorem decodeVarint_iff (v : UInt64) (suffix buf : Bytes) (pos : Nat) :
    ((decodeVarint (encodeVarint v.toNat ++ suffix) 0
          = .ok (v.toNat, (encodeVarint v.toNat).length)
        ∧ (encodeVarint v.toNat).length = varintLen v.toNat) ↔ Supported 0 v.toNat)
      ∧ ((decodeVarint buf pos).toOption
          = (decodeVarintOracle (buf.drop pos)).map (Prod.map id (pos + ·))
        ↔ AgreesAt 8 (buf.drop pos)) := by
  refine ⟨?_, ?_⟩
  · have hv := v.toNat_lt
    rw [decodeVarint, drop_zero,
      decodeVarintLoop_encodeVarint v.toNat suffix (k := 0) (by decide) (by omega)]
    simp [length_encodeVarint hv]
  · rw [decodeVarintOracle_eq]
    exact decodeVarintLoop_eq_oracle_iff 0 0 pos (Nat.zero_le 8) _

/-- The greatest value is written in ten bytes and not read back; a tenth
byte of two is read as zero. -/
theorem greatest_value_is_refused :
    decodeVarint (encodeVarint (2 ^ 64 - 1)) 0 = .error "varint: too many bytes"
      ∧ decodeVarintOracle (encodeVarint (2 ^ 64 - 1)) = some (2 ^ 64 - 1, 10)
      ∧ decodeVarint (replicate 9 0x80 ++ [2]) 0 = .ok (0, 10)
      ∧ decodeVarintOracle (replicate 9 0x80 ++ [2]) = none := by
  have hbytes : encodeVarint (2 ^ 64 - 1) = replicate 9 0xff ++ [1] := by
    simp [encodeVarint]
    rfl
  rw [hbytes]
  exact ⟨rfl, rfl, rfl, rfl⟩

-- ==== walking fields

/-- A field is its tag and its body. -/
theorem Field.encode_eq (f : Field) : f.encode = encodeTag f.tag.1 f.tag.2 ++ f.body := by
  cases f with
  | bytes => exact append_assoc ..
  | _ => rfl

theorem Field.length_encode_pos (f : Field) : 0 < f.encode.length := by
  rw [f.encode_eq, encodeTag, encodeVarint]
  split <;> exact Nat.succ_pos _

theorem Field.wireType_lt (f : Field) : f.tag.2 < 8 := by cases f <;> simp [Field.tag]

variable {front rest : Bytes} {number wireType : Nat}

/-- A supported value is read wherever it stands in a buffer. -/
theorem decodeVarint_front (hv : v < 2 ^ 64) (h : Supported 0 v) :
    decodeVarint (front ++ (encodeVarint v ++ rest)) front.length
      = .ok (v, front.length + (encodeVarint v).length) := by
  rw [decodeVarint, drop_left,
    decodeVarintLoop_encodeVarint v rest (k := 0) (by decide) (by omega), if_pos h]
  simp

/-- Lengths and tags are supported. -/
theorem supported_of_lt (hv : v < 2 ^ 63) : Supported 0 v := by
  left
  rw [Nat.shiftRight_eq_div_pow]
  omega

/-- The number of a tag as arithmetic. -/
theorem shiftLeft_or (hwire : wireType < 8) :
    number <<< 3 ||| wireType = number * 8 + wireType := by
  rw [← Nat.shiftLeft_add_eq_or_of_lt hwire, Nat.shiftLeft_eq]

/-- A tag is read back. -/
theorem decodeTag_front (hnumber : number < 2 ^ 29) (hwire : wireType < 8) :
    decodeTag (front ++ (encodeTag number wireType ++ rest)) front.length
      = .ok (number, wireType, front.length + (encodeTag number wireType).length) := by
  have htag : number <<< 3 ||| wireType = number * 8 + wireType := shiftLeft_or hwire
  rw [decodeTag, encodeTag, decodeVarint_front (by omega) (supported_of_lt (by omega)), htag]
  have hwireType : (number * 8 + wireType) &&& 7 = wireType := by
    rw [Nat.and_two_pow_sub_one_eq_mod _ 3]
    omega
  have hfield : (number * 8 + wireType) >>> 3 % 2 ^ 32 = number := by
    rw [Nat.shiftRight_eq_div_pow]
    omega
  show Except.ok (_, _, _) = _
  rw [hfield, hwireType]

theorem length_toLeBytes (n v : Nat) : (toLeBytes n v).length = n := by
  rw [toLeBytes, length_map, length_range]

/-- A body is skipped whole, by its wire type alone. -/
theorem skipField_body {f : Field} (hvalid : f.Valid)
    (hlen : (front ++ (f.body ++ rest)).length < 2 ^ 63) :
    skipField (front ++ (f.body ++ rest)) f.tag.2 front.length
      = .ok (front.length + f.body.length) := by
  simp only [length_append] at hlen
  cases f with
  | varint number value =>
    obtain ⟨-, -, hvalue, hsupported⟩ := hvalid
    rw [Field.tag, skipField, Field.body, decodeVarint_front hvalue hsupported]
    rfl
  | bytes number data =>
    simp only [Field.body, length_append] at hlen
    rw [Field.tag, skipField, Field.body, append_assoc,
      decodeVarint_front (by omega) (supported_of_lt (by omega))]
    show skipBytes _ _ _ _ = _
    rw [skipBytes, if_pos (by simp only [length_append]; omega), length_append, Nat.add_assoc]
  | fixed64 number value | fixed32 number value =>
    simp only [Field.body, length_toLeBytes] at hlen
    rw [Field.tag, skipField, Field.body, skipBytes,
      if_pos (by simp only [length_append, length_toLeBytes]; omega), length_toLeBytes]

/-- One step of the walk, anywhere in a buffer. -/
theorem visitField_front {f : Field} (hvalid : f.Valid)
    (hlen : (front ++ (f.encode ++ rest)).length < 2 ^ 63) :
    visitField (front ++ (f.encode ++ rest)) front.length
      = .ok (f.tag, front.length + f.encode.length) := by
  rw [f.encode_eq, append_assoc] at hlen ⊢
  rw [visitField, decodeTag_front hvalid.2.1 f.wireType_lt]
  rw [← append_assoc] at hlen ⊢
  show (skipField _ _ _).bind _ = _
  rw [← length_append, skipField_body hvalid hlen, length_append, length_append, Nat.add_assoc]
  rfl

/-- The walk over the fields behind `front`, field by field. -/
theorem walk_encode (front : Bytes) {fields : List Field} (hvalid : ∀ f ∈ fields, f.Valid)
    {steps : Nat} (hsteps : fields.length ≤ steps)
    (hlen : (front ++ fields.flatMap Field.encode).length < 2 ^ 63) :
    walk (front ++ fields.flatMap Field.encode) steps front.length
      = .ok (fields.map Field.tag, (front ++ fields.flatMap Field.encode).length) := by
  induction fields generalizing front steps with
  | nil => cases steps <;> simp [walk]
  | cons f fields ih =>
    obtain ⟨hf, hfields⟩ := forall_mem_cons.mp hvalid
    rw [flatMap_cons] at hlen ⊢
    cases steps with
    | zero => cases hsteps
    | succ steps =>
      have hpos := f.length_encode_pos
      rw [walk, if_neg (by simp only [length_append]; omega), visitField_front hf hlen]
      rw [← append_assoc] at hlen ⊢
      show (walk _ _ _).bind _ = _
      rw [← length_append, ih _ hfields (Nat.le_of_succ_le_succ hsteps) hlen]
      rfl

/-- A tag is as long for one wire type as for another. -/
theorem length_encodeTag (hnumber : number < 2 ^ 29) (hwire : wireType < 8) :
    (encodeTag number wireType).length = tagSize number := by
  rw [encodeTag, tagSize, shiftLeft_or hwire, shiftLeft_or (by decide),
    length_encodeVarint (by omega), varintLen]
  repeat' split
  all_goals first | omega | simp (disch := omega) only [varintLen, if_neg, if_pos]

/-- **Walking the wire.** Fields are visited in order, up to the end of
the buffer, and what is counted for a length prefix is what is written. -/
theorem walk_visits_fields (fields : List Field) (hvalid : ∀ f ∈ fields, f.Valid)
    (hlen : (fields.flatMap Field.encode).length < 2 ^ 63) :
    (∀ steps, fields.length ≤ steps → walk (fields.flatMap Field.encode) steps 0
        = .ok (fields.map Field.tag, (fields.flatMap Field.encode).length))
      ∧ (∀ value < 2 ^ 64, (encodeVarint value).length = varintLen value)
      ∧ ∀ number < 2 ^ 29, (∀ wireType < 8, (encodeTag number wireType).length = tagSize number)
        ∧ ∀ data : Bytes, data.length < 2 ^ 63 →
          (encodeBytesField number data).length = bytesFieldTotalSize number data.length
            ∧ (encodeBytesField number data).length = bytesFieldSize number data.length := by
  refine ⟨fun steps hsteps => walk_encode [] hvalid hsteps hlen,
    fun value hvalue => length_encodeVarint hvalue, fun number hnumber => ?_⟩
  refine ⟨fun wireType hwire => length_encodeTag hnumber hwire, fun data hdata => ?_⟩
  have hbytes : (encodeBytesField number data).length = bytesFieldTotalSize number data.length := by
    rw [encodeBytesField, length_append, length_append, length_encodeTag hnumber (by decide),
      length_encodeVarint (by omega)]
    rfl
  exact ⟨hbytes, hbytes⟩

/-- A payload that looks like a field of its own. -/
theorem nested_field_is_skipped :
    walk ([Field.bytes 1 [0x08, 0x01], .fixed32 2 7, .varint 3 300].flatMap Field.encode) 3 0
      = .ok ([(1, 2), (2, 5), (3, 0)], 12) := by
  have hlen : ([Field.bytes 1 [0x08, 0x01], .fixed32 2 7, .varint 3 300].flatMap
      Field.encode).length = 12 := by
    simp [Field.encode, encodeBytesField, encodeFixed32, encodeVarintField, encodeTag,
      encodeVarint, toLeBytes]
  have hvalid : ∀ f ∈ [Field.bytes 1 [0x08, 0x01], .fixed32 2 7, .varint 3 300], f.Valid := by
    simp [Field.Valid, Field.tag, Supported]
  rw [(walk_visits_fields _ hvalid (by omega)).1 3 (Nat.le_refl 3), hlen]
  rfl

end FastForward.Core.Wire
