/-
The NDJSON scanner (`json_scanner.rs`).

`scanStreaming` first runs the classifier over the 64-byte blocks of the
buffer, keeping five bitmasks for each block and the ranges of the
lines, and then scans each line with them. What it does to the builder
is the list of calls it makes. `resolve_field` is stable within a batch,
so a column index is represented by the field name it was resolved from.

The nesting depth is a `u32` in the source; the scanner contract bounds
a buffer to 4 GiB, so it cannot overflow and is a `Nat` here.
-/
import FastForward.Core.ScanConfig
import FastForward.Core.Structural

namespace FastForward.Core

open Lib Ascii

-- == builder calls

/-- The typed value of an append call. -/
inductive FieldValue
  | str (value : Bytes)
  | decodedStr (value : Bytes)
  | int (value : Bytes)
  | float (value : Bytes)
  | bool (value : Bool)
  | null
  deriving DecidableEq, Repr

inductive ScanCall
  | beginRow
  | endRow
  | appendLine (line : Bytes)
  | resolveField (key : Bytes)
  | append (key : Bytes) (value : FieldValue)
  deriving DecidableEq, Repr

-- == escape decoding

/-- The value of a hex digit. -/
def hexDigit (b : UInt8) : Option Nat :=
  if zero ≤ b ∧ b ≤ nine then some (b - zero).toNat
  else if lowerA ≤ b ∧ b ≤ lowerF then some ((b - lowerA).toNat + 10)
  else if upperA ≤ b ∧ b ≤ upperF then some ((b - upperA).toNat + 10)
  else none

/-- Parse 4 ASCII hex digits. -/
def parseHex4 (bytes : Bytes) : Option Nat :=
  match bytes with
  | a :: b :: c :: d :: _ => do
      let a ← hexDigit a
      let b ← hexDigit b
      let c ← hexDigit c
      let d ← hexDigit d
      pure (((a * 16 + b) * 16 + c) * 16 + d)
  | _ => none

def charFromU32 (n : Nat) : Option Char :=
  if n.isValidChar then some (Char.ofNat n) else none

/-- The low surrogate escape that follows the one at the front. -/
def lowSurrogate (input : Bytes) : Option Nat :=
  if 12 ≤ input.length ∧ byteAt input 6 = backslash
      ∧ byteAt input 7 = lowerU then
    match parseHex4 (slice input 8 12) with
    | some lo => if 0xDC00 ≤ lo ∧ lo ≤ 0xDFFF then some lo else none
    | none => none
  else none

/-- The escape at the front passed through, or the character it stands
for: what goes out, and how much of the input it took. -/
def passThroughOr (input : Bytes) (decoded : Option Char) (taken : Nat) : Bytes × Nat :=
  match decoded with
  | some c => (String.utf8EncodeChar c, taken)
  | none => (input.take 6, 6)

/-- Decode the `\uXXXX` escape at the front, possibly a surrogate pair. -/
def decodeUnicodeEscape (input : Bytes) : Bytes × Nat :=
  if input.length < 6 then ([backslash], 1)
  else
    match parseHex4 (slice input 2 6) with
    | none => ([backslash], 1)
    | some cp =>
      if 0xD800 ≤ cp ∧ cp ≤ 0xDBFF then
        passThroughOr input
          ((lowSurrogate input).bind fun lo =>
            charFromU32 (0x10000 + (cp - 0xD800) * 1024 + (lo - 0xDC00))) 12
      else if 0xDC00 ≤ cp ∧ cp ≤ 0xDFFF then (input.take 6, 6)
      else passThroughOr input (charFromU32 cp) 6

/-- What one turn of the decoding loop puts out and takes, at `b` with
`rest` behind it. -/
def decodeStep (b : UInt8) (rest : Bytes) : Bytes × Nat :=
  match rest with
  | [] => ([b], 1)
  | c :: _ =>
    if b ≠ backslash then ([b], 1)
    else if c = quote then ([quote], 2)
    else if c = backslash then ([backslash], 2)
    else if c = slash then ([slash], 2)
    else if c = lowerB then ([0x08], 2)
    else if c = lowerF then ([0x0c], 2)
    else if c = lowerN then ([newline], 2)
    else if c = lowerR then ([carriageReturn], 2)
    else if c = lowerT then ([tab], 2)
    else if c = lowerU then decodeUnicodeEscape (b :: rest)
    else ([backslash], 1)

/-- Decode JSON escape sequences; invalid ones pass through. A turn takes
at least one byte, the one split off here. -/
def decodeJsonEscapes : Bytes → Bytes
  | [] => []
  | b :: rest =>
    let turn := decodeStep b rest
    turn.1 ++ decodeJsonEscapes (rest.drop (turn.2 - 1))
termination_by input => input.length
decreasing_by
  simp only [List.length_drop, List.length_cons]
  omega

/-- A key or value text: decoded only if it has a backslash. -/
def decodeText (raw : Bytes) : Bytes :=
  if raw.contains backslash then decodeJsonEscapes raw else raw

-- == mask lookups

/-- The bitmasks kept for `scanLine`, one word per block. -/
structure StoredBitmasks where
  realQuotes : List U64
  openBrace : List U64
  closeBrace : List U64
  openBracket : List U64
  closeBracket : List U64

/-- Find the next unescaped quote at or after `pos`, below `stop`. -/
def nextQuote (blocks : StoredBitmasks) (stop pos : Nat) : Option Nat :=
  if pos < stop then
    let block := pos / 64
    match blocks.realQuotes[block]? with
    | some word =>
      let mask := word >>> (pos % 64)
      if mask ≠ 0#64 then
        let found := pos + trailingZeros mask
        if found < stop then some found else none
      else nextQuote blocks stop ((block + 1) * 64)
    | none => none
  else none
termination_by stop - pos

variable {blocks : StoredBitmasks}

theorem nextQuote_bounds {stop pos found : Nat}
    (h : nextQuote blocks stop pos = some found) : pos ≤ found ∧ found < stop := by
  fun_induction nextQuote blocks stop pos with
  | case1 pos _ _ _ _ mask _ _ hlt =>
    have hfound : pos + trailingZeros mask = found := Option.some.inj h
    omega
  | case2 => cases h
  | case3 pos _ _ _ _ _ _ ih =>
    have hnext := ih h
    omega
  | case4 | case5 => cases h

/-- Find the next position that is not whitespace. -/
def skipWhitespace (buf : Bytes) (stop pos : Nat) : Nat :=
  if pos < stop then
    let b := byteAt buf pos
    if b = space ∨ b = tab ∨ b = carriageReturn then
      skipWhitespace buf stop (pos + 1)
    else pos
  else pos
termination_by stop - pos

theorem le_skipWhitespace (buf : Bytes) (stop pos : Nat) : pos ≤ skipWhitespace buf stop pos := by
  fun_induction skipWhitespace buf stop pos with
  | case1 pos _ _ _ ih | case2 | case3 => omega

/-- Is the byte a JSON value delimiter? -/
def isJsonDelimiter (b : UInt8) : Bool :=
  b == comma || b == Ascii.closeBrace || b == Ascii.closeBracket
    || b == space || b == tab || b == carriageReturn
    || b == newline

/-- Skip a bare value, up to the first delimiter. -/
def skipBareValue (buf : Bytes) (stop pos : Nat) : Nat :=
  if pos < stop then
    if isJsonDelimiter (byteAt buf pos) then pos else skipBareValue buf stop (pos + 1)
  else pos
termination_by stop - pos

theorem le_skipBareValue (buf : Bytes) (stop pos : Nat) : pos ≤ skipBareValue buf stop pos := by
  fun_induction skipBareValue buf stop pos with
  | case1 | case2 pos _ _ ih | case3 => omega

-- == nested values

def maxTrackedDepth : Nat := 32

/-- The openers seen: the first 32 in a fixed array, the rest in a vector
made on demand. -/
structure OpenerStack where
  depth : Nat
  openers : List UInt8
  overflow : Option (List UInt8)

namespace OpenerStack

def empty : OpenerStack := ⟨0, List.replicate maxTrackedDepth 0, none⟩

def push (s : OpenerStack) (b : UInt8) : OpenerStack :=
  if s.depth < maxTrackedDepth then
    { s with depth := s.depth + 1, openers := s.openers.set s.depth b }
  else { s with depth := s.depth + 1, overflow := some (b :: s.overflow.getD []) }

/-- The last opener, which the depth is already known to count. -/
def pop (s : OpenerStack) : Option (UInt8 × OpenerStack) :=
  let depth := s.depth - 1
  if maxTrackedDepth < s.depth then
    match s.overflow with
    | some (opener :: rest) => some (opener, { s with depth, overflow := some rest })
    | _ => none
  else some (s.openers.getD depth 0, { s with depth })

end OpenerStack

def closerOf (opener : UInt8) : UInt8 :=
  if opener = Ascii.openBrace then Ascii.closeBrace else Ascii.closeBracket

/-- `(words[block] & (1 << bit)) != 0` at a position. -/
def testPos (words : List U64) (pos : Nat) : Bool :=
  (words.getD (pos / 64) 0#64) &&& (1#64 <<< (pos % 64)) != 0#64

/-- `((a[block] | b[block]) & (1 << bit)) != 0` at a position. -/
def testPos₂ (a b : List U64) (pos : Nat) : Bool :=
  ((a.getD (pos / 64) 0#64) ||| (b.getD (pos / 64) 0#64))
    &&& (1#64 <<< (pos % 64)) != 0#64

/-- Skip a nested object or array. -/
def skipNested (buf : Bytes) (blocks : StoredBitmasks) (stop : Nat)
    (stack : OpenerStack) (pos : Nat) : Nat :=
  if pos < stop then
    if blocks.realQuotes.length ≤ pos / 64 then pos
    else
      let b := byteAt buf pos
      if (b = Ascii.openBrace ∨ b = Ascii.openBracket)
          ∧ testPos₂ blocks.openBrace blocks.openBracket pos then
        skipNested buf blocks stop (stack.push b) (pos + 1)
      else if (b = Ascii.closeBrace ∨ b = Ascii.closeBracket)
          ∧ testPos₂ blocks.closeBrace blocks.closeBracket pos then
        if stack.depth = 0 then pos
        else
          match stack.pop with
          | none => stop
          | some (opener, stack) =>
            -- a mismatch stops short of the closer
            if b ≠ closerOf opener then pos
            else if stack.depth = 0 then pos + 1
            else skipNested buf blocks stop stack (pos + 1)
      else if b = quote ∧ testPos blocks.realQuotes pos then
        match _h : nextQuote blocks stop (pos + 1) with
        | some close => skipNested buf blocks stop stack (close + 1)
        | none => stop
      else skipNested buf blocks stop stack (pos + 1)
  else pos
termination_by stop - pos
decreasing_by
  all_goals first
    | omega
    | have := nextQuote_bounds ‹_›; omega

theorem le_skipNested (buf : Bytes) (blocks : StoredBitmasks) (stop : Nat)
    (stack : OpenerStack) (pos : Nat) : pos ≤ skipNested buf blocks stop stack pos := by
  fun_induction skipNested buf blocks stop stack pos with
  | case8 stack pos _ _ _ _ _ _ close hquote ih =>
    have hclose := nextQuote_bounds hquote
    omega
  | _ => omega

-- == values of members

variable {F : Type}

/-- Does the literal `word`, with a delimiter or the end behind it, stand
at `pos`? -/
def isLiteral (buf : Bytes) (stop pos : Nat) (word : Bytes) : Bool :=
  pos + word.length ≤ stop && slice buf pos (pos + word.length) == word
    && (stop ≤ pos + word.length || isJsonDelimiter (byteAt buf (pos + word.length)))

/-- The end of a number, and whether a `.`, `e` or `E` was seen. -/
def numberEnd (buf : Bytes) (stop pos : Nat) (isFloat : Bool) : Nat × Bool :=
  if pos < stop then
    let c := byteAt buf pos
    if c = dot ∨ c = lowerE ∨ c = upperE then
      numberEnd buf stop (pos + 1) true
    else if isJsonDelimiter c then (pos, isFloat)
    else numberEnd buf stop (pos + 1) isFloat
  else (pos, isFloat)
termination_by stop - pos

theorem le_numberEnd (buf : Bytes) (stop pos : Nat) (isFloat : Bool) :
    pos ≤ (numberEnd buf stop pos isFloat).1 := by
  fun_induction numberEnd buf stop pos isFloat with
  | case1 pos _ _ _ _ ih | case2 | case3 pos _ _ _ _ _ ih | case4 => omega

/-- The call for a string text. -/
def strValue (raw : Bytes) : FieldValue :=
  if raw.contains backslash then .decodedStr (decodeJsonEscapes raw) else .str raw

def numberValue (text : Bytes) (isFloat : Bool) : FieldValue :=
  if isFloat then .float text
  else if (parseIntFast text).isSome then .int text
  else .float text

/-- Resolve a wanted field and append to it. -/
def emit (wanted : Bool) (key : Bytes) (value : FieldValue) : List ScanCall :=
  if wanted then [.resolveField key, .append key value] else []

/-- The value at `pos`: the calls made for it and where it ends. None
means the loop over the members breaks. -/
def scanValue (buf : Bytes) (blocks : StoredBitmasks) (config : ScanConfig F)
    (stop : Nat) (key : Bytes) (pos : Nat) : Option (List ScanCall × Nat) :=
  let wanted := config.isWanted key
  let b := byteAt buf pos
  if b = quote then
    match nextQuote blocks stop (pos + 1) with
    | none => none
    | some valEnd =>
      some (emit wanted key (strValue (slice buf (pos + 1) valEnd)), valEnd + 1)
  else if b = Ascii.openBrace ∨ b = Ascii.openBracket then
    let nestedEnd := skipNested buf blocks stop .empty pos
    some (emit wanted key (.str (slice buf pos nestedEnd)), nestedEnd)
  else if b = lowerT then
    if isLiteral buf stop pos trueWord then
      some (emit wanted key (.bool true), pos + 4)
    else some ([], skipBareValue buf stop pos)
  else if b = lowerF then
    if isLiteral buf stop pos falseWord then
      some (emit wanted key (.bool false), pos + 5)
    else some ([], skipBareValue buf stop pos)
  else if b = lowerN then
    if isLiteral buf stop pos nullWord then
      some (emit wanted key .null, pos + 4)
    else some ([], skipBareValue buf stop pos)
  else
    let num := numberEnd buf stop pos false
    some (emit wanted key (numberValue (slice buf pos num.1) num.2), num.1)

/-- The comma between fields, if there is one. -/
def skipComma (buf : Bytes) (stop pos : Nat) : Nat :=
  let pos := skipWhitespace buf stop pos
  if pos < stop ∧ byteAt buf pos = comma then pos + 1 else pos

/-- The key at `pos`, and the position of the value behind its colon.
None means the loop over the members breaks. -/
def scanKey (buf : Bytes) (blocks : StoredBitmasks) (stop pos : Nat) :
    Option (Bytes × Nat) :=
  let pos := skipWhitespace buf stop pos
  if stop ≤ pos ∨ byteAt buf pos = Ascii.closeBrace then none
  else if byteAt buf pos ≠ quote then none
  else
    match nextQuote blocks stop (pos + 1) with
    | none => none
    | some keyEnd =>
      let key := decodeText (slice buf (pos + 1) keyEnd)
      let pos := skipWhitespace buf stop (keyEnd + 1)
      if stop ≤ pos ∨ byteAt buf pos ≠ colon then none
      else
        let pos := skipWhitespace buf stop (pos + 1)
        if stop ≤ pos then none else some (key, pos)

/-- One turn of the loop over the members. -/
def scanMember (buf : Bytes) (blocks : StoredBitmasks) (config : ScanConfig F)
    (stop pos : Nat) : Option (List ScanCall × Nat) :=
  match scanKey buf blocks stop pos with
  | none => none
  | some (key, pos) =>
    match scanValue buf blocks config stop key pos with
    | none => none
    | some (calls, pos) => some (calls, skipComma buf stop pos)

variable {stop pos pos' : Nat} {buf key : Bytes}

theorem scanKey_bounds (h : scanKey buf blocks stop pos = some (key, pos')) :
    pos < pos' ∧ pos' < stop := by
  rw [scanKey] at h
  have hws := le_skipWhitespace buf stop pos
  split at h
  · cases h
  · split at h
    · cases h
    · split at h
      next => cases h
      next keyEnd hquote =>
        have hkey := nextQuote_bounds hquote
        have hws' := le_skipWhitespace buf stop (keyEnd + 1)
        dsimp only at h
        split at h
        · cases h
        · split at h
          · cases h
          next hlt =>
            have hws'' := le_skipWhitespace buf stop (skipWhitespace buf stop (keyEnd + 1) + 1)
            cases h
            omega

variable {config : ScanConfig F} {calls : List ScanCall}

theorem le_scanValue
    (h : scanValue buf blocks config stop key pos = some (calls, pos')) : pos ≤ pos' := by
  have hnested := le_skipNested buf blocks stop .empty pos
  have hbare := le_skipBareValue buf stop pos
  have hnumber := le_numberEnd buf stop pos false
  rw [scanValue] at h
  split at h
  next =>
    split at h
    next => cases h
    next valEnd hquote =>
      have hval := nextQuote_bounds hquote
      cases h
      omega
  next =>
    split at h
    next => cases h; omega
    next =>
      -- literals and numbers never break the loop
      repeat' split at h
      all_goals cases h
      all_goals omega

theorem le_skipComma (buf : Bytes) (stop pos : Nat) : pos ≤ skipComma buf stop pos := by
  have hws := le_skipWhitespace buf stop pos
  rw [skipComma]
  split <;> omega

theorem scanMember_bounds
    (h : scanMember buf blocks config stop pos = some (calls, pos')) : pos < pos' ∧ pos < stop := by
  rw [scanMember] at h
  split at h
  next => cases h
  next key valueAt hkey =>
    split at h
    next => cases h
    next memberCalls valueEnd hvalue =>
      have hk := scanKey_bounds hkey
      have hv := le_scanValue hvalue
      have hc := le_skipComma buf stop valueEnd
      cases h
      omega

/-- The loop over the members. -/
def scanMembers (buf : Bytes) (blocks : StoredBitmasks) (config : ScanConfig F)
    (stop pos : Nat) : List ScanCall :=
  match _h : scanMember buf blocks config stop pos with
  | none => []
  | some (calls, pos') => calls ++ scanMembers buf blocks config stop pos'
termination_by stop - pos
decreasing_by
  have := scanMember_bounds ‹_›
  omega

/-- The position behind the opening brace of a line, if it has one. -/
def openLine (buf : Bytes) (start stop : Nat) : Option Nat :=
  let pos := skipWhitespace buf stop start
  if stop ≤ pos ∨ byteAt buf pos ≠ Ascii.openBrace then none else some (pos + 1)

def lineCapture (buf : Bytes) (config : ScanConfig F) (start stop : Nat) :
    List ScanCall :=
  if config.capturesLine then [.appendLine (slice buf start stop)] else []

/-- Scan a line without a predicate. -/
def scanLinePlain (buf : Bytes) (blocks : StoredBitmasks) (config : ScanConfig F)
    (start stop : Nat) : List ScanCall :=
  let fields :=
    match openLine buf start stop with
    | none => []
    | some pos => scanMembers buf blocks config stop pos
  .beginRow :: lineCapture buf config start stop ++ fields ++ [.endRow]

-- == scanning with predicate

/-- A value kept until the predicate is evaluated: ranges of the buffer
where the text stands there. -/
inductive DeferredValue
  | str (start stop : Nat)
  | decodedStr (bytes : Bytes)
  | nested (start stop : Nat)
  | int (start stop : Nat)
  | float (start stop : Nat)
  | bool (b : Bool)
  | null

/-- A wanted field, kept until the predicate is evaluated. -/
structure DeferredField where
  key : Bytes
  kind : DeferredValue

inductive PredicateFieldValue (F : Type)
  | str (bytes : Bytes)
  | int (n : Int)
  | float (x : F)
  | bool (b : Bool)
  | null

/-- The fields the predicate can look up, in the order found. -/
abbrev PredicateScratch (F : Type) := List (Bytes × PredicateFieldValue F)

/-- The value as the evaluator sees it. -/
def PredicateFieldValue.extracted : PredicateFieldValue F → ExtractedValue F
  | .str bytes => .str bytes
  | .int n => .int n
  | .float x => .float x
  | .bool b => .bool b
  | .null => .null

/-- The first field of that name, in any case. -/
def PredicateScratch.lookup (fields : PredicateScratch F) (name : Bytes) :
    ExtractedValue F :=
  match fields.find? fun p => eqIgnoreAsciiCase p.1 name with
  | some p => p.2.extracted
  | none => .missing

/-- What one value adds: columns resolved, fields deferred, fields for
the predicate. -/
structure PredicateStep (F : Type) where
  resolved : List Bytes := []
  deferred : List DeferredField := []
  fields : PredicateScratch F := []

/-- A wanted value is resolved and deferred, one the predicate mentions
is recorded. -/
def predicateStep (wanted isPredField : Bool) (key : Bytes) (kind : DeferredValue)
    (value : Option (PredicateFieldValue F)) : PredicateStep F :=
  { resolved := if wanted then [key] else []
    deferred := if wanted then [⟨key, kind⟩] else []
    fields := if isPredField then (value.map fun v => (key, v)).toList else [] }

variable [FloatOps F]

/-- The string value between `start` and `stop`, each of the four cases
of wanted and mentioned on its own. -/
def predicateStr (buf : Bytes) (wanted isPredField : Bool) (key : Bytes)
    (start stop : Nat) : PredicateStep F :=
  let raw := slice buf start stop
  if wanted then
    if raw.contains backslash then
      let decoded := decodeJsonEscapes raw
      { resolved := [key]
        deferred := [⟨key, .decodedStr decoded⟩]
        fields := if isPredField then [(key, .str decoded)] else [] }
    else
      { resolved := [key]
        deferred := [⟨key, .str start stop⟩]
        fields := if isPredField then [(key, .str raw)] else [] }
  else if isPredField then
    if raw.contains backslash then
      { fields := [(key, .str (decodeJsonEscapes raw))] }
    else { fields := [(key, .str raw)] }
  else {}

/-- A number text as the predicate sees it, if it parses. -/
def predicateNumber (text : Bytes) (isFloat : Bool) : Option (PredicateFieldValue F) :=
  if isFloat then (FloatOps.parse text).map .float
  else
    match parseIntFast text with
    | some n => some (.int n)
    | none => (FloatOps.parse text).map .float

def deferredNumber (buf : Bytes) (start stop : Nat) (isFloat : Bool) : DeferredValue :=
  if isFloat then .float start stop
  else if (parseIntFast (slice buf start stop)).isSome then .int start stop
  else .float start stop

def scanValueWithPredicate (buf : Bytes) (blocks : StoredBitmasks)
    (config : ScanConfig F) (predicate : ScanPredicate F) (stop : Nat) (key : Bytes)
    (pos : Nat) : Option (PredicateStep F × Nat) :=
  let wanted := config.isWanted key
  let isPredField := predicate.referencesField key
  let b := byteAt buf pos
  if b = quote then
    match nextQuote blocks stop (pos + 1) with
    | none => none
    | some valEnd =>
      some (predicateStr buf wanted isPredField key (pos + 1) valEnd, valEnd + 1)
  else if b = Ascii.openBrace ∨ b = Ascii.openBracket then
    let nestedEnd := skipNested buf blocks stop .empty pos
    some (predicateStep wanted isPredField key (.nested pos nestedEnd)
      (some (.str (slice buf pos nestedEnd))), nestedEnd)
  else if b = lowerT then
    if isLiteral buf stop pos trueWord then
      some (predicateStep wanted isPredField key (.bool true) (some (.bool true)), pos + 4)
    else some ({}, skipBareValue buf stop pos)
  else if b = lowerF then
    if isLiteral buf stop pos falseWord then
      some (predicateStep wanted isPredField key (.bool false) (some (.bool false)), pos + 5)
    else some ({}, skipBareValue buf stop pos)
  else if b = lowerN then
    if isLiteral buf stop pos nullWord then
      some (predicateStep wanted isPredField key .null (some .null), pos + 4)
    else some ({}, skipBareValue buf stop pos)
  else
    let num := numberEnd buf stop pos false
    some (predicateStep wanted isPredField key (deferredNumber buf pos num.1 num.2)
      (predicateNumber (slice buf pos num.1) num.2), num.1)

/-- One turn of the loop over the members, with predicate. -/
def scanMemberWithPredicate (buf : Bytes) (blocks : StoredBitmasks)
    (config : ScanConfig F) (predicate : ScanPredicate F) (stop pos : Nat) :
    Option (PredicateStep F × Nat) :=
  match scanKey buf blocks stop pos with
  | none => none
  | some (key, pos) =>
    match scanValueWithPredicate buf blocks config predicate stop key pos with
    | none => none
    | some (step, pos) => some (step, skipComma buf stop pos)

variable {predicate : ScanPredicate F} {step : PredicateStep F}

/-- A value ends where it ends without predicate. -/
theorem scanValueWithPredicate_end :
    (scanValueWithPredicate buf blocks config predicate stop key pos).map (·.2)
      = (scanValue buf blocks config stop key pos).map (·.2) := by
  simp only [scanValueWithPredicate, scanValue]
  grind

theorem scanMemberWithPredicate_end :
    (scanMemberWithPredicate buf blocks config predicate stop pos).map (·.2)
      = (scanMember buf blocks config stop pos).map (·.2) := by
  rw [scanMemberWithPredicate, scanMember]
  grind [scanValueWithPredicate_end]

theorem scanMemberWithPredicate_bounds
    (h : scanMemberWithPredicate buf blocks config predicate stop pos
      = some (step, pos')) : pos < pos' ∧ pos < stop := by
  have hend := congrArg (Option.map (·.2)) h
  rw [scanMemberWithPredicate_end] at hend
  obtain ⟨⟨calls, _⟩, hcalls, rfl⟩ := Option.map_eq_some_iff.mp hend
  exact scanMember_bounds hcalls

/-- The loop over the members, with predicate. -/
def scanMembersWithPredicate (buf : Bytes) (blocks : StoredBitmasks)
    (config : ScanConfig F) (predicate : ScanPredicate F) (stop pos : Nat) :
    PredicateStep F :=
  match _h : scanMemberWithPredicate buf blocks config predicate stop pos with
  | none => {}
  | some (step, pos') =>
    let rest := scanMembersWithPredicate buf blocks config predicate stop pos'
    { resolved := step.resolved ++ rest.resolved
      deferred := step.deferred ++ rest.deferred
      fields := step.fields ++ rest.fields }
termination_by stop - pos
decreasing_by
  have := scanMemberWithPredicate_bounds ‹_›
  omega

def DeferredField.call (buf : Bytes) (field : DeferredField) : ScanCall :=
  .append field.key <|
    match field.kind with
    | .str start stop => .str (slice buf start stop)
    | .decodedStr bytes => .decodedStr bytes
    | .nested start stop => .str (slice buf start stop)
    | .int start stop => .int (slice buf start stop)
    | .float start stop => .float (slice buf start stop)
    | .bool b => .bool b
    | .null => .null

/-- The captured line, when the predicate mentions its column. -/
def lineFields (buf : Bytes) (config : ScanConfig F) (predicate : ScanPredicate F)
    (start stop : Nat) : PredicateScratch F :=
  match config.lineFieldName with
  | some name =>
    if predicate.referencesField name then [(name, .str (slice buf start stop))] else []
  | none => []

/-- Scan a line with a predicate: a row that fails it makes no row calls,
though its wanted columns have been resolved. -/
def scanLineWithPredicate (buf : Bytes) (blocks : StoredBitmasks)
    (config : ScanConfig F) (predicate : ScanPredicate F) (start stop : Nat) :
    List ScanCall :=
  let line := lineFields buf config predicate start stop
  match openLine buf start stop with
  | none =>
    if predicate.evaluate (PredicateScratch.lookup line) then
      .beginRow :: lineCapture buf config start stop ++ [.endRow]
    else []
  | some pos =>
    let found := scanMembersWithPredicate buf blocks config predicate stop pos
    let resolves := found.resolved.map ScanCall.resolveField
    if predicate.evaluate (PredicateScratch.lookup (line ++ found.fields)) then
      resolves ++ .beginRow :: lineCapture buf config start stop
        ++ found.deferred.map (DeferredField.call buf) ++ [.endRow]
    else resolves

def scanLine (buf : Bytes) (blocks : StoredBitmasks) (config : ScanConfig F)
    (start stop : Nat) : List ScanCall :=
  match config.rowPredicate with
  | some predicate => scanLineWithPredicate buf blocks config predicate start stop
  | none => scanLinePlain buf blocks config start stop

-- == scan_streaming

/-- Block `k` of the buffer, the last one padded with spaces. -/
def blockAt (buf : Bytes) (k : Nat) : Bytes :=
  let remaining := buf.length - k * 64
  if 64 ≤ remaining then slice buf (k * 64) (k * 64 + 64)
  else buf.drop (k * 64) ++ List.replicate (64 - remaining) space

/-- The first pass after some blocks. -/
structure BlockPass where
  classifier : StreamingClassifier
  blocks : StoredBitmasks
  lineRanges : List (Nat × Nat)
  lineStart : Nat

def BlockPass.init : BlockPass :=
  { classifier := .new, blocks := ⟨[], [], [], [], []⟩, lineRanges := [], lineStart := 0 }

/-- A line that ends before `stop`: without a trailing CR, unless empty. -/
def lineRange (buf : Bytes) (lineStart stop : Nat) : List (Nat × Nat) :=
  let lineEnd :=
    if lineStart < stop ∧ byteAt buf (stop - 1) = carriageReturn then stop - 1
    else stop
  if lineStart < lineEnd then [(lineStart, lineEnd)] else []

/-- The loop over the newline bits of a block: the line ranges found and
the start of the next line. Every turn takes off a bit. -/
def splitLines (buf : Bytes) (offset : Nat) : Nat → U64 → Nat →
    List (Nat × Nat) × Nat
  | 0, _, lineStart => ([], lineStart)
  | fuel + 1, nl, lineStart =>
    if nl = 0#64 then ([], lineStart)
    else
      let absPos := offset + trailingZeros nl
      let rest := splitLines buf offset fuel (nl &&& (nl - 1#64)) (absPos + 1)
      (lineRange buf lineStart absPos ++ rest.1, rest.2)

def passBlock (buf : Bytes) (pass : BlockPass) (k : Nat) : BlockPass :=
  let offset := k * 64
  let blockLen := min (buf.length - offset) 64
  let raw := findStructuralChars (blockAt buf k)
  let r := pass.classifier.processBlock raw blockLen
  let lines := splitLines buf offset 64 r.2.newline pass.lineStart
  { classifier := r.1
    blocks :=
      { realQuotes := pass.blocks.realQuotes ++ [r.2.realQuotes]
        openBrace := pass.blocks.openBrace ++ [r.2.openBrace]
        closeBrace := pass.blocks.closeBrace ++ [r.2.closeBrace]
        openBracket := pass.blocks.openBracket ++ [r.2.openBracket]
        closeBracket := pass.blocks.closeBracket ++ [r.2.closeBracket] }
    lineRanges := pass.lineRanges ++ lines.1
    lineStart := lines.2 }

/-- `len.div_ceil(64)`. -/
def numBlocks (buf : Bytes) : Nat := (buf.length + 63) / 64

def firstPass (buf : Bytes) : BlockPass :=
  (List.range (numBlocks buf)).foldl (passBlock buf) .init

/-- All line ranges, an unterminated last line included. -/
def lineRanges (buf : Bytes) : List (Nat × Nat) :=
  let pass := firstPass buf
  pass.lineRanges
    ++ if pass.lineStart < buf.length then lineRange buf pass.lineStart buf.length else []

/-- Scan an NDJSON buffer: the calls made to the builder. -/
def scanStreaming (buf : Bytes) (config : ScanConfig F) : List ScanCall :=
  if buf = [] then []
  else
    (lineRanges buf).flatMap fun range =>
      scanLine buf (firstPass buf).blocks config range.1 range.2

end FastForward.Core
