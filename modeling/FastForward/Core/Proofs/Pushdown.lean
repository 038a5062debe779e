/-
Filtering during the scan against filtering afterwards.

The filtered scan evaluates the predicate on fields it records itself,
and records a number only if it parses. What it should use is a field's
first occurrence in the row, which is what the builder keeps of repeated
appends. The two lookups are compared on every line: they differ exactly
on a field that occurs first as a number text that does not parse and
later with a value.
-/
import FastForward.Core.Proofs.ScanCalls
import Mathlib.Data.List.Induction

namespace FastForward.Core

open List RawValue

-- == fields of a predicate

section Fields

variable {F : Type}

namespace ScanPredicate

mutual

/-- The names a predicate looks up. -/
def fields : ScanPredicate F → List Bytes
  | compare field _ _ => [field]
  | inList field _ _ => [field]
  | isNull field _ => [field]
  | startsWith field _ => [field]
  | contains field _ => [field]
  | and preds => listFields preds
  | or preds => listFields preds
  | not inner => fields inner

def listFields : List (ScanPredicate F) → List Bytes
  | [] => []
  | p :: rest => fields p ++ listFields rest

end

mutual

theorem referencesField_eq (key : Bytes) :
    ∀ p : ScanPredicate F, p.referencesField key = p.fields.any (eqIgnoreAsciiCase key)
  | compare field _ _ | inList field _ _ | isNull field _ | startsWith field _ | contains field _ =>
    by simp [referencesField, fields]
  | and preds | or preds => by rw [referencesField, fields, anyReferencesField_eq key preds]
  | not inner => by rw [referencesField, fields, referencesField_eq key inner]

theorem anyReferencesField_eq (key : Bytes) :
    ∀ preds : List (ScanPredicate F),
      anyReferencesField key preds = (listFields preds).any (eqIgnoreAsciiCase key)
  | [] => rfl
  | p :: rest => by
    rw [anyReferencesField, listFields, any_append, referencesField_eq key p,
      anyReferencesField_eq key rest]

end

theorem referencesField_of_mem {p : ScanPredicate F} {key name : Bytes}
    (h : eqIgnoreAsciiCase key name) (hname : name ∈ p.fields) :
    p.referencesField key := by
  rw [referencesField_eq, any_eq_true]
  exact ⟨name, hname, h⟩

end ScanPredicate

/-- A missing field counts as null. -/
def ExtractedValue.orNull : ExtractedValue F → ExtractedValue F
  | .missing => .null
  | v => v

namespace ScanPredicate

variable [FloatOps F]

/-- A test of one field that does not tell a missing one from null. -/
theorem evaluate_leaf (p : ScanPredicate F)
    (hp : (p.evaluate fun _ => .missing) = p.evaluate fun _ => .null) {v w : ExtractedValue F}
    (h : v.orNull = w.orNull) : (p.evaluate fun _ => v) = p.evaluate fun _ => w := by
  have hnull : ∀ v : ExtractedValue F, (p.evaluate fun _ => v) = p.evaluate fun _ => v.orNull
    | .missing => hp
    | .null | .str _ | .int _ | .float _ | .bool _ => rfl
  rw [hnull, h, ← hnull]

mutual

/-- The verdict depends only on the fields mentioned, and not on whether
one is null or missing. -/
theorem evaluate_congr {f g : Bytes → ExtractedValue F} :
    ∀ p : ScanPredicate F, (∀ name ∈ p.fields, (f name).orNull = (g name).orNull) →
      p.evaluate f = p.evaluate g
  | compare field op value, h => evaluate_leaf (compare field op value) rfl (h field mem_cons_self)
  | inList field values negated, h =>
    evaluate_leaf (inList field values negated) rfl (h field mem_cons_self)
  | isNull field negated, h => evaluate_leaf (isNull field negated) rfl (h field mem_cons_self)
  | startsWith field pre, h => evaluate_leaf (startsWith field pre) rfl (h field mem_cons_self)
  | contains field sub, h => evaluate_leaf (contains field sub) rfl (h field mem_cons_self)
  | and preds, h => by rw [evaluate, evaluate, evaluateAll_congr preds h]
  | or preds, h => by rw [evaluate, evaluate, evaluateAny_congr preds h]
  | not inner, h => by rw [evaluate, evaluate, evaluate_congr inner h]

theorem evaluateAll_congr {f g : Bytes → ExtractedValue F} :
    ∀ preds : List (ScanPredicate F),
      (∀ name ∈ listFields preds, (f name).orNull = (g name).orNull) →
        evaluateAll f preds = evaluateAll g preds
  | [], _ => rfl
  | p :: rest, h => by
    rw [evaluateAll, evaluateAll, evaluate_congr p fun name hn => h name (mem_append_left _ hn),
      evaluateAll_congr rest fun name hn => h name (mem_append_right _ hn)]

theorem evaluateAny_congr {f g : Bytes → ExtractedValue F} :
    ∀ preds : List (ScanPredicate F),
      (∀ name ∈ listFields preds, (f name).orNull = (g name).orNull) →
        evaluateAny f preds = evaluateAny g preds
  | [], _ => rfl
  | p :: rest, h => by
    rw [evaluateAny, evaluateAny, evaluate_congr p fun name hn => h name (mem_append_left _ hn),
      evaluateAny_congr rest fun name hn => h name (mem_append_right _ hn)]

end

-- == stripping a field

/-- A predicate is weaker than another in a row and does not mention the
field. -/
def WeakerWithout (row : Bytes → ExtractedValue F) (field : Bytes) (p q : ScanPredicate F) :
    Prop :=
  (p.evaluate row = true → q.evaluate row = true) ∧ q.referencesField field = false

variable {row : Bytes → ExtractedValue F} {field : Bytes}

/-- What is left of a conjunction, from what is left of its members. -/
theorem WeakerWithout.of_members {preds rest : List (ScanPredicate F)}
    (h : WeakerWithout row field (and preds) (and rest)) :
    ∀ q ∈ (match rest with | [] => none | [p] => some p | rest => some (and rest)),
      WeakerWithout row field (and preds) q := by
  intro q hq
  match rest with
  | [] => cases hq
  | [p] =>
    cases hq
    simpa [WeakerWithout, evaluate, evaluateAll, referencesField, anyReferencesField] using h
  | _ :: _ :: _ =>
    cases hq
    exact h

mutual

/-- Induction over the tree: only conjunctions are taken apart. -/
theorem stripField_weaker (p : ScanPredicate F) :
    ∀ q ∈ p.stripField field, WeakerWithout row field p q := by
  intro q hq
  rw [stripField.eq_def] at hq
  by_cases href : p.referencesField field
  · rw [href] at hq
    cases p with
    | and preds => exact (stripEach_weaker preds).of_members q hq
    | _ => cases hq
  · rw [Bool.not_eq_true] at href
    rw [href] at hq
    cases hq
    exact ⟨id, href⟩

theorem stripEach_weaker (preds : List (ScanPredicate F)) :
    WeakerWithout row field (and preds) (and (stripEach field preds)) := by
  cases preds with
  | nil => exact ⟨id, rfl⟩
  | cons p rest =>
    have hp := stripField_weaker p
    have hrest := stripEach_weaker rest
    simp only [WeakerWithout, evaluate, evaluateAll, referencesField, Bool.and_eq_true,
      stripEach] at hp hrest ⊢
    cases hstrip : stripField field p with
    | none => exact ⟨fun h => hrest.1 h.2, hrest.2⟩
    | some q =>
      obtain ⟨hq, hfree⟩ := hp q hstrip
      simp only [evaluateAll, anyReferencesField, Bool.and_eq_true, hfree, hrest.2]
      exact ⟨fun h => ⟨hq h.1, hrest.1 h.2⟩, rfl⟩

end

/-- **A stripped predicate** holds wherever the predicate does, and does
not mention the field in any case. -/
theorem stripField_weakens (p : ScanPredicate F) (field : Bytes) (row : Bytes → ExtractedValue F) :
    ∀ q ∈ p.stripField field, (p.evaluate row = true → q.evaluate row = true)
      ∧ q.referencesField field = false :=
  stripField_weaker p

/-- `a = 1 AND NOT (B IS NULL)`, without `b`. -/
theorem stripField_weakens_conjunction :
    let a : ScanPredicate Int := compare [0x61] .eq (.int 1)
    let p := and [a, not (isNull [0x42] false)]
    p.stripField [0x62] = some a ∧ a.evaluate (fun _ => .int 1) = true := by
  intro a p
  exact ⟨rfl, (stripField_weakens p [0x62] _ a rfl).1 rfl⟩

end ScanPredicate

end Fields

-- == the two lookups

section Lookups

variable {F : Type} [FloatOps F]

/-- The value as the evaluator sees it; a number that does not parse is
null. -/
def RawValue.extracted (value : RawValue) : ExtractedValue F :=
  (value.predicateValue.map PredicateFieldValue.extracted).getD .null

/-- The value as the builder's call carries it. -/
def FieldValue.extracted : FieldValue → ExtractedValue F
  | .str value => .str value
  | .decodedStr value => .str value
  | .int text => ((parseIntFast text).map .int).getD .null
  | .float text => ((FloatOps.parse text).map .float).getD .null
  | .bool b => .bool b
  | .null => .null

theorem RawValue.extracted_fieldValue {value : RawValue} {v : FieldValue}
    (h : value.fieldValue = some v) : (v.extracted : ExtractedValue F) = value.extracted := by
  cases value with
  | str raw =>
    cases h
    rw [extracted, strValue, predicateValue, decodeText]
    split <;> rfl
  | nested text => cases h; rfl
  | number text =>
    cases h
    rw [extracted, predicateValue, numberValue, predicateNumber]
    cases text.any isFloatMark with
    | true =>
      simp only [if_true, Option.map_map]
      rfl
    | false =>
      cases hint : parseIntFast text with
      | none =>
        simp only [Bool.false_eq_true, if_false,
          Option.map_map]
        rfl
      | some n => simp [FieldValue.extracted, hint, PredicateFieldValue.extracted]
  | bool b | null => cases h; rfl
  | malformed => cases h

variable (config : ScanConfig F)

/-- Is this the column of the captured line? -/
def isLineField (name : Bytes) : Bool :=
  config.lineFieldName.any (eqIgnoreAsciiCase · name)

/-- The member makes a field of that name, in any case. -/
def occursAs (name : Bytes) (m : Member) : Bool :=
  eqIgnoreAsciiCase m.key name && m.value.fieldValue.isSome

/-- The member has a value the evaluator can use. -/
def readableAs (F : Type) [FloatOps F] (name : Bytes) (m : Member) : Bool :=
  eqIgnoreAsciiCase m.key name
    && (m.value.predicateValue : Option (PredicateFieldValue F)).isSome

/-- The first occurrence of a field in a line. -/
def firstValue (line : Bytes) (members : List Member) (name : Bytes) : ExtractedValue F :=
  if isLineField config name then .str line
  else ((members.find? (occursAs name)).map fun m => m.value.extracted).getD .missing

/-- The first occurrence of a field the evaluator can use. -/
def readableValue (line : Bytes) (members : List Member) (name : Bytes) :
    ExtractedValue F :=
  if isLineField config name then .str line
  else ((members.find? (readableAs F name)).map fun m => m.value.extracted).getD .missing

/-- The field occurs first as a number that does not parse, and later with
a value. -/
def shadowed (members : List Member) (name : Bytes) : Bool :=
  !isLineField config name
    && (members.find? (occursAs name)).any
      (fun m => (m.value.predicateValue : Option (PredicateFieldValue F)).isNone)
    && members.any (readableAs F name)

variable {name : Bytes}

theorem occursAs_of_readableAs {m : Member}
    (h : readableAs F name m) : occursAs name m := by
  rw [readableAs, Bool.and_eq_true] at h
  rw [occursAs, Bool.and_eq_true]
  refine ⟨h.1, ?_⟩
  cases hv : m.value with
  | malformed =>
    rw [hv] at h
    exact absurd h.2 Bool.false_ne_true
  | _ => rfl

/-- The first element with a property is also the first with a stronger
one, if it has that. -/
theorem find?_of_imp {α : Type} {p q : α → Bool} (hpq : ∀ x, q x → p x)
    {l : List α} {a : α} (hfind : l.find? p = some a) (ha : q a) : l.find? q = some a := by
  induction l with
  | nil => cases hfind
  | cons x l ih =>
    cases hp : p x with
    | true =>
      rw [find?_cons_of_pos hp] at hfind
      cases hfind
      exact find?_cons_of_pos ha
    | false =>
      have hq : q x = false := Bool.eq_false_iff.mpr fun hq => by
        rw [hpq x hq] at hp
        cases hp
      rw [find?_cons_of_neg (Bool.eq_false_iff.mp hp)] at hfind
      rw [find?_cons_of_neg (Bool.eq_false_iff.mp hq)]
      exact ih hfind

/-- Unless the field is shadowed both lookups agree. -/
theorem readableValue_eq_firstValue {members : List Member}
    (h : shadowed config members name = false) (line : Bytes) :
    (readableValue config line members name).orNull
      = (firstValue config line members name).orNull := by
  have himp : ∀ m, readableAs F name m → occursAs name m :=
    fun m => occursAs_of_readableAs
  rw [readableValue, firstValue]
  cases hline : isLineField config name with
  | true => rfl
  | false =>
    cases hfirst : members.find? (occursAs name) with
    | none =>
      have hnone : members.find? (readableAs F name) = none := by
        rw [find?_eq_none] at hfirst ⊢
        exact fun m hm hread => hfirst m hm (himp m hread)
      rw [hnone]
    | some m =>
      have hm : eqIgnoreAsciiCase m.key name = true := by
        have hoccurs := find?_some hfirst
        rw [occursAs, Bool.and_eq_true] at hoccurs
        exact hoccurs.1
      cases hvalue : (m.value.predicateValue : Option (PredicateFieldValue F)) with
      | some v =>
        have hread : readableAs F name m := by
          rw [readableAs, hm, hvalue]
          rfl
        rw [find?_of_imp himp hfirst hread]
      | none =>
        have hall : members.any (readableAs F name) = false := by
          simpa [shadowed, hline, hfirst, hvalue] using h
        have hnone : members.find? (readableAs F name) = none := by
          rw [find?_eq_none]
          rw [any_eq_false] at hall
          exact hall
        rw [hnone, Option.map_some, extracted, hvalue]
        rfl

variable {predicate : ScanPredicate F}

theorem find?_memberFields (members : List Member) (hname : name ∈ predicate.fields) :
    (memberFields predicate members).find? (fun p => eqIgnoreAsciiCase p.1 name)
      = (members.find? (readableAs F name)).bind fun m =>
          m.value.predicateValue.map fun v => (m.key, v) := by
  have href : ∀ m : Member, eqIgnoreAsciiCase m.key name = true →
      predicate.referencesField m.key = true :=
    fun m h => ScanPredicate.referencesField_of_mem h hname
  have hany : (fun m : Member => Option.any (fun p => eqIgnoreAsciiCase p.1 name)
        (if predicate.referencesField m.key then
          (m.value.predicateValue : Option (PredicateFieldValue F)).map fun v => (m.key, v)
        else none))
      = readableAs F name := by
    funext m
    rw [readableAs]
    cases hm : eqIgnoreAsciiCase m.key name with
    | true =>
      rw [if_pos (href m hm)]
      cases (m.value.predicateValue : Option (PredicateFieldValue F)) <;> simp [hm]
    | false =>
      split
      · cases (m.value.predicateValue : Option (PredicateFieldValue F)) <;> simp [hm]
      · rfl
  rw [memberFields, find?_filterMap, hany]
  refine Option.bind_congr fun m hm => ?_
  have hread := find?_some hm
  rw [readableAs, Bool.and_eq_true] at hread
  rw [if_pos (href m hread.1)]

omit [FloatOps F] in
theorem find?_lineField (line : Bytes) (hname : name ∈ predicate.fields) :
    ((lineField config predicate line).find? fun p => eqIgnoreAsciiCase p.1 name).map
        (fun p => p.2.extracted)
      = if isLineField config name then some (.str line) else none := by
  rw [lineField, isLineField]
  cases config.lineFieldName with
  | none => rfl
  | some column =>
    simp only [Option.any_some]
    by_cases hcolumn : eqIgnoreAsciiCase column name = true
    · rw [if_pos (ScanPredicate.referencesField_of_mem hcolumn hname)]
      simp [hcolumn, PredicateFieldValue.extracted]
    · rw [if_neg hcolumn]
      split <;> simp [hcolumn]

/-- The scan looks up the first occurrence it can use. -/
theorem lookup_predicateFields (line : Bytes)
    (members : List Member) (hname : name ∈ predicate.fields) :
    PredicateScratch.lookup (predicateFields config predicate line members) name
      = readableValue config line members name := by
  have hlookup : ∀ fields : PredicateScratch F, PredicateScratch.lookup fields name
      = ((fields.find? fun p => eqIgnoreAsciiCase p.1 name).map
          fun p => p.2.extracted).getD .missing := by
    intro fields
    rw [PredicateScratch.lookup]
    split <;> rename_i h <;> rw [h] <;> rfl
  have hmembers := find?_memberFields members hname
  have hline := find?_lineField config line hname
  rw [hlookup, predicateFields, find?_append, Option.map_or, hline, hmembers, readableValue]
  cases isLineField config name with
  | true => rfl
  | false =>
    simp only [Bool.false_eq_true, if_false, Option.none_or]
    cases hfind : members.find? (readableAs F name) with
    | none => rfl
    | some m =>
      have hread := find?_some hfind
      rw [readableAs, Bool.and_eq_true, Option.isSome_iff_exists] at hread
      obtain ⟨v, hv⟩ := hread.2
      simp only [Option.bind_some, Option.map_some, Option.getD_some, extracted, hv]

/-- Does the predicate hold of the fields' first occurrences? -/
def holdsOn (predicate : ScanPredicate F) (line : Bytes) (members : List Member) : Bool :=
  predicate.evaluate (firstValue config line members)

theorem keepsRow_eq (predicate : ScanPredicate F) (line : Bytes) (members : List Member) :
    keepsRow config predicate line members
      = predicate.evaluate (readableValue config line members) := by
  refine predicate.evaluate_congr fun name hname => ?_
  rw [lookup_predicateFields config line members hname]

/-- Where no field of the predicate is shadowed the scan decides by first
occurrences. -/
theorem keepsRow_eq_holdsOn {members : List Member}
    (h : ∀ name ∈ predicate.fields, shadowed config members name = false) (line : Bytes) :
    keepsRow config predicate line members = holdsOn config predicate line members := by
  rw [keepsRow_eq]
  exact predicate.evaluate_congr fun name hname =>
    readableValue_eq_firstValue config (h name hname) line

end Lookups

-- == rows

/-- The append calls of each row, among some calls. -/
def rowsFrom (row : List ScanCall) : List ScanCall → List (List ScanCall)
  | [] => []
  | .beginRow :: rest => rowsFrom [] rest
  | .endRow :: rest => row :: rowsFrom [] rest
  | .resolveField _ :: rest => rowsFrom row rest
  | .appendLine line :: rest => rowsFrom (row ++ [.appendLine line]) rest
  | .append key value :: rest => rowsFrom (row ++ [.append key value]) rest

def rowsOf (calls : List ScanCall) : List (List ScanCall) := rowsFrom [] calls

section Rows

variable {F : Type} (config : ScanConfig F)

def rowAppends (line : Bytes) (members : List Member) : List ScanCall :=
  captureCalls config line ++ (wantedFields config members).map fun f => .append f.1 f.2

variable (row rest : List ScanCall)

theorem rowsFrom_capture (line : Bytes) :
    rowsFrom row (captureCalls config line ++ rest)
      = rowsFrom (row ++ captureCalls config line) rest := by
  rw [captureCalls]
  split
  · rfl
  · rw [append_nil]
    rfl

variable (fields : List (Bytes × FieldValue))

theorem rowsFrom_appends :
    rowsFrom row (fields.map (fun f => .append f.1 f.2) ++ rest)
      = rowsFrom (row ++ fields.map fun f => .append f.1 f.2) rest := by
  induction fields generalizing row with
  | nil => rw [map_nil, append_nil, nil_append]
  | cons f fields ih =>
    rw [map_cons, cons_append, rowsFrom, ih, append_assoc]
    rfl

theorem rowsFrom_fieldCalls :
    rowsFrom row (fieldCalls fields ++ rest)
      = rowsFrom (row ++ fields.map fun f => .append f.1 f.2) rest := by
  induction fields generalizing row with
  | nil => rw [map_nil, append_nil]; rfl
  | cons f fields ih =>
    show rowsFrom (row ++ [.append f.1 f.2]) (fieldCalls fields ++ rest) = _
    rw [ih, append_assoc]
    rfl

theorem rowsFrom_resolves :
    rowsFrom row (fields.map (fun f => .resolveField f.1) ++ rest) = rowsFrom row rest := by
  induction fields with
  | nil => rfl
  | cons f fields ih => rw [map_cons, cons_append, rowsFrom, ih]

/-- A line without predicate makes its row. -/
theorem rowsOf_plainCalls (line : Bytes) (members : List Member) (rest : List ScanCall) :
    rowsOf (plainCalls config line members ++ rest)
      = rowAppends config line members :: rowsOf rest := by
  simp only [plainCalls, cons_append, append_assoc, nil_append]
  rw [rowsOf, rowsFrom, rowsFrom_capture]
  exact rowsFrom_fieldCalls _ _ _

/-- A line with predicate makes its row or none. -/
theorem rowsOf_filteredCalls [FloatOps F] (predicate : ScanPredicate F) (line : Bytes)
    (members : List Member) (rest : List ScanCall) :
    rowsOf (filteredCalls config predicate line members ++ rest)
      = if keepsRow config predicate line members then
          rowAppends config line members :: rowsOf rest
        else rowsOf rest := by
  rw [filteredCalls, append_assoc, rowsOf, rowsFrom_resolves]
  split
  · simp only [cons_append, append_assoc, nil_append]
    rw [rowsFrom, rowsFrom_capture, rowsFrom_appends]
    rfl
  · rfl

end Rows

-- == records

/-- What is read of a line entered in state `s`; nothing of an empty one. -/
def recordOf (s : QuoteState) (line : Bytes) : List (Bytes × List Member) :=
  if stripCr line = [] then []
  else [(stripCr line, readLine (classify s (stripCr line)))]

/-- What is read of some lines. -/
def records : QuoteState → List Bytes → List (Bytes × List Member)
  | _, [] => []
  | s, line :: rest => recordOf s line ++ records (s.run (line ++ [Ascii.newline])) rest

theorem records_append (s : QuoteState) (front rest : List Bytes) :
    ∃ s', records s (front ++ rest) = records s front ++ records s' rest := by
  induction front generalizing s with
  | nil => exact ⟨s, rfl⟩
  | cons line front ih =>
    obtain ⟨s', hs⟩ := ih (s.run (line ++ [Ascii.newline]))
    exact ⟨s', by rw [cons_append, records, records, hs, append_assoc]⟩

section Records

variable {F : Type} [FloatOps F] (config : ScanConfig F)

theorem readLines_records (s : QuoteState) (lines : List Bytes) :
    readLines config s lines = (records s lines).flatMap fun r => lineCalls config r.1 r.2 := by
  induction lines generalizing s with
  | nil => rfl
  | cons line rest ih =>
    rw [readLines, records, ih, readLineCalls, recordOf]
    split <;> simp

theorem rowsOf_plain (h : config.rowPredicate = none) (rs : List (Bytes × List Member)) :
    rowsOf (rs.flatMap fun r => lineCalls config r.1 r.2)
      = rs.map fun r => rowAppends config r.1 r.2 := by
  induction rs with
  | nil => rfl
  | cons r rs ih =>
    have hcalls : lineCalls config r.1 r.2 = plainCalls config r.1 r.2 := by
      rw [lineCalls, h]
    rw [flatMap_cons, hcalls, rowsOf_plainCalls, ih, map_cons]

theorem rowsOf_filtered {predicate : ScanPredicate F}
    (h : config.rowPredicate = some predicate) (rs : List (Bytes × List Member)) :
    rowsOf (rs.flatMap fun r => lineCalls config r.1 r.2)
      = (rs.filter fun r => keepsRow config predicate r.1 r.2).map fun r =>
          rowAppends config r.1 r.2 := by
  induction rs with
  | nil => rfl
  | cons r rs ih =>
    have hcalls : lineCalls config r.1 r.2 = filteredCalls config predicate r.1 r.2 := by
      rw [lineCalls, h]
    rw [flatMap_cons, hcalls, rowsOf_filteredCalls, ih, filter_cons]
    split <;> rfl

end Records

-- == agreement

section Agreement

variable {F : Type} [FloatOps F]

/-- The name and the value of an append call. -/
def callKey (config : ScanConfig F) : ScanCall → Option Bytes
  | .appendLine _ => config.lineFieldName
  | .append key _ => some key
  | _ => none

def callValue : ScanCall → ExtractedValue F
  | .appendLine line => .str line
  | .append _ value => value.extracted
  | _ => .missing

/-- The first value of a field in a row, which is the one a builder keeps. -/
def rowValue (config : ScanConfig F) (row : List ScanCall) (name : Bytes) :
    ExtractedValue F :=
  ((row.find? fun call => (callKey config call).any (eqIgnoreAsciiCase · name)).map
    callValue).getD .missing

/-- The same scan without predicate. -/
def ScanConfig.plain (config : ScanConfig F) : ScanConfig F := { config with rowPredicate := none }

/-- The same scan without predicate, of all fields. -/
def ScanConfig.full (config : ScanConfig F) : ScanConfig F :=
  { config with rowPredicate := none, extractAll := true }

def ScanConfig.pushed (config : ScanConfig F) (predicate : ScanPredicate F) : ScanConfig F :=
  { config with rowPredicate := some predicate }

/-- The rows of the filtered scan are those rows of the plain scan on
whose first values the predicate holds. All fields of a row, wanted or
not, are those of the scan that extracts everything. -/
def PushdownAgrees (config : ScanConfig F) (predicate : ScanPredicate F) (buf : Bytes) :
    Prop :=
  let plain := rowsOf (scanStreaming buf config.plain)
  let full := rowsOf (scanStreaming buf config.full)
  rowsOf (scanStreaming buf (config.pushed predicate))
    = ((plain.zip full).filter fun r => predicate.evaluate (rowValue config r.2)).map Prod.fst

variable (config : ScanConfig F)

theorem find?_capture (line name : Bytes) :
    ((captureCalls config.full line).find? fun call =>
        (callKey config call).any (eqIgnoreAsciiCase · name)).map callValue
      = if isLineField config name then some (.str line : ExtractedValue F) else none := by
  rw [isLineField]
  show Option.map _ (find? _ (if config.lineFieldName.isSome then _ else _)) = _
  cases hcolumn : config.lineFieldName with
  | none => rfl
  | some column =>
    simp only [Option.isSome_some, if_true, find?_singleton, callKey, hcolumn]
    split <;> rfl

omit [FloatOps F] in
theorem find?_appends (members : List Member) (name : Bytes) :
    ((wantedFields config.full members).map fun f => ScanCall.append f.1 f.2).find? (fun call =>
        (callKey config call).any (eqIgnoreAsciiCase · name))
      = (members.find? (occursAs name)).bind fun m =>
          m.value.fieldValue.map fun v => .append m.key v := by
  have hwanted : wantedFields config.full members
      = members.filterMap fun m => m.value.fieldValue.map fun v => (m.key, v) := by
    rfl
  have hany : (fun m : Member => Option.any ((fun call =>
        (callKey config call).any (eqIgnoreAsciiCase · name))
          ∘ fun f : Bytes × FieldValue => .append f.1 f.2)
        (m.value.fieldValue.map fun v => (m.key, v))) = occursAs name := by
    funext m
    rw [occursAs]
    cases m.value.fieldValue <;> simp [callKey]
  rw [find?_map, hwanted, find?_filterMap, hany, Option.map_bind]
  simp only [Function.comp_def, Option.map_map]

/-- The first value in the row of all fields is the first occurrence in
the line. -/
theorem rowValue_full (line : Bytes) (members : List Member) (name : Bytes) :
    rowValue config (rowAppends config.full line members) name
      = firstValue config line members name := by
  rw [rowValue, rowAppends, find?_append, Option.map_or, find?_capture, find?_appends, firstValue]
  by_cases hline : isLineField config name
  · rw [if_pos hline, if_pos hline]
    rfl
  · rw [if_neg hline, if_neg hline]
    cases hfind : members.find? (occursAs name) with
    | none => rfl
    | some m =>
      have hoccurs := find?_some hfind
      rw [occursAs, Bool.and_eq_true, Option.isSome_iff_exists] at hoccurs
      obtain ⟨v, hv⟩ := hoccurs.2
      simp only [Option.bind_some, hv]
      exact extracted_fieldValue hv

/-- Agreement on some lines, in terms of what is read of them. -/
theorem pushdownAgrees_iff_records (predicate : ScanPredicate F) {lines : List Bytes}
    (hlines : ∀ line ∈ lines, Ascii.newline ∉ line) :
    PushdownAgrees config predicate (joinLines lines)
      ↔ ((records .start lines).filter fun r => keepsRow config predicate r.1 r.2).map
            (fun r => rowAppends config r.1 r.2)
          = ((records .start lines).filter fun r => holdsOn config predicate r.1 r.2).map
            (fun r => rowAppends config r.1 r.2) := by
  have hvalues : ∀ line members, rowValue config (rowAppends config.full line members)
      = firstValue config line members :=
    fun line members => funext (rowValue_full config line members)
  rw [PushdownAgrees]
  simp only [scanStreaming_joinLines _ hlines, readLines_records]
  rw [rowsOf_plain config.plain rfl, rowsOf_plain config.full rfl,
    rowsOf_filtered (config.pushed predicate) rfl, zip_map', filter_map,
    map_map]
  simp only [Function.comp_def, hvalues]
  rfl

/-- One more record is treated alike exactly when its verdicts agree. -/
theorem filter_concat_iff {α β : Type} {p q : α → Bool} {f : α → β} {rs : List α} {r : α}
    (h : (rs.filter p).map f = (rs.filter q).map f) :
    ((rs ++ [r]).filter p).map f = ((rs ++ [r]).filter q).map f ↔ p r = q r := by
  rw [filter_append, filter_append, map_append, h, filter_cons, filter_cons]
  cases p r <;> cases q r <;> simp

theorem recordOf_cases (s : QuoteState) (line : Bytes) :
    recordOf s line = [] ∨ ∃ r, recordOf s line = [r] := by
  rw [recordOf]
  split
  · exact .inl rfl
  · exact .inr ⟨_, rfl⟩

/-- Rows agree on all prefixes of some lines exactly when all verdicts do. -/
theorem filter_records_iff {β : Type} (p q : Bytes × List Member → Bool)
    (f : Bytes × List Member → β) (lines : List Bytes) :
    (∀ front, front <+: lines →
        ((records .start front).filter p).map f = ((records .start front).filter q).map f)
      ↔ ∀ r ∈ records .start lines, p r = q r := by
  constructor
  · intro h
    induction lines using reverseRecOn with
    | nil => exact fun r hr => absurd hr not_mem_nil
    | append_singleton front line ih =>
      intro r hr
      have hfront := ih fun front' hpre => h front' (hpre.trans (prefix_append _ _))
      obtain ⟨s, hrecords⟩ := records_append .start front [line]
      have hlast := h _ (prefix_refl _)
      rw [hrecords, records, records, append_nil] at hr hlast
      rcases recordOf_cases s line with hnone | ⟨r', hsome⟩
      · rw [hnone, append_nil] at hr
        exact hfront r hr
      · rw [hsome] at hr hlast
        have hverdict := (filter_concat_iff (h front (prefix_append _ _))).mp hlast
        rcases mem_append.mp hr with hr | hr
        · exact hfront r hr
        · rw [mem_singleton.mp hr]
          exact hverdict
  · intro h front hpre
    obtain ⟨rest, rfl⟩ := hpre
    obtain ⟨s, hrecords⟩ := records_append .start front rest
    refine congrArg (map f) (filter_congr fun r hr => h r ?_)
    rw [hrecords]
    exact mem_append_left _ hr

/-- The filtered scan agrees with the plain one, on a buffer and on the
buffers of its first lines, exactly when on every line with a shadowed
field the predicate decides alike for null and for the later value. -/
theorem pushdown_agrees_iff (predicate : ScanPredicate F) (buf : Bytes) :
    (∀ front, front <+: linesOf buf → PushdownAgrees config predicate (joinLines front))
      ↔ ∀ r ∈ records .start (linesOf buf),
          (∃ name ∈ predicate.fields, shadowed config r.2 name = true) →
            predicate.evaluate (readableValue config r.1 r.2)
              = predicate.evaluate (firstValue config r.1 r.2) := by
  refine .trans (b := ∀ r ∈ records .start (linesOf buf),
    keepsRow config predicate r.1 r.2 = holdsOn config predicate r.1 r.2) ?_ ?_
  · rw [← filter_records_iff _ _ (fun r => rowAppends config r.1 r.2)]
    refine forall_congr' fun front => imp_congr_right fun hpre => ?_
    exact pushdownAgrees_iff_records config predicate fun line hline =>
      newline_notMem_linesOf buf line (hpre.subset hline)
  refine forall_congr' fun r => imp_congr_right fun _ => ?_
  rw [← keepsRow_eq]
  constructor
  · exact fun h _ => h
  · intro h
    by_cases hshadow : ∃ name ∈ predicate.fields, shadowed config r.2 name = true
    · exact h hshadow
    · refine keepsRow_eq_holdsOn config (fun name hname => ?_) r.1
      exact Bool.eq_false_iff.mpr fun hs => hshadow ⟨name, hname, hs⟩

end Agreement

/-- On `{"a":1x,"a":5}` the filtered scan decides `a IS NULL` by the second
`a` and drops the row, though the first one leaves the field null. -/
theorem shadowedNumber_drops_row :
    ¬ PushdownAgrees (ScanConfig.default : ScanConfig Int) (.isNull [0x61] false)
      [0x7b, 0x22, 0x61, 0x22, 0x3a, 0x31, 0x78, 0x2c, 0x22, 0x61, 0x22, 0x3a, 0x35, 0x7d] := by
  unfold PushdownAgrees
  decide +kernel

end FastForward.Core
