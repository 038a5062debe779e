/-
The scanner's predicate against its SQL condition.

What the evaluator cannot decide it answers with `true`, so that the row
is kept for SQL to judge. That is unsafe under a negation, where the
same answer drops the row; and a string compared with an integer is
decided over the integers, which an engine that renders the integer
decides otherwise. Both are properties of a single leaf and the side it
stands on (an even or an odd number of negations above it), so the
contract `Keeps` is settled leaf by leaf and carried through the
connectives.
-/
import FastForward.Core.Sql
import FastForward.Core.Proofs.Scalars

namespace FastForward.Core

open List

open Lib (Truth)
open Lib.Truth (Keeps)

-- == integers as text

theorem decimalDigits_ne_nil (n : Nat) : decimalDigits n ≠ [] := by
  unfold decimalDigits
  split
  · exact cons_ne_nil _ _
  · exact append_ne_nil_of_right_ne_nil _ (cons_ne_nil _ _)

theorem digitsFrom_decimalDigits (n : Nat) : digitsFrom 0 (decimalDigits n) = n := by
  fun_induction decimalDigits n with
  | case1 n h => simp [digitsFrom, Nat.mod_eq_of_lt h]
  | case2 n h ih =>
    have happ : digitsFrom 0 (decimalDigits (n / 10) ++ [.ofNat 10 n])
        = digitsFrom 0 (decimalDigits (n / 10)) * 10 + n % 10 := by
      simp [digitsFrom]
    omega

theorem digitByte_ne_plus (d : Fin 10) : digitByte d ≠ Ascii.plus := by
  revert d
  decide

/-- Rendering and parsing back gives the integer, in the range that
parses. -/
theorem parseI64_renderInt (n : Int) :
    parseI64 (renderInt n) = if inI64 n then some n else none := by
  obtain ⟨d, ds, hds⟩ := exists_cons_of_ne_nil (decimalDigits_ne_nil n.natAbs)
  have hvalue := digitsFrom_decimalDigits n.natAbs
  have htext : digitsText (d :: ds) = digitByte d :: digitsText ds := rfl
  unfold renderInt
  rw [hds] at hvalue ⊢
  by_cases hneg : n < 0
  · have hparse := parseDigits_digitsText true (d :: ds) (n := 0) (by decide)
    have hsigned : signed true n.natAbs = n := by
      simp only [signed, if_true]
      omega
    rw [hvalue, hsigned] at hparse
    rw [if_pos hneg]
    exact hparse
  · have hparse := parseDigits_digitsText false (d :: ds) (n := 0) (by decide)
    have hsigned : signed false n.natAbs = n := by
      simp only [signed, Bool.false_eq_true, if_false]
      omega
    rw [hvalue, hsigned] at hparse
    rw [if_neg hneg, htext, parseI64, if_neg (digitByte_ne_minus d),
      if_neg (digitByte_ne_plus d)]
    exact hparse

theorem eq_of_cmpBytes {a b : Bytes} (h : cmpBytes a b = .eq) : a = b := by
  fun_induction cmpBytes a b with
  | case1 => rfl
  | case2 | case3 | case4 | case5 => cases h
  | case6 a as b bs hlt hgt ih =>
    have hab : a = b := UInt8.le_antisymm (UInt8.not_lt.mp hgt) (UInt8.not_lt.mp hlt)
    rw [hab, ih h]

-- == comparisons

/-- Where the row hangs on it, the integers decide a mixed comparison as
the texts do. A text that is no integer decides nothing, and keeps. -/
def OrdersAgree (side : Bool) (op : CmpOp) (texts : Ordering)
    (numbers : Option Ordering) : Prop :=
  match side with
  | true => applyCmpOp texts op = true → ∀ ord, numbers = some ord → applyCmpOp ord op = true
  | false => applyCmpOp texts op = false → ∃ ord, numbers = some ord ∧ applyCmpOp ord op = false

variable {F : Type}

/-- When a comparison serves its side: always, but for a string and an
integer that SQL compares as texts. -/
def SafeCompare (reading : Reading) (side : Bool) (op : CmpOp) (value : ExtractedValue F)
    (literal : ScalarValue F) : Prop :=
  ∀ texts numbers, mixedOrders value literal = some (texts, numbers) →
    reading = .rendered → OrdersAgree side op texts numbers

variable {literal : ScalarValue F} {op : CmpOp}

theorem safeCompare_parsed {side : Bool} {value : ExtractedValue F} :
    SafeCompare .parsed side op value literal :=
  fun _ _ _ h => nomatch h

/-- Equal texts are equal integers, so a positive equality is always
safe. -/
theorem safeCompare_eq (reading : Reading) (value : ExtractedValue F)
    (literal : ScalarValue F) : SafeCompare reading true .eq value literal := by
  intro texts numbers hmixed _ htexts ord hord
  have heq : texts = .eq := beq_iff_eq.mp htexts
  subst heq
  unfold mixedOrders at hmixed
  split at hmixed
  case h_1 | h_2 =>
      obtain ⟨hcmp, rfl⟩ := Prod.mk.inj (Option.some.inj hmixed)
      obtain rfl := eq_of_cmpBytes hcmp
      rw [parseI64_renderInt] at hord
      split at hord
      · obtain rfl := Option.some.inj hord
        simp [applyCmpOp]
      · cases hord
  case h_3 => cases hmixed

theorem sqlCompare_of_mixed {reading : Reading} {value : ExtractedValue F}
    {texts : Ordering} {numbers : Option Ordering}
    (h : mixedOrders value literal = some (texts, numbers)) :
    sqlCompare reading op value literal = reading.compare op texts numbers := by
  unfold sqlCompare
  split <;> first | cases h | rw [h]

theorem sqlCompare_of_isNull {reading : Reading} {value : ExtractedValue F}
    (h : value.isNull) : sqlCompare reading op value literal = .unknown := by
  cases value <;> first | rfl | cases h

theorem sqlCompare_of_incomparable {reading : Reading} {value : ExtractedValue F}
    (h : typesComparable value literal = false) :
    sqlCompare reading op value literal = .unknown := by
  cases value <;> cases literal <;> first | rfl | cases h

section Evaluate

variable [FloatOps F] {value : ExtractedValue F} {numbers : Option Ordering} {texts : Ordering}

theorem compareValues_of_mixed (h : mixedOrders value literal = some (texts, numbers)) :
    compareValues value op literal = numbers.elim true (applyCmpOp · op) := by
  unfold mixedOrders at h
  split at h
  case h_1 text _ | h_2 _ text =>
      obtain ⟨-, rfl⟩ := Prod.mk.inj (Option.some.inj h)
      simp only [compareValues]
      cases parseI64 text <;> rfl
  case h_3 => cases h

variable {reading : Reading}

/-- Values of one type are compared as SQL compares them, and what SQL
does not compare is NULL. -/
theorem keeps_unmixed {side : Bool} (h : mixedOrders value literal = none) :
    Keeps side (sqlCompare reading op value literal) (compareValues value op literal) := by
  cases value <;> cases literal <;>
    first
    | exact Truth.keeps_ofBool
    | exact Truth.keeps_unknown
    | cases h

theorem keeps_mixed {side : Bool} :
    Keeps side (reading.compare op texts numbers) (numbers.elim true (applyCmpOp · op))
      ↔ (reading = .rendered → OrdersAgree side op texts numbers) := by
  cases reading with
  | parsed =>
    refine iff_of_true ?_ (fun h => nomatch h)
    cases numbers with
    | none => exact Truth.keeps_unknown
    | some ord => exact Truth.keeps_ofBool
  | rendered =>
    rw [forall_prop_of_true rfl]
    cases side with
    | true =>
      refine imp_congr Truth.ofBool_eq_tt ?_
      cases numbers <;> simp
    | false =>
      refine imp_congr Truth.ofBool_eq_ff ?_
      cases numbers <;> simp

theorem keeps_compare {side : Bool} :
    Keeps side (sqlCompare reading op value literal) (compareValues value op literal)
      ↔ SafeCompare reading side op value literal := by
  unfold SafeCompare
  cases hmixed : mixedOrders value literal with
  | none => exact iff_of_true (keeps_unmixed hmixed) nofun
  | some orders =>
    obtain ⟨texts, numbers⟩ := orders
    rw [sqlCompare_of_mixed hmixed, compareValues_of_mixed hmixed, keeps_mixed]
    constructor
    · rintro h _ _ heq
      obtain ⟨rfl, rfl⟩ := Prod.mk.inj (Option.some.inj heq)
      exact h
    · exact fun h => h texts numbers rfl

-- == lists

/-- When a list test serves its side. A positive `IN` always does. A
`NOT IN` under a negation is lost to one literal of another type beside
the one that matches; otherwise the test hangs on each literal being told
apart from the value. -/
def SafeInList (reading : Reading) (value : ExtractedValue F) (literals : List (ScalarValue F)) :
    (side negated : Bool) → Prop
  | true, false => True
  | false, true =>
    (∃ l ∈ literals, sqlCompare reading .eq value l = .tt) →
      ∀ l ∈ literals, typesComparable value l = true
  | _, _ =>
    (∀ l ∈ literals, sqlCompare reading .eq value l = .ff) →
      ∀ l ∈ literals, SafeCompare reading false .eq value l

theorem keeps_any_true (reading : Reading) (value : ExtractedValue F)
    (literals : List (ScalarValue F)) :
    Keeps true (Truth.any (sqlCompare reading .eq value) literals)
      (literals.any (compareValues value .eq)) := by
  intro h
  obtain ⟨l, hl, htt⟩ := Truth.any_eq_tt.mp h
  exact any_eq_true.mpr ⟨l, hl, keeps_compare.mpr (safeCompare_eq reading value l) htt⟩

variable {literals : List (ScalarValue F)}

theorem keeps_any_false :
    Keeps false (Truth.any (sqlCompare reading .eq value) literals)
        (literals.any (compareValues value .eq))
      ↔ ((∀ l ∈ literals, sqlCompare reading .eq value l = .ff) →
          ∀ l ∈ literals, SafeCompare reading false .eq value l) := by
  refine (imp_congr_left Truth.any_eq_ff).trans (imp_congr_right fun hff => ?_)
  rw [any_eq_false]
  refine forall₂_congr fun l hl => ?_
  rw [← keeps_compare, Bool.not_eq_true]
  exact ⟨fun h _ => h, fun h => h (hff l hl)⟩

variable {side negated : Bool}

/-- All literals comparable: the list test is a disjunction of
equalities, negated or not. -/
theorem keeps_inList_comparable
    (hnull : value.isNull = false) (hcomp : ∀ l ∈ literals, typesComparable value l) :
    Keeps side (if negated then (sqlIn reading value literals).not
        else sqlIn reading value literals) (evaluateInList value literals negated)
      ↔ SafeInList reading value literals side negated := by
  have hany : (literals.any fun l => !typesComparable value l) = false :=
    any_eq_false.mpr fun l hl => by rw [hcomp l hl]; exact Bool.false_ne_true
  unfold evaluateInList sqlIn
  simp only [hnull, hany, Bool.false_eq_true, if_false]
  cases negated with
  | false =>
    cases side with
    | true => exact iff_of_true (keeps_any_true reading value literals) trivial
    | false => exact keeps_any_false
  | true =>
    simp only [if_true, Truth.keeps_not]
    cases side with
    | true => exact keeps_any_false
    | false => exact iff_of_true (keeps_any_true reading value literals) fun _ => hcomp

theorem keeps_inList_incomparable (hnull : value.isNull = false)
    {l : ScalarValue F} (hl : l ∈ literals) (hincomp : typesComparable value l = false) :
    Keeps side (if negated then (sqlIn reading value literals).not
        else sqlIn reading value literals) (evaluateInList value literals negated)
      ↔ SafeInList reading value literals side negated := by
  have hany : (literals.any fun l => !typesComparable value l) = true :=
    any_eq_true.mpr ⟨l, hl, by rw [hincomp]; rfl⟩
  have hnotAll : ¬ ∀ l ∈ literals, sqlCompare reading .eq value l = .ff := by
    intro hff
    have := (hff l hl).symm.trans (sqlCompare_of_incomparable hincomp)
    cases this
  unfold evaluateInList sqlIn
  simp only [hnull, hany]
  cases side with
  | true =>
    refine iff_of_true (fun _ => rfl) ?_
    cases negated with
    | false => trivial
    | true => exact fun hff => absurd hff hnotAll
  | false =>
    cases negated with
    | false =>
      refine iff_of_true (fun h => ?_) (fun hff => absurd hff hnotAll)
      exact absurd (Truth.any_eq_ff.mp h) hnotAll
    | true =>
      refine imp_congr (Truth.not_eq_ff.trans Truth.any_eq_tt) (iff_of_false nofun ?_)
      intro hcomp
      rw [hcomp l hl] at hincomp
      cases hincomp

theorem keeps_inList :
    Keeps side (if negated then (sqlIn reading value literals).not
        else sqlIn reading value literals) (evaluateInList value literals negated)
      ↔ SafeInList reading value literals side negated := by
  by_cases hnull : value.isNull
  · -- NULL is in no list and out of none, and equal to no literal
    have hunknown : ∀ l, sqlCompare reading .eq value l = .unknown :=
      fun _ => sqlCompare_of_isNull hnull
    have hsql : sqlIn reading value literals = .unknown := if_pos hnull
    refine iff_of_true ?_ ?_
    · rw [hsql]
      cases negated <;> exact Truth.keeps_unknown
    · cases side <;> cases negated <;>
        first
        | trivial
        | (intro hff l hl; cases (hunknown l).symm.trans (hff l hl))
        | (rintro ⟨l, _, htt⟩; cases (hunknown l).symm.trans htt)
  · have hnull := Bool.eq_false_iff.mpr hnull
    by_cases hcomp : ∀ l ∈ literals, typesComparable value l
    · exact keeps_inList_comparable hnull hcomp
    · simp only [Classical.not_forall, Bool.not_eq_true] at hcomp
      obtain ⟨l, hl, hincomp⟩ := hcomp
      exact keeps_inList_incomparable hnull hl hincomp

end Evaluate

-- == leaves

/-- `LIKE` on a field that is not a string keeps the row. -/
theorem keeps_like {side : Bool} {value : ExtractedValue F} (matchText : Bytes → Bool) :
    Keeps side (sqlLike matchText value)
        (match value with
          | .str bytes => matchText bytes
          | _ => true)
      ↔ (side = false → ∀ n, value = .int n → matchText (renderInt n)) := by
  cases value with
  | int n =>
    cases side with
    | true => exact iff_of_true (fun _ => rfl) nofun
    | false =>
      refine (imp_congr_left Truth.ofBool_eq_ff).trans ?_
      simp
  | str bytes => exact iff_of_true Truth.keeps_ofBool fun _ => nofun
  | _ => exact iff_of_true Truth.keeps_unknown fun _ => nofun

namespace ScanPredicate

def isLeaf : ScanPredicate F → Bool
  | and _ => false
  | or _ => false
  | not _ => false
  | _ => true

/-- When a leaf serves the side it stands on. -/
def SafeLeaf (reading : Reading) (row : Bytes → ExtractedValue F) (side : Bool) :
    ScanPredicate F → Prop
  | compare field op value => SafeCompare reading side op (row field) value
  | inList field values negated => SafeInList reading (row field) values side negated
  | startsWith field pre =>
    side = false → ∀ n, row field = .int n → pre.isPrefixOf (renderInt n) = true
  | contains field substring =>
    side = false → ∀ n, row field = .int n → containsBytes substring (renderInt n) = true
  | _ => True

-- == predicates

section Predicates

variable [FloatOps F] {reading : Reading} {row : Bytes → ExtractedValue F} {p : ScanPredicate F}
  {side : Bool}

mutual

/-- The leaves that the evaluation of a predicate reaches, each with the
side it stands on. -/
def reachedLeaves (row : Bytes → ExtractedValue F) (side : Bool) :
    ScanPredicate F → List (Bool × ScanPredicate F)
  | and preds => reachedUntil row side false preds
  | or preds => reachedUntil row side true preds
  | not inner => reachedLeaves row (!side) inner
  | leaf => [(side, leaf)]

/-- `all` stops at the first `false`, `any` at the first `true`. -/
def reachedUntil (row : Bytes → ExtractedValue F) (side answer : Bool) :
    List (ScanPredicate F) → List (Bool × ScanPredicate F)
  | [] => []
  | p :: rest =>
    reachedLeaves row side p ++
      if p.evaluate row = answer then [] else reachedUntil row side answer rest

end

mutual

theorem isLeaf_of_mem_reachedLeaves {l : Bool × ScanPredicate F} :
    ∀ (side : Bool) (p : ScanPredicate F), l ∈ p.reachedLeaves row side → l.2.isLeaf
  | _, compare _ _ _, h | _, inList _ _ _, h | _, isNull _ _, h | _, startsWith _ _, h
  | _, contains _ _, h => by rw [mem_singleton.mp h]; rfl
  | side, and preds, h => isLeaf_of_mem_reachedUntil side false preds h
  | side, or preds, h => isLeaf_of_mem_reachedUntil side true preds h
  | side, not inner, h => isLeaf_of_mem_reachedLeaves (!side) inner h

theorem isLeaf_of_mem_reachedUntil {l : Bool × ScanPredicate F} :
    ∀ (side answer : Bool) (preds : List (ScanPredicate F)),
      l ∈ reachedUntil row side answer preds → l.2.isLeaf
  | side, answer, p :: rest, h => by
    rcases mem_append.mp h with h | h
    · exact isLeaf_of_mem_reachedLeaves side p h
    · split at h
      · cases h
      · exact isLeaf_of_mem_reachedUntil side answer rest h

end

theorem reachedLeaves_leaf (h : p.isLeaf) : p.reachedLeaves row side = [(side, p)] := by
  cases p <;> first | rfl | cases h

theorem keeps_leaf (h : p.isLeaf) :
    Keeps side (p.truth reading row) (p.evaluate row) ↔ SafeLeaf reading row side p := by
  cases p with
  | compare field op value => exact keeps_compare
  | inList field values negated => exact keeps_inList
  | isNull field negated => exact iff_of_true Truth.keeps_ofBool trivial
  | startsWith field pre => exact keeps_like pre.isPrefixOf
  | contains field substring => exact keeps_like (containsBytes substring)
  | and | or | not => cases h

theorem keeps_of_leaf (hp : p.isLeaf)
    (h : ∀ l ∈ p.reachedLeaves row side, SafeLeaf reading row l.1 l.2) :
    Keeps side (p.truth reading row) (p.evaluate row) := by
  refine (keeps_leaf hp).mpr (h (side, p) ?_)
  rw [reachedLeaves_leaf hp]
  exact mem_singleton_self _

mutual

/-- Safe leaves make a safe predicate: induction over the tree, with the
side exchanged at each negation. -/
theorem keeps_of_safeLeaves :
    ∀ (side : Bool) (p : ScanPredicate F),
      (∀ l ∈ p.reachedLeaves row side, SafeLeaf reading row l.1 l.2) →
      Keeps side (p.truth reading row) (p.evaluate row)
  | _, compare _ _ _, h | _, inList _ _ _, h | _, isNull _ _, h | _, startsWith _ _, h
  | _, contains _ _, h => keeps_of_leaf rfl h
  | side, and preds, h => keepsAll_of_safeLeaves side preds h
  | side, or preds, h => keepsAny_of_safeLeaves side preds h
  | side, not inner, h => Truth.keeps_not.mpr (keeps_of_safeLeaves (!side) inner h)

theorem keepsAll_of_safeLeaves :
    ∀ (side : Bool) (preds : List (ScanPredicate F)),
      (∀ l ∈ reachedUntil row side false preds, SafeLeaf reading row l.1 l.2) →
      Keeps side (truthAll reading row preds) (evaluateAll row preds)
  | _, [], _ => Truth.keeps_ofBool (x := true)
  | side, p :: rest, h => by
    have hp := keeps_of_safeLeaves side p fun l hl => h l (mem_append_left _ hl)
    refine hp.and fun heval => keepsAll_of_safeLeaves side rest fun l hl => ?_
    refine h l (mem_append_right _ ?_)
    rwa [heval, if_neg Bool.true_eq_false_eq_False]

theorem keepsAny_of_safeLeaves :
    ∀ (side : Bool) (preds : List (ScanPredicate F)),
      (∀ l ∈ reachedUntil row side true preds, SafeLeaf reading row l.1 l.2) →
      Keeps side (truthAny reading row preds) (evaluateAny row preds)
  | _, [], _ => Truth.keeps_ofBool (x := false)
  | side, p :: rest, h => by
    have hp := keeps_of_safeLeaves side p fun l hl => h l (mem_append_left _ hl)
    refine hp.or fun heval => keepsAny_of_safeLeaves side rest fun l hl => ?_
    refine h l (mem_append_right _ ?_)
    rwa [heval, if_neg Bool.false_ne_true]

end

/-- The scanner keeps a row that SQL keeps. -/
def KeepsRow (reading : Reading) (row : Bytes → ExtractedValue F) (p : ScanPredicate F) : Prop :=
  p.truth reading row = .tt → p.evaluate row = true

/-- A negated `LIKE` on an integer: SQL matches the decimal text, the
evaluator answers `true` for "cannot tell", and the negation drops the
row. -/
theorem negatedLike_drops_row :
    ¬ KeepsRow .rendered (fun _ => .int 500) (not (startsWith [0x78] [0x39]) : ScanPredicate Int)
      ∧ ¬ KeepsRow .parsed (fun _ => .int 500)
          (not (startsWith [0x78] [0x39]) : ScanPredicate Int) := by
  unfold KeepsRow
  decide +kernel

/-- However And, Or and Not are nested over leaves that the evaluation of
a predicate reaches, each on its side, rows that SQL keeps are kept,
exactly if every one of these leaves is safe. The predicate itself is one
of these nestings. -/
theorem keepsRow_iff_safeLeaves (reading : Reading) (row : Bytes → ExtractedValue F)
    (p : ScanPredicate F) :
    (∀ q : ScanPredicate F, q.reachedLeaves row true ⊆ p.reachedLeaves row true →
        KeepsRow reading row q)
      ↔ ∀ l ∈ p.reachedLeaves row true, SafeLeaf reading row l.1 l.2 := by
  constructor
  · rintro h ⟨side, leaf⟩ hl
    have hleaf : leaf.isLeaf := isLeaf_of_mem_reachedLeaves true p hl
    have hsub : leaf.reachedLeaves row side ⊆ p.reachedLeaves row true := by
      rw [reachedLeaves_leaf hleaf]
      exact cons_subset.mpr ⟨hl, nil_subset _⟩
    -- the leaf alone, or its negation, is such a nesting
    cases side with
    | true => exact (keeps_leaf hleaf).mp (h leaf hsub)
    | false =>
      have hflip : Keeps true (leaf.truth reading row).not (!leaf.evaluate row) :=
        h (not leaf) hsub
      exact (keeps_leaf hleaf).mp (Truth.keeps_not.mp hflip)
  · intro h q hq
    exact keeps_of_safeLeaves true q fun l hl => h l (hq hl)

end Predicates

end ScanPredicate

end FastForward.Core
