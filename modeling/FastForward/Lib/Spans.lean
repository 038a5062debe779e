/-
Run-length encoded rows: a list of spans, each worth a number of rows of
one value. The spans are of any type `σ`; what they stand for is read off
by `rows` and `value`. `join` puts runs after others so that equal values
never meet.
-/
import Mathlib.Data.List.Chain
import Mathlib.Tactic.Ring

namespace FastForward.Lib.Spans

open List

variable {σ β : Type*} (rows : σ → Nat) (value : σ → β)

/-- The rows that spans stand for. -/
def expand (spans : List σ) : List β :=
  spans.flatMap fun span => List.replicate (rows span) (value span)

@[simp] theorem expand_nil : expand rows value [] = [] := rfl

@[simp] theorem expand_cons (span : σ) (spans : List σ) :
    expand rows value (span :: spans)
      = List.replicate (rows span) (value span) ++ expand rows value spans := rfl

/-- Spans in a row expand in a row. -/
@[simp] theorem expand_append (front back : List σ) :
    expand rows value (front ++ back) = expand rows value front ++ expand rows value back :=
  flatMap_append

/-- As many values as the spans have rows. -/
theorem length_expand (spans : List σ) :
    (expand rows value spans).length = (spans.map rows).sum := by
  simp [expand]

variable {rows value}

/-- The last span takes rows of its own value. -/
theorem expand_extended {front : List σ} {last last' : σ} {n : Nat}
    (hrows : rows last' = rows last + n) (hvalue : value last' = value last) :
    expand rows value (front ++ [last'])
      = expand rows value (front ++ [last]) ++ List.replicate n (value last) := by
  simp only [expand_append, expand_cons, expand_nil, append_nil, hrows, hvalue,
    replicate_add, append_assoc]

-- == joining

section Join

variable [DecidableEq β]

/-- Runs after others; at the seam, equal values make one run. -/
def join (front back : List (Nat × β)) : List (Nat × β) :=
  match front.getLast?, back with
  | some last, first :: tail =>
    if last.2 = first.2 then front.dropLast ++ (last.1 + first.1, last.2) :: tail
    else front ++ back
  | _, _ => front ++ back

variable (front : List (Nat × β)) {last first : Nat × β} (tail back : List (Nat × β))

/-- Spans of the same value become one. -/
theorem join_of_eq (h : last.2 = first.2) :
    join (front ++ [last]) (first :: tail) = front ++ (last.1 + first.1, last.2) :: tail := by
  simp [join, h]

/-- Spans of different values stay apart. -/
theorem join_of_ne (h : last.2 ≠ first.2) :
    join (front ++ [last]) (first :: tail) = front ++ [last] ++ first :: tail := by
  simp [join, h]

@[simp] theorem join_nil_left : join [] back = back := rfl

@[simp] theorem join_nil_right : join front [] = front := by
  unfold join
  split <;> simp_all

/-- Joining does not change what the spans stand for. -/
theorem expand_join :
    expand Prod.fst Prod.snd (join front back)
      = expand Prod.fst Prod.snd front ++ expand Prod.fst Prod.snd back := by
  rcases eq_nil_or_concat front with rfl | ⟨front, last, rfl⟩
  · simp
  · cases back with
    | nil => simp
    | cons first tail =>
      rw [concat_eq_append]
      by_cases hsame : last.2 = first.2
      · rw [join_of_eq front tail hsame]
        simp only [expand_append, expand_cons, expand_nil, append_nil, hsame, replicate_add,
          append_assoc]
      · rw [join_of_ne front tail hsame, expand_append]

/-- Neighbours still differ after a join. -/
theorem isChain_join {front back : List (Nat × β)}
    (hfront : (front.map Prod.snd).IsChain (· ≠ ·)) (hback : (back.map Prod.snd).IsChain (· ≠ ·)) :
    ((join front back).map Prod.snd).IsChain (· ≠ ·) := by
  rcases eq_nil_or_concat front with rfl | ⟨front, last, rfl⟩
  · exact hback
  · cases back with
    | nil => simpa using hfront
    | cons first tail =>
      rw [concat_eq_append] at hfront ⊢
      by_cases hsame : last.2 = first.2
      · rw [join_of_eq front tail hsame, map_append, map_cons, isChain_split]
        rw [map_append] at hfront
        rw [map_cons, ← hsame] at hback
        exact ⟨hfront, hback⟩
      · rw [join_of_ne front tail hsame, map_append, isChain_append]
        refine ⟨hfront, hback, ?_⟩
        simpa using hsame

end Join

end FastForward.Lib.Spans
