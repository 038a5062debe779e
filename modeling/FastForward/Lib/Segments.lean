/-
Streams of elements cut into segments at separators.

`splitOnP p xs` of the standard library lists the segments of `xs`, the
last of which no separator has closed yet. A program that reads a stream
piece by piece handles the closed segments and carries the open one
over. That this is independent of where the stream is cut comes down to
`closed_append` and `rest_append`: what a longer stream closes and
leaves open depends on the shorter one only through what it left open.
-/
import Mathlib.Tactic.TypeStar

namespace FastForward.Lib.Segments

open List

variable {α β : Type*} (p : α → Bool)

/-- The segments that a separator closes. -/
def closed (xs : List α) : List (List α) := (xs.splitOnP p).dropLast

/-- The open segment: what stands behind the last separator. -/
def rest (xs : List α) : List α := (xs.splitOnP p).getLast (splitOnP_ne_nil p xs)

theorem splitOnP_eq (xs : List α) : xs.splitOnP p = closed p xs ++ [rest p xs] :=
  (dropLast_concat_getLast (splitOnP_ne_nil p xs)).symm

variable {p}

-- == one separator

variable {xs : List α}

theorem closed_of_forall (h : ∀ x ∈ xs, p x = false) : closed p xs = [] := by
  rw [closed, splitOnP_eq_singleton h]
  rfl

theorem rest_of_forall (h : ∀ x ∈ xs, p x = false) : rest p xs = xs := by
  simp only [rest, splitOnP_eq_singleton h, getLast_singleton]

@[simp] theorem closed_nil : closed p [] = [] := closed_of_forall fun _ h => nomatch h

@[simp] theorem rest_nil : rest p [] = [] := rest_of_forall fun _ h => nomatch h

variable {sep : α}

/-- A separator closes a segment. -/
theorem closed_append_cons {xs ys : List α} (h : p sep) :
    closed p (xs ++ sep :: ys) = xs.splitOnP p ++ closed p ys := by
  rw [closed, splitOnP_append_cons xs ys h,
    dropLast_append_of_ne_nil (splitOnP_ne_nil p ys), closed]

/-- Behind a separator, what is open begins anew. -/
theorem rest_append_cons {xs ys : List α} (h : p sep) :
    rest p (xs ++ sep :: ys) = rest p ys := by
  simp only [rest, splitOnP_append_cons xs ys h]
  exact getLast_append_right _

/-- A stream has no separator, or it has a last one. -/
theorem forall_or_last (p : α → Bool) (xs : List α) :
    (∀ x ∈ xs, p x = false)
      ∨ ∃ front sep back, p sep ∧ (∀ x ∈ back, p x = false) ∧ xs = front ++ sep :: back := by
  induction xs with
  | nil => exact .inl fun _ h => nomatch h
  | cons x xs ih =>
    rcases ih with hall | ⟨front, sep, back, hsep, hback, rfl⟩
    · cases hx : p x with
      | false =>
        refine .inl fun y hy => ?_
        rcases mem_cons.mp hy with rfl | hy
        · exact hx
        · exact hall y hy
      | true => exact .inr ⟨[], x, xs, hx, hall, rfl⟩
    · exact .inr ⟨x :: front, sep, back, hsep, hback, rfl⟩

/-- Induction over a stream from segment to segment. -/
theorem segmentInduction (p : α → Bool) {motive : List α → Prop}
    (isOpen : ∀ xs, (∀ x ∈ xs, p x = false) → motive xs)
    (isClosed : ∀ xs sep ys, (∀ x ∈ xs, p x = false) → p sep → motive ys →
      motive (xs ++ sep :: ys)) (xs : List α) : motive xs := by
  -- the first segment grows until its separator is met
  suffices h : ∀ front, (∀ x ∈ front, p x = false) → motive (front ++ xs) from
    h [] fun _ h => nomatch h
  induction xs with
  | nil =>
    intro front hfront
    rw [append_nil]
    exact isOpen front hfront
  | cons x xs ih =>
    intro front hfront
    cases hx : p x with
    | true => exact isClosed front x xs hfront hx (ih [] fun _ h => nomatch h)
    | false =>
      rw [append_cons]
      refine ih _ fun y hy => ?_
      rcases mem_append.mp hy with hy | hy
      · exact hfront y hy
      · rw [mem_singleton.mp hy]
        exact hx

-- == the append laws

/-- What is open holds no separator. -/
theorem rest_forall (p : α → Bool) (xs : List α) : ∀ x ∈ rest p xs, p x = false := by
  rcases forall_or_last p xs with hall | ⟨front, sep, back, hsep, hback, rfl⟩
  · rw [rest_of_forall hall]
    exact hall
  · rw [rest_append_cons hsep, rest_of_forall hback]
    exact hback

theorem rest_isSuffix (p : α → Bool) (xs : List α) : rest p xs <:+ xs := by
  rcases forall_or_last p xs with hall | ⟨front, sep, back, hsep, hback, rfl⟩
  · exact ⟨[], by rw [rest_of_forall hall, nil_append]⟩
  · rw [rest_append_cons hsep, rest_of_forall hback]
    exact ⟨front ++ [sep], by rw [append_assoc]; rfl⟩

theorem mem_of_mem_rest {x : α} (h : x ∈ rest p xs) : x ∈ xs :=
  (rest_isSuffix p xs).subset h

/-- A stream is its closed part and its open segment. -/
theorem eq_front_rest (p : α → Bool) (xs : List α) :
    (closed p xs = [] ∧ xs = rest p xs)
      ∨ ∃ front sep, p sep ∧ xs = front ++ sep :: rest p xs
          ∧ closed p xs = front.splitOnP p := by
  rcases forall_or_last p xs with hall | ⟨front, sep, back, hsep, hback, rfl⟩
  · exact .inl ⟨closed_of_forall hall, (rest_of_forall hall).symm⟩
  · refine .inr ⟨front, sep, hsep, ?_, ?_⟩
    · rw [rest_append_cons hsep, rest_of_forall hback]
    · rw [closed_append_cons hsep, closed_of_forall hback, append_nil]

/-- More elements go on with what is open. -/
theorem closed_append (p : α → Bool) (xs ys : List α) :
    closed p (xs ++ ys) = closed p xs ++ closed p (rest p xs ++ ys) := by
  rcases eq_front_rest p xs with ⟨hclosed, hxs⟩ | ⟨front, sep, hsep, hxs, hclosed⟩
  · rw [hclosed, ← hxs, nil_append]
  · rw [hclosed]
    conv => lhs; rw [hxs, append_assoc, cons_append, closed_append_cons hsep]

/-- What stays open depends on what was open. -/
theorem rest_append (p : α → Bool) (xs ys : List α) :
    rest p (xs ++ ys) = rest p (rest p xs ++ ys) := by
  rcases eq_front_rest p xs with ⟨-, hxs⟩ | ⟨front, sep, hsep, hxs, -⟩
  · rw [← hxs]
  · conv => lhs; rw [hxs, append_assoc, cons_append, rest_append_cons hsep]

theorem rest_append_forall (xs : List α) {ys : List α} (h : ∀ y ∈ ys, p y = false) :
    ∀ x ∈ rest p xs ++ ys, p x = false :=
  forall_mem_append.mpr ⟨rest_forall p xs, h⟩

/-- A piece without separator only extends the open segment. -/
theorem closed_append_of_forall (xs : List α) {ys : List α} (h : ∀ y ∈ ys, p y = false) :
    closed p (xs ++ ys) = closed p xs ∧ rest p (xs ++ ys) = rest p xs ++ ys := by
  have hall := rest_append_forall xs h
  constructor
  · rw [closed_append, closed_of_forall hall, append_nil]
  · rw [rest_append, rest_of_forall hall]

/-- A piece that ends in its only separator closes the open segment. -/
theorem closed_append_separator (xs : List α) {ys : List α} (h : ∀ y ∈ ys, p y = false)
    (hsep : p sep) :
    closed p (xs ++ (ys ++ [sep])) = closed p xs ++ [rest p xs ++ ys]
      ∧ rest p (xs ++ (ys ++ [sep])) = [] := by
  have hall := rest_append_forall xs h
  constructor
  · rw [closed_append, ← append_assoc, closed_append_cons hsep, closed_nil,
      splitOnP_eq_singleton hall, append_nil]
  · rw [← append_assoc, rest_append_cons hsep, rest_nil]

/-- The same for all segments. -/
theorem splitOnP_append (p : α → Bool) (xs ys : List α) :
    (xs ++ ys).splitOnP p = closed p xs ++ (rest p xs ++ ys).splitOnP p := by
  rw [splitOnP_eq, splitOnP_eq p (rest p xs ++ ys), closed_append, rest_append, append_assoc]

/-- An open segment goes on in a segment of every longer stream. -/
theorem exists_extends_rest (p : α → Bool) (xs ys : List α) :
    ∃ more, rest p xs ++ more ∈ (xs ++ ys).splitOnP p := by
  rw [splitOnP_append]
  induction ys using segmentInduction p with
  | isOpen ys h =>
    have hall := rest_append_forall xs h
    refine ⟨ys, mem_append_right _ ?_⟩
    rw [splitOnP_eq_singleton hall]
    exact mem_cons_self
  | isClosed ys sep zs h hsep _ =>
    have hall := rest_append_forall xs h
    refine ⟨ys, mem_append_right _ ?_⟩
    rw [← append_assoc, splitOnP_append_cons_of_forall_mem hall _ hsep]
    exact mem_cons_self

/-- Segments of the image of a stream. -/
theorem splitOnP_map (p : β → Bool) (f : α → β) (xs : List α) :
    (xs.map f).splitOnP p = (xs.splitOnP (p ∘ f)).map (List.map f) := by
  induction xs with
  | nil => rfl
  | cons x xs ih =>
    rw [map_cons, splitOnP_cons_eq_if_modifyHead, splitOnP_cons_eq_if_modifyHead, ih]
    cases hx : p (f x) with
    | true => simp [hx]
    | false => cases hs : xs.splitOnP (p ∘ f) <;> simp [hx]

end FastForward.Lib.Segments
