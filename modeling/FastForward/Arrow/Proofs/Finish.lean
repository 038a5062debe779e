/-
What the finalisers make of a builder that represents a sheet: the columns
of its contents, exactly when they fit.

Both finalisers are treated at once. All that is needed of their string
arrays is that views which show given strings give the array of those
strings (`Faithful`).
-/
import FastForward.Arrow.Contents
import FastForward.Arrow.Proofs.Session

namespace FastForward.Arrow

open Core Lib List StreamingBuilder ArrowOps

variable {F : Type}

-- == sparse lists

section Sparse

variable {α : Type}

/-- Values with rows that increase. -/
def Increasing (values : List (Nat × α)) : Prop := values.Pairwise fun p q => p.1 < q.1

variable {values : List (Nat × α)} {row : Nat}

theorem lookup_eq_none_of_forall_ne (h : ∀ p ∈ values, p.1 ≠ row) : values.lookup row = none := by
  rw [lookup_eq_none_iff]
  intro p hp
  exact bne_iff_ne.mpr (h p hp).symm

/-- Writing values into rows: the cell of a row is the one written. -/
theorem getElem?_foldl_set {n : Nat} (hincreasing : Increasing values)
    (cells : List (Option α)) (hlen : cells.length = n) (hrow : row < n) :
    (values.foldl (fun cells (r, v) => if r < n then cells.set r (some v) else cells) cells)[row]?
      = some ((values.lookup row).or (cells[row]?.join)) := by
  induction values generalizing cells with
  | nil =>
    rw [foldl_nil, lookup_nil, Option.none_or]
    rw [getElem?_eq_getElem (hlen ▸ hrow), Option.join_some]
  | cons p values ih =>
    obtain ⟨r, v⟩ := p
    obtain ⟨hhead, htail⟩ := pairwise_cons.mp hincreasing
    rw [foldl_cons]
    rw [ih htail _ (by dsimp only; split <;> simp [hlen])]
    dsimp only
    by_cases hr : r = row
    · subst hr
      have hrest : values.lookup r = none :=
        lookup_eq_none_of_forall_ne fun p hp => (Nat.ne_of_lt (hhead p hp)).symm
      rw [if_pos hrow, hrest, getElem?_set_self (hlen ▸ hrow)]
      simp
    · have hother : (if r < n then cells.set r (some v) else cells)[row]? = cells[row]? := by
        split
        · exact getElem?_set_ne hr
        · rfl
      have hbeq : (row == r) = false := beq_eq_false_iff_ne.mpr (.symm hr)
      rw [hother, lookup_cons, hbeq]

/-- Values put in their rows. -/
theorem scatter_eq (hincreasing : Increasing values) (n : Nat) :
    scatter n values = (List.range n).map fun row => values.lookup row := by
  have hlen : ∀ (values : List (Nat × α)) (cells : List (Option α)),
      (values.foldl (fun cells (r, v) => if r < n then cells.set r (some v) else cells)
        cells).length = cells.length := by
    intro values
    induction values with
    | nil => exact fun cells => rfl
    | cons p values ih =>
      intro cells
      rw [foldl_cons, ih]
      dsimp only
      split
      · exact length_set
      · rfl
  apply ext_getElem?
  intro row
  rw [getElem?_map]
  rcases Nat.lt_or_ge row n with hrow | hrow
  · rw [scatter, getElem?_foldl_set hincreasing _ length_replicate hrow, getElem?_range hrow,
      getElem?_replicate, if_pos hrow]
    simp
  · rw [getElem?_eq_none, getElem?_eq_none]
    · rfl
    · rw [length_range]
      exact hrow
    · rw [scatter, hlen, length_replicate]
      exact hrow

/-- The loop over the rows of a string column. -/
theorem viewsByRow_shows {buf decoded : Bytes} {views : List StrView}
    {expected : List (Nat × Bytes)} (h : List.Forall₂ (ViewShows buf decoded) views expected)
    (hincreasing : Increasing expected) (hge : ∀ p ∈ expected, row ≤ p.1) (n : Nat) :
    List.Forall₂ (Option.Rel fun v text => Shows buf decoded v.1 v.2 text) (viewsByRow views row n)
      ((List.range' row n).map fun r => expected.lookup r) := by
  induction n generalizing views expected row with
  | zero =>
    exact .nil
  | succ n ih =>
    rw [range'_succ, map_cons]
    cases h with
    | nil =>
      exact .cons .none (ih .nil .nil nofun)
    | @cons v p views expected hv hrest =>
      obtain ⟨hhead, htail⟩ := pairwise_cons.mp hincreasing
      obtain ⟨r, text⟩ := p
      rw [viewsByRow]
      have hrow : v.row = r := hv.1
      split
      next heq =>
        have hr : r = row := hrow.symm.trans heq
        subst hr
        have hlookup : ∀ r', r + 1 ≤ r' →
            lookup r' ((r, text) :: expected) = expected.lookup r' := by
          intro r' hr'
          have hbeq : (r' == r) = false := beq_eq_false_iff_ne.mpr (by omega)
          rw [lookup_cons, hbeq]
        rw [lookup_cons, beq_self_eq_true]
        refine .cons (.some hv.2) ?_
        rw [map_congr_left fun r' hr' => hlookup r' (mem_range'_1.mp hr').1]
        exact ih hrest htail fun p hp => hhead p hp
      next hne =>
        have hlt : row < r :=
          Nat.lt_of_le_of_ne (hge _ mem_cons_self) fun heq => hne (hrow.trans heq.symm)
        rw [lookup_eq_none_of_forall_ne]
        · refine .cons .none (ih (.cons hv hrest) hincreasing fun p hp => ?_)
          rcases mem_cons.mp hp with rfl | hp
          · exact hlt
          · have : r < p.1 := hhead p hp
            omega
        · intro p hp
          rcases mem_cons.mp hp with rfl | hp
          · exact (Nat.ne_of_lt hlt).symm
          · exact (Nat.ne_of_lt (Nat.lt_trans hlt (hhead p hp))).symm

end Sparse

-- == cells of a sheet

theorem Sheet.length_cells (sh : Sheet F) (key : Bytes) : (sh.cells key).length = sh.rows := by
  rw [cells, length_map, length_range]

section Cells

variable {α : Type} {sh : Sheet F} (hinOrder : sh.writes.Pairwise InOrder)

include hinOrder

variable (proj : Cell F → Option α)

theorem Sheet.values_increasing (key : Bytes) : Increasing (sh.values proj key) := by
  rw [Increasing, values, pairwise_filterMap]
  refine hinOrder.imp ?_
  intro w w' hw p hp q hq
  split at hp
  next hkey =>
    split at hq
    next hkey' =>
      obtain ⟨a, -, rfl⟩ := Option.map_eq_some_iff.mp hp
      obtain ⟨a', -, rfl⟩ := Option.map_eq_some_iff.mp hq
      exact Nat.lt_of_le_of_ne hw.1 fun heq => hw.2 heq (hkey.trans hkey'.symm)
    next => cases hq
  next => cases hp

/-- The values of one type are the cells of that type. -/
theorem Sheet.lookup_values (key : Bytes) (row : Nat) :
    (sh.values proj key).lookup row = (sh.cell row key).bind proj := by
  rw [values, cell]
  generalize sh.writes = writes at hinOrder
  induction writes with
  | nil => rfl
  | cons w writes ih =>
    obtain ⟨hhead, htail⟩ := pairwise_cons.mp hinOrder
    rw [filterMap_cons, find?_cons]
    by_cases hw : w.row = row ∧ w.key = key
    · obtain ⟨hrow, hkey⟩ := hw
      rw [decide_eq_true ⟨hrow, hkey⟩, if_pos hkey, hrow]
      rw [Option.bind_some]
      cases hcell : w.cell.bind proj with
      | some a =>
        rw [Option.map_some]
        rw [lookup_cons, beq_self_eq_true]
      | none =>
        -- the field has no other cell in the row
        refine lookup_eq_none_of_forall_ne fun p hp => ?_
        obtain ⟨w', hw', hp⟩ := mem_filterMap.mp hp
        split at hp
        next hkey' =>
          obtain ⟨a, -, rfl⟩ := Option.map_eq_some_iff.mp hp
          intro heq
          exact (hhead w' hw').2 (hrow.trans heq.symm) (hkey.trans hkey'.symm)
        next => cases hp
    · rw [decide_eq_false hw]
      rw [← ih htail]
      split
      next => rfl
      next p hp =>
        split at hp
        next hkey =>
          obtain ⟨a, -, rfl⟩ := Option.map_eq_some_iff.mp hp
          have hbeq : (row == w.row) = false :=
            beq_eq_false_iff_ne.mpr fun heq => hw ⟨heq.symm, hkey⟩
          rw [lookup_cons, hbeq]
        next => cases hp

/-- The values of a field, row by row, are its cells of the type. -/
theorem Sheet.map_lookup_values (key : Bytes) :
    ((List.range sh.rows).map fun row => (sh.values proj key).lookup row)
      = (sh.cells key).map (·.bind proj) := by
  rw [cells, map_map]
  exact map_congr_left fun row _ => lookup_values hinOrder proj key row

end Cells

-- == string arrays

/-- Views that show given strings give the array of those strings, exactly
when they fit. -/
structure Faithful (buf decoded : Bytes) (arrays : StringArrays F) (spec : StringSpec F) :
    Prop where
  validity : ∀ cells, (spec.enc cells).validity = cells.map Option.isSome
  ofViews : ∀ {views cells},
    List.Forall₂ (Option.Rel fun v text => Shows buf decoded v.1 v.2 text) views cells →
    ∀ values, arrays.ofViews views = .ok values ↔ spec.fits cells ∧ values = spec.enc cells
  ofLines : ∀ {views lines},
    List.Forall₂ (fun v text => Shows buf decoded v.1 v.2 text) views lines →
    ∀ values, arrays.ofLines views = .ok values
      ↔ spec.fitsLines lines ∧ values = spec.enc (lines.map some)
  ofConstant : ∀ rows attr values, arrays.ofConstant rows attr = .ok values
      ↔ spec.fitsConstant rows attr.2
        ∧ values = spec.enc (List.replicate rows (some attr.2.bytes))

section Shows

variable {b : StreamingBuilder F} {offset len : Nat} {text : Bytes}

/-- A view of a stored text is accepted. -/
theorem appendStringView_of_shows [ArrowOps] (h : Shows b.buf b.decodedBuf offset len text) :
    b.appendStringView offset len = .ok text := by
  rw [appendStringView]
  rcases h.place with ⟨hle, hin, htext⟩ | ⟨hge, hle, htext⟩
  · rw [if_pos (by omega)]
    exact tryAppendView_ok.mpr ⟨hle, htext, h.valid⟩
  · by_cases hempty : len = 0 ∧ offset = b.buf.length
    · obtain ⟨rfl, rfl⟩ := hempty
      rw [if_pos (.inr ⟨rfl, rfl⟩)]
      have htext' : slice b.buf b.buf.length (b.buf.length + 0) = text := by
        rw [← htext, slice, slice]
        simp
      exact tryAppendView_ok.mpr ⟨Nat.le_refl _, htext', h.valid⟩
    · have hpos : b.decodedBuf ≠ [] := by
        intro hnil
        rw [hnil, length_nil] at hle
        omega
      rw [if_neg (by omega), if_pos (by simpa using hpos)]
      exact tryAppendView_ok.mpr ⟨hle, htext, h.valid⟩

/-- A stored text is read back. -/
theorem readStr_of_shows (h : Shows b.buf b.decodedBuf offset len text) :
    b.readStr offset len = some text := by
  rw [readStr]
  rcases h.place with ⟨hle, hin, htext⟩ | ⟨hge, hle, htext⟩
  · by_cases hbuf : b.decodedBuf.isEmpty ∨ offset < b.buf.length
    · rw [if_pos hbuf, if_pos hle, htext]
      simp [h.valid]
    · -- an empty string at the end of the buffer
      have hlen : len = 0 := by
        rcases hin with hlt | hlen
        · exact absurd (.inr hlt) hbuf
        · exact hlen
      subst hlen
      have htext' : text = [] := by
        rw [← htext, slice]
        simp
      have hstop : offset + 0 - b.buf.length ≤ b.decodedBuf.length := by omega
      rw [if_neg hbuf, if_pos hstop]
      have hvalid := h.valid
      rw [htext'] at hvalid ⊢
      simp [slice, hvalid]
  · have hstop : offset + len - b.buf.length = offset - b.buf.length + len := by omega
    by_cases hbuf : b.decodedBuf.isEmpty ∨ offset < b.buf.length
    · have hnil : b.decodedBuf = [] := by
        rcases hbuf with hnil | hlt
        · exact isEmpty_iff.mp hnil
        · omega
      rw [hnil, length_nil] at hle
      have hoffset : offset = b.buf.length := by omega
      have hlen : len = 0 := by omega
      subst hlen
      subst hoffset
      have htext' : text = [] := by
        rw [← htext, slice]
        simp
      have hvalid := h.valid
      rw [htext'] at hvalid ⊢
      simp [slice, hvalid]
    · rw [if_neg hbuf, hstop, if_pos hle, htext]
      simp [h.valid]

end Shows

section Arrays

variable [ArrowOps] (b : StreamingBuilder F)

theorem appendBlock_gives {block : Bytes} :
    Gives (appendBlock block) (block.length < u32Max) () :=
  fun () => appendBlock_ok.trans (and_iff_left rfl).symm

theorem appendBlocks_gives :
    Gives b.appendBlocks (b.buf.length < u32Max ∧ b.decodedBuf.length < u32Max) () := by
  refine appendBlock_gives.bind fun _ => .ite (fun hempty => .ok ?_) fun _ => appendBlock_gives
  rw [isEmpty_iff.mp hempty]
  decide

/-- So is a column of views. -/
theorem mapM_viewCell {views : List (Option (Nat × Nat))} {cells : List (Option Bytes)}
    (h : List.Forall₂ (Option.Rel fun v text => Shows b.buf b.decodedBuf v.1 v.2 text) views cells)
    (message : String) : views.mapM (b.viewCell message) = .ok cells := by
  rw [mapM_eq_ok_iff]
  refine h.imp fun view cell hcell => ?_
  cases hcell with
  | none => rfl
  | some hshows =>
    show (expect message _).map some = _
    rw [appendStringView_of_shows hshows]
    rfl

/-- `finish_batch` writes the strings that are stored. -/
theorem faithful_viewArrays :
    Faithful b.buf b.decodedBuf b.viewArrays (viewSpec b.buf.length b.decodedBuf.length) where
  validity := fun _ => rfl
  ofViews := fun {views cells} h => by
    refine (appendBlocks_gives b).bind_ok ?_
    rw [mapM_viewCell b h]
    rfl
  ofLines := fun {views lines} h => by
    have hcells : (views.mapM fun view =>
        b.viewCell "line view offset/len must be within buffer" (some view))
        = .ok (lines.map some) := by
      rw [mapM_eq_ok_iff, forall₂_map_right_iff]
      refine h.imp fun view text hshows => ?_
      show (expect _ _).map some = _
      rw [appendStringView_of_shows hshows]
      rfl
    have hblocks : Gives (b.lineBlocks views)
        (lines = [] ∨ (b.buf.length < u32Max ∧ b.decodedBuf.length < u32Max)) () := by
      cases h with
      | nil => exact .ok (.inl rfl)
      | cons hv hrest => exact (appendBlocks_gives b).congr (or_iff_right (cons_ne_nil _ _)).symm
    refine hblocks.bind_ok ?_
    rw [hcells]
    rfl
  ofConstant := fun rows attr => by
    obtain ⟨key, value⟩ := attr
    have hview : tryAppendView value.bytes 0 value.bytes.length = .ok value.bytes := by
      refine tryAppendView_ok.mpr ⟨by omega, ?_, value.valid⟩
      rw [slice]
      simp
    show Gives (if _ then _ else _) _ _
    refine .ite (fun hrows => ?_) fun hrows => .ite (fun hlen => .fail ?_) fun _ => ?_
    · subst hrows
      exact .ok (.inl rfl)
    · exact fun h => h.elim hrows (Nat.lt_asymm hlen)
    · rw [hview]
      exact .congr (.bind_ok appendBlock_gives (by rfl)) (or_iff_right hrows).symm

theorem stringBuilder_gives (cells : List (Option Bytes)) :
    Gives (stringBuilder cells) (totalLen cells ≤ i32Max) (.utf8 cells : Values F) :=
  fun _ => stringBuilder_ok

/-- So does `finish_batch_detached`, as copies. -/
theorem faithful_detachedArrays : Faithful b.buf b.decodedBuf b.detachedArrays detachedSpec where
  validity := fun _ => rfl
  ofViews := fun {views cells} h => by
    have hcells : b.detachedArrays.ofViews views = stringBuilder cells := by
      refine congrArg stringBuilder ?_
      rw [← forall₂_eq_eq_eq, forall₂_map_left_iff]
      refine h.imp fun view cell hcell => ?_
      cases hcell with
      | none => rfl
      | some hshows => exact readStr_of_shows hshows
    rw [hcells]
    exact stringBuilder_gives cells
  ofLines := fun {views lines} h => by
    have hcells : b.detachedArrays.ofLines views = stringBuilder (lines.map some) := by
      refine congrArg stringBuilder ?_
      rw [← forall₂_eq_eq_eq, forall₂_map_left_iff, forall₂_map_right_iff]
      exact h.imp fun view text hshows => readStr_of_shows hshows
    rw [hcells]
    exact stringBuilder_gives _
  ofConstant := fun rows attr => stringBuilder_gives _

end Arrays

-- == kinds

/-- A type and its cells. -/
structure OfKind {α : Type} (proj : Cell F → Option α) (kind : Kind) : Prop where
  isSome : ∀ c, (proj c).isSome = true ↔ c.kind = kind

theorem ofKind_int : OfKind (F := F) Cell.int? .int := ⟨fun c => by cases c <;> simp
    [Cell.int?, Cell.kind]⟩

theorem ofKind_float : OfKind (F := F) Cell.float? .float :=
  ⟨fun c => by cases c <;> simp [Cell.float?, Cell.kind]⟩

theorem ofKind_str : OfKind (F := F) Cell.str? .str := ⟨fun c => by cases c <;> simp
    [Cell.str?, Cell.kind]⟩

theorem ofKind_bool : OfKind (F := F) Cell.bool? .bool :=
  ⟨fun c => by cases c <;> simp [Cell.bool?, Cell.kind]⟩

variable {kind : Kind}

theorem OfKind.isSome_bind {α : Type} {proj : Cell F → Option α}
    (h : OfKind proj kind) (cell : Option (Cell F)) :
    (cell.bind proj).isSome = decide (cell.map Cell.kind = some kind) := by
  rw [Bool.eq_iff_iff]
  cases cell with
  | none => simp
  | some c => simp [h.isSome c]

variable {enc : List (Option Bytes) → Values F}

/-- Where the cells of a type are not null. -/
theorem validity_kindArray (henc : ∀ cells, (enc cells).validity = cells.map Option.isSome)
    (cells : List (Option (Cell F))) (kind : Kind) :
    (kindArray enc cells kind).validity
      = cells.map fun cell => decide (cell.map Cell.kind = some kind) := by
  have hmap : ∀ {α : Type} {proj : Cell F → Option α}, OfKind proj kind →
      (cells.map (·.bind proj)).map Option.isSome
        = cells.map fun cell => decide (cell.map Cell.kind = some kind) := by
    intro α proj h
    rw [map_map]
    exact map_congr_left fun cell _ => h.isSome_bind cell
  cases kind with
  | int => exact hmap ofKind_int
  | float => exact hmap ofKind_float
  | str => exact (henc _).trans (hmap ofKind_str)
  | bool => exact hmap ofKind_bool

/-- The types listed are those that occur. -/
theorem mem_kindsOf {cells : List (Option (Cell F))} :
    kind ∈ kindsOf cells ↔ HasKind cells kind := by
  rw [kindsOf, mem_filter, decide_eq_true_eq]
  exact and_iff_right (by cases kind <;> decide)

/-- A row of a conflict struct is null when all its children are. -/
theorem anyValid_kindArray (henc : ∀ cells, (enc cells).validity = cells.map Option.isSome)
    (cells : List (Option (Cell F))) :
    anyValid cells.length
        ((kindsOf cells).map fun kind => (kind, kindArray enc cells kind))
      = cells.map Option.isSome := by
  apply ext_getElem?
  intro i
  rw [anyValid, getElem?_map, getElem?_map]
  rcases Nat.lt_or_ge i cells.length with hi | hi
  · rw [getElem?_range hi, getElem?_eq_getElem hi, Option.map_some, Option.map_some,
      Option.some.injEq, Bool.eq_iff_iff, any_eq_true]
    have hvalid : ∀ kind, ((kindArray enc cells kind).validity.getD i false)
        ↔ cells[i].map Cell.kind = some kind := by
      intro kind
      rw [validity_kindArray henc, getD_eq_getElem?_getD, getElem?_map,
        getElem?_eq_getElem hi, Option.map_some, Option.getD_some, decide_eq_true_eq]
    constructor
    · rintro ⟨child, hchild, hi'⟩
      obtain ⟨kind, -, rfl⟩ := mem_map.mp hchild
      have hkind := (hvalid kind).mp hi'
      cases hcell : cells[i] with
      | none =>
        rw [hcell] at hkind
        cases hkind
      | some c => rfl
    · intro hsome
      obtain ⟨c, hc⟩ := Option.isSome_iff_exists.mp hsome
      have hkind : cells[i].map Cell.kind = some c.kind := by
        rw [hc]
        rfl
      refine ⟨_, mem_map.mpr ⟨c.kind, ?_, rfl⟩, (hvalid c.kind).mpr hkind⟩
      exact mem_kindsOf.mpr ⟨cells[i], getElem_mem hi, hkind⟩
  · rw [getElem?_eq_none (by rw [length_range]; exact hi), getElem?_eq_none hi]
    rfl

-- == names

/-- What emitting a column, or none, does; it works if `ok`. -/
def Emits (column : Option (Bytes × Column F)) (ok : Prop) (e e' : StreamingBuilder.Emitted F) :
    Prop :=
  match column with
  | none => e' = e
  | some c => ok ∧ c.1 ∉ e.names ∧ e' = { columns := e.columns ++ [c], names := c.1 :: e.names }

/-- A name is reserved unless it is taken. -/
theorem reserveName_gives (name : Bytes) (names : List Bytes) :
    Gives (reserveName name names) (name ∉ names) (name :: names) :=
  .ite (fun h => .fail (not_not_intro h)) .ok

variable {e : StreamingBuilder.Emitted F}

theorem Gives.emits {x : Except Failure (StreamingBuilder.Emitted F)} {ok : Prop}
    {c : Bytes × Column F}
    (h : Gives x (ok ∧ c.1 ∉ e.names) { columns := e.columns ++ [c], names := c.1 :: e.names })
    (e' : StreamingBuilder.Emitted F) : x = .ok e' ↔ Emits (some c) ok e e' :=
  (h e').trans and_assoc

/-- Columns emitted one after the other: all of them work, and their names
are apart. -/
theorem foldlM_emits {ι : Type} {step : StreamingBuilder.Emitted F → ι →
      Except Failure (StreamingBuilder.Emitted F)}
    {column : ι → Option (Bytes × Column F)} {ok : ι → Prop} {items : List ι}
    (hstep : ∀ i ∈ items, ∀ e e', step e i = .ok e' ↔ Emits (column i) (ok i) e e')
    (hnames : e.names.Nodup) :
    Gives (items.foldlM step e)
      ((∀ i ∈ items, (column i).isSome → ok i)
        ∧ (((items.filterMap column).map Prod.fst).reverse ++ e.names).Nodup)
      { columns := e.columns ++ items.filterMap column
        names := ((items.filterMap column).map Prod.fst).reverse ++ e.names } := by
  induction items generalizing e with
  | nil =>
    rw [filterMap_nil, append_nil]
    exact .ok ⟨nofun, hnames⟩
  | cons i items ih =>
    have htail : ∀ j ∈ items, ∀ e e', step e j = .ok e' ↔ Emits (column j) (ok j) e e' :=
      fun j hj => hstep j (mem_cons_of_mem _ hj)
    have hhead := hstep i mem_cons_self e
    rw [forall_mem_cons, filterMap_cons]
    cases hcolumn : column i with
    | none =>
      rw [hcolumn] at hhead
      have hsame : Gives (step e i) True e := fun e₁ =>
        (hhead e₁).trans ⟨fun h => ⟨trivial, h⟩, And.right⟩
      exact (hsame.bind fun _ => ih htail hnames).congr (by simp)
    | some c =>
      rw [hcolumn] at hhead
      rw [map_cons, reverse_cons, append_assoc]
      have hadds : Gives (step e i) (ok i ∧ c.1 ∉ e.names)
          { columns := e.columns ++ [c], names := c.1 :: e.names } :=
        fun e₁ => (hhead e₁).trans and_assoc.symm
      have hall := hadds.bind (f := fun e => items.foldlM step e) fun hp =>
        ih htail (nodup_cons.mpr ⟨hp.2, hnames⟩)
      rw [append_assoc] at hall
      refine hall.congr ⟨fun ⟨hp, hoks, hnodup⟩ => ⟨⟨fun _ => hp.1, hoks⟩, hnodup⟩, ?_⟩
      rintro ⟨⟨hok, hoks⟩, hnodup⟩
      exact ⟨⟨hok rfl, (nodup_cons.mp (nodup_append.mp hnodup).2.1).1⟩, hoks, hnodup⟩

-- == fields

section Field

variable {b : StreamingBuilder F} {sh : Sheet F} (h : Represents b sh)
  (hbatch : b.lifecycle.state = .inBatch) {i : Nat} {key : Bytes} {fc : FieldColumns F}
  (hrep : FieldRep b.buf b.decodedBuf sh i key fc)

include h

/-- The stored values of a type are the cells of that type. -/
theorem scatter_values {α : Type} {proj : Cell F → Option α} {values : List (Nat × α)} {flag : Bool}
    (hholds : Holds Eq values flag (sh.values proj key)) :
    scatter sh.rows values = (sh.cells key).map (·.bind proj) := by
  have hvalues : values = sh.values proj key := by
    rw [← forall₂_eq_eq_eq]
    exact hholds.values
  rw [hvalues, scatter_eq (Sheet.values_increasing h.writes_inOrder proj key),
    Sheet.map_lookup_values h.writes_inOrder]

include hbatch in
theorem values_ne_nil_iff {α : Type} {proj : Cell F → Option α} {kind : Kind}
    (hkind : OfKind proj kind) : sh.values proj key ≠ [] ↔ HasKind (sh.cells key) kind := by
  have hcell : ∀ row, (sh.cell row key).map Cell.kind = some kind
      ↔ ((sh.values proj key).lookup row).isSome := by
    intro row
    rw [Sheet.lookup_values h.writes_inOrder, hkind.isSome_bind, decide_eq_true_eq]
  constructor
  · intro hne
    obtain ⟨⟨row, a⟩, hmem⟩ := exists_mem_of_ne_nil _ hne
    have hrow : row < sh.rows := by
      obtain ⟨w, hw, hp⟩ := mem_filterMap.mp hmem
      split at hp
      · obtain ⟨a', -, heq⟩ := Option.map_eq_some_iff.mp hp
        cases heq
        exact h.writes_lt hbatch w hw
      · cases hp
    refine ⟨sh.cell row key, mem_map.mpr ⟨row, mem_range.mpr hrow, rfl⟩, ?_⟩
    rw [hcell]
    cases hlookup : (sh.values proj key).lookup row with
    | some a' => rfl
    | none =>
      rw [lookup_eq_none_iff] at hlookup
      exact absurd rfl (bne_iff_ne.mp (hlookup _ hmem))
  · rintro ⟨cell, hmem, hcellKind⟩ hnil
    obtain ⟨row, -, rfl⟩ := mem_map.mp hmem
    rw [hcell, hnil] at hcellKind
    cases hcellKind

include hbatch hrep

/-- The flags of a field tell the types of its cells. -/
theorem kinds_eq : fc.kinds = kindsOf (sh.cells key) := by
  have hhas : ∀ {α β : Type} {R : β → Nat × α → Prop} {values : List β} {flag : Bool}
      {proj : Cell F → Option α} {kind : Kind}, Holds R values flag (sh.values proj key) →
      OfKind proj kind → flag = decide (HasKind (sh.cells key) kind) := by
    intro α β R values flag proj kind hholds hkind
    rw [Bool.eq_iff_iff, decide_eq_true_eq, hholds.flag]
    exact values_ne_nil_iff h hbatch hkind
  refine filter_congr fun kind _ => ?_
  cases kind with
  | int => exact hhas hrep.ints ofKind_int
  | float => exact hhas hrep.floats ofKind_float
  | str => exact hhas hrep.strs ofKind_str
  | bool => exact hhas hrep.bools ofKind_bool

omit hbatch

variable {arrays : StringArrays F} {spec : StringSpec F}

/-- The array of a type holds the cells of that type. -/
theorem kindValues_gives (hf : Faithful b.buf b.decodedBuf arrays spec) (kind : Kind) :
    Gives (kindValues arrays sh.rows fc kind)
      (kind = .str → spec.fits ((sh.cells key).map (·.bind Cell.str?)))
      (kindArray spec.enc (sh.cells key) kind) := by
  cases kind with
  | int => exact .ok_of_eq (congrArg Values.int64 (scatter_values h hrep.ints)) nofun
  | float => exact .ok_of_eq (congrArg Values.float64 (scatter_values h hrep.floats)) nofun
  | bool => exact .ok_of_eq (congrArg Values.boolean (scatter_values h hrep.bools)) nofun
  | str =>
    have hviews := viewsByRow_shows hrep.strs.values
      (Sheet.values_increasing h.writes_inOrder Cell.str? key) (fun _ _ => Nat.zero_le _) sh.rows
    rw [← range_eq_range', Sheet.map_lookup_values h.writes_inOrder] at hviews
    exact .congr (hf.ofViews hviews) ⟨fun hfits _ => hfits, fun hfits => hfits rfl⟩

/-- The children of a conflict struct. -/
theorem children_gives (hf : Faithful b.buf b.decodedBuf arrays spec) :
    Gives ((kindsOf (sh.cells key)).mapM fun kind => do
        let values ← kindValues arrays sh.rows fc kind
        pure (kind, values))
      (HasKind (sh.cells key) .str → spec.fits ((sh.cells key).map (·.bind Cell.str?)))
      ((kindsOf (sh.cells key)).map fun kind =>
        (kind, kindArray spec.enc (sh.cells key) kind)) := by
  refine .congr (.mapM fun kind _ => (kindValues_gives h hrep hf kind).bind_pure) ?_
  refine ⟨fun hall hkind => ?_, fun hfits kind hkind hstr => ?_⟩
  · exact hall .str (mem_kindsOf.mpr hkind) rfl
  · exact hfits (mem_kindsOf.mp (hstr ▸ hkind))

/-- A field is emitted as the column of its cells. -/
theorem emitField_ok (hbatch : b.lifecycle.state = .inBatch)
    (hf : Faithful b.buf b.decodedBuf arrays spec)
    (e e' : StreamingBuilder.Emitted F) :
    emitField arrays b.lineFieldName sh.rows fc e = .ok e'
      ↔ Emits (sh.contents.fieldColumn spec b.lineFieldName key)
        (HasKind (sh.cells key) .str → spec.fits ((sh.cells key).map (·.bind Cell.str?))) e e' := by
  rw [emitField, Contents.fieldColumn, hrep.name]
  by_cases hline : b.lineFieldName = some (fromUtf8Lossy key)
  · rw [if_pos hline, if_pos hline]
    exact ⟨fun heq => (Except.ok.inj heq).symm, fun heq => congrArg Except.ok heq.symm⟩
  · rw [if_neg hline, if_neg hline, kinds_eq h hbatch hrep]
    show _ ↔ Emits ((columnOf spec.enc (sh.cells key)).map _) _ _ _
    rw [columnOf]
    have hstr : ∀ {kind : Kind}, kindsOf (sh.cells key) = [kind] →
        ((kind = .str → spec.fits ((sh.cells key).map (·.bind Cell.str?)))
          ↔ (HasKind (sh.cells key) .str → spec.fits ((sh.cells key).map (·.bind Cell.str?)))) := by
      intro kind hkinds
      rw [← mem_kindsOf, hkinds, mem_singleton, eq_comm]
    cases hkinds : kindsOf (sh.cells key) with
    | nil => exact ⟨fun heq => (Except.ok.inj heq).symm, fun heq => congrArg Except.ok heq.symm⟩
    | cons kind rest =>
      cases rest with
      | nil =>
        refine Gives.emits ?_ e'
        have hvalues := kindValues_gives h hrep hf kind
        refine ((reserveName_gives _ _).bind fun _ => hvalues.bind_pure).congr ?_
        rw [hstr hkinds, and_comm]
      | cons kind' rest =>
        have hvalid : anyValid sh.rows
            ((kindsOf (sh.cells key)).map fun kind =>
              (kind, kindArray spec.enc (sh.cells key) kind))
            = (sh.cells key).map Option.isSome := by
          rw [← sh.length_cells key]
          exact anyValid_kindArray hf.validity (sh.cells key)
        have hchildren := children_gives h hrep hf
        rw [hkinds] at hchildren hvalid
        refine Gives.emits ?_ e'
        rw [← hvalid]
        refine .bind hchildren fun _ => ?_
        exact (reserveName_gives _ _).bind_pure

end Field

-- == tables

section Table

variable {b : StreamingBuilder F} {sh : Sheet F} {arrays : StringArrays F} {spec : StringSpec F}

variable {cells : List (Option (Cell F))}

/-- A column is as long as its cells. -/
theorem length_columnOf (henc : ∀ cells, (enc cells).validity = cells.map Option.isSome)
    {column : Column F} (h : columnOf enc cells = some column) :
    column.length = cells.length := by
  rw [columnOf] at h
  split at h
  next => cases h
  next kind _ =>
    cases h
    rw [Column.length, validity_kindArray henc, length_map]
  next =>
    cases h
    rw [Column.length, length_map]

/-- A column is missing when all cells are null. -/
theorem columnOf_isSome_iff : (columnOf enc cells).isSome ↔ ∃ kind, HasKind cells kind := by
  have hkinds : (∃ kind, HasKind cells kind) ↔ kindsOf cells ≠ [] := by
    simp only [← mem_kindsOf]
    exact ⟨fun ⟨kind, hkind⟩ => ne_nil_of_mem hkind, exists_mem_of_ne_nil _⟩
  rw [hkinds, columnOf]
  split
  next hnil => simp [hnil]
  next hone => simp [hone]
  next hsome _ => exact ⟨fun _ => hsome, fun _ => rfl⟩

/-- All columns have the rows of the sheet. -/
theorem length_of_mem_columns
    (henc : ∀ cells, (spec.enc cells).validity = cells.map Option.isSome) {line : Option Bytes}
    (hlines : line.isSome → sh.lines.length = sh.rows) {attrs : List (Str × Str)}
    {column : Bytes × Column F} (hmem : column ∈ sh.contents.columns spec line attrs) :
    column.2.length = sh.rows := by
  rcases mem_append.mp hmem with hmem | hmem
  · rcases mem_append.mp hmem with hmem | hmem
    · obtain ⟨key, -, hcolumn⟩ := mem_filterMap.mp hmem
      rw [Contents.fieldColumn] at hcolumn
      split at hcolumn
      · cases hcolumn
      · obtain ⟨c, hc, rfl⟩ := Option.map_eq_some_iff.mp hcolumn
        exact (length_columnOf henc hc).trans (sh.length_cells key)
    · obtain ⟨name, hname, rfl⟩ := mem_map.mp hmem
      have hsome : line.isSome := by
        rw [Option.mem_toList.mp hname]
        rfl
      show (spec.enc (sh.lines.map some)).validity.length = sh.rows
      rw [henc, length_map, length_map, hlines hsome]
  · obtain ⟨attr, -, rfl⟩ := mem_map.mp hmem
    show (spec.enc (replicate sh.rows (some attr.2.bytes))).validity.length = sh.rows
    rw [henc, length_map, length_replicate]

variable (h : Represents b sh)

include h

/-- The slots in use are the fields. -/
theorem activeFields_names : b.activeFields.map FieldColumns.name = sh.order := by
  apply ext_getElem?
  intro i
  rw [getElem?_map, activeFields, h.numActive]
  cases hkey : sh.order[i]? with
  | some key =>
    obtain ⟨fc, hfc, hrep⟩ := h.field i key hkey
    rw [getElem?_take_of_lt (List.getElem?_eq_some_iff.mp hkey).1, hfc, Option.map_some, hrep.name]
  | none =>
    rw [getElem?_eq_none]
    · rfl
    · rw [length_take]
      have := getElem?_eq_none_iff.mp hkey
      omega

theorem fieldRep_of_mem_activeFields {fc : FieldColumns F} (hfc : fc ∈ b.activeFields) :
    ∃ i, FieldRep b.buf b.decodedBuf sh i fc.name fc := by
  obtain ⟨i, hi⟩ := mem_iff_getElem?.mp hfc
  have hkey : sh.order[i]? = some fc.name := by
    rw [← activeFields_names h, getElem?_map, hi, Option.map_some]
  obtain ⟨fc', hfc', hrep⟩ := h.field i fc.name hkey
  rw [activeFields, h.numActive,
    getElem?_take_of_lt (List.getElem?_eq_some_iff.mp hkey).1, hfc'] at hi
  cases hi
  exact ⟨i, hrep⟩

variable (hbatch : b.lifecycle.state = .inBatch) (hf : Faithful b.buf b.decodedBuf arrays spec)

include hbatch hf

/-- All fields are emitted, under names that are free. -/
theorem emitFields_gives :
    Gives (b.activeFields.foldlM (fun e fc => emitField arrays b.lineFieldName sh.rows fc e)
        { columns := [], names := b.lineFieldName.toList })
      ((∀ key ∈ sh.order, b.lineFieldName ≠ some (fromUtf8Lossy key) →
          HasKind (sh.cells key) .str → spec.fits ((sh.cells key).map (·.bind Cell.str?)))
        ∧ (((sh.contents.fieldColumns spec b.lineFieldName).map Prod.fst).reverse
            ++ b.lineFieldName.toList).Nodup)
      { columns := sh.contents.fieldColumns spec b.lineFieldName
        names := ((sh.contents.fieldColumns spec b.lineFieldName).map Prod.fst).reverse
          ++ b.lineFieldName.toList } := by
  have hcolumns : (b.activeFields.filterMap fun fc =>
      sh.contents.fieldColumn spec b.lineFieldName fc.name)
      = sh.contents.fieldColumns spec b.lineFieldName := by
    show _ = sh.order.filterMap _
    rw [← activeFields_names h, filterMap_map]
    rfl
  have hnodup : b.lineFieldName.toList.Nodup := by cases b.lineFieldName <;> simp
  intro e'
  rw [foldlM_emits (fun fc hfc e e' => ?step) hnodup e', hcolumns]
  case step =>
    obtain ⟨i, hrep⟩ := fieldRep_of_mem_activeFields h hfc
    exact emitField_ok h hrep hbatch hf e e'
  refine and_congr_left' (and_congr_left' ?_)
  rw [← activeFields_names h, forall_mem_map]
  refine forall₂_congr fun fc _ => ?_
  rw [Contents.fieldColumn]
  constructor
  · intro hok hline hkind
    refine hok ?_ hkind
    rw [if_neg hline, Option.isSome_map]
    exact columnOf_isSome_iff.mpr ⟨_, hkind⟩
  · intro hok hsome hkind
    refine hok (fun hline => ?_) hkind
    rw [if_pos hline] at hsome
    cases hsome

omit hbatch

/-- The captured lines are a column. -/
theorem emitLines_gives (e : StreamingBuilder.Emitted F) :
    Gives (b.emitLines arrays sh.rows e)
      ((b.lineFieldName.isSome → sh.lines.length = sh.rows)
        ∧ (b.lineFieldName.isSome → spec.fitsLines sh.lines))
      { e with columns := e.columns ++ sh.contents.lineColumns spec b.lineFieldName } := by
  rw [emitLines]
  cases b.lineFieldName with
  | none =>
    show Gives (.ok e) _ { e with columns := e.columns ++ [] }
    rw [append_nil]
    exact .ok ⟨nofun, nofun⟩
  | some name =>
    rw [h.lines.length_eq]
    refine .ite (fun hne => .fail fun hlines => hne (hlines.1 rfl)) fun heq => ?_
    have hvalues : Gives (arrays.ofLines b.lineViews) _ _ := hf.ofLines h.lines
    refine .congr hvalues.bind_pure ⟨fun hfits => ?_, fun hlines => hlines.2 rfl⟩
    exact ⟨fun _ => not_not.mp heq, fun _ => hfits⟩

omit h

/-- A resource attribute is a constant column. -/
theorem emitResource_ok (attr : Str × Str) (rows : Nat) (e e' : StreamingBuilder.Emitted F) :
    emitResource arrays rows attr e = .ok e'
      ↔ Emits (some (resourceColName attr.1.bytes,
          .flat (spec.enc (List.replicate rows (some attr.2.bytes)))))
        (spec.fitsConstant rows attr.2) e e' := by
  refine Gives.emits ?_ e'
  have hvalues : Gives (arrays.ofConstant rows attr) _ _ := hf.ofConstant rows attr
  exact ((reserveName_gives _ _).bind fun _ => hvalues.bind_pure).congr and_comm

include h hbatch

/-- A finaliser makes the table of the batch when there is one. -/
theorem finishWith_ok [ArrowOps] (batch : RecordBatch F) :
    b.finishWith arrays = .ok batch
      ↔ sh.contents.Fits spec b.lineFieldName b.resourceAttrs ∧ batch.numRows = sh.rows
        ∧ batch.columns = sh.contents.columns spec b.lineFieldName b.resourceAttrs := by
  have hresource : b.resourceAttrs.filterMap (fun attr => some (resourceColName attr.1.bytes,
        .flat (spec.enc (replicate sh.rows (some attr.2.bytes)))))
      = sh.contents.resourceColumns spec b.resourceAttrs :=
    congrFun filterMap_eq_map' b.resourceAttrs
  have hnames : (((sh.contents.resourceColumns spec b.resourceAttrs).map Prod.fst).reverse
      ++ (((sh.contents.fieldColumns spec b.lineFieldName).map Prod.fst).reverse
        ++ b.lineFieldName.toList)).Nodup
      ↔ ((sh.contents.columns spec b.lineFieldName b.resourceAttrs).map Prod.fst).Nodup := by
    have hline : (sh.contents.lineColumns spec b.lineFieldName).map Prod.fst
        = b.lineFieldName.toList := by
      rw [Contents.lineColumns, map_map]
      exact map_id _
    rw [Contents.columns, map_append, map_append, hline]
    refine Perm.nodup_iff (perm_append_comm.trans ?_)
    exact ((reverse_perm _).append_right _).append (reverse_perm _)
  rw [finishWith, h.rows, bind_eq_ok_iff]
  constructor
  · rintro ⟨e₁, he₁, hrest⟩
    obtain ⟨⟨hstrs, hnodup⟩, rfl⟩ := (emitFields_gives h hbatch hf e₁).mp he₁
    obtain ⟨e₂, he₂, hrest⟩ := bind_eq_ok_iff.mp hrest
    obtain ⟨⟨hlines, hlineTexts⟩, rfl⟩ := (emitLines_gives h hf _ e₂).mp he₂
    obtain ⟨e₃, he₃, hnew⟩ := bind_eq_ok_iff.mp hrest
    obtain ⟨⟨hconstants, hnodup'⟩, rfl⟩ := (foldlM_emits
      (fun attr _ e e' => emitResource_ok hf attr sh.rows e e') hnodup e₃).mp he₃
    rw [hresource] at hnew hnodup'
    refine ⟨⟨hnames.mp hnodup', hlines, hstrs, hlineTexts, ?_⟩, ?_⟩
    · exact fun attr hattr => hconstants attr hattr rfl
    · exact tryNew_ok.mp hnew
  · rintro ⟨hfits, hbatch'⟩
    have hnodup' := hnames.mpr hfits.names
    have hnodup := (nodup_append.mp hnodup').2.1
    refine ⟨_, (emitFields_gives h hbatch hf _).mpr ⟨⟨hfits.strs, hnodup⟩, rfl⟩, ?_⟩
    refine bind_eq_ok_iff.mpr
      ⟨_, (emitLines_gives h hf _ _).mpr ⟨⟨hfits.lines, hfits.lineTexts⟩, rfl⟩, ?_⟩
    refine bind_eq_ok_iff.mpr ⟨_, (foldlM_emits
      (fun attr _ e e' => emitResource_ok hf attr sh.rows e e') hnodup _).mpr
        ⟨⟨fun attr hattr _ => hfits.constants attr hattr, ?_⟩, rfl⟩, ?_⟩
    · rw [hresource]
      exact hnodup'
    · rw [hresource]
      exact tryNew_ok.mpr hbatch'

end Table

end FastForward.Arrow
