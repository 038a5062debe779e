/-
The builder keeps a sheet.

`Represents` says how: the slots in use are the fields in the order of
their resolution, with the cells of each type in its lists; the others are
clear; the bit mask and the last rows tell which fields have their cell in
the current row. Every call keeps it, so that what a builder has after the
calls of a batch is the sheet of those calls, whatever it was used for
before.

The last row of a field starts at `u32::MAX`, which is also a row: in that
row the fields from 64 on would count as written. A row of that number can
begin and cannot end, so that no batch comes of it (`Overflowing`).
-/
import FastForward.Arrow.Sheet
import FastForward.Lib.Run
import Mathlib.Data.List.Forall2

namespace FastForward.Arrow

open Core Lib List StreamingBuilder Sheet Option

variable {F : Type}

-- == views

/-- The view shows the text: it lies in the input buffer, or behind it in
the decoded strings. -/
structure Shows (buf decoded : Bytes) (offset len : Nat) (text : Bytes) : Prop where
  valid : validUtf8 text = true
  place : (offset + len ≤ buf.length ∧ (offset < buf.length ∨ len = 0)
        ∧ slice buf offset (offset + len) = text)
      ∨ (buf.length ≤ offset ∧ offset - buf.length + len ≤ decoded.length
        ∧ slice decoded (offset - buf.length) (offset - buf.length + len) = text)

theorem slice_append_of_le (a b : Bytes) {start stop : Nat} (h : stop ≤ a.length) :
    slice (a ++ b) start stop = slice a start stop := by
  by_cases hstart : start ≤ a.length
  · rw [slice, slice, drop_append_of_le_length hstart, take_append_of_le_length]
    rw [length_drop]
    omega
  · have hempty : stop - start = 0 := by omega
    rw [slice, slice, hempty, take_zero, take_zero]

theorem slice_append_right (a b : Bytes) : slice (a ++ b) a.length (a.length + b.length) = b := by
  rw [slice, drop_left, Nat.add_sub_cancel_left, take_length]

variable {text : Bytes}

theorem Shows.append {buf decoded : Bytes} {offset len : Nat}
    (h : Shows buf decoded offset len text) (more : Bytes) :
    Shows buf (decoded ++ more) offset len text where
  valid := h.valid
  place := by
    rcases h.place with hbuf | ⟨hle, hlen, htext⟩
    · exact .inl hbuf
    · refine .inr ⟨hle, ?_, ?_⟩
      · rw [length_append]
        omega
      · rw [slice_append_of_le _ _ hlen, htext]

theorem Shows.of_slice {buf : Bytes} {s : Slice} (hin : s.InBuf buf)
    (hvalid : validUtf8 (s.bytes buf)) (decoded : Bytes) :
    Shows buf decoded s.start s.len (s.bytes buf) where
  valid := hvalid
  place := by
    refine .inl ⟨hin, ?_, rfl⟩
    rw [Slice.InBuf] at hin
    omega

theorem Shows.of_copy (hvalid : validUtf8 text) (buf decoded : Bytes) :
    Shows buf (decoded ++ text) (buf.length + decoded.length) text.length text where
  valid := hvalid
  place := by
    refine .inr ⟨Nat.le_add_right _ _, ?_, ?_⟩
    · rw [length_append]
      omega
    · rw [Nat.add_sub_cancel_left, slice_append_right]

-- == bits

theorem checkDupBits_of_lt {idx : Nat} (h : idx < 64) (bits : U64) :
    checkDupBits bits idx
      = if bits.getLsbD idx then (true, bits) else (false, bits ||| BitVec.twoPow 64 idx) := by
  rw [checkDupBits, if_neg (by omega), ← BitVec.twoPow_eq]
  dsimp only
  rw [BitVec.and_twoPow]
  cases hbit : bits.getLsbD idx with
  | true =>
    have hne : .twoPow 64 idx ≠ 0#64 := by
      intro heq
      have := congrArg (·.getLsbD idx) heq
      simp [h] at this
    rw [if_pos rfl, if_pos hne, if_pos rfl]
  | false => simp

theorem checkDupBits_of_le {idx : Nat} (h : 64 ≤ idx) (bits : U64) :
    checkDupBits bits idx = (false, bits) := if_pos h

-- == fields

/-- The cells of one type that a field has, with their rows. -/
def Sheet.values {α : Type} (sh : Sheet F) (proj : Cell F → Option α) (key : Bytes) :
    List (Nat × α) :=
  sh.writes.filterMap fun w => if w.key = key then (w.cell.bind proj).map (w.row, ·) else none

/-- The field was last written in `row`; never, if that is `u32::MAX`. -/
def Sheet.LastWritten (sh : Sheet F) (key : Bytes) (row : Nat) : Prop :=
  (row = u32Max ∧ ∀ w ∈ sh.writes, w.key ≠ key)
    ∨ ((∃ w ∈ sh.writes, w.key = key ∧ w.row = row)
      ∧ ∀ w ∈ sh.writes, w.key = key → w.row ≤ row)

/-- The list and the flag of one type are those of the cells `expected`,
of which `R` tells how they are kept. -/
structure Holds {α β : Type} (R : β → Nat × α → Prop) (values : List β) (flag : Bool)
    (expected : List (Nat × α)) : Prop where
  values : List.Forall₂ R values expected
  flag : flag = true ↔ expected ≠ []

/-- How a string is kept. -/
def ViewShows (buf decoded : Bytes) (v : StrView) (p : Nat × Bytes) : Prop :=
  v.row = p.1 ∧ Shows buf decoded v.offset v.len p.2

/-- A slot has the cells of a field. -/
structure FieldRep (buf decoded : Bytes) (sh : Sheet F) (i : Nat) (key : Bytes)
    (fc : FieldColumns F) : Prop where
  name : fc.name = key
  ints : Holds Eq fc.intValues fc.hasInt (sh.values Cell.int? key)
  floats : Holds Eq fc.floatValues fc.hasFloat (sh.values Cell.float? key)
  bools : Holds Eq fc.boolValues fc.hasBool (sh.values Cell.bool? key)
  strs : Holds (ViewShows buf decoded) fc.strViews fc.hasStr (sh.values Cell.str? key)
  lastRow : 64 ≤ i → sh.LastWritten key fc.lastRow

variable {flag : Bool}

theorem Holds.push {α β : Type} {R : β → Nat × α → Prop} {values : List β}
    {expected : List (Nat × α)} (h : Holds R values flag expected) {v : β} {p : Nat × α}
    (hv : R v p) : Holds R (values ++ [v]) true (expected ++ [p]) where
  values := rel_append h.values (.cons hv .nil)
  flag := by simp

theorem Holds.of_eq {α β : Type} {R : β → Nat × α → Prop} {values : List β}
    {expected expected' : List (Nat × α)} (h : Holds R values flag expected)
    (heq : expected' = expected) : Holds R values flag expected' := heq ▸ h

section Fields

variable {α : Type} (sh : Sheet F) (proj : Cell F → Option α) {key other : Bytes}
  (cell : Option (Cell F)) (copied : Nat)

theorem Sheet.values_write_self :
    (sh.write key cell copied).values proj key
      = sh.values proj key ++ ((cell.bind proj).map (sh.rows, ·)).toList := by
  rw [values, write, filterMap_append, filterMap_cons]
  rw [if_pos rfl]
  cases (cell.bind proj).map (sh.rows, ·) <;> rfl

theorem Sheet.values_write_of_ne (h : key ≠ other) :
    (sh.write key cell copied).values proj other = sh.values proj other := by
  rw [values, write, filterMap_append, filterMap_cons, filterMap_nil]
  rw [if_neg h, append_nil]
  rfl

end Fields

/-- What `push` does to a slot is what the cell asks for. -/
inductive Pushes (buf decoded : Bytes) (row : Nat) :
    Option (Cell F) → (FieldColumns F → FieldColumns F) → Prop
  | null : Pushes buf decoded row none fun fc => fc
  | int (n : Int) : Pushes buf decoded row (some (.int n)) (FieldColumns.pushInt n row)
  | float (x : F) : Pushes buf decoded row (some (.float x)) (FieldColumns.pushFloat x row)
  | bool (b : Bool) : Pushes buf decoded row (some (.bool b)) (FieldColumns.pushBool b row)
  | str {offset len : Nat} {text : Bytes} (h : Shows buf decoded offset len text) :
      Pushes buf decoded row (some (.str text)) (FieldColumns.pushStr offset len row)

section Push

variable {buf decoded : Bytes} {sh : Sheet F} {i : Nat} {key : Bytes} {fc : FieldColumns F}

theorem FieldRep.decode (h : FieldRep buf decoded sh i key fc) (more : Bytes) :
    FieldRep buf (decoded ++ more) sh i key fc :=
  { h with
    strs := ⟨h.strs.values.imp fun _ _ hv => ⟨hv.1, hv.2.append more⟩, h.strs.flag⟩ }

/-- The slot of another field. -/
theorem FieldRep.write_of_ne (h : FieldRep buf decoded sh i key fc) {other : Bytes}
    (hne : other ≠ key) (cell : Option (Cell F)) (copied : Nat) :
    FieldRep buf decoded (sh.write other cell copied) i key fc := by
  have hvalues : ∀ {α : Type} (proj : Cell F → Option α),
      (sh.write other cell copied).values proj key = sh.values proj key :=
    fun proj => values_write_of_ne sh proj cell copied hne
  have hold : ∀ w ∈ (sh.write other cell copied).writes, w.key = key → w ∈ sh.writes := by
    intro w hw hkey
    rcases mem_append.mp hw with hw | hw
    · exact hw
    · rw [mem_singleton.mp hw] at hkey
      exact absurd hkey hne
  refine ⟨h.name, h.ints.of_eq (hvalues _), h.floats.of_eq (hvalues _), h.bools.of_eq (hvalues _),
    h.strs.of_eq (hvalues _), fun hi => ?_⟩
  rcases h.lastRow hi with ⟨hrow, hnone⟩ | ⟨⟨w, hw, hwk, hwr⟩, hle⟩
  · exact .inl ⟨hrow, fun w hw hkey => hnone w (hold w hw hkey) hkey⟩
  · exact .inr ⟨⟨w, mem_append_left _ hw, hwk, hwr⟩, fun w hw hkey => hle w (hold w hw hkey) hkey⟩

/-- The fields that `markRow` leaves. -/
theorem markRow_eq (row : Nat) (fc : FieldColumns F) :
    ∃ lastRow, markRow i row fc = { fc with lastRow } ∧ (64 ≤ i → lastRow = row) := by
  rw [markRow]
  split
  · exact ⟨row, rfl, fun _ => rfl⟩
  next h => exact ⟨fc.lastRow, rfl, fun hi => absurd hi h⟩

/-- The slot of the field that gets a cell. -/
theorem FieldRep.write (h : FieldRep buf decoded sh i key fc)
    (hle : ∀ w ∈ sh.writes, w.row ≤ sh.rows) {cell : Option (Cell F)}
    {push : FieldColumns F → FieldColumns F} (hpush : Pushes buf decoded sh.rows cell push)
    (copied : Nat) :
    FieldRep buf decoded (sh.write key cell copied) i key
      (push (markRow i sh.rows fc)) := by
  obtain ⟨lastRow, hmark, hlast⟩ := markRow_eq sh.rows fc
  have hwritten : 64 ≤ i → (sh.write key cell copied).LastWritten key lastRow := by
    intro hi
    rw [hlast hi]
    refine .inr ⟨⟨_, mem_append_right _ mem_cons_self, rfl, rfl⟩, fun w hw _ => ?_⟩
    rcases mem_append.mp hw with hw | hw
    · exact hle w hw
    · cases mem_singleton.mp hw
      exact Nat.le_refl _
  -- a cell goes to the list of its type, and the others stay
  have hpushed {α : Type} {proj : Cell F → Option α} {v : α} (hv : cell.bind proj = some v) :
      (sh.write key cell copied).values proj key = sh.values proj key ++ [(sh.rows, v)] := by
    rw [values_write_self, hv, map_some, toList_some]
  have hsame {α : Type} {proj : Cell F → Option α} (hnone : cell.bind proj = none) :
      (sh.write key cell copied).values proj key = sh.values proj key := by
    rw [values_write_self, hnone, map_none, toList_none, append_nil]
  rw [hmark]
  cases hpush with
  | null =>
    exact ⟨h.name, h.ints.of_eq (hsame rfl), h.floats.of_eq (hsame rfl), h.bools.of_eq (hsame rfl),
      h.strs.of_eq (hsame rfl), hwritten⟩
  | int n =>
    exact ⟨h.name, (h.ints.push rfl).of_eq (hpushed rfl), h.floats.of_eq (hsame rfl),
      h.bools.of_eq (hsame rfl), h.strs.of_eq (hsame rfl), hwritten⟩
  | float x =>
    exact ⟨h.name, h.ints.of_eq (hsame rfl), (h.floats.push rfl).of_eq (hpushed rfl),
      h.bools.of_eq (hsame rfl), h.strs.of_eq (hsame rfl), hwritten⟩
  | bool b =>
    exact ⟨h.name, h.ints.of_eq (hsame rfl), h.floats.of_eq (hsame rfl),
      (h.bools.push rfl).of_eq (hpushed rfl), h.strs.of_eq (hsame rfl), hwritten⟩
  | str hshows =>
    exact ⟨h.name, h.ints.of_eq (hsame rfl), h.floats.of_eq (hsame rfl), h.bools.of_eq (hsame rfl),
      (h.strs.push ⟨rfl, hshows⟩).of_eq (hpushed rfl), hwritten⟩

end Push

-- == builders

/-- Rows of writes only grow, and a field is written once in a row. -/
def InOrder (w w' : Write F) : Prop := w.row ≤ w'.row ∧ (w.row = w'.row → w.key ≠ w'.key)

structure Represents (b : StreamingBuilder F) (sh : Sheet F) : Prop where
  fits : b.buf.length ≤ u32Max
  active : b.lifecycle.state ≠ .idle
  rows : b.lifecycle.rowCount = sh.rows
  rows_le : sh.rows ≤ u32Max
  decoded : b.decodedBuf.length = sh.decoded
  numActive : b.numActive = sh.order.length
  index : ∀ key i, b.fieldIndex key = some i ↔ sh.order[i]? = some key
  field : ∀ i key, sh.order[i]? = some key →
    ∃ fc, b.fields[i]? = some fc ∧ FieldRep b.buf b.decodedBuf sh i key fc
  dormant : ∀ i fc, sh.order.length ≤ i → b.fields[i]? = some fc → fc.clear = fc
  bits : b.lifecycle.state = .inRow → ∀ i, i < 64 →
    (b.lifecycle.writtenBits.getLsbD i = true ↔ ∃ key, sh.order[i]? = some key ∧ sh.Written key)
  resolved : ∀ w ∈ sh.writes, w.key ∈ sh.order
  writes_le : ∀ w ∈ sh.writes, w.row ≤ sh.rows
  writes_lt : b.lifecycle.state = .inBatch → ∀ w ∈ sh.writes, w.row < sh.rows
  writes_inOrder : sh.writes.Pairwise InOrder
  lines : List.Forall₂ (fun v text => Shows b.buf b.decodedBuf v.1 v.2 text) b.lineViews sh.lines
  lineWritten : b.lifecycle.state = .inRow → b.lifecycle.lineWrittenThisRow = sh.lineWritten

/-- The row that cannot end. -/
def Overflowing (b : StreamingBuilder F) : Prop :=
  b.lifecycle.state = .inRow ∧ b.lifecycle.rowCount = u32Max

/-- Fields are resolved once. -/
theorem Represents.eq_of_order {b : StreamingBuilder F} {sh : Sheet F} (h : Represents b sh)
    {i j : Nat} {key : Bytes} (hi : sh.order[i]? = some key) (hj : sh.order[j]? = some key) :
    i = j := by
  have hi' := (h.index key i).mpr hi
  rw [(h.index key j).mpr hj] at hi'
  exact (some.inj hi').symm

/-- A batch begins with an empty sheet, whatever was there. -/
theorem represents_beginBatch {b b' : StreamingBuilder F} {buf : Bytes}
    (hdormant : ∀ i fc, b.numActive ≤ i → b.fields[i]? = some fc → fc.clear = fc)
    (hbegin : b.beginBatch buf = some b') : Represents b' .empty := by
  rw [beginBatch] at hbegin
  split at hbegin
  · cases hbegin
  next hfits =>
    rw [RowLifecycle.beginBatch] at hbegin
    split at hbegin
    · cases hbegin
    · cases hbegin
      refine
        { fits := Nat.le_of_not_lt hfits, active := nofun, rows := rfl, rows_le := Nat.zero_le _
          decoded := rfl, numActive := rfl, index := fun key i => ⟨nofun, nofun⟩
          field := fun i key hkey => by cases hkey
          dormant := fun i fc _ hfc => ?dormant
          bits := nofun, resolved := nofun, writes_le := nofun, writes_lt := fun _ => nofun
          writes_inOrder := .nil, lines := .nil, lineWritten := nofun }
      case dormant =>
        rw [getElem?_append] at hfc
        split at hfc
        · rw [getElem?_map] at hfc
          obtain ⟨fc', -, rfl⟩ := map_eq_some_iff.mp hfc
          rfl
        · rw [getElem?_drop] at hfc
          refine hdormant _ fc ?_ hfc
          omega

section Steps

variable {b b' : StreamingBuilder F} {sh : Sheet F}

theorem Represents.beginRow (h : Represents b sh) (hstep : b.beginRow = some b') :
    Represents b' { sh with lineWritten := false } := by
  rw [StreamingBuilder.beginRow, RowLifecycle.beginRow] at hstep
  split at hstep
  · cases hstep
  next hstate =>
    have hlt := h.writes_lt (not_not.mp hstate)
    cases hstep
    have hunwritten : ∀ key, ¬ Written { sh with lineWritten := false } key := by
      rintro key ⟨w, hw, hrow, -⟩
      exact absurd hrow (Nat.ne_of_lt (hlt w hw))
    exact { h with
        active := nofun
        bits := fun _ i hi => by
          simp only [BitVec.getLsbD_zero, Bool.false_eq_true, false_iff]
          rintro ⟨key, -, hwritten⟩
          exact hunwritten key hwritten
        writes_lt := nofun
        lineWritten := fun _ => rfl
        field := fun i key hkey => by
          obtain ⟨fc, hfc, hrep⟩ := h.field i key hkey
          exact ⟨fc, hfc, { hrep with }⟩ }

theorem Represents.endRow (h : Represents b sh) (hstep : b.endRow = some b') :
    Represents b' { sh with rows := sh.rows + 1 } := by
  rw [StreamingBuilder.endRow, RowLifecycle.endRow] at hstep
  split at hstep
  · cases hstep
  · split at hstep
    · cases hstep
    next hrows =>
      cases hstep
      have hle := h.rows_le
      rw [h.rows] at hrows
      exact { h with
          active := nofun
          rows := congrArg (· + 1) h.rows
          rows_le := by
            show sh.rows + 1 ≤ u32Max
            omega
          bits := nofun
          writes_le := fun w hw => Nat.le_succ_of_le (h.writes_le w hw)
          writes_lt := fun _ w hw => Nat.lt_succ_of_le (h.writes_le w hw)
          lineWritten := nofun
          field := fun i key hkey => by
            obtain ⟨fc, hfc, hrep⟩ := h.field i key hkey
            exact ⟨fc, hfc, { hrep with }⟩ }

variable {fc : FieldColumns F}

/-- The slot of a field that has just been resolved. -/
theorem FieldRep.of_clear {buf decoded : Bytes} {key : Bytes} (i : Nat)
    (hclear : fc.clear = fc) (hname : fc.name = key) (hnone : ∀ w ∈ sh.writes, w.key ≠ key) :
    FieldRep buf decoded sh i key fc := by
  have hvalues : ∀ {α : Type} (proj : Cell F → Option α), sh.values proj key = [] := by
    intro α proj
    rw [values, filterMap_eq_nil_iff]
    intro w hw
    rw [if_neg (hnone w hw)]
  have hholds : ∀ {α β : Type} (R : β → Nat × α → Prop) proj,
      Holds R [] false (sh.values proj key) :=
    fun R proj => ⟨hvalues proj ▸ .nil, by simp [hvalues]⟩
  rw [← hclear]
  exact ⟨hclear ▸ hname, hholds _ _, hholds _ _, hholds _ _, hholds _ _,
    fun _ => .inl ⟨rfl, hnone⟩⟩

/-- What resolving a new field does: the next slot gets its name. -/
theorem resolveField_new {key : Bytes} (hactive : b.lifecycle.state ≠ .idle)
    (hnew : b.fieldIndex key = none) (hlen : b.numActive ≤ b.fields.length)
    (hdormant : ∀ fc, b.fields[b.numActive]? = some fc → fc.clear = fc) :
    ∃ fields, b.resolveField key
        = some (b.numActive, { b with
            fields, numActive := b.numActive + 1
            fieldIndex := fun k => if k = key then some b.numActive else b.fieldIndex k })
      ∧ (∀ i, i ≠ b.numActive → fields[i]? = b.fields[i]?)
      ∧ ∃ fc, fields[b.numActive]? = some fc ∧ fc.clear = fc ∧ fc.name = key := by
  rw [resolveField, if_neg hactive, hnew]
  refine ⟨_, rfl, ?_⟩
  cases hslot : b.fields[b.numActive]? with
  | some fc =>
    have hlt := (List.getElem?_eq_some_iff.mp hslot).1
    have hclear := hdormant fc hslot
    refine ⟨fun i hi => getElem?_set_ne (.symm hi), { fc with name := key }, ?_, ?_, rfl⟩
    · exact getElem?_set_self hlt
    · rw [← hclear]
      rfl
  | none =>
    have hend : b.numActive = b.fields.length :=
      Nat.le_antisymm hlen (getElem?_eq_none_iff.mp hslot)
    refine ⟨fun i hi => ?_, .new key, ?_, rfl, rfl⟩
    · rcases Nat.lt_or_gt_of_ne hi with hlt | hgt
      · exact getElem?_append_left (hend ▸ hlt)
      · rw [getElem?_eq_none, getElem?_eq_none]
        · omega
        · rw [length_append, length_singleton]
          omega
    · rw [hend, getElem?_concat_length]

theorem Represents.resolveField (h : Represents b sh) {key : Bytes} {idx : Nat}
    (hstep : b.resolveField key = some (idx, b')) :
    let sh' := if sh.order.contains key then sh else { sh with order := sh.order ++ [key] }
    Represents b' sh' ∧ sh'.order[idx]? = some key := by
  cases hindex : b.fieldIndex key with
  | some i =>
    have horder := (h.index key i).mp hindex
    rw [StreamingBuilder.resolveField, if_neg h.active, hindex] at hstep
    cases hstep
    rw [if_pos (contains_iff_mem.mpr (mem_of_getElem? horder))]
    exact ⟨h, horder⟩
  | none =>
    have hnot : key ∉ sh.order := by
      intro hmem
      obtain ⟨i, hi⟩ := mem_iff_getElem?.mp hmem
      rw [(h.index key i).mpr hi] at hindex
      cases hindex
    have hlen : b.numActive ≤ b.fields.length := by
      rw [h.numActive]
      apply Nat.le_of_not_lt
      intro hlt
      obtain ⟨fc, hfc, -⟩ := h.field b.fields.length _ (getElem?_eq_getElem hlt)
      rw [getElem?_eq_none (Nat.le_refl _)] at hfc
      cases hfc
    have hunwritten : ∀ w ∈ sh.writes, w.key ≠ key :=
      fun w hw heq => hnot (heq ▸ h.resolved w hw)
    obtain ⟨fields, heq, hothers, fc, hfc, hclear, hname⟩ := resolveField_new h.active hindex hlen
      fun fc hfc => h.dormant b.numActive fc (Nat.le_of_eq h.numActive.symm) hfc
    rw [heq] at hstep
    cases hstep
    rw [if_neg (mt contains_iff_mem.mp hnot), h.numActive]
    rw [h.numActive] at hfc hothers
    have hlast : (sh.order ++ [key])[sh.order.length]? = some key :=
      getElem?_concat_length
    refine ⟨?_, hlast⟩
    exact { h with
        numActive := by
          rw [length_append, length_singleton]
        index := fun k i => by
          show (if k = key then some sh.order.length else b.fieldIndex k) = some i
            ↔ (sh.order ++ [key])[i]? = some k
          by_cases hk : k = key
          · rw [if_pos hk, hk]
            constructor
            · intro hi
              cases hi
              exact hlast
            · intro hi
              rcases getElem?_append_singleton hi with hi | ⟨rfl, -⟩
              · exact absurd (mem_of_getElem? hi) hnot
              · rfl
          · rw [if_neg hk, h.index]
            refine ⟨getElem?_append_of_some _, fun hi => ?_⟩
            rcases getElem?_append_singleton hi with hi | ⟨-, heq⟩
            · exact hi
            · exact absurd heq.symm hk
        field := fun i k hk => by
          rcases getElem?_append_singleton hk with hk | ⟨rfl, rfl⟩
          · obtain ⟨fc', hfc', hrep⟩ := h.field i k hk
            have hne : i ≠ sh.order.length :=
              Nat.ne_of_lt (List.getElem?_eq_some_iff.mp hk).1
            exact ⟨fc', (hothers i hne).trans hfc', { hrep with }⟩
          · exact ⟨fc, hfc, .of_clear _ hclear hname hunwritten⟩
        dormant := fun i fc' hi hfc' => by
          have hi' : sh.order.length + 1 ≤ i := by
            rw [length_append] at hi
            exact hi
          rw [hothers i (by omega)] at hfc'
          exact h.dormant i fc' (by omega) hfc'
        bits := fun hstate i hi => by
          rw [h.bits hstate i hi]
          constructor
          · rintro ⟨k, hk, hwritten⟩
            exact ⟨k, getElem?_append_of_some _ hk, hwritten⟩
          · rintro ⟨k, hk, w, hw, hrow, hkey⟩
            rcases getElem?_append_singleton hk with hk | ⟨-, rfl⟩
            · exact ⟨k, hk, w, hw, hrow, hkey⟩
            · exact absurd hkey (hunwritten w hw)
        resolved := fun w hw => mem_append_left _ (h.resolved w hw) }

-- == appends

theorem Sheet.written_write {key other : Bytes} (cell : Option (Cell F)) (copied : Nat) :
    (sh.write key cell copied).Written other ↔ sh.Written other ∨ other = key := by
  constructor
  · rintro ⟨w, hw, hrow, hkey⟩
    rcases mem_append.mp hw with hw | hw
    · exact .inl ⟨w, hw, hrow, hkey⟩
    · rw [mem_singleton.mp hw] at hkey
      exact .inr hkey.symm
  · rintro (⟨w, hw, hrow, hkey⟩ | rfl)
    · exact ⟨w, mem_append_left _ hw, hrow, hkey⟩
    · exact ⟨_, mem_append_right _ mem_cons_self, rfl, rfl⟩

/-- The bits with that of a field from the first 64. -/
def markBit (bits : U64) (idx : Nat) : U64 :=
  if idx < 64 then bits ||| BitVec.twoPow 64 idx else bits

variable {i : Nat}

theorem getLsbD_markBit (bits : U64) (idx : Nat) (hi : i < 64) :
    (markBit bits idx).getLsbD i ↔ bits.getLsbD i ∨ i = idx := by
  rw [markBit]
  split
  next hidx =>
    rw [BitVec.getLsbD_or, BitVec.getLsbD_twoPow, Bool.or_eq_true, Bool.and_eq_true,
      decide_eq_true_eq, decide_eq_true_eq]
    exact or_congr_right ⟨fun h => h.2.symm, fun h => ⟨hidx, h.symm⟩⟩
  next hidx => exact ⟨.inl, fun h => h.resolve_right (by omega)⟩

/-- A field gets its cell in the current row. -/
theorem Represents.write (h : Represents b sh) (hstate : b.lifecycle.state = .inRow) {idx : Nat}
    {key : Bytes} (hkey : sh.order[idx]? = some key) (hnot : ¬ sh.Written key)
    (hfc : b.fields[idx]? = some fc) (more : Bytes)
    {cell : Option (Cell F)} {push : FieldColumns F → FieldColumns F}
    (hpush : Pushes b.buf (b.decodedBuf ++ more) sh.rows cell push) :
    Represents
      { b with
        decodedBuf := b.decodedBuf ++ more
        fields := b.fields.set idx (push (markRow idx b.lifecycle.rowCount fc))
        lifecycle :=
          { b.lifecycle with writtenBits := markBit b.lifecycle.writtenBits idx } }
      (sh.write key cell more.length) := by
  have hwrites : ∀ {P : Write F → Prop}, (∀ w ∈ sh.writes, P w) →
      P { row := sh.rows, key, cell } → ∀ w ∈ (sh.write key cell more.length).writes, P w := by
    intro P hold hnew w hw
    rcases mem_append.mp hw with hw | hw
    · exact hold w hw
    · exact mem_singleton.mp hw ▸ hnew
  have hlt := (List.getElem?_eq_some_iff.mp hfc).1
  exact { h with
      decoded := by
        show (b.decodedBuf ++ more).length = sh.decoded + more.length
        rw [length_append, h.decoded]
      field := fun i k hk => by
        by_cases hi : idx = i
        · subst hi
          have hkk : key = k := some.inj (hkey.symm.trans hk)
          subst hkk
          obtain ⟨fc', hfc', hrep⟩ := h.field idx key hkey
          rw [hfc] at hfc'
          cases hfc'
          rw [getElem?_set_self hlt, h.rows]
          exact ⟨_, rfl, (hrep.decode more).write h.writes_le hpush _⟩
        · obtain ⟨fc', hfc', hrep⟩ := h.field i k hk
          rw [getElem?_set_ne hi]
          have hne : key ≠ k := by
            rintro rfl
            exact hi (h.eq_of_order hkey hk)
          exact ⟨fc', hfc', (hrep.decode more).write_of_ne hne _ _⟩
      dormant := fun i fc' hi hfc' => by
        have hidx := (List.getElem?_eq_some_iff.mp hkey).1
        have hne : idx ≠ i := Nat.ne_of_lt (Nat.lt_of_lt_of_le hidx hi)
        rw [getElem?_set_ne hne] at hfc'
        exact h.dormant i fc' hi hfc'
      bits := fun _ i hi => by
        rw [getLsbD_markBit _ _ hi, h.bits hstate i hi]
        constructor
        · rintro (⟨k, hk, hwritten⟩ | rfl)
          · exact ⟨k, hk, (written_write _ _).mpr (.inl hwritten)⟩
          · exact ⟨key, hkey, (written_write _ _).mpr (.inr rfl)⟩
        · rintro ⟨k, hk, hwritten⟩
          rcases (written_write _ _).mp hwritten with hwritten | rfl
          · exact .inl ⟨k, hk, hwritten⟩
          · exact .inr (h.eq_of_order hk hkey)
      resolved := hwrites h.resolved (mem_of_getElem? hkey)
      writes_le := hwrites h.writes_le (Nat.le_refl _)
      writes_lt := fun hbatch => by
        rw [hstate] at hbatch
        cases hbatch
      writes_inOrder := by
        refine pairwise_append.mpr ⟨h.writes_inOrder, pairwise_singleton _ _, ?_⟩
        intro w hw w' hw'
        rw [mem_singleton.mp hw']
        exact ⟨h.writes_le w hw, fun hrow hk => hnot ⟨w, hw, hrow, hk⟩⟩
      lines := h.lines.imp fun _ _ hshows => hshows.append more }

theorem set_of_getElem? {α : Type} {l : List α} {a : α} (h : l[i]? = some a) : l.set i a = l := by
  obtain ⟨hi, rfl⟩ := List.getElem?_eq_some_iff.mp h
  exact set_getElem_self hi

/-- A value is written like a string that is stored. -/
theorem appendTyped_eq {idx : Nat} (hfc : b.fields[idx]? = some fc) {α : Type}
    (push : α → Nat → FieldColumns F → FieldColumns F) (value : Option α) :
    b.appendTyped push idx value = b.appendUnlessWritten idx fun b =>
      b.writeField idx fun row fc => (value.map (push · row fc)).getD fc := by
  rw [appendTyped, appendUnlessWritten]
  dsimp only [setWrittenBits, lastRowIsCurrent]
  rw [hfc, map_some]
  by_cases hidx : 64 ≤ idx
  · by_cases hlast : fc.lastRow = b.lifecycle.rowCount
    · simp [hidx, hlast]
    · simp only [hidx, hlast, and_false, if_true, if_false, beq_eq_false_iff_ne.mpr hlast]
  · simp [hidx]

section Append

variable (h : Represents b sh) (hstate : b.lifecycle.state = .inRow) {idx : Nat} {key : Bytes}
  (hkey : sh.order[idx]? = some key)

/-- The last row of a field tells whether it was written in this one. -/
theorem lastRow_eq_iff (h : Represents b sh) (hrows : b.lifecycle.rowCount ≠ u32Max)
    {fc : FieldColumns F} (hrep : FieldRep b.buf b.decodedBuf sh idx key fc) (hidx : 64 ≤ idx) :
    fc.lastRow = b.lifecycle.rowCount ↔ sh.Written key := by
  rw [h.rows] at hrows ⊢
  rcases hrep.lastRow hidx with ⟨hrow, hnone⟩ | ⟨⟨w, hw, hwk, hwr⟩, hle⟩
  · refine ⟨fun heq => absurd (heq.symm.trans hrow) hrows, ?_⟩
    rintro ⟨w, hw, -, hk⟩
    exact absurd hk (hnone w hw)
  · constructor
    · intro heq
      exact ⟨w, hw, hwr.trans heq, hwk⟩
    · rintro ⟨w', hw', hrow', hk'⟩
      have := hle w' hw' hk'
      have := h.writes_le w hw
      omega

include h hstate hkey

/-- The bit mask of a field of the first 64 tells the same. -/
theorem checkDupBits_of_written (hwritten : sh.Written key) :
    (checkDupBits b.lifecycle.writtenBits idx).2 = b.lifecycle.writtenBits
      ∧ (idx < 64 → (checkDupBits b.lifecycle.writtenBits idx).1) := by
  rcases Nat.lt_or_ge idx 64 with hidx | hidx
  · have hbit := (h.bits hstate idx hidx).mpr ⟨key, hkey, hwritten⟩
    rw [checkDupBits_of_lt hidx, if_pos hbit]
    exact ⟨rfl, fun _ => rfl⟩
  · rw [checkDupBits_of_le hidx]
    exact ⟨rfl, fun hlt => absurd hlt (Nat.not_lt.mpr hidx)⟩

theorem checkDupBits_of_not_written (hnot : ¬ sh.Written key) :
    checkDupBits b.lifecycle.writtenBits idx = (false, markBit b.lifecycle.writtenBits idx) := by
  rw [markBit]
  split
  next hidx =>
    rw [checkDupBits_of_lt hidx, if_neg]
    intro hbit
    obtain ⟨k, hk, hwritten⟩ := (h.bits hstate idx hidx).mp hbit
    rw [hkey] at hk
    cases hk
    exact hnot hwritten
  next hidx => exact checkDupBits_of_le (Nat.le_of_not_lt hidx) _

variable (hrows : b.lifecycle.rowCount ≠ u32Max)

include hrows

theorem appendUnlessWritten_of_written (hwritten : sh.Written key)
    (store : StreamingBuilder F → Option (StreamingBuilder F)) :
    b.appendUnlessWritten idx store = some b := by
  obtain ⟨hsame, hdup⟩ := checkDupBits_of_written h hstate hkey hwritten
  have hbits : b.setWrittenBits (checkDupBits b.lifecycle.writtenBits idx).2 = b := by
    rw [hsame]
    rfl
  rw [appendUnlessWritten, if_neg (not_not.mpr hstate)]
  dsimp only
  rw [hbits]
  rcases Nat.lt_or_ge idx 64 with hidx | hidx
  · rw [if_pos (hdup hidx)]
  · obtain ⟨fc, hfc, hrep⟩ := h.field idx key hkey
    have hlast := (lastRow_eq_iff h hrows hrep hidx).mpr hwritten
    rw [lastRowIsCurrent, if_pos hidx, hfc]
    simp [hlast]

theorem appendUnlessWritten_of_not_written (hnot : ¬ sh.Written key)
    (store : StreamingBuilder F → Option (StreamingBuilder F)) :
    b.appendUnlessWritten idx store
      = store (b.setWrittenBits (markBit b.lifecycle.writtenBits idx)) := by
  have hcurrent : (b.setWrittenBits (markBit b.lifecycle.writtenBits idx)).lastRowIsCurrent idx
      = some false := by
    rw [lastRowIsCurrent]
    split
    next hidx =>
      obtain ⟨fc, hfc, hrep⟩ := h.field idx key hkey
      have hlast : (fc.lastRow == b.lifecycle.rowCount) = false := by
        rw [beq_eq_false_iff_ne]
        exact fun heq => hnot ((lastRow_eq_iff h hrows hrep hidx).mp heq)
      show (b.fields[idx]?.map fun fc => fc.lastRow == b.lifecycle.rowCount) = some false
      rw [hfc, map_some, hlast]
    next => rfl
  rw [appendUnlessWritten, if_neg (not_not.mpr hstate),
    checkDupBits_of_not_written h hstate hkey hnot]
  rw [if_neg Bool.false_ne_true, hcurrent]

omit hrows

variable {cell : Option (Cell F)}

theorem Represents.writeField (hnot : ¬ sh.Written key) (more : Bytes)
    (push : Nat → FieldColumns F → FieldColumns F)
    (hpush : Pushes b.buf (b.decodedBuf ++ more) sh.rows cell (push sh.rows))
    (hstep : StreamingBuilder.writeField idx push
      { b.setWrittenBits (markBit b.lifecycle.writtenBits idx) with
        decodedBuf := b.decodedBuf ++ more } = some b') :
    Represents b' (sh.write key cell more.length) := by
  obtain ⟨fc, hfc, -⟩ := h.field idx key hkey
  have hwrite := h.write hstate hkey hnot hfc more hpush
  obtain ⟨fc', hfc', rfl⟩ := map_eq_some_iff.mp hstep
  have hslot : fc' = fc := some.inj (hfc'.symm.trans hfc)
  rw [hslot]
  rw [← h.rows] at hwrite
  exact hwrite

/-- A value of which nothing is copied. -/
theorem Represents.writeField_nil (hnot : ¬ sh.Written key)
    (push : Nat → FieldColumns F → FieldColumns F)
    (hpush : Pushes b.buf b.decodedBuf sh.rows cell (push sh.rows))
    (hstep : (b.setWrittenBits (markBit b.lifecycle.writtenBits idx)).writeField idx push
      = some b') : Represents b' (sh.write key cell 0) := by
  refine h.writeField hstate hkey hnot [] push (by rw [append_nil]; exact hpush) ?_
  rw [append_nil]
  exact hstep

/-- A string that is not kept. -/
theorem Represents.unstored (hnot : ¬ sh.Written key) :
    Represents (b.setWrittenBits (markBit b.lifecycle.writtenBits idx))
      (if sh.order.idxOf key < 64 then sh.write key none 0 else sh) := by
  have hidxOf : sh.order.idxOf key = idx :=
    h.eq_of_order (getElem?_idxOf (mem_of_getElem? hkey)) hkey
  rw [hidxOf]
  split
  next hidx =>
    obtain ⟨fc, hfc, -⟩ := h.field idx key hkey
    refine h.writeField_nil hstate hkey hnot (fun _ fc => fc) .null ?_
    have hmark : markRow idx b.lifecycle.rowCount fc = fc :=
      if_neg (Nat.not_le.mpr hidx)
    show (b.fields[idx]?.map _) = some _
    rw [hfc, map_some]
    dsimp only [setWrittenBits]
    rw [hmark, set_of_getElem? hfc]
  next hidx =>
    have hbits : markBit b.lifecycle.writtenBits idx = b.lifecycle.writtenBits := if_neg hidx
    rw [hbits]
    exact h

/-- The appends of numbers and Booleans. -/
theorem Represents.appendTyped (hrows : b.lifecycle.rowCount ≠ u32Max) {α : Type}
    {push : α → Nat → FieldColumns F → FieldColumns F} {mk : α → Cell F}
    (hpush : ∀ v, Pushes b.buf b.decodedBuf sh.rows (some (mk v)) (push v sh.rows))
    {value : Option α} (hstep : b.appendTyped push idx value = some b') :
    Represents b' (if sh.Written key then sh else sh.write key (value.map mk) 0) := by
  obtain ⟨fc, hfc, -⟩ := h.field idx key hkey
  rw [appendTyped_eq hfc] at hstep
  split
  next hwritten =>
    rw [appendUnlessWritten_of_written h hstate hkey hrows hwritten] at hstep
    cases hstep
    exact h
  next hnot =>
    rw [appendUnlessWritten_of_not_written h hstate hkey hrows hnot] at hstep
    refine h.writeField_nil hstate hkey hnot _ ?_ hstep
    cases value with
    | none => exact .null
    | some v => exact hpush v

theorem Represents.appendNull (hrows : b.lifecycle.rowCount ≠ u32Max)
    (hstep : b.appendNullByIdx idx = some b') :
    Represents b' (if sh.Written key then sh else sh.write key none 0) := by
  obtain ⟨fc, hfc, hrep⟩ := h.field idx key hkey
  rw [appendNullByIdx, if_neg (not_not.mpr hstate)] at hstep
  split
  next hwritten =>
    -- the marks are there already
    obtain ⟨hsame, -⟩ := checkDupBits_of_written h hstate hkey hwritten
    have hmark : markRow idx b.lifecycle.rowCount fc = fc := by
      rw [markRow]
      split
      next hidx => rw [← (lastRow_eq_iff h hrows hrep hidx).mpr hwritten]
      next => rfl
    rw [hsame] at hstep
    replace hstep : (b.fields[idx]?.map fun fc =>
        { b with
          fields := b.fields.set idx (markRow idx b.lifecycle.rowCount fc) })
        = some b' := hstep
    rw [hfc, map_some, hmark, set_of_getElem? hfc] at hstep
    cases hstep
    exact h
  next hnot =>
    rw [checkDupBits_of_not_written h hstate hkey hnot] at hstep
    exact h.writeField_nil hstate hkey hnot (fun _ fc => fc) .null hstep

/-- A string that has to be copied. -/
theorem Represents.appendCopy (hnot : ¬ sh.Written key) {text : Bytes}
    (hvalid : validUtf8 text)
    (hstep : (b.setWrittenBits (markBit b.lifecycle.writtenBits idx)).appendDecodedStrInner idx text
      = some b') :
    Represents b'
      (match (storedCopy b.buf.length sh.decoded text : Stored F) with
      | .cell cell copied => sh.write key cell copied
      | .unstored => if sh.order.idxOf key < 64 then sh.write key none 0 else sh) := by
  rw [storedCopy, ← h.decoded]
  rw [appendDecodedStrInner] at hstep
  split at hstep
  next hlen =>
    cases hstep
    rw [if_neg (fun hfits => absurd hlen (Nat.not_lt.mpr hfits.1))]
    exact h.unstored hstate hkey hnot
  next hlen =>
    split at hstep
    next hdecoded =>
      cases hstep
      have hbig : u32Max < b.decodedBuf.length := hdecoded
      rw [if_neg (fun hfits => by omega)]
      exact h.unstored hstate hkey hnot
    next hdecoded =>
      split at hstep
      next hoffset =>
        cases hstep
        rw [if_neg (fun hfits => absurd hoffset (Nat.not_lt.mpr hfits.2))]
        exact h.unstored hstate hkey hnot
      next hoffset =>
        rw [if_pos ⟨Nat.le_of_not_lt hlen, Nat.le_of_not_lt hoffset⟩]
        have hshows := Shows.of_copy hvalid b.buf b.decodedBuf
        exact h.writeField hstate hkey hnot text _ (.str hshows) hstep

end Append

theorem appendByIdx_of_ne [FloatOps F]
    (hstate : b.lifecycle.state ≠ .inRow) (idx : Nat) (value : Append Slice F) :
    b.appendByIdx idx value = none := by
  cases value <;> exact if_pos hstate

theorem Represents.append [FloatOps F] (h : Represents b sh)
    (hrows : ¬ Overflowing b) {idx : Nat} {key : Bytes} (hkey : sh.order[idx]? = some key)
    {value : Append Slice F} (hin : (Call.append key value).InBuf b.buf)
    (hstep : b.appendByIdx idx value = some b') :
    Represents b' (sh.append b.buf.length key (value.withText b.buf)) := by
  have hstate : b.lifecycle.state = .inRow := by
    by_contra hstate
    rw [appendByIdx_of_ne hstate] at hstep
    cases hstep
  have hlast : b.lifecycle.rowCount ≠ u32Max := fun heq => hrows ⟨hstate, heq⟩
  -- the strings, which are looked at only for a field that has no cell yet
  have hstring : ∀ {store : StreamingBuilder F → Option (StreamingBuilder F)} {new : Sheet F},
      b.appendUnlessWritten idx store = some b' →
      (¬ sh.Written key → store (b.setWrittenBits (markBit b.lifecycle.writtenBits idx)) = some b' →
        Represents b' new) → Represents b' (if sh.Written key then sh else new) := by
    intro store new happend hnew
    split
    next hwritten =>
      rw [appendUnlessWritten_of_written h hstate hkey hlast hwritten] at happend
      cases happend
      exact h
    next hnot =>
      rw [appendUnlessWritten_of_not_written h hstate hkey hlast hnot] at happend
      exact hnew hnot happend
  cases value with
  | str value =>
    replace hstep : b.appendStrByIdx idx value = some b' := hstep
    refine hstring hstep fun hnot hstore => ?_
    dsimp only [Append.withText, Append.stored]
    split at hstore
    next hinvalid =>
      cases hstore
      rw [if_neg (by simpa [setWrittenBits] using hinvalid)]
      exact h.unstored hstate hkey hnot
    next hvalid =>
      have hvalid' : validUtf8 (value.bytes b.buf) := by
        simpa [setWrittenBits] using hvalid
      have hinbuf : value.start + value.len ≤ b.buf.length := hin
      have hfits := h.fits
      rw [if_pos hvalid']
      split at hstore
      next hlen => omega
      next hlen =>
        have hoffset : (b.setWrittenBits (markBit b.lifecycle.writtenBits idx)).offsetOf value
            = some value.start := if_pos hinbuf
        rw [hoffset] at hstore
        exact h.writeField_nil hstate hkey hnot _ (.str (.of_slice hinbuf hvalid' _)) hstore
  | decodedStr value =>
    replace hstep : b.appendDecodedStrByIdx idx value = some b' := hstep
    refine hstring hstep fun hnot hstore => ?_
    dsimp only [Append.withText, Append.stored]
    split at hstore
    next hinvalid =>
      cases hstore
      rw [if_neg (by simpa using hinvalid)]
      exact h.unstored hstate hkey hnot
    next hvalid =>
      have hvalid' : validUtf8 value = true := by simpa using hvalid
      rw [if_pos hvalid']
      exact h.appendCopy hstate hkey hnot hvalid' hstore
  | prevalidatedStr value =>
    refine hstring hstep fun hnot hstore => ?_
    exact h.appendCopy hstate hkey hnot value.valid hstore
  | int value | i64Value value => exact h.appendTyped hstate hkey hlast (fun n => .int n) hstep
  | float value | f64Value value => exact h.appendTyped hstate hkey hlast (fun x => .float x) hstep
  | bool value => exact h.appendTyped hstate hkey hlast (fun b => .bool b) hstep
  | null => exact h.appendNull hstate hkey hlast hstep

/-- The line of the row is captured. -/
theorem Represents.appendLine (h : Represents b sh) {line : Slice} (hin : line.InBuf b.buf)
    (hstep : b.appendLine line = some b') :
    Represents b'
      (if b.lineFieldName.isSome then sh.appendLine b.buf.length (line.bytes b.buf) else sh) := by
  rw [StreamingBuilder.appendLine] at hstep
  split at hstep
  · cases hstep
  next hstate =>
    have hrow : b.lifecycle.state = .inRow := not_not.mp hstate
    have hsame := h.lineWritten hrow
    have hfits := h.fits
    rw [Slice.InBuf] at hin
    split at hstep
    next hcapture =>
      obtain ⟨hsome, hfirst⟩ := hcapture
      rw [hsame] at hfirst
      rw [if_pos hsome, Sheet.appendLine, if_neg hfirst]
      dsimp only at hstep
      split at hstep
      next hvalid =>
        rw [if_pos hvalid]
        have hoffset : b.offsetOf line = some line.start := if_pos hin
        rw [if_neg (by omega), hoffset] at hstep
        cases hstep
        exact { h with
            lines := rel_append h.lines (.cons (.of_slice hin hvalid _) .nil)
            lineWritten := fun _ => rfl
            field := fun i key hkey => by
              obtain ⟨fc, hfc, hrep⟩ := h.field i key hkey
              exact ⟨fc, hfc, { hrep with }⟩ }
      next hinvalid =>
        rw [if_neg hinvalid]
        rw [← h.decoded]
        by_cases hroom : (fromUtf8Lossy (line.bytes b.buf)).length ≤ u32Max
            ∧ b.buf.length + b.decodedBuf.length ≤ u32Max
        · rw [if_neg (by omega), if_neg (by omega), if_neg (by omega)] at hstep
          rw [if_pos hroom]
          cases hstep
          have hshows :=
            Shows.of_copy (validUtf8_fromUtf8Lossy (line.bytes b.buf)) b.buf b.decodedBuf
          exact { h with
              decoded := length_append
              lines := rel_append (h.lines.imp fun _ _ hv => hv.append _) (.cons hshows .nil)
              lineWritten := fun _ => rfl
              field := fun i key hkey => by
                obtain ⟨fc, hfc, hrep⟩ := h.field i key hkey
                exact ⟨fc, hfc, { hrep.decode _ with }⟩ }
        · rw [if_neg hroom]
          have hb : b' = b := by
            split at hstep
            · exact (some.inj hstep).symm
            · split at hstep
              · exact (some.inj hstep).symm
              · split at hstep
                · exact (some.inj hstep).symm
                · omega
          rw [hb]
          exact h
    next hcapture =>
      cases hstep
      split
      next hsome =>
        have hwritten : sh.lineWritten := by
          by_contra hnot
          exact hcapture ⟨hsome, by rw [hsame]; exact hnot⟩
        rw [Sheet.appendLine, if_pos hwritten]
        exact h
      next => exact h

end Steps

end FastForward.Arrow
