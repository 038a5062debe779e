/-
The cells of a table are the first values of the calls.

The sheet that calls lead to has the cells that can be read off the calls,
as long as nothing has to be left out for its size; and from the sheet to
the two tables it is `finishWith_ok`.
-/
import FastForward.Arrow.Cells
import FastForward.Arrow.Proofs.Finish

namespace FastForward.Arrow

open Core List Sheet Contents Call

variable {F : Type}

-- == the sheet

section Sheet

variable [FloatOps F] {bufLen : Nat} {capture : Bool} {value : Append Bytes F} {key : Bytes}

/-- What is neither invalid nor too much is kept. -/
theorem Append.stored_of_fits {decoded : Nat} (hvalid : (Call.append key value).ValidText)
    (hfits : bufLen + decoded + (Call.append key value).copied ≤ u32Max) :
    value.stored bufLen decoded = .cell value.cell (Call.append key value).copied := by
  have hcopy : ∀ text : Bytes, bufLen + decoded + text.length ≤ u32Max →
      (storedCopy bufLen decoded text : Stored F) = .cell (some (.str text)) text.length := by
    intro text htext
    rw [storedCopy, if_pos (by omega)]
  cases value with
  | str text =>
    replace hvalid : validUtf8 text := hvalid
    rw [stored, if_pos hvalid]
    rfl
  | decodedStr text =>
    replace hvalid : validUtf8 text := hvalid
    rw [stored, if_pos hvalid]
    exact hcopy text hfits
  | prevalidatedStr text => exact hcopy text.bytes hfits
  | _ => rfl

variable {sh : Sheet F}

/-- Where copies fit, a valid value is stored unless the field has one. -/
theorem Sheet.append_of_fits (hvalid : (Call.append key value).ValidText)
    (hfits : bufLen + sh.decoded + (Call.append key value).copied ≤ u32Max) :
    sh.append bufLen key value
      = if sh.Written key then sh
        else sh.write key value.cell (Call.append key value).copied := by
  rw [append, Append.stored_of_fits hvalid hfits]

omit [FloatOps F] in
/-- The same for a captured line. -/
theorem Sheet.appendLine_of_fits {line : Bytes}
    (hfits : bufLen + sh.decoded + (Call.appendLine line : Call Bytes F).copied ≤ u32Max) :
    sh.appendLine bufLen line
      = if sh.lineWritten then sh
        else
          { sh with
            lines := sh.lines ++ [fromUtf8Lossy line], lineWritten := true
            decoded := sh.decoded + (Call.appendLine line : Call Bytes F).copied } := by
  rw [appendLine]
  split
  · rfl
  · rw [copied] at hfits ⊢
    split
    next hvalid => rw [fromUtf8Lossy_of_validUtf8 hvalid, Nat.add_zero]
    next hvalid =>
      rw [if_neg hvalid] at hfits
      exact if_pos (by omega)

/-- Calls of which nothing has to be left out, on top of what has been
copied. -/
structure Kept (bufLen decoded : Nat) (calls : List (Call Bytes F)) : Prop where
  valid : ∀ c ∈ calls, c.ValidText
  fits : bufLen + decoded + (calls.map copied).sum ≤ u32Max

/-- What a call does to a sheet when nothing has to be left out. -/
inductive Sheet.Next (capture : Bool) (sh : Sheet F) : Call Bytes F → Sheet F → Prop
  | beginRow : Next capture sh .beginRow { sh with lineWritten := false }
  | endRow : Next capture sh .endRow { sh with rows := sh.rows + 1 }
  | resolved {key : Bytes} (h : key ∈ sh.order) : Next capture sh (.resolveField key) sh
  | resolve {key : Bytes} (h : key ∉ sh.order) :
      Next capture sh (.resolveField key) { sh with order := sh.order ++ [key] }
  | written {key : Bytes} {value : Append Bytes F} (h : sh.Written key) :
      Next capture sh (.append key value) sh
  | write {key : Bytes} {value : Append Bytes F} (h : ¬ sh.Written key) :
      Next capture sh (.append key value)
        (sh.write key value.cell (Call.append key value).copied)
  | lineWritten {line : Bytes} (h : capture = true → sh.lineWritten = true) :
      Next capture sh (.appendLine line) sh
  | line {line : Bytes} (hcapture : capture = true) (h : sh.lineWritten = false) :
      Next capture sh (.appendLine line)
        { sh with
          lines := sh.lines ++ [fromUtf8Lossy line], lineWritten := true
          decoded := sh.decoded + (Call.appendLine line : Call Bytes F).copied }

variable {c : Call Bytes F}

/-- Where copies fit, a call does what it says. -/
theorem Sheet.next_call (hvalid : c.ValidText) (hfits : bufLen + sh.decoded + c.copied ≤ u32Max) :
    Sheet.Next capture sh c (sh.call bufLen capture c) := by
  cases c with
  | beginRow => exact .beginRow
  | endRow => exact .endRow
  | resolveField key =>
    rw [call]
    split
    next h => exact .resolved (contains_iff_mem.mp h)
    next h => exact .resolve (mt contains_iff_mem.mpr h)
  | append key value =>
    rw [call, append_of_fits hvalid hfits]
    split
    next h => exact .written h
    next h => exact .write h
  | appendLine line =>
    rw [call]
    split
    next hcapture =>
      rw [appendLine_of_fits hfits]
      split
      next h => exact .lineWritten fun _ => h
      next h => exact .line hcapture (Bool.eq_false_iff.mpr h)
    next hcapture => exact .lineWritten fun h => absurd h hcapture

omit [FloatOps F] in
theorem Sheet.written_iff (sh : Sheet F) (key : Bytes) :
    sh.Written key ↔ (sh.writes.find? fun w => w.row = sh.rows ∧ w.key = key).isSome = true := by
  rw [find?_isSome]
  simp only [decide_eq_true_eq]
  rfl

variable {sh₁ : Sheet F}

/-- A call copies no more than its text. -/
theorem Sheet.Next.decoded_le
    (h : Sheet.Next capture sh c sh₁) : sh₁.decoded ≤ sh.decoded + c.copied := by
  cases h with
  | write h | line hcapture h => exact Nat.le_refl _
  | _ => exact Nat.le_add_right _ _

/-- What is to come after a sheet, read off the calls. -/
structure Sheet.Leads (capture : Bool) (sh : Sheet F) (calls : List (Call Bytes F))
    (sh' : Sheet F) : Prop where
  rows : sh'.rows = sh.rows + rowsOf calls
  nodup : sh.order.Nodup → sh'.order.Nodup
  order : ∀ key, key ∈ sh'.order ↔ key ∈ sh.order ∨ .resolveField key ∈ calls
  lines : sh'.lines = sh.lines ++ if capture then linesOf sh.lineWritten calls else []
  cells : ∀ row key, (sh'.writes.find? fun w => w.row = row ∧ w.key = key).map Write.cell
    = ((sh.writes.find? fun w => w.row = row ∧ w.key = key).map Write.cell).or
      (((appends sh.rows calls).find? fun a => a.1 = row ∧ a.2.1 = key).map fun a => a.2.2.cell)

theorem Sheet.Leads.nil (sh : Sheet F) : sh.Leads capture [] sh where
  rows := rfl
  nodup := id
  order := by simp
  lines := by simp [linesOf]
  cells := by simp [appends]

variable {calls : List (Call Bytes F)}

/-- The rest of the calls leads on from the first. -/
theorem Sheet.Next.leads {sh' : Sheet F}
    (h : Sheet.Next capture sh c sh₁) (hleads : sh₁.Leads capture calls sh') :
    sh.Leads capture (c :: calls) sh' := by
  have horder : (∀ key, c ≠ .resolveField key) → sh₁.order = sh.order → ∀ key,
      (key ∈ sh'.order ↔ key ∈ sh.order ∨ .resolveField key ∈ c :: calls) := by
    intro hne hsame key
    rw [hleads.order, hsame, mem_cons, or_iff_right (hne key).symm]
  cases h with
  | beginRow =>
    exact { hleads with order := horder (by simp) rfl }
  | endRow =>
    refine { hleads with rows := ?_, order := horder (by simp) rfl }
    rw [hleads.rows, rowsOf]
    show sh.rows + 1 + rowsOf calls = _
    omega
  | resolved h =>
    refine { hleads with order := fun key => ?_ }
    rw [hleads.order, mem_cons]
    constructor
    · exact .imp_right .inr
    · rintro (hkey | hkey | hkey)
      · exact .inl hkey
      · cases hkey
        exact .inl h
      · exact .inr hkey
  | @resolve resolved h =>
    refine { hleads with
        nodup := fun hnodup => hleads.nodup ?_
        order := fun key => ?_ }
    · refine nodup_append.mpr ⟨hnodup, pairwise_singleton _ _, ?_⟩
      intro key hkey other hother
      rw [mem_singleton.mp hother]
      rintro rfl
      exact h hkey
    · rw [hleads.order, mem_append, mem_singleton, mem_cons, or_assoc, resolveField.injEq]
  | @written key value h =>
    refine { hleads with order := horder (by simp) rfl, cells := fun row other => ?_ }
    rw [hleads.cells, appends, find?_cons]
    split
    next hhere =>
      -- the cell is there already
      obtain ⟨hrow, hkey⟩ := of_decide_eq_true hhere
      obtain ⟨w, hw⟩ := Option.isSome_iff_exists.mp ((written_iff sh key).mp h)
      rw [← hrow, ← hkey, hw]
      rfl
    next => rfl
  | @write key value h =>
    refine { hleads with order := horder (by simp) rfl, cells := fun row other => ?_ }
    rw [hleads.cells, appends]
    show ((find? _ (sh.writes ++ [_])).map Write.cell).or _ = _
    rw [find?_append]
    by_cases hhere : sh.rows = row ∧ key = other
    · obtain ⟨rfl, rfl⟩ := hhere
      have hnone := Option.not_isSome_iff_eq_none.mp (mt (written_iff sh key).mpr h)
      rw [hnone]
      simp
    · simp [hhere, Sheet.write]
  | @lineWritten line h =>
    refine { hleads with order := horder (by simp) rfl, lines := ?_ }
    rw [hleads.lines]
    cases capture with
    | false => rfl
    | true =>
      rw [h rfl]
      rfl
  | @line line hcapture h =>
    refine { hleads with order := horder (by simp) rfl, lines := ?_ }
    rw [hleads.lines, hcapture, h]
    exact append_assoc _ _ _

/-- The sheet of a batch has what can be read off the calls. -/
theorem Sheet.leads_foldl (capture : Bool) (hkept : Kept bufLen sh.decoded calls) :
    sh.Leads capture calls (calls.foldl (call bufLen capture) sh)
      ∧ (calls.foldl (call bufLen capture) sh).decoded ≤ sh.decoded + (calls.map copied).sum := by
  induction calls generalizing sh with
  | nil => exact ⟨.nil sh, Nat.le_refl _⟩
  | cons c calls ih =>
    have hsum := hkept.fits
    rw [map_cons, sum_cons] at hsum
    have hnext : Next capture sh c (sh.call bufLen capture c) :=
      next_call (hkept.valid c mem_cons_self) (by omega)
    have hdecoded := hnext.decoded_le
    have hrest : Kept bufLen (sh.call bufLen capture c).decoded calls :=
      ⟨fun c hc => hkept.valid c (mem_cons_of_mem _ hc), by omega⟩
    obtain ⟨hleads, hle⟩ := ih hrest
    refine ⟨hnext.leads hleads, Nat.le_trans hle ?_⟩
    rw [map_cons, sum_cons]
    omega

end Sheet

-- == tables

variable {name : Bytes}

/-- A name that stands for one column stands for that one. -/
theorem lookup_of_mem {α : Type} {columns : List (Bytes × α)}
    (hnodup : (columns.map Prod.fst).Nodup) {a : α} (h : (name, a) ∈ columns) :
    columns.lookup name = some a := by
  induction columns with
  | nil => cases h
  | cons column columns ih =>
    rw [map_cons, nodup_cons] at hnodup
    rcases mem_cons.mp h with heq | hmem
    · rw [← heq, lookup_cons_self]
    · have hne : name ≠ column.1 := by
        rintro rfl
        exact hnodup.1 (mem_map.mpr ⟨_, hmem, rfl⟩)
      rw [lookup_cons, beq_false_of_ne hne]
      exact ih hnodup.2 hmem

theorem lookup_eq_none {α : Type} {columns : List (Bytes × α)}
    (h : ∀ column ∈ columns, column.1 ≠ name) : columns.lookup name = none := by
  rw [lookup_eq_none_iff]
  intro column hmem
  exact bne_iff_ne.mpr (h column hmem).symm

theorem kindArray_detached (cells : List (Option (Cell F))) (kind : Kind) :
    kindArray .utf8 cells kind = (kindArray .utf8View cells kind).detached := by
  cases kind <;> rfl

/-- A detached column has the same cells. -/
theorem columnOf_detached (cells : List (Option (Cell F))) :
    columnOf .utf8 cells = (columnOf .utf8View cells).map Column.detached := by
  rw [columnOf, columnOf]
  split
  · rfl
  · rw [kindArray_detached]
    rfl
  · simp only [kindArray_detached, Option.map_some, Column.detached, map_map]
    rfl

/-- So have all columns. -/
theorem Contents.columns_detached (bufLen decoded : Nat) (line : Option Bytes)
    (attrs : List (Str × Str)) (c : Contents F) :
    c.columns detachedSpec line attrs
      = (c.columns (viewSpec bufLen decoded) line attrs).map
        fun column => (column.1, column.2.detached) := by
  have hfield : ∀ key, c.fieldColumn detachedSpec line key
      = (c.fieldColumn (viewSpec bufLen decoded) line key).map
        fun column => (column.1, column.2.detached) := by
    intro key
    rw [fieldColumn, fieldColumn]
    split
    · rfl
    · show (columnOf .utf8 _).map _ = ((columnOf .utf8View _).map _).map _
      rw [columnOf_detached, Option.map_map, Option.map_map]
      rfl
  rw [columns, columns, map_append, map_append]
  congr 1
  · congr 1
    · rw [fieldColumns, fieldColumns, map_filterMap]
      exact filterMap_congr fun key _ => hfield key
    · rw [lineColumns, lineColumns, map_map]
      rfl
  · rw [resourceColumns, resourceColumns, map_map]
    rfl

section Calls

variable [FloatOps F] {calls : List (Call Bytes F)} {sh : Sheet F} {capture : Bool}

/-- The sheet has the cells that the calls give. -/
theorem Sheet.Leads.cells_eq (h : empty.Leads capture calls sh) (key : Bytes) :
    sh.cells key = cellsOf calls key := by
  have hrows : sh.rows = rowsOf calls := h.rows.trans (Nat.zero_add _)
  rw [Sheet.cells, hrows]
  refine map_congr_left fun row _ => ?_
  have hcell := h.cells row key
  rw [show (empty : Sheet F).writes.find? _ = none from rfl, Option.map_none, Option.none_or]
    at hcell
  rw [cell]
  show _ = ((find? _ (appends (empty : Sheet F).rows calls)).map _).bind _
  cases hwrite : sh.writes.find? fun w => w.row = row ∧ w.key = key with
  | none =>
    rw [hwrite, Option.map_none, eq_comm, Option.map_eq_none_iff] at hcell
    rw [hcell]
    rfl
  | some w =>
    rw [hwrite, Option.map_some, eq_comm, Option.map_eq_some_iff] at hcell
    obtain ⟨a, ha, heq⟩ := hcell
    rw [ha]
    exact heq.symm

variable {line : Option Bytes} {attrs : List (Str × Str)} {column : Bytes × Column F}
  {spec : StringSpec F}

/-- A field column is one a call resolved. -/
theorem Sheet.Leads.of_mem_fieldColumns (h : empty.Leads capture calls sh)
        (hmem : column ∈ sh.contents.fieldColumns spec line) :
    ∃ key, .resolveField key ∈ calls ∧ column.1 = fromUtf8Lossy key
      ∧ columnOf spec.enc (cellsOf calls key) = some column.2 := by
  obtain ⟨key, hkey, hcolumn⟩ := mem_filterMap.mp hmem
  rw [fieldColumn] at hcolumn
  split at hcolumn
  · cases hcolumn
  · obtain ⟨c, hc, rfl⟩ := Option.map_eq_some_iff.mp hcolumn
    refine ⟨key, ((h.order key).mp hkey).resolve_left not_mem_nil, rfl, ?_⟩
    rw [← h.cells_eq key]
    exact hc

omit [FloatOps F] in
theorem exists_isSome_of_columnOf {enc : List (Option Bytes) → Values F}
    {cells : List (Option (Cell F))} {column : Column F} (h : columnOf enc cells = some column) :
    ∃ cell ∈ cells, cell.isSome := by
  obtain ⟨kind, cell, hmem, hkind⟩ := columnOf_isSome_iff.mp (Option.isSome_of_eq_some h)
  exact ⟨cell, hmem, Option.isSome_map.symm.trans (Option.isSome_of_eq_some hkind)⟩

omit [FloatOps F] in
theorem mem_lineColumns {c : Contents F} :
    column ∈ c.lineColumns spec line
      ↔ line = some column.1 ∧ column.2 = .flat (spec.enc (c.lines.map some)) := by
  rw [lineColumns, mem_map]
  constructor
  · rintro ⟨name, hname, rfl⟩
    exact ⟨Option.mem_toList.mp hname, rfl⟩
  · rintro ⟨hline, hcolumn⟩
    exact ⟨column.1, Option.mem_toList.mpr hline, by rw [← hcolumn]⟩

/-- Names that are apart make a schema. -/
theorem NamesApart.nodup (h : NamesApart line attrs calls)
    (hleads : empty.Leads capture calls sh) (spec : StringSpec F) :
    ((sh.contents.columns spec line attrs).map Prod.fst).Nodup := by
  have hresolved : ∀ key, key ∈ sh.order → .resolveField key ∈ calls := fun key hkey =>
    ((hleads.order key).mp hkey).resolve_left not_mem_nil
  rw [Nodup, pairwise_map, columns, pairwise_append, pairwise_append]
  refine ⟨⟨?fields, ?lines, ?fieldLines⟩, ?resources, ?others⟩
  case fields =>
    refine .filterMap _ ?_ (Pairwise.and_mem.mp (hleads.nodup nodup_nil))
    rintro key other ⟨hkey, hother, hne⟩ column hcolumn column' hcolumn'
    rw [fieldColumn] at hcolumn hcolumn'
    split at hcolumn
    · cases hcolumn
    · split at hcolumn'
      · cases hcolumn'
      · obtain ⟨c, hc, rfl⟩ := Option.map_eq_some_iff.mp hcolumn
        obtain ⟨c', -, rfl⟩ := Option.map_eq_some_iff.mp hcolumn'
        refine h.fields key other (hresolved key hkey) (hresolved other hother) hne ?_
        rw [← hleads.cells_eq key]
        exact exists_isSome_of_columnOf hc
  case lines =>
    cases line with
    | none => exact .nil
    | some name => exact pairwise_singleton _ _
  case fieldLines =>
    intro column hcolumn column' hcolumn' heq
    obtain ⟨key, hkey, hname, -⟩ := hleads.of_mem_fieldColumns hcolumn
    exact h.fieldLine key hkey (hname ▸ heq ▸ (mem_lineColumns.mp hcolumn').1)
  case resources =>
    rw [resourceColumns, pairwise_map]
    refine (pairwise_map.mp h.attrs).imp fun hne heq => hne ?_
    exact append_cancel_left heq
  case others =>
    intro column hcolumn column' hcolumn' heq
    obtain ⟨attr, hattr, rfl⟩ := mem_map.mp hcolumn'
    rcases mem_append.mp hcolumn with hcolumn | hcolumn
    · obtain ⟨key, hkey, hname, -⟩ := hleads.of_mem_fieldColumns hcolumn
      exact h.fieldAttr key hkey attr hattr (hname.symm.trans heq)
    · exact h.lineAttr attr hattr ((mem_lineColumns.mp hcolumn).1.trans (congrArg some heq))

/-- The lines are those captured. -/
theorem Sheet.Leads.lines_eq (h : empty.Leads line.isSome calls sh) (hline : line.isSome) :
    sh.lines = linesOf false calls := by
  rw [h.lines, if_pos hline]
  rfl

variable {bufLen : Nat}

theorem NamesApart.fits_view (h : NamesApart line attrs calls)
    (hleads : empty.Leads line.isSome calls sh)
    (hlines : line.isSome → (linesOf false calls).length = rowsOf calls)
    (hfit : StringsFit bufLen line attrs calls)
    (hdecoded : sh.decoded ≤ (calls.map copied).sum) :
    sh.contents.Fits (viewSpec bufLen sh.decoded) line attrs := by
  have hblocks : bufLen < u32Max ∧ sh.decoded < u32Max := by
    have := hfit.copies
    omega
  have hrows : sh.rows = rowsOf calls := hleads.rows.trans (Nat.zero_add _)
  refine
    { names := h.nodup hleads _, lines := fun hline => ?_, strs := fun _ _ _ _ => hblocks
      lineTexts := fun _ => .inr hblocks, constants := fun attr hattr => ?_ }
  · show sh.lines.length = sh.rows
    rw [hleads.lines_eq hline, hlines hline, hrows]
  · show sh.rows = 0 ∨ attr.2.bytes.length < u32Max
    have hle := hfit.attrs attr hattr
    rcases Nat.eq_zero_or_pos sh.rows with hzero | hpos
    · exact .inl hzero
    · rw [← hrows] at hle
      have := Nat.le_mul_of_pos_left attr.2.bytes.length hpos
      exact .inr (Nat.lt_of_le_of_lt (Nat.le_trans this hle) (by decide))

theorem totalLen_replicate (n : Nat) (text : Bytes) :
    totalLen (List.replicate n (some text)) = n * text.length := by
  rw [totalLen, map_replicate, sum_replicate_nat]
  rfl

variable (h : NamesApart line attrs calls) (hleads : empty.Leads line.isSome calls sh)

include h hleads

theorem NamesApart.fits_detached
    (hlines : line.isSome → (linesOf false calls).length = rowsOf calls)
    (hfit : StringsFit bufLen line attrs calls) : sh.contents.Fits detachedSpec line attrs := by
  have hrows : sh.rows = rowsOf calls := hleads.rows.trans (Nat.zero_add _)
  refine
    { names := h.nodup hleads _, lines := fun hline => ?lines, strs := fun key hkey _ _ => ?strs
      lineTexts := fun hline => ?lineTexts, constants := fun attr hattr => ?constants }
  case lines =>
    show sh.lines.length = sh.rows
    rw [hleads.lines_eq hline, hlines hline, hrows]
  case strs =>
    show totalLen ((sh.cells key).map _) ≤ _
    rw [hleads.cells_eq key]
    exact hfit.cells key (((hleads.order key).mp hkey).resolve_left not_mem_nil)
  case lineTexts =>
    show totalLen (sh.lines.map some) ≤ _
    rw [hleads.lines_eq hline]
    exact hfit.lines hline
  case constants =>
    show totalLen (replicate sh.rows _) ≤ _
    rw [totalLen_replicate, hrows]
    exact hfit.attrs attr hattr

theorem NamesApart.showsCalls {decoded : Nat}
    {batch : RecordBatch F}
    (hrows : batch.numRows = sh.rows)
    (hcolumns : batch.columns = sh.contents.columns (viewSpec bufLen decoded) line attrs) :
    ShowsCalls line attrs calls batch := by
  have hnodup := h.nodup hleads (viewSpec bufLen decoded)
  refine
    { rows := hrows.trans (hleads.rows.trans (Nat.zero_add _)), cells := fun key hkey => ?cells
      lines := fun name hline => ?lines, names := fun column hcolumn => ?names }
  case cells =>
    rw [RecordBatch.column?, hcolumns]
    cases hcolumn : columnOf .utf8View (cellsOf calls key) with
    | some column =>
      refine lookup_of_mem hnodup (mem_append_left _ (mem_append_left _ ?_))
      refine mem_filterMap.mpr ⟨key, (hleads.order key).mpr (.inr hkey), ?_⟩
      rw [fieldColumn, if_neg (h.fieldLine key hkey)]
      show (columnOf .utf8View (sh.cells key)).map _ = _
      rw [hleads.cells_eq key, hcolumn]
      rfl
    | none =>
      -- nothing else has the name of a field without values
      refine lookup_eq_none fun column hmem heq => ?_
      rcases mem_append.mp hmem with hmem | hmem
      · rcases mem_append.mp hmem with hmem | hmem
        · obtain ⟨other, hother, hname, hsome⟩ := hleads.of_mem_fieldColumns hmem
          have hne : other ≠ key := by
            rintro rfl
            rw [show (viewSpec bufLen decoded).enc = .utf8View from rfl, hcolumn]
              at hsome
            cases hsome
          exact h.fields other key hother hkey hne (exists_isSome_of_columnOf hsome)
            (hname.symm.trans heq)
        · exact h.fieldLine key hkey (heq ▸ (mem_lineColumns.mp hmem).1)
      · obtain ⟨attr, hattr, rfl⟩ := mem_map.mp hmem
        exact h.fieldAttr key hkey attr hattr heq.symm
  case lines =>
    rw [RecordBatch.column?, hcolumns]
    refine lookup_of_mem hnodup (mem_append_left _ (mem_append_right _ ?_))
    refine mem_lineColumns.mpr ⟨hline, ?_⟩
    rw [← hleads.lines_eq (Option.isSome_of_eq_some hline)]
    rfl
  case names =>
    rw [hcolumns] at hcolumn
    rcases mem_append.mp hcolumn with hmem | hmem
    · rcases mem_append.mp hmem with hmem | hmem
      · obtain ⟨key, hkey, hname, -⟩ := hleads.of_mem_fieldColumns hmem
        exact .inl ⟨key, hkey, hname⟩
      · exact .inr (.inl (mem_lineColumns.mp hmem).1)
    · obtain ⟨attr, hattr, rfl⟩ := mem_map.mp hmem
      exact .inr (.inr ⟨attr, hattr, rfl⟩)

omit h hleads

/-- Both tables, from the sheet that the builder has. -/
theorem NamesApart.cellSemantics [ArrowOps] {b : StreamingBuilder F}
    (h : NamesApart b.lineFieldName b.resourceAttrs calls) (hrep : Represents b sh)
    (hbatch : b.lifecycle.state = .inBatch)
    (hleads : empty.Leads b.lineFieldName.isSome calls sh)
    (hlines : b.lineFieldName.isSome → (linesOf false calls).length = rowsOf calls)
    (hfit : StringsFit b.buf.length b.lineFieldName b.resourceAttrs calls)
    (hdecoded : sh.decoded ≤ (calls.map copied).sum) : CellSemantics b calls := by
  obtain ⟨batch, hbatchRows, hcolumns⟩ : ∃ batch : RecordBatch F, batch.numRows = sh.rows
      ∧ batch.columns = sh.contents.columns (viewSpec b.buf.length b.decodedBuf.length)
        b.lineFieldName b.resourceAttrs :=
    ⟨⟨sh.rows, _, fun column => length_of_mem_columns (faithful_viewArrays b).validity
      (h.fits_view hleads hlines hfit hdecoded).lines⟩, rfl, rfl⟩
  obtain ⟨detached, hdetachedRows, hdetachedColumns⟩ : ∃ batch : RecordBatch F,
      batch.numRows = sh.rows
      ∧ batch.columns = sh.contents.columns detachedSpec b.lineFieldName b.resourceAttrs :=
    ⟨⟨sh.rows, _, fun column => length_of_mem_columns (faithful_detachedArrays b).validity
      (h.fits_detached hleads hlines hfit).lines⟩, rfl, rfl⟩
  refine ⟨batch, _, detached, _, finishBatch_ok.mpr ⟨hbatch, hrep.fits, ?view, rfl⟩,
    h.showsCalls hleads hbatchRows hcolumns,
    finishBatchDetached_ok.mpr ⟨hbatch, ?copies, rfl⟩, hdetachedRows.trans hbatchRows.symm, ?same⟩
  case view =>
    refine (finishWith_ok hrep hbatch (faithful_viewArrays b) batch).mpr ⟨?_, hbatchRows, hcolumns⟩
    rw [hrep.decoded]
    exact h.fits_view hleads hlines hfit hdecoded
  case copies =>
    exact (finishWith_ok hrep hbatch (faithful_detachedArrays b) detached).mpr
      ⟨h.fits_detached hleads hlines hfit, hdetachedRows, hdetachedColumns⟩
  case same =>
    rw [hdetachedColumns, hcolumns]
    exact columns_detached _ _ _ _ _

end Calls

-- == batches

/-- Every batch of every run: the tables have the first value given to each
field in each row. -/
theorem tables_show_first_appends [FloatOps F] [ArrowOps] {buf : Bytes}
    {calls : List (Call Slice F)} {s : Session F} (hrun : BatchRun buf calls s)
    (hvalid : ∀ c ∈ calls, (c.withText buf).ValidText)
    (hnames : NamesApart s.builder.lineFieldName s.builder.resourceAttrs
      (calls.map (withText buf)))
    (hlines : s.builder.lineFieldName.isSome →
      (linesOf false (calls.map (withText buf))).length
        = rowsOf (calls.map (withText buf)))
    (hfit : StringsFit buf.length s.builder.lineFieldName s.builder.resourceAttrs
      (calls.map (withText buf))) :
    CellSemantics s.builder (calls.map (withText buf)) := by
  obtain ⟨hbuf, hrep⟩ := hrun.represents
  have hkept : Kept buf.length (empty : Sheet F).decoded (calls.map (withText buf)) := by
    refine ⟨forall_mem_map.mpr hvalid, ?_⟩
    have := hfit.copies
    show buf.length + 0 + _ ≤ _
    omega
  obtain ⟨hleads, hdecoded⟩ := leads_foldl s.builder.lineFieldName.isSome hkept
  exact hnames.cellSemantics hrep hrun.ended hleads hlines (hbuf ▸ hfit)
    (Nat.le_trans hdecoded (Nat.le_of_eq (Nat.zero_add _)))

/-- A row with two values for one field. -/
def twoValues : List (Call Slice Int) :=
  [.beginRow, .resolveField [0x61], .append [0x61] (.str ⟨0, 1⟩), .append [0x61] (.i64Value 2),
    .endRow]

/-- The second value of a field in a row is not shown. -/
theorem second_value_is_not_shown :
    ∃ s : Session Int, BatchRun [0x78] twoValues s
      ∧ CellSemantics s.builder (twoValues.map (withText [0x78])) := by
  have hrun : (((.new none : Session Int).beginBatch [0x78]).bind (·.calls twoValues)).map
      (fun s =>
        (s.builder.lifecycle.state, s.builder.lineFieldName, s.builder.resourceAttrs.isEmpty))
      = some (.inBatch, none, true) := by decide +kernel
  obtain ⟨s, hs, heq⟩ := Option.map_eq_some_iff.mp hrun
  obtain ⟨s₁, hbegin, hcalls⟩ := Option.bind_eq_some_iff.mp hs
  simp only [Prod.mk.injEq, List.isEmpty_iff] at heq
  obtain ⟨hstate, hline, hattrs⟩ := heq
  have hbatch : BatchRun [0x78] twoValues s :=
    ⟨⟨none, _, s₁, .init, hbegin, hcalls⟩, by simp [twoValues, InBuf, Slice.InBuf], hstate⟩
  have htext : validUtf8 [0x78] := by decide +kernel
  have hvalid : ∀ c ∈ twoValues, (c.withText [0x78]).ValidText := by
    simp only [twoValues, forall_mem_cons]
    exact ⟨trivial, trivial, htext, trivial, trivial, by simp⟩
  have hkey : ∀ key, .resolveField key ∈ twoValues.map (withText [0x78]) → key = [0x61] := by
    intro key hmem
    simpa [twoValues, withText] using hmem
  refine ⟨s, hbatch, tables_show_first_appends hbatch hvalid ?names ?lines ?fit⟩
  case names =>
    rw [hline, hattrs]
    exact
      { fields := fun key other hk ho hne => absurd ((hkey key hk).trans (hkey other ho).symm) hne
        fieldLine := by simp, fieldAttr := by simp, lineAttr := by simp, attrs := nodup_nil }
  case lines =>
    rw [hline]
    simp
  case fit =>
    rw [hline, hattrs]
    refine { copies := by decide, cells := fun key hk => ?_, lines := by simp, attrs := by simp }
    rw [hkey key hk]
    decide

/-- Two keys that are not UTF-8. -/
def twoInvalidKeys : List (Call Slice Int) :=
  [.beginRow, .resolveField [0xff], .resolveField [0xfe], .append [0xff] (.i64Value 1),
    .append [0xfe] (.i64Value 2), .endRow]

/-- Two keys that are replaced by one text fail the batch. -/
theorem invalid_keys_fail_the_batch :
    ∃ s : Session Int, BatchRun [] twoInvalidKeys s
      ∧ (∀ c ∈ twoInvalidKeys, (c.withText []).ValidText)
      ∧ (s.builder.finishBatch.isOk = false)
      ∧ ¬ CellSemantics s.builder (twoInvalidKeys.map (withText [])) := by
  have hrun : (((.new none : Session Int).beginBatch []).bind (·.calls twoInvalidKeys)).map
      (fun s => (s.builder.lifecycle.state, s.builder.finishBatch.isOk))
      = some (.inBatch, false) := by decide +kernel
  obtain ⟨s, hs, heq⟩ := Option.map_eq_some_iff.mp hrun
  obtain ⟨s₁, hbegin, hcalls⟩ := Option.bind_eq_some_iff.mp hs
  obtain ⟨hstate, hfails⟩ := Prod.mk.injEq .. ▸ heq
  have hin : ∀ c ∈ twoInvalidKeys, c.InBuf [] := by simp [twoInvalidKeys, InBuf]
  have hvalid : ∀ c ∈ twoInvalidKeys, (c.withText []).ValidText := by
    simp [twoInvalidKeys, withText, Append.withText, ValidText]
  refine ⟨s, ⟨⟨none, _, s₁, .init, hbegin, hcalls⟩, hin, hstate⟩, hvalid, hfails, ?_⟩
  rintro ⟨batch, b', -, -, hok, -⟩
  rw [hok] at hfails
  cases hfails

end FastForward.Arrow
