import RecordModel.Proofs.Catalog.Reachable
import RecordModel.Proofs.FieldMap.Entries
import RecordModel.RecordSet.Access

/-!
# Records of rows

The cells of a row are put into a map one after the other, each under the text of its column. A
later cell takes the place of an earlier one under the same text, but the text keeps its place.
`RecordRead` says what the map of a row is without saying how it is filled.

Results:
* `recordOf_eq_ok_iff`: a row has a record exactly if each cell fits its column, and which one.
-/
namespace RecordModel

/-! ## Rows -/

/-- The record of a row with a cell for each column: each cell is brought to the type of its column,
and of the columns with one text the last gives the value. -/
structure RecordRead (columns : List (Path × DataType)) (row : Row) (record : FieldMap) : Prop where
  width : row.length = columns.length
  keys : record.keys = (columns.map fun c => c.1.text).eraseDups
  cells : ∀ before path type behind, columns = before ++ (path, type) :: behind →
    ∃ cell v, row[before.length]? = some cell ∧ type.coerce cell = .ok v ∧
      ((∀ c ∈ behind, c.1.text ≠ path.text) → record.get? path.text = some v)

/-- A row of another width than its columns, or with a cell that cannot be brought to its type. -/
def Misfit (columns : List (Path × DataType)) (row : Row) : Prop :=
  row.length ≠ columns.length ∨
    ∃ before path type behind cell, columns = before ++ (path, type) :: behind ∧
      row[before.length]? = some cell ∧ ∀ v, type.coerce cell ≠ .ok v

theorem Misfit.not_recordRead {columns : List (Path × DataType)} {row : Row}
    (h : Misfit columns row) (record : FieldMap) : ¬ RecordRead columns row record := by
  intro hread
  obtain hwidth | ⟨before, path, type, behind, cell, hcolumns, hcell, hnone⟩ := h
  · exact hwidth hread.width
  · obtain ⟨cell', v, hcell', hv, -⟩ := hread.cells before path type behind hcolumns
    cases hcell.symm.trans hcell'
    exact hnone v hv

/-- The cells of a row brought to the types of their columns, each under the text of its path. -/
inductive Coerced : List (Path × DataType) → Row → List (String × Value) → Prop where
  | nil : Coerced [] [] []
  | cons {path : Path} {type : DataType} {cell v : Value} {columns : List (Path × DataType)}
      {row : Row} {es : List (String × Value)} : type.coerce cell = .ok v →
    Coerced columns row es → Coerced ((path, type) :: columns) (cell :: row) ((path.text, v) :: es)

namespace Coerced

variable {columns : List (Path × DataType)} {row : Row} {es : List (String × Value)}

theorem length_eq (h : Coerced columns row es) : row.length = columns.length := by
  induction h with
  | nil => rfl
  | cons _ _ ih => rw [List.length_cons, List.length_cons, ih]

theorem keys_eq (h : Coerced columns row es) :
    es.map Prod.fst = columns.map fun c => c.1.text := by
  induction h with
  | nil => rfl
  | cons _ _ ih => rw [List.map_cons, List.map_cons, ih]

/-- Where a column is, there are its cell and the entry for it. -/
theorem split (h : Coerced columns row es) {before behind : List (Path × DataType)} {path : Path}
    {type : DataType} (hcolumns : columns = before ++ (path, type) :: behind) :
    ∃ cell v es₁ es₂, row[before.length]? = some cell ∧ type.coerce cell = .ok v ∧
      es = es₁ ++ (path.text, v) :: es₂ ∧ es₂.map Prod.fst = behind.map fun c => c.1.text := by
  induction h generalizing before with
  | nil => simp at hcolumns
  | @cons _ _ cell v columns row es hv hrest ih =>
    cases before with
    | nil =>
      cases hcolumns
      exact ⟨cell, v, [], es, rfl, hv, rfl, hrest.keys_eq⟩
    | cons first before =>
      obtain ⟨rfl, hsplit⟩ := List.cons.inj hcolumns
      obtain ⟨cell, v, es₁, es₂, hcell, hv, rfl, hbehind⟩ := ih hsplit
      exact ⟨cell, v, _ :: es₁, es₂, hcell, hv, rfl, hbehind⟩

/-- If each cell can be brought to its type, all can. -/
theorem exists_of_cells (hwidth : row.length = columns.length)
    (h : ∀ before path type behind, columns = before ++ (path, type) :: behind →
      ∃ cell v, row[before.length]? = some cell ∧ type.coerce cell = .ok v) :
    ∃ es, Coerced columns row es := by
  induction columns generalizing row with
  | nil =>
    rw [List.length_eq_zero_iff.1 hwidth]
    exact ⟨[], .nil⟩
  | cons column columns ih =>
    obtain ⟨path, type⟩ := column
    obtain ⟨cell, v, hcell, hv⟩ := h [] path type columns rfl
    cases row with
    | nil => cases hcell
    | cons cell' row =>
      cases hcell
      obtain ⟨es, hes⟩ := ih (Nat.succ.inj hwidth) fun before path' type' behind hsplit =>
        h ((path, type) :: before) path' type' behind (by rw [hsplit]; rfl)
      exact ⟨_, .cons hv hes⟩

end Coerced

theorem fillRecord_eq_ok {m record : FieldMap} {columns : List (Path × DataType)} {row : Row}
    (hwidth : row.length = columns.length) :
    fillRecord m columns row = .ok record ↔
      ∃ es, Coerced columns row es ∧ record = m.insertAll es := by
  induction columns generalizing m row with
  | nil =>
    rw [List.length_eq_zero_iff.1 hwidth]
    constructor
    · intro h
      cases h
      exact ⟨[], .nil, rfl⟩
    · rintro ⟨es, hes, rfl⟩
      cases hes
      rfl
  | cons column columns ih =>
    obtain ⟨path, type⟩ := column
    cases row with
    | nil => cases hwidth
    | cons cell row =>
      have hrest {m : FieldMap} := ih (m := m) (Nat.succ.inj hwidth)
      rw [fillRecord, bind_eq_ok]
      constructor
      · rintro ⟨v, hv, h⟩
        obtain ⟨es, hes, rfl⟩ := hrest.1 h
        exact ⟨_, .cons hv hes, rfl⟩
      · rintro ⟨es, hes, rfl⟩
        cases hes with
        | cons hv hes => exact ⟨_, hv, hrest.2 ⟨_, hes, rfl⟩⟩

theorem Coerced.recordRead {columns : List (Path × DataType)} {row : Row}
    {es : List (String × Value)} (h : Coerced columns row es) :
    RecordRead columns row (FieldMap.empty.insertAll es) where
  width := h.length_eq
  keys := by
    rw [FieldMap.keys_insertAll, h.keys_eq]
    simp [FieldMap.empty, FieldMap.keys, List.removeAll]
  cells before path type behind hcolumns := by
    obtain ⟨cell, v, es₁, es₂, hcell, hv, rfl, hbehind⟩ := h.split hcolumns
    refine ⟨cell, v, hcell, hv, fun hlast => FieldMap.get?_insertAll _ _ _ _ fun e he => ?_⟩
    have hmem := List.mem_map_of_mem (f := Prod.fst) he
    rw [hbehind] at hmem
    obtain ⟨c, hc, hkey⟩ := List.mem_map.1 hmem
    rw [← hkey]
    exact hlast c hc

/-- A list that has what is looked for has it for a last time. -/
theorem exists_last {α : Type} {p : α → Prop} {xs : List α} (h : ∃ x ∈ xs, p x) :
    ∃ before x behind, xs = before ++ x :: behind ∧ p x ∧ ∀ y ∈ behind, ¬ p y := by
  induction xs with
  | nil => simp at h
  | cons x xs ih =>
    by_cases hrest : ∃ y ∈ xs, p y
    · obtain ⟨before, y, behind, rfl, hy, hlast⟩ := ih hrest
      exact ⟨x :: before, y, behind, rfl, hy, hlast⟩
    · have hnone : ∀ y ∈ xs, ¬ p y := by simpa using hrest
      obtain ⟨y, hy, hpy⟩ := h
      rcases List.mem_cons.1 hy with rfl | hy
      · exact ⟨[], y, xs, rfl, hpy, hnone⟩
      · exact absurd hpy (hnone y hy)

/-- What the record of a row is, and that there is one only if each cell fits its column. -/
theorem recordOf_eq_ok_iff {columns : List (Path × DataType)} {row : Row} {record : FieldMap} :
    recordOf columns row = .ok record ↔ RecordRead columns row record := by
  constructor
  · intro h
    have hwidth := recordOf_width h
    rw [recordOf, if_neg (by simpa using hwidth)] at h
    obtain ⟨es, hes, rfl⟩ := (fillRecord_eq_ok hwidth).1 h
    exact hes.recordRead
  · intro h
    obtain ⟨es, hes⟩ := Coerced.exists_of_cells h.width fun before path type behind hcolumns => by
      obtain ⟨cell, v, hcell, hv, -⟩ := h.cells before path type behind hcolumns
      exact ⟨cell, v, hcell, hv⟩
    have hsame : record = FieldMap.empty.insertAll es := by
      have hread := hes.recordRead
      have hnodup : FieldMap.empty.keys.Nodup := List.nodup_nil
      refine (FieldMap.eq_of_get? (FieldMap.nodup_keys_insertAll hnodup es)
        (hread.keys.trans h.keys.symm) fun key hkey => ?_).symm
      rw [hread.keys, List.mem_eraseDups] at hkey
      obtain ⟨before, ⟨path, type⟩, behind, hcolumns, rfl, hlast⟩ :=
        exists_last (List.mem_map.1 hkey)
      obtain ⟨cell, v, hcell, hv, hvalue⟩ := hread.cells before path type behind hcolumns
      obtain ⟨cell', v', hcell', hv', hvalue'⟩ := h.cells before path type behind hcolumns
      cases hcell.symm.trans hcell'
      cases hv.symm.trans hv'
      exact (hvalue hlast).trans (hvalue' hlast).symm
    rw [recordOf, if_neg (by simpa using h.width)]
    exact (fillRecord_eq_ok h.width).2 ⟨es, hes, hsame⟩

end RecordModel
