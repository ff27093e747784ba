import RecordModel.Database.Inquiry
import RecordModel.Query.Compile
import RecordModel.RecordSet.Basic
import RecordModel.Value.Coercion

/-!
# Access to records

What it takes to create, find, count, read, change and delete records: the statement for
each, and how its rows are read. A session does this for a catalog and a database. The
empty record set needs no statement: reading it gives nothing, and writing or deleting
it reaches no row.

Results:
* `recordOf_width`: a row is read only if it has one cell per path.
* `Session.read_empty`: reading the empty set asks nothing.
-/
namespace RecordModel

open RecordModel.Sql RecordModel.Number

/-! ## Rows -/

/-- The id in the first cell of a row (`scan_id`). -/
def idOf : Row → Result Int64
  | [] => .error (.typeMismatch .emptyRow)
  | value :: _ => do
    match (← DataType.integer.coerce value).toInt64? with
    | some i => return i
    | none => .error (.typeMismatch (.notAnId value))

/-- The number in the first cell of a row. -/
def countOf (row : Row) : Result Nat := do
  let count ← idOf row
  if count < 0 then .error (.typeMismatch (.rowCount count.toInt))
  else return count.toInt.toNat

/-- Put the cells of a row under their paths, brought to the types of the fields. -/
def fillRecord (record : FieldMap) : List (Path × DataType) → Row → Result FieldMap
  | (path, type) :: columns, value :: row => do
    fillRecord (record.insert path.text (← type.coerce value)) columns row
  | _, _ => .ok record

/-- The record of a row (`materialize`). -/
def recordOf (columns : List (Path × DataType)) (row : Row) : Result FieldMap :=
  if row.length ≠ columns.length then
    .error (.typeMismatch (.rowWidth row.length columns.length))
  else fillRecord .empty columns row

/-! ## Statements -/

namespace RecordSet

/-- The inquiry that inserts a record and gives it (`create`). -/
def creating (c : Catalog) (d : Dialect) (model : String) (data : FieldMap) :
    Result (Inquiry RecordSet) := do
  let k ← Compiler.new c d (.new model)
  return (Inquiry.one (← k.insert data) idOf).map fun i => ⟨k.model, [i]⟩

/-- The inquiry for the records of a query, in its order (`search`). -/
def searching (c : Catalog) (d : Dialect) (q : Query) : Result (Inquiry RecordSet) := do
  let k ← Compiler.new c d (q.select [idField])
  return (Inquiry.each (← k.select) idOf).map fun ids => ⟨k.model, ids⟩

/-- The inquiry for the number of records of a query (`search_count`). -/
def counting (c : Catalog) (d : Dialect) (q : Query) : Result (Inquiry Nat) := do
  let k ← Compiler.new c d q
  return Inquiry.one (← k.count) countOf

/-- The paths to read; all fields of the model when none is named. -/
def readPaths (rs : RecordSet) (fields : List String) : List Path :=
  if fields.isEmpty then rs.model.fields.map fun f => .ofText f.name
  else fields.map Path.ofText

/-- The inquiry for the values of fields, a record per row, ordered by id (`read`). -/
def reading (c : Catalog) (d : Dialect) (rs : RecordSet) (fields : List String) :
    Result (Inquiry (List FieldMap)) := do
  let paths := rs.readPaths fields
  let types ← paths.mapM fun path => return (← resolve c rs.model path).field.dataType
  let q := (rs.query.select (paths.map Path.text)).orderBy idField
  let k ← Compiler.new c d q
  return Inquiry.each (← k.select) (recordOf (paths.zip types))

/-- The statement that writes a payload to the records of a set (`write`). -/
def writing (c : Catalog) (d : Dialect) (rs : RecordSet) (data : FieldMap) : Result Statement := do
  (← Compiler.new c d rs.query).update data

/-- The statement that deletes the records of a set (`unlink`). -/
def unlinking (c : Catalog) (d : Dialect) (rs : RecordSet) : Result Statement := do
  (← Compiler.new c d rs.query).delete

end RecordSet

/-! ## Sessions -/

/-- A catalog bound to a database. -/
structure Session (σ : Type) where
  catalog : Catalog
  database : Database σ

namespace Session

variable {σ : Type}

/-- Records of a model by their ids. -/
def browse (s : Session σ) (model : String) (ids : List Int64) : Result RecordSet := do
  return ⟨← s.catalog.getModel model, ids⟩

/-- Insert a record and give it. -/
def create (s : Session σ) (model : String) (data : FieldMap) : Action σ RecordSet := do
  s.database.ask (← RecordSet.creating s.catalog s.database.dialect model data)

/-- The records of a query, in its order. -/
def search (s : Session σ) (q : Query) : Action σ RecordSet := do
  s.database.ask (← RecordSet.searching s.catalog s.database.dialect q)

/-- The number of records of a query. -/
def count (s : Session σ) (q : Query) : Action σ Nat := do
  s.database.ask (← RecordSet.counting s.catalog s.database.dialect q)

/-- The values of fields of every record, ordered by id; all fields when none is named. -/
def read (s : Session σ) (rs : RecordSet) (fields : List String) : Action σ (List FieldMap) :=
  if rs.isEmpty then pure []
  else do s.database.ask (← rs.reading s.catalog s.database.dialect fields)

/-- Write a payload to every record; gives the number of affected rows. -/
def write (s : Session σ) (rs : RecordSet) (data : FieldMap) : Action σ Nat :=
  if rs.isEmpty then pure 0
  else do s.database.run (← rs.writing s.catalog s.database.dialect data)

/-- Delete every record; gives the number of affected rows. -/
def unlink (s : Session σ) (rs : RecordSet) : Action σ Nat :=
  if rs.isEmpty then pure 0
  else do s.database.run (← rs.unlinking s.catalog s.database.dialect)

theorem read_empty (s : Session σ) {rs : RecordSet} (fields : List String) (h : rs.ids = []) :
    s.read rs fields = pure [] := by
  simp [read, RecordSet.isEmpty, h]

end Session

theorem recordOf_width {columns : List (Path × DataType)} {row : Row} {record : FieldMap}
    (h : recordOf columns row = .ok record) : row.length = columns.length := by
  unfold recordOf at h
  split at h
  · cases h
  · rename_i hw; exact Decidable.not_not.1 hw

end RecordModel
