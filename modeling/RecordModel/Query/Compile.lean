import RecordModel.FieldMap
import RecordModel.Query.Statement

/-!
# Compiling queries

Every path of a query is walked in the catalog, the joins of all paths are put together,
and one statement comes out; values stay among its arguments.

Results:
* `Compiler.projection_of_fields`: the paths that a query asks for are taken as they are.
-/
namespace RecordModel

open RecordModel.Sql

/-- A query with its model, ready for a dialect (`SqlCompiler`). -/
structure Compiler where
  catalog : Catalog
  dialect : Dialect
  query : Query
  model : Model

/-- A query's compiler; its model must be declared. -/
def Compiler.new (c : Catalog) (d : Dialect) (q : Query) : Result Compiler := do
  return ⟨c, d, q, ← c.getModel q.model⟩

namespace Compiler

def resolve (k : Compiler) (path : Path) : Result Resolution :=
  RecordModel.resolve k.catalog k.model path

/-- The paths to project; all fields of the model when the query names none (`projection`). -/
def projection (k : Compiler) : List Path :=
  if k.query.fields.isEmpty then k.model.fields.map fun f => .ofText f.name else k.query.fields

/-- Walk paths one after the other, adding their joins to `set`. -/
def resolveAll (k : Compiler) (set : List Join) : List Path → Result (List Join × List ColumnRef)
  | [] => .ok (set, [])
  | path :: rest => do
    let r ← k.resolve path
    let (set, columns) ← k.resolveAll (addJoins set r.joins) rest
    return (set, r.column :: columns)

/-- The selection of paths from the records of the query (`select_paths`). -/
def selection (k : Compiler) (paths : List Path) : Result Selection := do
  let orders ← k.query.orders.mapM SortKey.read
  let (joins, columns) ← k.resolveAll [] paths
  if columns.isEmpty then .error (.invalidExpression (.emptyProjection k.model.name))
  let (joins, _) ← k.resolveAll joins k.query.condition.paths
  let (joins, groups) ← k.resolveAll joins k.query.groups
  let (joins, orderColumns) ← k.resolveAll joins (orders.map SortKey.path)
  let terms ← compileNodes k.catalog k.dialect k.model k.query.condition.nodes
  return {
    distinct := k.query.distinct
    columns := (columns.zip paths).map fun (column, path) => ⟨column, path.text⟩
    joins, terms, groups
    orders := (orderColumns.zip orders).map fun (column, order) => ⟨column, order.direction⟩
    limit := k.query.limit
    offset := k.query.offset }

/-- The SELECT statement of the query (`select`). -/
def select (k : Compiler) : Result Statement := do
  (← k.selection k.projection).statement k.dialect

/-- The statement that counts the records of the query (`count`). -/
def count (k : Compiler) : Result Statement := do
  (← k.selection [.ofText idField]).countStatement k.dialect

/-- The columns and values of a payload, in its order (`write_columns`). -/
def assignments (k : Compiler) (kind : WriteKind) (data : FieldMap) : Result (List Assignment) :=
  if data.isEmpty then .error (.emptyPayload kind)
  else data.entries.mapM fun (name, value) => do
    return ⟨(← k.model.getField name).column, value⟩

/-- The statement that inserts a payload as a record (`insert`). -/
def insert (k : Compiler) (data : FieldMap) : Result Statement := do
  return Insertion.statement ⟨k.model.table, ← k.assignments .insert data⟩

/-- The records that an update or a deletion reaches (`write_where_clause`). -/
def target (k : Compiler) : Result Target := do
  let (joins, _) ← k.resolveAll [] k.query.condition.paths
  let terms ← compileNodes k.catalog k.dialect k.model k.query.condition.nodes
  return ⟨k.model.table, joins, terms⟩

/-- The statement that writes a payload to the records of the query (`update`). -/
def update (k : Compiler) (data : FieldMap) : Result Statement := do
  let assignments ← k.assignments .update data
  (← k.target).updateStatement assignments

/-- The statement that deletes the records of the query (`delete`). -/
def delete (k : Compiler) : Result Statement := do (← k.target).deleteStatement

theorem projection_of_fields {k : Compiler} (h : k.query.fields ≠ []) :
    k.projection = k.query.fields := by
  simp [projection, h]

end Compiler

end RecordModel
