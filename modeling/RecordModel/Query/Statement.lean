import RecordModel.Query.Basic
import RecordModel.Query.Where

/-!
# Statements

The statements that queries and payloads are compiled to, first as structures, then as
text with placeholders and the arguments bound to them.

Results:
* `Statement.display_plain`: a statement without arguments is displayed as its text.
-/
namespace RecordModel

open RecordModel.Text RecordModel.Sql

/-- The text of a statement and the arguments of its placeholders (`SqlStatement`). -/
structure Statement where
  sql : String
  args : List Value

/-- A statement with its arguments behind it. -/
def Statement.display (s : Statement) : String :=
  if s.args.isEmpty then s.sql else s.sql ++ " -- [" ++ argumentsText s.args ++ "]"

/-! ## Selecting -/

/-- A projected column under the text of its path. -/
structure Projection where
  column : ColumnRef
  label : String

def Projection.text (p : Projection) : String := p.column.text ++ " AS " ++ quoteName p.label

/-- A column to order by. -/
structure OrderItem where
  column : ColumnRef
  direction : Option Direction

def OrderItem.text (o : OrderItem) : String :=
  match o.direction with
  | none => o.column.text
  | some .ascending => o.column.text ++ " ASC"
  | some .descending => o.column.text ++ " DESC"

structure Selection where
  distinct : Bool
  columns : List Projection
  joins : List Join
  terms : List Term
  groups : List ColumnRef
  orders : List OrderItem
  limit : Nat
  offset : Nat

/-- A text as one part of a statement; an empty one makes no part. -/
def part (s : String) : List String := if s.isEmpty then [] else [s]

def listPart (keyword : String) (items : List String) : List String :=
  if items.isEmpty then [] else [keyword ++ " " ++ join ", " items]

/-- The SELECT statement of a selection (`select_paths`). -/
def Selection.statement (s : Selection) (d : Dialect) : Result Statement := do
  let (clause, args) ← whereClause s.terms
  let parts :=
    ["SELECT"] ++ (if s.distinct then ["DISTINCT"] else [])
      ++ [join ", " (s.columns.map Projection.text), "FROM", joinsText s.joins]
      ++ part clause
      ++ listPart "GROUP BY" (s.groups.map ColumnRef.text)
      ++ listPart "ORDER BY" (s.orders.map OrderItem.text)
      ++ part (d.limitOffsetSql s.limit s.offset)
  return ⟨join " " parts, args⟩

/-- The statement that counts the rows of a selection (`count`). -/
def Selection.countStatement (s : Selection) (d : Dialect) : Result Statement := do
  let inner ← s.statement d
  return ⟨"SELECT COUNT(*) FROM (" ++ inner.sql ++ ") foo", inner.args⟩

/-! ## Writing -/

/-- A column and the value written to it. -/
structure Assignment where
  column : String
  value : Value

structure Insertion where
  table : String
  assignments : List Assignment

/-- The statement that inserts one row and gives its id (`insert`). -/
def Insertion.statement (i : Insertion) : Statement :=
  ⟨"INSERT INTO " ++ quoteName i.table ++ " (" ++ join ", " (i.assignments.map Assignment.column)
      ++ ") VALUES (" ++ join ", " (i.assignments.map fun _ => "?") ++ ") RETURNING " ++ idField,
    i.assignments.map Assignment.value⟩

/-- The rows of a table that an update or a deletion reaches: those that the terms hold
for, or those whose id a query across relations gives. -/
structure Target where
  table : String
  joins : List Join
  terms : List Term

/-- The WHERE clause of a target (`write_where_clause`). -/
def Target.clause (t : Target) : Result (String × List Value) := do
  let (clause, args) ← whereClause t.terms
  if hasJoins t.joins then
    let id := (ColumnRef.mk t.table idField).text
    return ("WHERE " ++ id ++ " IN (SELECT " ++ id ++ " FROM " ++ joinsText t.joins ++ " "
      ++ clause ++ ")", args)
  else return (clause, args)

/-- A statement followed by a clause, if there is one. -/
def withClause (sql clause : String) : String :=
  if clause.isEmpty then sql else sql ++ " " ++ clause

/-- The statement that writes assignments to the rows of a target (`update`). -/
def Target.updateStatement (t : Target) (assignments : List Assignment) : Result Statement := do
  let (clause, args) ← t.clause
  let settings := join ", " (assignments.map fun a => a.column ++ " = ?")
  return ⟨withClause ("UPDATE " ++ quoteName t.table ++ " SET " ++ settings) clause,
    assignments.map Assignment.value ++ args⟩

/-- The statement that deletes the rows of a target (`delete`). -/
def Target.deleteStatement (t : Target) : Result Statement := do
  let (clause, args) ← t.clause
  return ⟨withClause ("DELETE FROM " ++ quoteName t.table) clause, args⟩

theorem Statement.display_plain (sql : String) : (Statement.mk sql []).display = sql := rfl

end RecordModel
