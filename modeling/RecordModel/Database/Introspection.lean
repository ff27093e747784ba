import RecordModel.Database.Basic

/-!
# Looking at a schema

The tables, columns and indexes that a database reports, by the catalog queries of its
dialect.

Results:
* `putColumn_names`: a column that is reported twice counts once.
-/
namespace RecordModel

open RecordModel.Sql RecordModel.Text

/-- A column as a database reports it (`ColumnData`). -/
structure ColumnInfo where
  name : String
  type : String
  nullable : Bool
  default : Option String
  deriving DecidableEq

/-! ## Queries -/

namespace Sql.Dialect

def tablesQuery : Dialect → String
  | postgres =>
    "SELECT table_name FROM information_schema.tables WHERE table_type = 'BASE TABLE' AND "
      ++ "table_schema NOT IN ('pg_catalog', 'information_schema')"
  | sqlite =>
    "SELECT name FROM sqlite_master WHERE type = 'table' AND name NOT LIKE 'sqlite_%'"

def columnsQuery : Dialect → String
  | postgres =>
    "SELECT column_name, data_type, is_nullable, column_default "
      ++ "FROM information_schema.columns WHERE table_name = ?"
  | sqlite => "SELECT name, type, \"notnull\", dflt_value FROM pragma_table_info(?)"

def indexQuery : Dialect → String
  | postgres => "SELECT COUNT(*) FROM pg_indexes WHERE tablename = ? AND indexname = ?"
  | sqlite =>
    "SELECT COUNT(*) FROM sqlite_master WHERE type = 'index' AND tbl_name = ? AND name = ?"

/-! ## Answers -/

/-- The text of a row's cell. -/
def textAt (row : Row) (i : Nat) : Option String := row[i]?.bind Value.toText?

/-- The plain text of a value; none of null. -/
def plainUnlessNull (v : Value) : Option String := if v.isNull then none else some v.plain

/-- The column that a row of the answer describes. -/
def columnOfRow (d : Dialect) (row : Row) : Option ColumnInfo :=
  (textAt row 0).map fun name =>
    match d with
    | postgres =>
      { name
        type := (textAt row 1).getD ""
        nullable := (textAt row 2).any fun s => s.toList.map Char.toLower = ['y', 'e', 's']
        default := textAt row 3 }
    | sqlite =>
      { name
        type := (row[1]?.map Value.plain).getD ""
        nullable := ((row[2]?.bind Value.toInt64?).getD 0) == 0
        default := row[3]?.bind plainUnlessNull }

end Sql.Dialect

/-- Put a column in the place of the one of its name, or at the end. -/
def putColumn (c : ColumnInfo) : List ColumnInfo → List ColumnInfo
  | [] => [c]
  | d :: rest => if d.name = c.name then c :: rest else d :: putColumn c rest

/-- The texts in the first cells of rows, each once (`text_column`). -/
def firstTexts (rows : List Row) : List String :=
  (rows.filterMap fun row => Dialect.textAt row 0).eraseDups

/-- Does an answer count at least one? -/
def countsSome (row : Row) : Bool :=
  match row.head?.bind Value.toInt64? with
  | some n => 0 < n.toInt
  | none => false

namespace Database

variable {σ : Type}

/-- The names of the tables (`tables`). -/
def tables (db : Database σ) : Action σ (List String) := do
  return firstTexts (← db.query db.dialect.tablesQuery [])

/-- The columns of a table (`columns`). -/
def columns (db : Database σ) (table : String) : Action σ (List ColumnInfo) := do
  let rows ← db.query db.dialect.columnsQuery [.text table]
  return (rows.filterMap db.dialect.columnOfRow).foldl (fun cs c => putColumn c cs) []

/-- Is there an index of the name (`index_exists`)? -/
def indexExists (db : Database σ) (table name : String) : Action σ Bool := do
  return countsSome (← db.queryOne db.dialect.indexQuery [.text table, .text name])

end Database

theorem putColumn_names (c : ColumnInfo) (cs : List ColumnInfo) :
    (putColumn c cs).map ColumnInfo.name =
      if c.name ∈ cs.map ColumnInfo.name then cs.map ColumnInfo.name
      else cs.map ColumnInfo.name ++ [c.name] := by
  induction cs with
  | nil => simp [putColumn]
  | cons d cs ih =>
    rw [putColumn]
    by_cases h : d.name = c.name
    · rw [if_pos h, List.map_cons, List.map_cons, h, if_pos List.mem_cons_self]
    · rw [if_neg h, List.map_cons, List.map_cons, ih]
      by_cases hm : c.name ∈ cs.map ColumnInfo.name
      · rw [if_pos hm, if_pos (List.mem_cons_of_mem _ hm)]
      · rw [if_neg hm, if_neg fun he => (List.mem_cons.1 he).elim (fun e => h e.symm) hm]
        rfl

end RecordModel
