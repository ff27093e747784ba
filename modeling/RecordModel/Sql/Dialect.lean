import RecordModel.Catalog.Field
import RecordModel.Sql.Placeholder

/-!
# SQL dialects

All that differs between the two kinds of database: the keyword of case-insensitive
matching, the column types, the tail of a limited query, the form of placeholders, and
the queries that look at an existing schema. A driver name leads to a dialect through a
table that can be extended.

Results:
* `operatorSql_scalar`: an operator that takes no list refuses one.
-/
namespace RecordModel.Sql

open RecordModel.Text RecordModel.Number

/-- The databases that statements are written for (`DbAdapter`). -/
inductive Dialect where
  | postgres
  | sqlite
  deriving DecidableEq

/-- A piece of SQL and the arguments of its placeholders (`OperatorSql`). -/
structure Fragment where
  sql : String
  args : List Value

namespace Dialect

def name : Dialect → String
  | postgres => "postgres"
  | sqlite => "sqlite3"

/-! ## Operators -/

/-- The keyword that matches a pattern without regard to case. -/
def caselessKeyword : Dialect → String
  | postgres => "ILIKE"
  | sqlite => "LIKE"

/-- The argument of a substring match: its text between two percent signs (`pattern_text`). -/
def substringPattern (arg : Value) : Value := .text ("%" ++ arg.plain ++ "%")

/-- The SQL of an operator behind its column, and the arguments that it binds
(`standard_operator_sql`). -/
def operatorSql (d : Dialect) (op : Operator) (arg : Value) : Result Fragment :=
  if arg.isList && !op.isSetMembership && !op.isNullCheck then
    .error (.invalidExpression (.listArgument op))
  else
    match op with
    | .equals => .ok ⟨"= ?", [arg]⟩
    | .notEquals => .ok ⟨"!= ?", [arg]⟩
    | .lower => .ok ⟨"< ?", [arg]⟩
    | .lowerOrEqual => .ok ⟨"<= ?", [arg]⟩
    | .greater => .ok ⟨"> ?", [arg]⟩
    | .greaterOrEqual => .ok ⟨">= ?", [arg]⟩
    | .like => .ok ⟨"LIKE ?", [substringPattern arg]⟩
    | .notLike => .ok ⟨"NOT LIKE ?", [substringPattern arg]⟩
    | .ilike => .ok ⟨d.caselessKeyword ++ " ?", [substringPattern arg]⟩
    | .notIlike => .ok ⟨"NOT " ++ d.caselessKeyword ++ " ?", [substringPattern arg]⟩
    | .likePattern => .ok ⟨"LIKE ?", [arg]⟩
    | .ilikePattern => .ok ⟨d.caselessKeyword ++ " ?", [arg]⟩
    | .isIn =>
      if (itemsOf arg).isEmpty then .error (.invalidExpression (.noValues op))
      else .ok ⟨"IN (?)", [.list (itemsOf arg)]⟩
    | .notIn =>
      if (itemsOf arg).isEmpty then .error (.invalidExpression (.noValues op))
      else .ok ⟨"NOT IN (?)", [.list (itemsOf arg)]⟩
    | .isNull => .ok ⟨"IS NULL", []⟩
    | .isNotNull => .ok ⟨"IS NOT NULL", []⟩

/-! ## Columns -/

/-- The type of a field's column, with the key clause for the key (`type_sql`). -/
def typeSql (d : Dialect) (f : Field) : String :=
  match d with
  | postgres =>
    if f.isKey then "serial NOT NULL PRIMARY KEY"
    else
      match f.dataType with
      | .integer => "integer"
      | .float => "numeric"
      | .text => "varchar"
      | .boolean => "bool"
      | .date => "date"
      | .dateTime => "timestamp without time zone"
  | sqlite =>
    if f.isKey then "INTEGER PRIMARY KEY AUTOINCREMENT"
    else
      match f.dataType with
      | .integer => "INTEGER"
      | .float => "REAL"
      | .text => "TEXT"
      | .boolean => "BOOLEAN"
      | .date => "DATE"
      | .dateTime => "DATETIME"

/-- The column of a field takes no NULL (`field_is_not_null`). -/
def isNotNull (f : Field) : Bool := f.required || f.primaryKey

/-- The literal of a field's default; empty without one (`field_sql_default`). -/
def defaultSql (f : Field) : String := (f.default.map Value.literal).getD ""

/-- The definition of a field's column, behind its name (`column_sql_definition`). -/
def columnDefinition (d : Dialect) (f : Field) : String :=
  d.typeSql f
    ++ (if isNotNull f && !f.primaryKey then " NOT NULL" else "")
    ++ (if f.unique && !f.primaryKey then " UNIQUE" else "")
    ++ (if (defaultSql f).isEmpty then "" else " DEFAULT " ++ defaultSql f)

/-! ## Statements -/

/-- The tail that limits a query; zero means no limit (`limit_offset_sql`). -/
def limitOffsetSql (d : Dialect) (limit offset : Nat) : String :=
  match d with
  | postgres =>
    join " " ((if limit = 0 then [] else ["LIMIT " ++ natText limit])
      ++ (if offset = 0 then [] else ["OFFSET " ++ natText offset]))
  | sqlite =>
    if limit = 0 then
      if offset = 0 then "" else "LIMIT -1 OFFSET " ++ natText offset
    else if offset = 0 then "LIMIT " ++ natText limit
    else "LIMIT " ++ natText limit ++ " OFFSET " ++ natText offset

/-- A statement with its placeholders in the form of the database (`rebind`). -/
def rebind (d : Dialect) (sql : String) : String :=
  match d with
  | postgres => number sql
  | sqlite => sql

end Dialect

/-! ## Drivers -/

/-- The driver names in use, the newest first. -/
structure Drivers where
  entries : List (String × Dialect)

def Drivers.standard : Drivers :=
  ⟨[(Dialect.postgres.name, .postgres), (Dialect.sqlite.name, .sqlite)]⟩

/-- Lead a driver name to a dialect from now on (`register_adapter`). -/
def Drivers.register (ds : Drivers) (driver : String) (d : Dialect) : Drivers :=
  ⟨(driver, d) :: ds.entries⟩

/-- The dialect that a driver name leads to (`get_adapter`). -/
def Drivers.find (ds : Drivers) (driver : String) : Result Dialect :=
  match ds.entries.lookup driver with
  | some d => .ok d
  | none => .error (.unknownAdapter driver)

theorem operatorSql_scalar {d : Dialect} {op : Operator} {items : List Value}
    (h1 : op.isSetMembership = false) (h2 : op.isNullCheck = false) :
    d.operatorSql op (.list items) = .error (.invalidExpression (.listArgument op)) := by
  simp [Dialect.operatorSql, Value.isList, h1, h2]

end RecordModel.Sql
