import RecordModel.Calendar.Basic
import RecordModel.Number.Binary64

/-!
# Values

What flows into a placeholder or out of a result row, and the storage types of scalar
fields. Integers have 64 bits.
-/
namespace RecordModel

open RecordModel.Number RecordModel.Calendar

/-- Values of fields and arguments. -/
inductive Value where
  | null
  | integer (i : Int64)
  | float (f : Binary64)
  | text (s : String)
  | boolean (b : Bool)
  | date (d : Date)
  | dateTime (t : DateTime)
  /-- The argument of a set membership test. -/
  | list (items : List Value)

instance : Inhabited Value := ⟨.null⟩

/-- A result row. -/
abbrev Row := List Value

/-- Storage type of a scalar field. -/
inductive DataType where
  | integer
  | float
  | text
  | boolean
  | date
  | dateTime
  deriving DecidableEq

def DataType.name : DataType → String
  | integer => "INTEGER"
  | float => "FLOAT"
  | text => "TEXT"
  | boolean => "BOOLEAN"
  | date => "DATE"
  | dateTime => "DATETIME"

namespace Value

/-- What messages call the type of a value (`type_name`). -/
def typeName : Value → String
  | null => "NULL"
  | integer _ => "INTEGER"
  | float _ => "FLOAT"
  | text _ => "TEXT"
  | boolean _ => "BOOLEAN"
  | date _ => "DATE"
  | dateTime _ => "DATETIME"
  | list _ => "LIST"

/-- The 64-bit integer that a number denotes exactly (`as_i64`). -/
def toInt64? : Value → Option Int64
  | integer i => some i
  | float f => f.toInt?.map Int64.ofInt
  | _ => none

/-- A number as a floating number; integers are rounded to nearest (`as_f64`). -/
def toFloat? : Value → Option Binary64
  | float f => some f
  | integer i => some (.ofInt i.toInt)
  | _ => none

def toText? : Value → Option String
  | text s => some s
  | _ => none

def toBool? : Value → Option Bool
  | boolean b => some b
  | _ => none

def isNull : Value → Bool
  | null => true
  | _ => false

def isList : Value → Bool
  | list _ => true
  | _ => false

end Value

end RecordModel
