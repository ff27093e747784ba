import RecordModel.Calendar.Notation
import RecordModel.Error
import RecordModel.Number.Decimal
import RecordModel.Text.Blank

/-!
# Coercion

Bringing a value that a driver hands back to the storage type of its field. A compatible
value is kept, whole numbers become floats in a float field, and texts are read by the
rules of the type. All else is a data error.

Results:
* `DataType.coerce_compatible`: what comes out is compatible with the type.
-/
namespace RecordModel

open RecordModel.Number RecordModel.Calendar RecordModel.Text

namespace DataType

/-- May a field of this type hold the value as it is (`is_compatible`)? Null is everywhere
allowed. -/
def isCompatible : DataType → Value → Bool
  | _, .null => true
  | integer, .integer _ => true
  | float, .float _ => true
  | float, .integer _ => true
  | text, .text _ => true
  | boolean, .boolean _ => true
  | date, .date _ => true
  | dateTime, .dateTime _ => true
  | _, _ => false

/-- A text that spells a truth value. -/
def truthOfText? (s : String) : Option Bool :=
  if s = "t" ∨ s = "true" ∨ s = "1" then some true
  else if s = "f" ∨ s = "false" ∨ s = "0" then some false
  else none

/-- The value of this type that an incompatible value stands for. -/
def convert? : DataType → Value → Option Value
  | integer, .float f => (Value.float f).toInt64?.map .integer
  | integer, .text s => (int64OfText? (trimChars s.toList)).map .integer
  | float, .text s => (Binary64.ofText? (trimChars s.toList)).map .float
  | boolean, .integer i => some (.boolean (i != 0))
  | boolean, .text s => (truthOfText? s).map .boolean
  | date, .text s => (Date.scan s.toList).map .date
  | date, .dateTime t => some (.date t.date)
  | dateTime, .text s => (DateTime.scan s.toList).map .dateTime
  | text, .integer i => some (.text (intText i.toInt))
  | _, _ => none

/-- A compatible value as the type stores it. -/
def store : DataType → Value → Value
  | float, .integer i => .float (.ofInt i.toInt)
  | _, v => v

/-- Bring a value to this type (`coerce`). -/
def coerce (type : DataType) (v : Value) : Result Value :=
  if type.isCompatible v then .ok (type.store v)
  else
    match type.convert? v with
    | some w => .ok w
    | none => .error (.typeMismatch (.scan v type))

theorem store_compatible {type : DataType} {v : Value} (h : type.isCompatible v = true) :
    type.isCompatible (type.store v) = true := by
  cases type <;> cases v <;> simp_all [isCompatible, store]

theorem convert?_compatible {type : DataType} {v w : Value} (h : type.convert? v = some w) :
    type.isCompatible w = true := by
  unfold convert? at h
  split at h
  all_goals simp only [Option.map_eq_some_iff, Option.some.injEq, reduceCtorEq] at h
  all_goals grind [isCompatible]

theorem coerce_compatible {type : DataType} {v w : Value} (h : type.coerce v = .ok w) :
    type.isCompatible w = true := by
  unfold coerce at h
  split at h
  · cases h; exact store_compatible ‹_›
  · split at h
    · cases h; exact convert?_compatible ‹_›
    · cases h

end DataType

end RecordModel
