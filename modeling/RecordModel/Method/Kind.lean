import RecordModel.Value.Basic

/-!
# Kinds of parameters

The kinds that a method declares for its parameters and its result, and which values
each kind accepts.
-/
namespace RecordModel

/-- Kinds of parameters and results (`ParamKind`). -/
inductive Kind where
  /-- The record set that a method is called on; only the first parameter has it. -/
  | recordSet
  | integer
  | float
  | text
  | boolean
  | date
  | dateTime
  /-- Any value. -/
  | value
  | list
  /-- No value; only a result has it. -/
  | unit
  deriving DecidableEq

namespace Kind

def name : Kind → String
  | recordSet => "RecordSet"
  | integer => "Integer"
  | float => "Float"
  | text => "Text"
  | boolean => "Boolean"
  | date => "Date"
  | dateTime => "DateTime"
  | value => "Value"
  | list => "List"
  | unit => "()"

/-- A whole number passes for a float, and null for no value (`accepts`). -/
def accepts : Kind → Value → Bool
  | value, _ => true
  | integer, .integer _ => true
  | float, .float _ => true
  | float, .integer _ => true
  | text, .text _ => true
  | boolean, .boolean _ => true
  | date, .date _ => true
  | dateTime, .dateTime _ => true
  | list, .list _ => true
  | unit, .null => true
  | _, _ => false

end Kind

end RecordModel
