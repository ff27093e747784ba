import RecordModel.Text.Blank
import RecordModel.Text.Pieces

/-!
# Comparison operators

The closed set of operators of a leaf comparison and their written names. A name is read
in any case and with any blanks between its words; `==` and `<>` are second names.

Results:
* `Operator.converse_converse`: exchanging the sides twice changes nothing.
-/
namespace RecordModel

open RecordModel.Text

inductive Operator where
  | equals
  | notEquals
  /-- The text contains the value. -/
  | like
  | notLike
  /-- The text matches the value as a pattern. -/
  | likePattern
  | ilike
  | notIlike
  | ilikePattern
  | isIn
  | notIn
  | lower
  | lowerOrEqual
  | greater
  | greaterOrEqual
  | isNull
  | isNotNull
  deriving DecidableEq

namespace Operator

/-- The name of an operator (`as_str`). -/
def text : Operator → String
  | equals => "="
  | notEquals => "!="
  | like => "like"
  | notLike => "not like"
  | likePattern => "=like"
  | ilike => "ilike"
  | notIlike => "not ilike"
  | ilikePattern => "=ilike"
  | isIn => "in"
  | notIn => "not in"
  | lower => "<"
  | lowerOrEqual => "<="
  | greater => ">"
  | greaterOrEqual => ">="
  | isNull => "is null"
  | isNotNull => "is not null"

def all : List Operator :=
  [equals, notEquals, like, notLike, likePattern, ilike, notIlike, ilikePattern, isIn, notIn,
    lower, lowerOrEqual, greater, greaterOrEqual, isNull, isNotNull]

/-- Operators whose argument is a list of values (`is_set_membership`). -/
def isSetMembership : Operator → Bool
  | isIn | notIn => true
  | _ => false

/-- Operators without an argument (`is_null_check`). -/
def isNullCheck : Operator → Bool
  | isNull | isNotNull => true
  | _ => false

/-- The same comparison with its sides exchanged (`mirror`). -/
def converse : Operator → Operator
  | lower => greater
  | lowerOrEqual => greaterOrEqual
  | greater => lower
  | greaterOrEqual => lowerOrEqual
  | other => other

/-- Words separated by single blanks, in lower case. -/
def normalize (s : String) : String :=
  String.ofList ((join " " (words s)).toList.map Char.toLower)

/-- The operator that a text names (`from_str`). -/
def read? (s : String) : Option Operator :=
  let name := normalize s
  if name = "==" then some equals
  else if name = "<>" then some notEquals
  else all.find? fun op => op.text = name

theorem converse_converse (op : Operator) : op.converse.converse = op := by cases op <;> rfl

end Operator

end RecordModel
