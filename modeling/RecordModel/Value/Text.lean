import RecordModel.Calendar.Notation
import RecordModel.Number.Shortest
import RecordModel.Text.Pieces
import RecordModel.Value.Basic

/-!
# Written values

The plain text of a value as it stands in messages, its SQL literal as it stands in the
defaults of a table definition, and its argument text as it stands beside a logged
statement. A literal doubles the quotes of a text; an argument text does not.

Results:
* `escapeQuotes_append`, `escapeQuotes_of_not_mem`: quotes are doubled, all else kept.
-/
namespace RecordModel

open RecordModel.Text RecordModel.Number RecordModel.Calendar

/-- A text with every quote written twice. -/
def escapeQuotes (quote : Char) : List Char → List Char
  | [] => []
  | c :: rest => if c = quote then quote :: quote :: escapeQuotes quote rest
    else c :: escapeQuotes quote rest

/-- A text between single quotes, inner quotes doubled. -/
def quoteText (s : String) : String :=
  "'" ++ String.ofList (escapeQuotes '\x27' s.toList) ++ "'"

/-- A name between double quotes, inner quotes doubled (`quote_table_name`). -/
def quoteName (name : String) : String :=
  "\"" ++ String.ofList (escapeQuotes '\x22' name.toList) ++ "\""

namespace Value

mutual
/-- The plain text of a value (`fmt`). -/
def plain : Value → String
  | null => "NULL"
  | integer i => intText i.toInt
  | float f => f.text .plain
  | text s => s
  | boolean b => if b then "true" else "false"
  | date d => d.text
  | dateTime t => t.text
  | list items => "[" ++ join ", " (plainAll items) ++ "]"

def plainAll : List Value → List String
  | [] => []
  | item :: items => plain item :: plainAll items
end

mutual
/-- The SQL literal of a value (`to_sql_literal`). -/
def literal : Value → String
  | null => "NULL"
  | integer i => intText i.toInt
  | float f => f.text .plain
  | text s => quoteText s
  | boolean b => if b then "TRUE" else "FALSE"
  | date d => "'" ++ d.text ++ "'"
  | dateTime t => "'" ++ t.text ++ "'"
  | list items => "(" ++ join ", " (literalAll items) ++ ")"

def literalAll : List Value → List String
  | [] => []
  | item :: items => literal item :: literalAll items
end

/-- A value beside a logged statement: texts between quotes, as they are. -/
def argumentText : Value → String
  | text s => "'" ++ s ++ "'"
  | other => other.plain

end Value

/-- The arguments of a statement, separated by commas. -/
def argumentsText (args : List Value) : String := join ", " (args.map Value.argumentText)

theorem escapeQuotes_of_not_mem {quote : Char} {cs : List Char} (h : quote ∉ cs) :
    escapeQuotes quote cs = cs := by
  induction cs with
  | nil => rfl
  | cons c rest ih =>
    have hc : c ≠ quote := fun e => h (by simp [e])
    rw [escapeQuotes, if_neg hc, ih fun hh => h (List.mem_cons_of_mem _ hh)]

theorem escapeQuotes_append (quote : Char) (as bs : List Char) :
    escapeQuotes quote (as ++ bs) = escapeQuotes quote as ++ escapeQuotes quote bs := by
  induction as with
  | nil => rfl
  | cons a as ih =>
    simp only [List.cons_append, escapeQuotes, ih]
    split <;> rfl

end RecordModel
