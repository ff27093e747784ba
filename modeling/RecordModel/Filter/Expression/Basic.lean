import RecordModel.Filter.Expression.Token
import RecordModel.Text.Pieces

/-!
# Filter expressions

The syntax tree of a filter expression. The forms that a condition can be made of have
constructors of their own; any other form is kept as its text. `Expression.text` writes a
tree in canonical form: keywords in upper case, single blanks around operators, names and
texts in their own quotes.

Results:
* `Name.text_plain`: a name without quotes is written as it is.
-/
namespace RecordModel.Filter

open RecordModel.Text

/-- A name and the quotes that it stood in. -/
structure Name where
  value : String
  quote : Option Char
  deriving DecidableEq

inductive Literal where
  | number (spelling : String) (long : Bool)
  | text (s : String)
  | boolean (b : Bool)
  | null
  /-- A literal that no condition holds, as it is written. -/
  | other (text : String)
  deriving DecidableEq

inductive BinaryOperator where
  | and
  | or
  | eq
  | notEq
  | lt
  | ltEq
  | gt
  | gtEq
  | other (symbol : String)
  deriving DecidableEq

inductive UnaryOperator where
  | not
  | minus
  | other (symbol : String)
  deriving DecidableEq

inductive Expression where
  | name (name : Name)
  /-- Names separated by points. -/
  | path (names : List Name)
  | literal (literal : Literal)
  | binary (left : Expression) (operator : BinaryOperator) (right : Expression)
  | unary (operator : UnaryOperator) (operand : Expression)
  /-- An expression in parentheses. -/
  | nested (inner : Expression)
  | between (operand : Expression) (negated : Bool) (low high : Expression)
  | like (operand : Expression) (negated caseless any : Bool) (pattern : Expression)
    (escape : Option Literal)
  | inList (operand : Expression) (negated : Bool) (items : List Expression)
  | isNull (operand : Expression)
  | isNotNull (operand : Expression)
  | other (text : String)

/-! ## Texts -/

/-- A text with its quotes doubled, except where they are doubled or behind a backslash
already. `previous` is the character before. -/
def requote (quote previous : Char) : List Char → List Char
  | [] => []
  | [c] => if c = quote ∧ previous ≠ '\\' then [c, c] else [c]
  | c :: d :: rest =>
    if c = quote then
      if previous = '\\' then c :: requote quote previous (d :: rest)
      else if d = quote then c :: d :: requote quote c rest
      else c :: c :: requote quote c (d :: rest)
    else c :: requote quote c (d :: rest)

def quotedText (quote : Char) (s : String) : String :=
  quote.toString ++ String.ofList (requote quote (Char.ofNat 0) s.toList) ++ quote.toString

def Name.text (n : Name) : String :=
  match n.quote with
  | none => n.value
  | some quote => quotedText quote n.value

def Literal.written : Literal → String
  | number spelling long => spelling ++ (if long then "L" else "")
  | text s => quotedText '\x27' s
  | boolean b => if b then "true" else "false"
  | null => "NULL"
  | other spelling => spelling

def BinaryOperator.text : BinaryOperator → String
  | and => "AND"
  | or => "OR"
  | eq => "="
  | notEq => "<>"
  | lt => "<"
  | ltEq => "<="
  | gt => ">"
  | gtEq => ">="
  | other symbol => symbol

def negation (negated : Bool) : String := if negated then "NOT " else ""

mutual
/-- The canonical text of an expression. -/
def Expression.text : Expression → String
  | .name n => n.text
  | .path names => join "." (names.map Name.text)
  | .literal l => l.written
  | .binary left operator right => left.text ++ " " ++ operator.text ++ " " ++ right.text
  | .unary .not operand => "NOT " ++ operand.text
  | .unary .minus operand => "-" ++ operand.text
  | .unary (.other symbol) operand => symbol ++ operand.text
  | .nested inner => "(" ++ inner.text ++ ")"
  | .between operand negated low high =>
    operand.text ++ " " ++ negation negated ++ "BETWEEN " ++ low.text ++ " AND " ++ high.text
  | .like operand negated caseless any pattern escape =>
    operand.text ++ " " ++ negation negated ++ (if caseless then "ILIKE " else "LIKE ")
      ++ (if any then "ANY " else "") ++ pattern.text
      ++ (match escape with
          | some l => " ESCAPE " ++ l.written
          | none => "")
  | .inList operand negated items =>
    operand.text ++ " " ++ negation negated ++ "IN (" ++ join ", " (textAll items) ++ ")"
  | .isNull operand => operand.text ++ " IS NULL"
  | .isNotNull operand => operand.text ++ " IS NOT NULL"
  | .other spelling => spelling

def textAll : List Expression → List String
  | [] => []
  | item :: items => item.text :: textAll items
end

theorem Name.text_plain (value : String) : Name.text ⟨value, none⟩ = value := rfl

end RecordModel.Filter
