/-!
# Names

Identifiers that need no quotes in SQL, and the lower-case form of a name that tables
and columns are called by when they are given no name of their own: `HrEmployee` becomes
`hr_employee`, `res.partner` becomes `res_partner`.

Results:
* `isIdentifier_cons`: an identifier is a start character and word characters.
-/
namespace RecordModel

/-- A character that an identifier may start with. -/
def isNameStart (c : Char) : Bool := c.isAlpha || c == '_'

/-- A character that an identifier may go on with. -/
def isNameChar (c : Char) : Bool := c.isAlphanum || c == '_'

def isIdentifierChars : List Char → Bool
  | [] => false
  | c :: rest => isNameStart c && rest.all isNameChar

/-- May the name stand in SQL without quotes (`is_identifier`)? Letters and digits are those of
ASCII. -/
def isIdentifier (name : String) : Bool := isIdentifierChars name.toList

/-! ## Derived names -/

/-- Does a word begin at an upper-case letter between these two neighbours? -/
def isBoundary (previous next : Option Char) : Bool :=
  match previous with
  | none => false
  | some p =>
    if p.isLower || p.isDigit then true
    else if p.isUpper then next.any Char.isLower
    else false

/-- The derived name of the rest of a name after the character `previous`. -/
def snakeFrom (previous : Option Char) : List Char → List Char
  | [] => []
  | c :: rest =>
    if c = '.' ∨ c = '-' ∨ c = ' ' then '_' :: snakeFrom (some c) rest
    else if c.isUpper then
      if isBoundary previous rest.head? then '_' :: c.toLower :: snakeFrom (some c) rest
      else c.toLower :: snakeFrom (some c) rest
    else c :: snakeFrom (some c) rest

/-- The name in lower case, an underscore before each word (`to_snake_case`). -/
def snakeCase (name : String) : String := String.ofList (snakeFrom none name.toList)

theorem isIdentifier_cons {c : Char} {rest : List Char} :
    isIdentifierChars (c :: rest) = true ↔
      isNameStart c = true ∧ ∀ d ∈ rest, isNameChar d = true := by
  simp [isIdentifierChars]

end RecordModel
