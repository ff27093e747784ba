import RecordModel.Filter.Expression.Query

/-!
# Keyword forms

What may stand behind a keyword that starts an operand: CASE, CAST, EXTRACT and their kin.
A condition is made of none of these, so that each is kept as its canonical text.
-/
namespace RecordModel.Filter

open RecordModel.Text Reader

/-- The word of a part of a date, in upper case where it is a known one. -/
def unitAt : Reader String := do
  match ← take with
  | .word value none => return Token.upper value
  | .word value quote => return Name.text ⟨value, quote⟩
  | .text s => return "'" ++ s ++ "'"
  | _ => reject

def intervalUnits : List String :=
  ["YEAR", "YEARS", "MONTH", "MONTHS", "WEEK", "WEEKS", "DAY", "DAYS", "HOUR", "HOURS", "MINUTE",
    "MINUTES", "SECOND", "SECONDS", "CENTURY", "DECADE", "DOW", "DOY", "EPOCH", "ISODOW",
    "ISOYEAR", "JULIAN", "MICROSECOND", "MICROSECONDS", "MILLENNIUM", "MILLISECOND",
    "MILLISECONDS", "NANOSECOND", "NANOSECONDS", "QUARTER", "TIMEZONE", "DATE"]

def intervalUnit : Reader String := do
  match ← peek with
  | some (.word value none) =>
    if Token.upper value ∈ intervalUnits then
      let _ ← take
      return " " ++ Token.upper value
    else return ""
  | _ => return ""

/-- What stands behind INTERVAL. -/
def intervalForm (operand : Operand) : Reader Expression := do
  let value ← operand Rank.point
  let unit ← intervalUnit
  let last ← if ← takeKeyword "TO" then pure (" TO" ++ (← intervalUnit)) else pure ""
  return .other ("INTERVAL " ++ value.text ++ unit ++ last)

/-- The branches of a CASE, after their first WHEN. -/
def caseBranches (operand : Operand) : Nat → Reader String
  | 0 => reject
  | fuel + 1 => do
    let condition ← operand Rank.none
    expectKeyword "THEN"
    let result ← operand Rank.none
    let branch := " WHEN " ++ condition.text ++ " THEN " ++ result.text
    if ← takeKeyword "WHEN" then return branch ++ (← caseBranches operand fuel) else return branch

/-- What stands behind CASE. -/
def caseForm (operand : Operand) : Reader Expression := do
  let subject ←
    if ← takeKeyword "WHEN" then pure ""
    else do
      let e ← operand Rank.none
      expectKeyword "WHEN"
      pure (" " ++ e.text)
  let branches ← caseBranches operand (← rest).length
  let otherwise ←
    if ← takeKeyword "ELSE" then pure (" ELSE " ++ (← textOf (operand Rank.none))) else pure ""
  expectKeyword "END"
  return .other ("CASE" ++ subject ++ branches ++ otherwise ++ " END")

/-- What stands behind CAST and its kin. -/
def castForm (keyword : String) (operand : Operand) : Reader Expression := do
  expectSymbol "("
  let e ← operand Rank.none
  expectKeyword "AS"
  let (_, type) ← typeAt
  expectSymbol ")"
  return .other (keyword ++ "(" ++ e.text ++ " AS " ++ type ++ ")")

/-- What stands behind EXTRACT. -/
def extractForm (operand : Operand) : Reader Expression := do
  expectSymbol "("
  let unit ← unitAt
  let separator ← if ← takeKeyword "FROM" then pure " FROM " else do expectSymbol ","; pure ", "
  let e ← operand Rank.none
  expectSymbol ")"
  return .other ("EXTRACT(" ++ unit ++ separator ++ e.text ++ ")")

/-- What stands behind CEIL and FLOOR. -/
def roundForm (keyword : String) (operand : Operand) : Reader Expression := do
  expectSymbol "("
  let e ← operand Rank.none
  let tail ←
    if ← takeKeyword "TO" then pure (" TO " ++ (← unitAt))
    else if ← takeSymbol "," then pure (", " ++ (← literalAt).written)
    else pure ""
  expectSymbol ")"
  return .other (keyword ++ "(" ++ e.text ++ tail ++ ")")

/-- What stands behind POSITION and its parenthesis. -/
def positionForm (operand : Operand) : Reader Expression := do
  expectSymbol "("
  let part ← operand Rank.comparison
  expectKeyword "IN"
  let whole ← operand Rank.none
  expectSymbol ")"
  return .other ("POSITION(" ++ part.text ++ " IN " ++ whole.text ++ ")")

/-- What stands behind SUBSTRING. -/
def substringForm (keyword : String) (operand : Operand) : Reader Expression := do
  expectSymbol "("
  let e ← operand Rank.none
  let special ← takeSymbol ","
  let hasFrom ← if special then pure true else takeKeyword "FROM"
  let start ←
    if hasFrom then
      pure ((if special then ", " else " FROM ") ++ (← textOf (operand Rank.none)))
    else pure ""
  let hasLength ← if ← takeKeyword "FOR" then pure true else takeSymbol ","
  let length ←
    if hasLength then
      pure ((if special then ", " else " FOR ") ++ (← textOf (operand Rank.none)))
    else pure ""
  expectSymbol ")"
  return .other (keyword ++ "(" ++ e.text ++ start ++ length ++ ")")

/-- What stands behind TRIM. -/
def trimForm (operand : Operand) : Reader Expression := do
  expectSymbol "("
  let side ←
    if ← takeKeyword "BOTH" then pure "BOTH "
    else if ← takeKeyword "LEADING" then pure "LEADING "
    else if ← takeKeyword "TRAILING" then pure "TRAILING "
    else pure ""
  let e ← operand Rank.none
  let tail ←
    if ← takeKeyword "FROM" then pure (e.text ++ " FROM " ++ (← textOf (operand Rank.none)))
    else if ← takeSymbol "," then
      pure (e.text ++ ", " ++ join ", " ((← commaSeparated (operand Rank.none)).map (·.text)))
    else pure e.text
  expectSymbol ")"
  return .other ("TRIM(" ++ side ++ tail ++ ")")

/-- The items of an array up to its bracket. -/
def arrayForm (keyword : String) (operand : Operand) : Reader Expression := do
  if ← takeSymbol "]" then return .other (keyword ++ "[]")
  let items ← commaSeparated (operand Rank.none)
  expectSymbol "]"
  return .other (keyword ++ "[" ++ join ", " (items.map (·.text)) ++ "]")

/-- A member of a dictionary: its key, a colon and its value. -/
def dictionaryMember (operand : Operand) : Reader String := do
  let key ←
    match ← take with
    | .word value quote => pure (Name.text ⟨value, quote⟩)
    | .text s => pure (Name.text ⟨s, some '\x27'⟩)
    | _ => reject
  expectSymbol ":"
  return key ++ ": " ++ (← textOf (operand Rank.none))

/-- The members of a dictionary up to its brace. -/
def dictionaryForm (operand : Operand) : Reader Expression := do
  if ← takeSymbol "\x7d" then return .other "\x7b\x7d"
  let members ← commaSeparated (dictionaryMember operand)
  expectSymbol "\x7d"
  return .other ("\x7b" ++ join ", " members ++ "\x7d")

end RecordModel.Filter
