import RecordModel.Filter.Expression.Query

/-!
# Operators behind an operand

Binary operators, and the tests that start with a keyword: IS, IN, BETWEEN, LIKE and their
kin.
-/
namespace RecordModel.Filter

open RecordModel.Text Reader

/-- The operator that a symbol stands for. -/
def symbolOperator (s : String) : BinaryOperator :=
  match s with
  | "=" | "==" => .eq
  | "<>" => .notEq
  | "<" => .lt
  | "<=" => .ltEq
  | ">" => .gt
  | ">=" => .gtEq
  | s => .other s

/-- May the operator stand in front of ANY and ALL? -/
def BinaryOperator.isComparison : BinaryOperator → Bool
  | eq | notEq | lt | ltEq | gt | gtEq => true
  | other s => s ∈ ["~", "~*", "!~", "!~*", "~~", "~~*", "!~~", "!~~*"]
  | and | or => false

/-- The right side of an operator of the rank `rank`. -/
def binaryForm (operand : Operand) (rank : Nat) (left : Expression) (op : BinaryOperator) :
    Reader Expression := do
  let quantifier ←
    if ← takeKeyword "ANY" then pure "ANY"
    else if ← takeKeyword "ALL" then pure "ALL"
    else if ← takeKeyword "SOME" then pure "SOME"
    else pure ""
  if quantifier = "" then return .binary left op (← operand rank)
  else
    expectSymbol "("
    let right ←
      if ← startsQuery then query operand
      else textOf (operand rank)
    expectSymbol ")"
    if !op.isComparison then reject
    return .other (left.text ++ " " ++ op.text ++ " " ++ quantifier ++ "(" ++ right ++ ")")

/-- What stands behind IS. -/
def isForm (operand : Operand) (left : Expression) : Reader Expression := do
  if ← takeKeyword "NULL" then return .isNull left
  else if ← takeKeywords ["NOT", "NULL"] then return .isNotNull left
  else if ← takeKeyword "TRUE" then return .other (left.text ++ " IS TRUE")
  else if ← takeKeywords ["NOT", "TRUE"] then return .other (left.text ++ " IS NOT TRUE")
  else if ← takeKeyword "FALSE" then return .other (left.text ++ " IS FALSE")
  else if ← takeKeywords ["NOT", "FALSE"] then return .other (left.text ++ " IS NOT FALSE")
  else if ← takeKeyword "UNKNOWN" then return .other (left.text ++ " IS UNKNOWN")
  else if ← takeKeywords ["NOT", "UNKNOWN"] then return .other (left.text ++ " IS NOT UNKNOWN")
  else if ← takeKeywords ["DISTINCT", "FROM"] then
    return .other (left.text ++ " IS DISTINCT FROM " ++ (← textOf (operand Rank.none)))
  else if ← takeKeywords ["NOT", "DISTINCT", "FROM"] then
    return .other (left.text ++ " IS NOT DISTINCT FROM " ++ (← textOf (operand Rank.none)))
  else if ← takeKeyword "NORMALIZED" then return .other (left.text ++ " IS NORMALIZED")
  else if ← takeKeywords ["NOT", "NORMALIZED"] then
    return .other (left.text ++ " IS NOT NORMALIZED")
  else reject

/-- What stands behind IN. -/
def inForm (operand : Operand) (left : Expression) (negated : Bool) : Reader Expression := do
  if ← takeKeyword "UNNEST" then
    expectSymbol "("
    let e ← operand Rank.none
    expectSymbol ")"
    return .other (left.text ++ " " ++ negation negated ++ "IN UNNEST(" ++ e.text ++ ")")
  expectSymbol "("
  match ← attempt (query operand) with
  | some q =>
    expectSymbol ")"
    return .other (left.text ++ " " ++ negation negated ++ "IN (" ++ q ++ ")")
  | none =>
    let items ← commaSeparated (operand Rank.none)
    expectSymbol ")"
    return .inList left negated items

def escapeClause : Reader (Option Literal) := do
  if ← takeKeyword "ESCAPE" then return some (← literalAt) else return none

/-- A test that NOT may stand in front of. -/
def testForm (operand : Operand) (left : Expression) : Reader Expression := do
  let negated ← takeKeyword "NOT"
  if ← takeKeyword "REGEXP" then
    return .other (left.text ++ " " ++ negation negated ++ "REGEXP "
      ++ (← textOf (operand Rank.like)))
  else if ← takeKeyword "RLIKE" then
    return .other (left.text ++ " " ++ negation negated ++ "RLIKE "
      ++ (← textOf (operand Rank.like)))
  else if ← takeKeyword "NULL" then
    if negated then return .isNotNull left else reject
  else if ← takeKeyword "IN" then inForm operand left negated
  else if ← takeKeyword "BETWEEN" then
    let low ← operand Rank.comparison
    expectKeyword "AND"
    let high ← operand Rank.comparison
    return .between left negated low high
  else if ← takeKeyword "LIKE" then
    let any ← takeKeyword "ANY"
    let pattern ← operand Rank.like
    return .like left negated false any pattern (← escapeClause)
  else if ← takeKeyword "ILIKE" then
    let any ← takeKeyword "ANY"
    let pattern ← operand Rank.like
    return .like left negated true any pattern (← escapeClause)
  else if ← takeKeywords ["SIMILAR", "TO"] then
    let pattern ← operand Rank.like
    let escape ← escapeClause
    return .other (left.text ++ " " ++ negation negated ++ "SIMILAR TO " ++ pattern.text
      ++ (match escape with
          | some l => " ESCAPE " ++ l.written
          | none => ""))
  else reject

/-- The parts of the name of an operator, whatever tokens they are, up to its parenthesis. -/
def operatorName : Nat → Reader String
  | 0 => reject
  | fuel + 1 => do
    let part ← take
    if ← takeSymbol "." then return part.written ++ "." ++ (← operatorName fuel)
    else
      expectSymbol ")"
      return part.written

/-- The operator that the tokens start with, of the rank `rank`, applied to its left side. -/
def operatorForm (operand : Operand) (rank : Nat) (left : Expression) : Reader Expression := do
  match ← peek with
  | some (.symbol s) =>
    let _ ← take
    match s with
    | "::" => return .other (left.text ++ "::" ++ (← typeAt).2)
    | "!" | "[" | "&&" | "#" => reject
    | s => binaryForm operand rank left (symbolOperator s)
  | some token =>
    match token.keyword? with
    | some "AND" => let _ ← take; binaryForm operand rank left .and
    | some "OR" => let _ ← take; binaryForm operand rank left .or
    | some "XOR" => let _ ← take; binaryForm operand rank left (.other "XOR")
    | some "OVERLAPS" => let _ ← take; binaryForm operand rank left (.other "OVERLAPS")
    | some "OPERATOR" =>
      let _ ← take
      expectSymbol "("
      let name ← operatorName (← rest).length
      binaryForm operand rank left (.other ("OPERATOR(" ++ name ++ ")"))
    | some "IS" => let _ ← take; isForm operand left
    | some "AT" =>
      let _ ← takeKeywords ["AT", "TIME", "ZONE"]
      return .other (left.text ++ " AT TIME ZONE " ++ (← textOf (operand rank)))
    | some "MEMBER" =>
      let _ ← take
      expectKeyword "OF"
      expectSymbol "("
      let e ← operand Rank.none
      expectSymbol ")"
      return .other (left.text ++ " MEMBER OF(" ++ e.text ++ ")")
    | _ => testForm operand left
  | none => reject

/-- The operators behind an operand that bind tighter than `rank`. -/
def operators (operand : Operand) (rank : Nat) : Nat → Expression → Reader Expression
  | 0, left => return left
  | fuel + 1, left => do
    let ts ← rest
    let next := rankOf ts
    if next ≤ rank ∨ next = Rank.point then return left
    else
      let e ← operatorForm operand next left
      operators operand rank fuel e

end RecordModel.Filter
