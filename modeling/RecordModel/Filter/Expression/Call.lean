import RecordModel.Filter.Expression.Query

/-!
# Functions inside expressions

A function with its arguments and the clauses behind them.
-/
namespace RecordModel.Filter

open RecordModel.Text Reader

/-! ## Arguments -/

/-- An argument of a function. -/
def argumentAt (operand : Operand) : Reader String := do
  if ← takeSymbol "*" then return "*"
  let named ← attempt do
    match ← take with
    | .word value quote =>
      let arrow ← if ← takeSymbol "=>" then pure "=>" else do expectSymbol ":="; pure ":="
      return Name.text ⟨value, quote⟩ ++ " " ++ arrow ++ " "
    | _ => reject
  let qualified ← attempt do
    match ← take with
    | .word value quote =>
      expectSymbol "."
      expectSymbol "*"
      return Name.text ⟨value, quote⟩ ++ ".*"
    | _ => reject
  match qualified with
  | some text => return text
  | none => return named.getD "" ++ (← textOf (operand Rank.none))

/-- The arguments of a function after its opening parenthesis, and that parenthesis. -/
def callArguments (operand : Operand) : Reader String := do
  if ← takeSymbol ")" then return "()"
  let treatment ←
    if ← takeKeyword "DISTINCT" then pure "DISTINCT "
    else if ← takeKeyword "ALL" then pure "ALL "
    else pure ""
  let arguments ← commaSeparated (argumentAt operand)
  let order ← orderClause operand
  expectSymbol ")"
  return "(" ++ treatment ++ join " " (join ", " arguments :: order.toList) ++ ")"

/-! ## Clauses -/

/-- The window that OVER names or describes. -/
def windowText (operand : Operand) : Reader String := do
  if ← takeSymbol "(" then
    let partition ←
      if ← takeKeywords ["PARTITION", "BY"] then pure ["PARTITION BY " ++ (← listText operand)]
      else pure []
    let order ← orderClause operand
    expectSymbol ")"
    return "(" ++ join " " (partition ++ order.toList) ++ ")"
  else
    match ← take with
    | .word value quote => return Name.text ⟨value, quote⟩
    | _ => reject

/-- The clauses behind the arguments of a function: an order within its group, a condition
on its rows, the treatment of nulls, and its window. -/
def callClauses (operand : Operand) : Reader String := do
  let within ←
    if ← takeKeywords ["WITHIN", "GROUP"] then do
      expectSymbol "("
      match ← orderClause operand with
      | some order => expectSymbol ")"; pure (" WITHIN GROUP (" ++ order ++ ")")
      | none => reject
    else pure ""
  let filter ←
    if ← takeKeyword "FILTER" then do
      expectSymbol "("
      expectKeyword "WHERE"
      let condition ← operand Rank.none
      expectSymbol ")"
      pure (" FILTER (WHERE " ++ condition.text ++ ")")
    else pure ""
  let nulls ←
    if ← takeKeywords ["IGNORE", "NULLS"] then pure " IGNORE NULLS"
    else if ← takeKeywords ["RESPECT", "NULLS"] then pure " RESPECT NULLS"
    else pure ""
  let window ← if ← takeKeyword "OVER" then pure (" OVER " ++ (← windowText operand)) else pure ""
  return within ++ filter ++ nulls ++ window

/-- A word that is no keyword here: a function with its arguments, a marked text, or a
name. -/
def plainWord (operand : Operand) (n : Name) : Reader Expression := do
  match ← peek with
  | some (.symbol "(") =>
    let _ ← take
    let arguments ← callArguments operand
    return .other (n.text ++ arguments ++ (← callClauses operand))
  | some (.text s) =>
    if startsWith "_" n.value then
      let _ ← take
      return .other (n.text ++ " " ++ (Literal.text s).written)
    else return .name n
  | _ => return .name n

end RecordModel.Filter
