import RecordModel.Filter.Expression.Literal
import RecordModel.Filter.Expression.Rank

/-!
# Queries inside expressions

A plain query with its items, tables and clauses, or rows of values, as they may stand in
parentheses. Their parts are expressions, so each reader takes the reader of expressions.
-/
namespace RecordModel.Filter

open RecordModel.Text Reader

/-- A selected item with its alias. -/
def selectItem (operand : Operand) : Reader String := do
  if ← takeSymbol "*" then return "*"
  let e ← operand Rank.none
  if ← takeKeyword "AS" then
    match ← take with
    | .word value quote => return e.text ++ " AS " ++ Name.text ⟨value, quote⟩
    | _ => reject
  else return e.text

def tableName : Reader String := do
  let names ← commaSeparated do
    match ← take with
    | .word value quote =>
      let more ← attempt do
        expectSymbol "."
        match ← take with
        | .word value quote => return "." ++ Name.text ⟨value, quote⟩
        | _ => reject
      return Name.text ⟨value, quote⟩ ++ more.getD ""
    | _ => reject
  return join ", " names

/-! ## Clauses -/

/-- One or more expressions. -/
def listText (operand : Operand) : Reader String := do
  return join ", " ((← commaSeparated (operand Rank.none)).map Expression.text)

/-- An item of an order with its direction and the place of nulls. -/
def orderItem (operand : Operand) : Reader String := do
  let e ← operand Rank.none
  let direction ←
    if ← takeKeyword "ASC" then pure " ASC"
    else if ← takeKeyword "DESC" then pure " DESC"
    else pure ""
  let nulls ←
    if ← takeKeywords ["NULLS", "FIRST"] then pure " NULLS FIRST"
    else if ← takeKeywords ["NULLS", "LAST"] then pure " NULLS LAST"
    else pure ""
  return e.text ++ direction ++ nulls

/-- An order, if one stands here. -/
def orderClause (operand : Operand) : Reader (Option String) := do
  if ← takeKeywords ["ORDER", "BY"] then
    return some ("ORDER BY " ++ join ", " (← commaSeparated (orderItem operand)))
  else return none

/-- A clause that a keyword introduces, if it stands here. -/
def clause (keyword : List String) (body : Reader String) : Reader (List String) := do
  if ← takeKeywords keyword then return [join " " keyword ++ " " ++ (← body)] else return []

/-! ## Queries -/

/-- A query of items: its tables, condition, groups, order and bounds. -/
def selectQuery (operand : Operand) : Reader String := do
  let distinct ← takeKeyword "DISTINCT"
  let items ← commaSeparated (selectItem operand)
  let one := textOf (operand Rank.none)
  let tables ← clause ["FROM"] tableName
  let condition ← clause ["WHERE"] one
  let groups ← clause ["GROUP", "BY"] (listText operand)
  let having ← clause ["HAVING"] one
  let order ← orderClause operand
  let limit ← clause ["LIMIT"] one
  let offset ← clause ["OFFSET"] one
  return join " " (["SELECT"] ++ (if distinct then ["DISTINCT"] else []) ++ [join ", " items]
    ++ tables ++ condition ++ groups ++ having ++ order.toList ++ limit ++ offset)

/-- A row of values in parentheses. -/
def valuesRow (operand : Operand) : Reader String := do
  expectSymbol "("
  let row ← listText operand
  expectSymbol ")"
  return "(" ++ row ++ ")"

/-- A plain query, or rows of values. -/
def query (operand : Operand) : Reader String := do
  if ← takeKeyword "SELECT" then selectQuery operand
  else if ← takeKeyword "VALUES" then
    return "VALUES " ++ join ", " (← commaSeparated (valuesRow operand))
  else reject

def startsQuery : Reader Bool := do
  match (← peek).bind Token.keyword? with
  | some "SELECT" => return true
  | some "WITH" => return true
  | _ => return false

/-- A query in parentheses. -/
def nestedQuery (operand : Operand) : Reader String := do
  expectSymbol "("
  let q ← query operand
  expectSymbol ")"
  return "(" ++ q ++ ")"

end RecordModel.Filter
