import RecordModel.Filter.Expression.Call
import RecordModel.Filter.Expression.Form
import RecordModel.Filter.Expression.Operation

/-!
# Parsing filter expressions

Operators bind by rank; among equals the left one binds first. Any word can be a name
where no rule for it as a keyword fits, but for the few keywords that are never names.
Expressions nest at most `nestingLimit` deep, counting each operand, each parenthesis and
each step along a path.

Results:
* `expression_zero`: no expression is read once the depth is used up.
-/
namespace RecordModel.Filter

open RecordModel.Text Reader

/-- How deep expressions may nest. -/
def nestingLimit : Nat := 50

/-! ## Words -/

/-- The words that stand for a function without arguments. -/
def constantFunctions : List String := ["CURRENT_CATALOG", "CURRENT_USER", "SESSION_USER", "USER"]

/-- The words that stand for a function whose arguments may be left out. -/
def timeFunctions : List String :=
  ["CURRENT_TIMESTAMP", "CURRENT_TIME", "CURRENT_DATE", "LOCALTIME", "LOCALTIMESTAMP"]

/-- The form that a keyword starts; none for a keyword that starts no form. -/
def keywordForm (operand : Operand) (keyword spelling : String) : Reader (Option Expression) := do
  if keyword = "TRUE" then return some (.literal (.boolean true))
  else if keyword = "FALSE" then return some (.literal (.boolean false))
  else if keyword = "NULL" then return some (.literal .null)
  else if keyword ∈ constantFunctions then return some (.other spelling)
  else if keyword ∈ timeFunctions then
    if ← takeSymbol "(" then return some (.other (spelling ++ (← callArguments operand)))
    else return some (.other spelling)
  else
    match keyword with
    | "CASE" => return some (← caseForm operand)
    | "CAST" => return some (← castForm "CAST" operand)
    | "TRY_CAST" => return some (← castForm "TRY_CAST" operand)
    | "SAFE_CAST" => return some (← castForm "SAFE_CAST" operand)
    | "EXISTS" => return some (.other ("EXISTS " ++ (← nestedQuery operand)))
    | "EXTRACT" => return some (← extractForm operand)
    | "CEIL" => return some (← roundForm "CEIL" operand)
    | "FLOOR" => return some (← roundForm "FLOOR" operand)
    | "POSITION" => attempt (positionForm operand)
    | "SUBSTR" => return some (← substringForm "SUBSTR" operand)
    | "SUBSTRING" => return some (← substringForm "SUBSTRING" operand)
    | "TRIM" => return some (← trimForm operand)
    | "INTERVAL" => return some (← intervalForm operand)
    | "STRUCT" => reject
    | "ARRAY" => if ← takeSymbol "[" then return some (← arrayForm "ARRAY" operand) else return none
    | "NOT" =>
      if ← takeKeyword "EXISTS" then
        return some (.other ("NOT EXISTS " ++ (← nestedQuery operand)))
      else return some (.unary .not (← operand Rank.not))
    | _ => return none

/-- Keywords that are never names. -/
def neverNames : List String := ["EXISTS", "INTERVAL", "STRUCT", "TRIM"]

/-- A word at the start of an operand: the form of its keyword, or else a plain word. -/
def wordForm (operand : Operand) (value : String) (quote : Option Char) : Reader Expression :=
  fun ts =>
    let keyword := ((Token.word value quote).keyword?).getD ""
    match keywordForm operand keyword value ts with
    | .ok (some e, rest) => .ok (e, rest)
    | .ok (none, rest) => plainWord operand ⟨value, quote⟩ rest
    | .error halt =>
      if keyword ∈ neverNames then .error halt
      else
        match plainWord operand ⟨value, quote⟩ ts with
        | .ok r => .ok r
        | .error _ => .error halt

/-! ## Operands -/

/-- What stands behind an opening parenthesis. -/
def parenthesized (operand : Operand) : Reader Expression := do
  if ← startsQuery then
    let q ← query operand
    expectSymbol ")"
    return .other ("(" ++ q ++ ")")
  else
    let items ← commaSeparated (operand Rank.none)
    expectSymbol ")"
    match items with
    | [e] => return .nested e
    | es => return .other ("(" ++ join ", " (es.map (·.text)) ++ ")")

/-- A function or a moment as it may stand between braces. -/
def bracedCall (operand : Operand) : Reader (Option Expression) := do
  let function ← attempt do
    expectKeyword "FN"
    match ← take with
    | .word value quote =>
      expectSymbol "("
      let arguments ← callArguments operand
      return "fn " ++ Name.text ⟨value, quote⟩ ++ arguments ++ (← callClauses operand)
    | _ => reject
  match function with
  | some text => return some (.other text)
  | none =>
    attempt do
      let mark := (← take).written
      if mark = "d" ∨ mark = "t" ∨ mark = "ts" then
        return .other (mark ++ " " ++ (← literalAt).written)
      else reject

/-- What stands behind an opening brace. -/
def braced (operand : Operand) : Reader Expression := do
  match ← bracedCall operand with
  | some e =>
    expectSymbol "\x7d"
    return .other ("\x7b" ++ e.text ++ "\x7d")
  | none => dictionaryForm operand

/-- An operand without the accesses and operators behind it. -/
def primary (operand : Operand) : Reader Expression := do
  match ← attempt typedLiteral with
  | some e => return e
  | none =>
    match ← rest with
    | [] => reject
    | ⟨.word value quote, _⟩ :: _ =>
      let _ ← take
      wordForm operand value quote
    | ⟨.symbol s, _⟩ :: _ =>
      if s = ":" ∨ s = "@" then return .literal (← literalAt)
      else
        let _ ← take
        match s with
        | "(" => parenthesized operand
        | "[" => arrayForm "" operand
        | "\x7b" => braced operand
        | "-" => return .unary .minus (← operand Rank.product)
        | "+" => return .unary (.other "+") (← operand Rank.product)
        | "~" => return .unary (.other "~") (← operand Rank.sum)
        | _ => reject
    | _ => return .literal (← literalAt)

/-- An access behind an operand. -/
inductive Access where
  | name (n : Name)
  | text (s : String)

def Access.written : Access → String
  | name n => "." ++ n.text
  | text s => s

/-- The accesses that an expression behind a point stands for. -/
def accessesOf : Expression → List Access
  | .name n => [.name n]
  | .path names => names.map .name
  | e => [.text ("." ++ e.text)]

/-- A subscript after its bracket. -/
def subscript (operand : Operand) : Reader String := do
  if ← takeSymbol ":" then
    if ← takeSymbol "]" then return "[:]"
    let upper ← operand Rank.none
    expectSymbol "]"
    return "[:" ++ upper.text ++ "]"
  else
    let lower ← operand Rank.none
    if ← takeSymbol "]" then return "[" ++ lower.text ++ "]"
    expectSymbol ":"
    if ← takeSymbol "]" then return "[" ++ lower.text ++ ":]"
    let upper ← operand Rank.none
    expectSymbol "]"
    return "[" ++ lower.text ++ ":" ++ upper.text ++ "]"

/-- The points and brackets behind an operand. -/
def accesses (operand : Operand) : Nat → Reader (List Access)
  | 0 => return []
  | fuel + 1 => do
    match ← rest with
    | ⟨.symbol ".", _⟩ :: ⟨.symbol "*", _⟩ :: _ => return []
    | ⟨.symbol ".", _⟩ :: next :: _ =>
      let _ ← take
      let here ← match next.token with
        | .text s => do
          let _ ← take
          pure [Access.name ⟨s, some '\x27'⟩]
        | .placeholder s => do
          let _ ← take
          pure [Access.name ⟨s, none⟩]
        | _ => do pure (accessesOf (← operand Rank.point))
      return here ++ (← accesses operand fuel)
    | ⟨.symbol ".", _⟩ :: [] => reject
    | ⟨.symbol "[", _⟩ :: _ =>
      let _ ← take
      let here ← subscript operand
      return .text here :: (← accesses operand fuel)
    | _ => return []

/-- The names of the accesses, if all of them are names. -/
def namesOf : List Access → Option (List Name)
  | [] => some []
  | .name n :: rest => (namesOf rest).map (n :: ·)
  | .text _ :: _ => none

/-- An operand with its accesses: a path where all of them are names. -/
def withAccesses (e : Expression) (as : List Access) : Expression :=
  match as with
  | [] => e
  | as =>
    match e, namesOf as with
    | .name n, some names => .path (n :: names)
    | e, _ => .other (e.text ++ join "" (as.map Access.written))

/-! ## Expressions -/

/-- What stands behind COLLATE, if it stands there. -/
def collation (e : Expression) : Reader Expression := do
  if ← takeKeyword "COLLATE" then
    match ← take with
    | .word value quote => return .other (e.text ++ " COLLATE " ++ Name.text ⟨value, quote⟩)
    | _ => reject
  else return e

/-- An expression whose operators bind tighter than a rank, nesting at most as deep as the
first number says. -/
def expression : Nat → Operand
  | 0, _ => fun _ => .error .tooDeep
  | depth + 1, rank => do
    let e ← primary (expression depth)
    let as ← accesses (expression depth) (← rest).length
    let e ← collation (withAccesses e as)
    operators (expression depth) rank (← rest).length e

/-- The expression at the start of the tokens, and the tokens behind it. -/
def parse (ts : List Lexeme) : Except Halt (Expression × List Lexeme) :=
  expression nestingLimit Rank.none ts

theorem expression_zero (rank : Nat) (ts : List Lexeme) :
    expression 0 rank ts = .error .tooDeep := rfl

end RecordModel.Filter
