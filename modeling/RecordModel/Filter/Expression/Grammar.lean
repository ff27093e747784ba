import RecordModel.Filter.Expression.Basic

/-!
# Reading steps

A reader of part of an expression takes the tokens left over and gives a result and the
tokens behind it, or stops. Besides tokens that fit no rule, nesting beyond a fixed depth
stops a reader; that one stop cannot be taken back by trying another rule.

Results:
* `attempt_malformed`: a failed attempt gives nothing and takes nothing.
-/
namespace RecordModel.Filter

/-- Why a reader stops. -/
inductive Halt where
  | malformed
  | tooDeep
  deriving DecidableEq

abbrev Reader (α : Type) := StateT (List Lexeme) (Except Halt) α

namespace Reader

/-- Stop: no rule fits. -/
def reject {α : Type} : Reader α := fun _ => .error .malformed

/-- The tokens left over. -/
def rest : Reader (List Lexeme) := fun ts => .ok (ts, ts)

/-- The next token, which stays. -/
def peek : Reader (Option Token) := fun ts => .ok (ts.head?.map Lexeme.token, ts)

/-- The next token, which is taken. -/
def take : Reader Token := fun ts =>
  match ts with
  | [] => .error .malformed
  | t :: ts => .ok (t.token, ts)

/-- Take the next token if it passes the test; tell whether it did. -/
def takeIf (test : Token → Bool) : Reader Bool := fun ts =>
  match ts with
  | [] => .ok (false, ts)
  | t :: rest => if test t.token then .ok (true, rest) else .ok (false, ts)

def takeSymbol (s : String) : Reader Bool := takeIf (Token.isSymbol s)

def takeKeyword (name : String) : Reader Bool := takeIf (Token.isKeyword name)

/-- Take all of the keywords, or none. -/
def takeKeywords (names : List String) : Reader Bool := fun ts =>
  let found := ts.take names.length
  if found.map (fun t => t.token.keyword?) = names.map some then
    .ok (true, ts.drop names.length)
  else .ok (false, ts)

def expectSymbol (s : String) : Reader Unit := do
  if !(← takeSymbol s) then reject

def expectKeyword (name : String) : Reader Unit := do
  if !(← takeKeyword name) then reject

/-- Try a rule; where it does not fit, take nothing. -/
def attempt {α : Type} (p : Reader α) : Reader (Option α) := fun ts =>
  match p ts with
  | .ok (a, rest) => .ok (some a, rest)
  | .error .malformed => .ok (none, ts)
  | .error .tooDeep => .error .tooDeep

/-- One item or more, separated by commas; the tokens left over bound their number. -/
def items {α : Type} (p : Reader α) : Nat → Reader (List α)
  | 0 => do return [← p]
  | fuel + 1 => do
    let item ← p
    if ← takeSymbol "," then return item :: (← items p fuel) else return [item]

def commaSeparated {α : Type} (p : Reader α) : Reader (List α) := fun ts => items p ts.length ts

theorem attempt_malformed {α : Type} {p : Reader α} {ts : List Lexeme}
    (h : p ts = .error .malformed) : attempt p ts = .ok (none, ts) := by
  rw [attempt, h]

end Reader

/-- A reader of expressions whose operators bind tighter than a rank. -/
abbrev Operand := Nat → Reader Expression

/-- The canonical text of what a reader reads. -/
def textOf (p : Reader Expression) : Reader String := do return (← p).text

end RecordModel.Filter
