import RecordModel.Query.Join
import RecordModel.Filter.Condition
import RecordModel.Sql.Dialect

/-!
# WHERE clauses

A condition becomes a list of terms, each a column with the SQL of its operator or a
group of terms; groups that come out empty are left out together with their link. Terms
are written as tokens: atoms, connectives and parentheses, with single blanks between
them except inside parentheses.

Results:
* `compileNodes_cons`: a condition is compiled node by node, from left to right.
-/
namespace RecordModel

open RecordModel.Text RecordModel.Sql

/-- A node of a compiled condition. -/
inductive Term where
  | test (link : Link) (column : ColumnRef) (fragment : Fragment)
  | group (link : Link) (terms : List Term)

def Term.link : Term → Link
  | test link _ _ => link
  | group link _ => link

/-! ## Compiling conditions -/

mutual
/-- The term of a node, if anything is left of it (`condition_sql`). -/
def compileNode (c : Catalog) (d : Dialect) (root : Model) : Node → Result (List Term)
  | .leaf link path operator argument => do
    let r ← resolve c root path
    let fragment ← d.operatorSql operator argument
    return [.test link r.column fragment]
  | .group link nodes => do
    let terms ← compileNodes c d root nodes
    return if terms.isEmpty then [] else [.group link terms]

def compileNodes (c : Catalog) (d : Dialect) (root : Model) : List Node → Result (List Term)
  | [] => .ok []
  | node :: rest => do
    let terms ← compileNode c d root node
    return terms ++ (← compileNodes c d root rest)
end

/-! ## Tokens -/

inductive WhereToken where
  | atom (sql : String)
  | and
  | or
  | not
  | opening
  | closing
  deriving DecidableEq

/-- What stands in front of a term; the first term of a list has no connective. -/
def linkTokens (first : Bool) (link : Link) : List WhereToken :=
  (if first then [] else if link.isOr then [.or] else [.and]) ++ (if link.isNot then [.not] else [])

mutual
def Term.tokens (first : Bool) : Term → List WhereToken
  | .test link column fragment =>
    linkTokens first link ++ [.atom (column.text ++ " " ++ fragment.sql)]
  | .group link terms => linkTokens first link ++ .opening :: termTokens true terms ++ [.closing]

/-- The tokens of terms in a row. -/
def termTokens (first : Bool) : List Term → List WhereToken
  | [] => []
  | t :: rest => t.tokens first ++ termTokens false rest
end

def WhereToken.text : WhereToken → String
  | atom sql => sql
  | and => "AND"
  | or => "OR"
  | not => "NOT"
  | opening => "("
  | closing => ")"

/-- Is there a blank between these two tokens? -/
def WhereToken.spaced : WhereToken → WhereToken → Bool
  | opening, _ => false
  | _, closing => false
  | _, _ => true

/-- The text of tokens (`condition_sql`). -/
def tokensText : List WhereToken → String
  | [] => ""
  | [t] => t.text
  | t :: u :: rest => t.text ++ (if t.spaced u then " " else "") ++ tokensText (u :: rest)

mutual
/-- The arguments that terms bind, from left to right. -/
def Term.args : Term → List Value
  | .test _ _ fragment => fragment.args
  | .group _ terms => termArgs terms

def termArgs : List Term → List Value
  | [] => []
  | t :: rest => t.args ++ termArgs rest
end

/-! ## Clauses -/

/-- The text of a WHERE clause and its arguments, lists spread over placeholders of their
own; no terms make no clause (`where_clause`). -/
def whereClause (terms : List Term) : Result (String × List Value) :=
  let text := tokensText (termTokens true terms)
  if text.isEmpty then .ok ("", termArgs terms)
  else expand ("WHERE " ++ text) (termArgs terms)

theorem compileNodes_cons {c : Catalog} {d : Dialect} {root : Model} {node : Node}
    {rest : List Node} {ts us : List Term} (h1 : compileNode c d root node = .ok ts)
    (h2 : compileNodes c d root rest = .ok us) :
    compileNodes c d root (node :: rest) = .ok (ts ++ us) := by
  rw [compileNodes, h1, h2]; rfl

end RecordModel
