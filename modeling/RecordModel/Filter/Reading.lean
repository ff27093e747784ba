import RecordModel.Error
import RecordModel.Filter.Condition
import RecordModel.Filter.Expression.Lexer
import RecordModel.Filter.Expression.Parser
import RecordModel.Number.Decimal

/-!
# Conditions from filter expressions

A filter expression becomes a condition: chains of AND and OR stay flat in their order,
parentheses become groups, a negation goes to the node it stands before, and BETWEEN is a
group of two comparisons. A comparison has a field on one side and a literal on the
other; with the literal on the left it is turned round.

Results:
* `Condition.read_eq`: a condition is read through its tokens and its expression.
-/
namespace RecordModel.Filter

open RecordModel.Number

/-- A failure to make a condition of an expression. -/
def refuse {α : Type} (fault : ExpressionFault) : Result α := .error (.invalidExpression fault)

/-! ## Fields and values -/

/-- The field that an expression names (`convert_path`). -/
def fieldOf : Expression → Result Path
  | .name n => .ok ⟨[n.value]⟩
  | .path names => .ok ⟨names.map Name.value⟩
  | e => refuse (.fieldExpected e.text)

/-- The value of a number: an integer if it is one of 64 bits, else a float (`parse_number`). -/
def ofNumber (spelling : String) : Result Value :=
  match int64OfText? spelling.toList with
  | some i => .ok (.integer i)
  | none =>
    match Binary64.ofText? spelling.toList with
    | some f => .ok (.float f)
    | none => .error (.typeMismatch (.number spelling))

def Literal.value : Literal → Result Value
  | number spelling _ => ofNumber spelling
  | text s => .ok (.text s)
  | boolean b => .ok (.boolean b)
  | null => .ok .null
  | other spelling => refuse (.unsupportedValue spelling)

/-- The value with its sign turned round. -/
def negate : Value → Result Value
  | .integer i => .ok (.integer (-i))
  | .float f => .ok (.float f.neg)
  | v => refuse (.cannotNegate v)

/-- The value that an expression denotes without looking at any row (`convert_value`). -/
def valueOf : Expression → Result Value
  | .literal l => l.value
  | .unary .minus e => do negate (← valueOf e)
  | .nested e => valueOf e
  | e => refuse (.literalExpected e.text)

/-- The comparison that an operator stands for (`convert_binary_op`). -/
def comparisonOf : BinaryOperator → Result Operator
  | .eq => .ok .equals
  | .notEq => .ok .notEquals
  | .lt => .ok .lower
  | .ltEq => .ok .lowerOrEqual
  | .gt => .ok .greater
  | .gtEq => .ok .greaterOrEqual
  | op => refuse (.unsupportedOperator op.text)

/-! ## Leaves -/

/-- A leaf without its link, and whether the expression itself negates it. -/
structure Leaf where
  path : Path
  operator : Operator
  argument : Value
  negated : Bool

/-- The comparison of a field and a literal, in either order. -/
def comparison (left right : Expression) (operator : Operator) : Result Leaf :=
  match fieldOf left with
  | .ok path => do return ⟨path, operator, ← valueOf right, false⟩
  | .error _ => do
    let path ← fieldOf right
    return ⟨path, operator.converse, ← valueOf left, false⟩

/-- The leaf that an expression describes (`convert_leaf`). -/
def leafOf : Expression → Result Leaf
  | .binary left op right => do comparison left right (← comparisonOf op)
  | .like operand negated caseless _ pattern escape => do
    if escape.isSome then refuse (.escapeClause (if caseless then "ILIKE" else "LIKE"))
    let path ← fieldOf operand
    return ⟨path, if caseless then .ilikePattern else .likePattern, ← valueOf pattern, negated⟩
  | .inList operand negated items => do
    let path ← fieldOf operand
    let values ← items.mapM valueOf
    return ⟨path, if negated then .notIn else .isIn, .list values, false⟩
  | .isNull operand => do return ⟨← fieldOf operand, .isNull, .null, false⟩
  | .isNotNull operand => do return ⟨← fieldOf operand, .isNotNull, .null, false⟩
  | e => refuse (.unsupportedFilter e.text)

/-! ## Nodes -/

/-- The two comparisons of a BETWEEN. -/
def betweenNodes (operand low high : Expression) : Result (List Node) := do
  let path ← fieldOf operand
  let low ← valueOf low
  let high ← valueOf high
  return [.leaf .and path .greaterOrEqual low, .leaf .and path .lowerOrEqual high]

/-- The nodes of an expression (`push`); `link` is how the first of them stands in its list. -/
def nodesOf (link : Link) : Expression → Result (List Node)
  | .binary left .and right => do
    if link.isNot then return [.group link ((← nodesOf .and left) ++ (← nodesOf .and right))]
    else return (← nodesOf link left) ++ (← nodesOf .and right)
  | .binary left .or right => do
    if link.isNot then return [.group link ((← nodesOf .and left) ++ (← nodesOf .or right))]
    else return (← nodesOf link left) ++ (← nodesOf .or right)
  | .nested inner => do return [.group link (← nodesOf .and inner)]
  | .unary .not operand => nodesOf { link with isNot := !link.isNot } operand
  | .between operand negated low high => do
    return [.group { link with isNot := link.isNot ^^ negated } (← betweenNodes operand low high)]
  | e => do
    let l ← leafOf e
    return [.leaf { link with isNot := link.isNot ^^ l.negated } l.path l.operator l.argument]

end RecordModel.Filter

namespace RecordModel

open RecordModel.Filter

/-- The operator that a text names. -/
def Operator.read (text : String) : Result Operator :=
  match Operator.read? text with
  | some op => .ok op
  | none => refuse (.unknownOperator text)

/-- The condition that an expression describes (`convert`). -/
def Condition.ofExpression (e : Expression) : Result Condition := do
  return ⟨← nodesOf .and e⟩

/-- Read a filter expression, such as
`(age > 30 OR name LIKE 'Bo') AND NOT manager.name = 'Alice'`. -/
def Condition.read (text : String) : Result Condition :=
  match lex text.toList with
  | none => refuse .unreadable
  | some tokens =>
    match parse tokens with
    | .error _ => refuse .unreadable
    | .ok (e, []) => Condition.ofExpression e
    | .ok (_, t :: _) => refuse (.trailing t.token.written)

theorem Condition.read_eq {text : String} {tokens : List Lexeme} {e : Expression}
    (hl : lex text.toList = some tokens) (hp : parse tokens = .ok (e, [])) :
    Condition.read text = Condition.ofExpression e := by
  simp [Condition.read, hl, hp]

end RecordModel
