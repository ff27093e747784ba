import Mathlib.Data.List.Infix
import RecordModel.Proofs.Filter.Truth
import RecordModel.Sql.Dialect

/-!
# What comparisons answer

A comparison of two values holds or fails by the order that the database has on them, and a
pattern is matched as the database does it. Both are its own: texts are ordered by one
database in another way than by the next. A `Collation` is such an order with such a matching,
of which no more is known than that exchanging two values turns their order round. A NULL on a
side leaves every comparison unknown, and only the tests for NULL itself answer in spite of it.

Results:
* `Operator.answer_converse`: a comparison turned round answers the same with its sides
  exchanged.
* `Collation.plain`: a collation of numbers and texts, with `%` and `_` in patterns.
-/
namespace RecordModel

open RecordModel.Sql

namespace Truth

def ofBool (b : Bool) : Truth := if b then holds else fails

/-- The truth value behind a NOT, if there is one. -/
def notIf (negated : Bool) (b : Truth) : Truth := if negated then b.not else b

@[simp] theorem notIf_false (b : Truth) : b.notIf false = b := rfl

@[simp] theorem notIf_true (b : Truth) : b.notIf true = b.not := rfl

theorem notIf_xor (m n : Bool) (b : Truth) : b.notIf (m ^^ n) = (b.notIf n).notIf m := by
  cases m <;> cases n <;> simp

theorem not_notIf (n : Bool) (b : Truth) : b.not.notIf n = b.notIf (!n) := by
  cases n <;> simp

end Truth

theorem itemValue_eq (link : Link) (b : Truth) : itemValue (link, b) = b.notIf link.isNot := rfl

/-- How a database orders values that are not NULL, if it does, and matches them against
patterns. -/
structure Collation where
  order : Value → Value → Option Ordering
  order_swap : ∀ v w, order w v = (order v w).map Ordering.swap
  isMatch : (caseless : Bool) → (subject pattern : Value) → Bool

namespace Collation

variable (s : Collation)

/-- Does the order of two values pass the test? -/
def compare (test : Ordering → Bool) (v w : Value) : Truth :=
  if v.isNull || w.isNull then .unknown
  else
    match s.order v w with
    | none => .unknown
    | some o => .ofBool (test o)

def like (caseless : Bool) (subject pattern : Value) : Truth :=
  if subject.isNull || pattern.isNull then .unknown
  else .ofBool (s.isMatch caseless subject pattern)

/-- Does one of the items equal the value? -/
def among (v : Value) (items : List Value) : Truth := .any (items.map (s.compare (· == .eq) v))

theorem compare_swap (test : Ordering → Bool) (v w : Value) :
    s.compare test w v = s.compare (fun o => test o.swap) v w := by
  unfold compare
  rw [s.order_swap v w, Bool.or_comm]
  cases s.order v w <;> rfl

end Collation

/-- What an operator answers for the value of a field and its argument. -/
def Operator.answer (s : Collation) (op : Operator) (v arg : Value) : Truth :=
  match op with
  | .equals => s.compare (· == .eq) v arg
  | .notEquals => s.compare (· != .eq) v arg
  | .lower => s.compare (· == .lt) v arg
  | .lowerOrEqual => s.compare (· != .gt) v arg
  | .greater => s.compare (· == .gt) v arg
  | .greaterOrEqual => s.compare (· != .lt) v arg
  | .like => s.like false v (Dialect.substringPattern arg)
  | .notLike => (s.like false v (Dialect.substringPattern arg)).not
  | .ilike => s.like true v (Dialect.substringPattern arg)
  | .notIlike => (s.like true v (Dialect.substringPattern arg)).not
  | .likePattern => s.like false v arg
  | .ilikePattern => s.like true v arg
  | .isIn => s.among v (itemsOf arg)
  | .notIn => (s.among v (itemsOf arg)).not
  | .isNull => .ofBool v.isNull
  | .isNotNull => .ofBool (!v.isNull)

/-- The operators that ask for the order of two values. -/
def Operator.isOrdering : Operator → Bool
  | .equals | .notEquals | .lower | .lowerOrEqual | .greater | .greaterOrEqual => true
  | _ => false

theorem Operator.answer_converse (s : Collation) {op : Operator} (h : op.isOrdering = true)
    (v w : Value) : op.converse.answer s v w = op.answer s w v := by
  have hswap (test test' : Ordering → Bool) (htest : ∀ o, test o = test' o.swap) :
      s.compare test v w = s.compare test' w v := by
    rw [s.compare_swap test' v w]
    exact congrArg (fun test => s.compare test v w) (funext htest)
  cases op with
  | equals | notEquals | lower | lowerOrEqual | greater | greaterOrEqual =>
    exact hswap _ _ fun o => by cases o <;> rfl
  | _ => cases h

/-! ## A plain collation -/

/-- Does a text match a pattern? `%` stands for any characters, `_` for a single one. -/
def likeMatches : (pattern subject : List Char) → Bool
  | [], subject => subject.isEmpty
  | '%' :: pattern, subject => subject.tails.any (likeMatches pattern)
  | '_' :: pattern, subject =>
    match subject with
    | [] => false
    | _ :: subject => likeMatches pattern subject
  | c :: pattern, subject =>
    match subject with
    | [] => false
    | d :: subject => c == d && likeMatches pattern subject

/-- Integers by size, texts by their characters. -/
def Collation.plain : Collation where
  order
    | .integer i, .integer j => some (Ord.compare i.toInt j.toInt)
    | .text a, .text b => some (Ord.compare a b)
    | _, _ => none
  order_swap v w := by
    cases v <;> cases w <;> first
      | exact congrArg some Std.OrientedCmp.eq_swap
      | rfl
  isMatch
    | true, .text subject, .text pattern =>
      likeMatches (pattern.toList.map Char.toLower) (subject.toList.map Char.toLower)
    | false, .text subject, .text pattern => likeMatches pattern.toList subject.toList
    | _, _, _ => false

end RecordModel
