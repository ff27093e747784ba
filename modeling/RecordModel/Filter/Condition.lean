import RecordModel.Filter.Operator
import RecordModel.Filter.Path
import RecordModel.Value.Basic

/-!
# Conditions

A condition is a list of nodes, each a comparison of a field with a value or a nested
condition. A node is tied to the one before it by AND or OR and may be negated; the tie
of the first node has no meaning. The list reads as the OR of its maximal AND runs.

Results:
* `Condition.leafPathsAll_append`: the leaves of nodes in a row are read one by one.
-/
namespace RecordModel

/-- How a node stands in its list. -/
structure Link where
  isOr : Bool
  isNot : Bool
  deriving DecidableEq

/-- A leaf or a nested condition, with its link (`CondValue`). -/
inductive Node where
  | leaf (link : Link) (path : Path) (operator : Operator) (argument : Value)
  | group (link : Link) (nodes : List Node)

/-- A list of nodes; without nodes it holds for every row. -/
structure Condition where
  nodes : List Node

def Link.and : Link := ⟨false, false⟩

def Link.andNot : Link := ⟨false, true⟩

def Link.or : Link := ⟨true, false⟩

def Link.orNot : Link := ⟨true, true⟩

def Node.link : Node → Link
  | leaf link _ _ _ => link
  | group link _ => link

mutual
/-- The paths of the leaves, from left to right. -/
def Node.leafPaths : Node → List Path
  | .leaf _ path _ _ => [path]
  | .group _ nodes => leafPathsAll nodes

def leafPathsAll : List Node → List Path
  | [] => []
  | node :: rest => node.leafPaths ++ leafPathsAll rest
end

namespace Condition

def empty : Condition := ⟨[]⟩

def isEmpty (c : Condition) : Bool := c.nodes.isEmpty

/-- Add a comparison (`push_leaf`). -/
def addLeaf (c : Condition) (link : Link) (path : Path) (operator : Operator) (argument : Value) :
    Condition :=
  ⟨c.nodes ++ [.leaf link path operator argument]⟩

/-- Add a nested condition (`push_cond`). -/
def addGroup (c : Condition) (link : Link) (inner : Condition) : Condition :=
  ⟨c.nodes ++ [.group link inner.nodes]⟩

/-- The paths that occur, each once, in the order of their first occurrence (`all_field_paths`). -/
def paths (c : Condition) : List Path := (leafPathsAll c.nodes).eraseDups

theorem leafPathsAll_append (as bs : List Node) :
    leafPathsAll (as ++ bs) = leafPathsAll as ++ leafPathsAll bs := by
  induction as with
  | nil => rfl
  | cons a as ih => simp [leafPathsAll, ih]

end Condition

end RecordModel
