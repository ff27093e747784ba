import RecordModel.Error
import RecordModel.Filter.Condition

/-!
# Queries

A query names a model, a condition, the paths to project, and how the rows are grouped,
ordered, limited and told apart. Zero as limit or offset means that there is none.

Results:
* `Query.andFilter_nodes`: a further condition is tied to the present one as a group.
-/
namespace RecordModel

open RecordModel.Text

inductive Direction where
  | ascending
  | descending
  deriving DecidableEq

/-- A query for records of a model. -/
structure Query where
  model : String
  condition : Condition
  fields : List Path
  limit : Nat
  offset : Nat
  groups : List Path
  orders : List String
  distinct : Bool

/-- A path to order by (`OrderBy`). -/
structure SortKey where
  path : Path
  direction : Option Direction

namespace Query

/-- All records of a model. -/
def new (model : String) : Query := ⟨model, .empty, [], 0, 0, [], [], false⟩

def filter (q : Query) (c : Condition) : Query := { q with condition := c }

/-- Narrow a query down by a further condition, as a group of its own (`and_filter`). -/
def andFilter (q : Query) (c : Condition) : Query :=
  if q.condition.isEmpty then { q with condition := c }
  else { q with condition := q.condition.addGroup .and c }

/-- Name the fields to project (`fields`). -/
def select (q : Query) (fields : List String) : Query := { q with fields := fields.map Path.ofText }

def withLimit (q : Query) (limit : Nat) : Query := { q with limit := limit }

def withOffset (q : Query) (offset : Nat) : Query := { q with offset := offset }

def groupBy (q : Query) (field : String) : Query := { q with groups := q.groups ++ [.ofText field] }

def orderBy (q : Query) (entry : String) : Query := { q with orders := q.orders ++ [trim entry] }

def unique (q : Query) : Query := { q with distinct := true }

theorem andFilter_nodes {q : Query} {c : Condition} (h : q.condition.isEmpty = false) :
    (q.andFilter c).condition.nodes = q.condition.nodes ++ [.group .and c.nodes] := by
  simp [andFilter, h, Condition.addGroup]

end Query

/-- The direction that a word names, in any case. -/
def Direction.read? (word : String) : Option Direction :=
  let word := String.ofList (word.toList.map Char.toLower)
  if word = "asc" then some .ascending else if word = "desc" then some .descending else none

/-- Read `field`, `field asc` or `field desc` (`parse`). -/
def SortKey.read (entry : String) : Result SortKey :=
  match words entry with
  | [] => .error (.invalidExpression .emptyOrder)
  | [field] => .ok ⟨.ofText field, none⟩
  | field :: word :: more =>
    match Direction.read? word with
    | none => .error (.invalidExpression (.orderDirection word entry))
    | some direction =>
      if more.isEmpty then .ok ⟨.ofText field, some direction⟩
      else .error (.invalidExpression (.orderEntry entry))

end RecordModel
