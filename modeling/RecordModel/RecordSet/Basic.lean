import RecordModel.Number.Decimal
import RecordModel.Query.Basic
import RecordModel.Catalog.Model

/-!
# Record sets

A record set is a model and a list of ids, in order and with repetitions. It is what a
method is called on, and what a search gives.

Results:
* `RecordSet.id_ok`: only a set of one record has an id of its own.
-/
namespace RecordModel

open RecordModel.Text RecordModel.Number

/-- Records of a model by their ids. -/
structure RecordSet where
  model : Model
  ids : List Int64

namespace RecordSet

def size (rs : RecordSet) : Nat := rs.ids.length

def isEmpty (rs : RecordSet) : Bool := rs.ids.isEmpty

/-- The id of the only record (`id`). -/
def id (rs : RecordSet) : Result Int64 :=
  match rs.ids with
  | [i] => .ok i
  | ids => .error (.invalidExpression (.notSingle rs.model.name ids.length))

/-- The records of the same model with other ids. -/
def withIds (rs : RecordSet) (ids : List Int64) : RecordSet := { rs with ids := ids }

/-- The condition that holds for the records of the set (`condition`). -/
def condition (rs : RecordSet) : Condition :=
  Condition.empty.addLeaf .and (.ofText idField) .isIn (.list (rs.ids.map .integer))

/-- The query for the records of the set. -/
def query (rs : RecordSet) : Query := (Query.new rs.model.name).filter rs.condition

/-- Two sets are the same if they have the same model name and the same ids in order. -/
def same (a b : RecordSet) : Bool := a.model.name == b.model.name && a.ids == b.ids

def text (rs : RecordSet) : String :=
  rs.model.name ++ "(" ++ join ", " (rs.ids.map fun i => intText i.toInt) ++ ")"

theorem id_ok {rs : RecordSet} {i : Int64} : rs.id = .ok i ↔ rs.ids = [i] := by
  unfold id
  split
  · rename_i h; simp [h]
  · rename_i h; simpa using h i

end RecordSet

end RecordModel
