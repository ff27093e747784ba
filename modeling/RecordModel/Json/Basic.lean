/-!
# JSON documents

Documents as trees. A number keeps its spelling, an object keeps its members in order
and repetitions included, and a string with an unpaired surrogate escape is told apart
from the texts, since only documents that never look at it may hold it.
-/
namespace RecordModel

inductive Json where
  | null
  | boolean (b : Bool)
  | number (spelling : String)
  | string (s : String)
  /-- A string with a surrogate escape that has no partner. -/
  | unpaired
  | array (items : List Json)
  | object (members : List (Json × Json))

namespace Json

instance : Inhabited Json := ⟨.null⟩

def ofNat (n : Nat) : Json := .number (toString n)

def ofInt (i : Int) : Json := .number (toString i)

/-- An object with the given members. -/
def record (members : List (String × Json)) : Json :=
  .object (members.map fun (key, value) => (.string key, value))

/-- Members whose key is `key`. -/
def membersAt (key : String) (members : List (Json × Json)) : List Json :=
  members.filterMap fun (k, value) =>
    match k with
    | .string s => if s = key then some value else none
    | _ => none

/-- The first member whose key is `key`. -/
def get? (key : String) : Json → Option Json
  | .object members => (membersAt key members).head?
  | _ => none

end Json

end RecordModel
