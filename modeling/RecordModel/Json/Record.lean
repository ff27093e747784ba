import RecordModel.Json.Basic
import RecordModel.Number.Decimal

/-!
# Records in JSON

A record is written as an object, whose further members mean nothing, or as an array of
its fields in their order, from which fields may be missing at the end. A field that is
given twice makes the object unreadable.

Results:
* `Json.fieldsOf_object_nodup`: no field of a record that is read comes twice.
-/
namespace RecordModel.Json

open RecordModel.Number

/-- The members of an object that are among `names`; nothing if a key is no text. -/
def knownMembers (names : List String) : List (Json × Json) → Option (List (String × Json))
  | [] => some []
  | (.string key, value) :: rest =>
    (knownMembers names rest).map fun fields =>
      if key ∈ names then (key, value) :: fields else fields
  | _ => none

/-- The fields of a record with the given names. -/
def fieldsOf (names : List String) : Json → Option (List (String × Json))
  | .object members =>
    match knownMembers names members with
    | some fields => if (fields.map Prod.fst).Nodup then some fields else none
    | none => none
  | .array items => if items.length ≤ names.length then some (names.zip items) else none
  | _ => none

/-- A field that has to be there. -/
def needed {α : Type} (fields : List (String × Json)) (name : String) (read : Json → Option α) :
    Option α :=
  (fields.lookup name).bind read

/-- A field that has a default. -/
def withDefault {α : Type} (fields : List (String × Json)) (name : String) (default : α)
    (read : Json → Option α) : Option α :=
  match fields.lookup name with
  | some j => read j
  | none => some default

/-! ## Plain values -/

def toText? : Json → Option String
  | .string s => some s
  | _ => none

def toBool? : Json → Option Bool
  | .boolean b => some b
  | _ => none

/-- A whole number below `limit`, written with digits alone. -/
def toNatBelow? (limit : Nat) : Json → Option Nat
  | .number spelling =>
    match natOfDigits? spelling.toList with
    | some n => if n < limit then some n else none
    | none => none
  | _ => none

/-- A value that null stands in for. -/
def toOption? {α : Type} (read : Json → Option α) : Json → Option (Option α)
  | .null => some none
  | j => (read j).map some

def toList? {α : Type} (read : Json → Option α) : Json → Option (List α)
  | .array items => items.mapM read
  | _ => none

/-- The name of a choice without content: a text, or an object that has null under it. -/
def toChoice? : Json → Option String
  | .string s => some s
  | .object [(.string s, .null)] => some s
  | _ => none

theorem fieldsOf_object_nodup {names : List String} {members : List (Json × Json)}
    {fields : List (String × Json)} (h : fieldsOf names (.object members) = some fields) :
    (fields.map Prod.fst).Nodup := by
  rw [fieldsOf] at h
  split at h
  · split at h
    · cases h; assumption
    · cases h
  · cases h

end RecordModel.Json
