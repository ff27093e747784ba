import RecordModel.Catalog.Model

/-!
# Catalogs

The models known at one time, in order of declaration. A catalog is a value: declaring a
model gives a new catalog and leaves the old one as it was.

Results:
* `Catalog.declare_ok`: a declared model passed the check, and its name and table are new.
-/
namespace RecordModel

/-- The declared models, in the order of their declaration. -/
structure Catalog where
  models : List Model

namespace Catalog

def empty : Catalog := ⟨[]⟩

def model? (c : Catalog) (name : String) : Option Model :=
  c.models.find? fun m => m.name = name

def has (c : Catalog) (name : String) : Bool := (c.model? name).isSome

/-- The model of a name (`get_model`). -/
def getModel (c : Catalog) (name : String) : Result Model :=
  match c.model? name with
  | some m => .ok m
  | none => .error (.unknownModel name)

/-- A field of a model, both by name (`get_field`). -/
def getField (c : Catalog) (model field : String) : Result Field := do
  (← c.getModel model).getField field

/-- The model that a relation points at (`related_model`). -/
def related (c : Catalog) (f : Field) : Result Model :=
  match f.target? with
  | some target => c.getModel target
  | none => .error (.invalidExpression (.notRelation f.name))

/-- The model that owns a table. -/
def owner? (c : Catalog) (table : String) : Option Model :=
  c.models.find? fun m => m.table = table

/-- Add a model whose name and table no other model has (`with_model`). -/
def declare (c : Catalog) (m : Model) : Result Catalog :=
  match m.check with
  | .error cause => .error cause
  | .ok () =>
    if c.has m.name then .error (.duplicateModel m.name)
    else match c.owner? m.table with
      | some owner => .error (.invalidModel (.tableTaken m.name m.table owner.name))
      | none => .ok ⟨c.models ++ [m]⟩

/-- Names in alphabetical order. -/
def sortNames (names : List String) : List String := names.mergeSort fun a b => decide (a ≤ b)

/-- Model names in alphabetical order (`list_models`). -/
def names (c : Catalog) : List String := sortNames (c.models.map Model.name)

/-- Models in alphabetical order of their names. -/
def sorted (c : Catalog) : List Model := c.names.filterMap c.model?

/-- The first relation of a model whose target is not declared. -/
def danglingRelation? (c : Catalog) (m : Model) : Option Error :=
  m.fields.findSome? fun f =>
    match f.target? with
    | some target =>
      if c.has target then none else some (.invalidModel (.unknownTarget m.name f.name target))
    | none => none

/-- Every relation points at a declared model (`validate`). -/
def validate (c : Catalog) : Result Unit :=
  match c.sorted.findSome? c.danglingRelation? with
  | some cause => .error cause
  | none => .ok ()

theorem model?_name {c : Catalog} {name : String} {m : Model} (h : c.model? name = some m) :
    m.name = name ∧ m ∈ c.models :=
  ⟨by simpa using List.find?_some h, List.mem_of_find?_eq_some h⟩

theorem declare_ok {c c' : Catalog} {m : Model} (h : c.declare m = .ok c') :
    m.check = .ok () ∧ c.has m.name = false ∧ (∀ o ∈ c.models, o.table ≠ m.table) ∧
      c'.models = c.models ++ [m] := by
  unfold declare at h
  split at h
  · cases h
  · rename_i hcheck
    split at h
    · cases h
    · rename_i hname
      split at h
      · cases h
      · rename_i htable
        cases h
        refine ⟨hcheck, by simpa using hname, fun o ho => ?_, rfl⟩
        simpa using List.find?_eq_none.1 htable o ho

end Catalog

end RecordModel
