import RecordModel.Catalog.Basic
import RecordModel.Value.Coercion

/-!
# Model definitions

A definition lists models and their fields as they are written down: a model may name
its table, a field its column, and the key `id` is never written. Registering a
definition builds its models and declares them in order; a relation may point at any
model of the definition, earlier or later, or of the catalog.

Results:
* `Definition.register_eq`: registering is building, then declaring one by one.
-/
namespace RecordModel

/-- A field line (`FieldDecl`). -/
structure FieldDefinition where
  name : String
  type : FieldType
  required : Bool
  unique : Bool
  index : Bool
  column : Option String
  default : Option Value

/-- A header and its field lines (`ModelDecl`). -/
structure ModelDefinition where
  name : String
  table : Option String
  fields : List FieldDefinition

/-- What a text declares (`ModelProgram`). -/
structure Definition where
  models : List ModelDefinition

/-- The field that a definition describes. -/
def FieldDefinition.field (d : FieldDefinition) : Field :=
  let f := Field.ofType d.name d.type
  { f with
    column := d.column.getD f.column, required := d.required, unique := d.unique,
    index := d.index, default := d.default }

/-- Add the fields of a definition to a model. `seen` holds the names before, and
`isKnown` tells the models that a relation may point at. -/
def addFields (isKnown : String → Bool) (seen : List String) (m : Model) :
    List FieldDefinition → Result Model
  | [] => .ok m
  | d :: rest =>
    if d.name ∈ seen then .error (.invalidModel (.duplicateField m.name d.name))
    else if d.name = idField then .error (.invalidModel (.implicitField m.name d.name))
    else
      match d.field.target? with
      | some target =>
        if isKnown target then addFields isKnown (d.name :: seen) (m.withField d.field) rest
        else .error (.invalidModel (.relationTarget m.name d.name target))
      | none => addFields isKnown (d.name :: seen) (m.withField d.field) rest

/-- The model that a definition describes. -/
def ModelDefinition.model (isKnown : String → Bool) (d : ModelDefinition) : Result Model :=
  let m := Model.new d.name
  addFields isKnown [] (m.withTable (d.table.getD m.table)) d.fields

namespace Definition

/-- The first model name that occurs again later on, if any, by its second place. -/
def repeated? (seen : List String) : List String → Option String
  | [] => none
  | name :: rest => if name ∈ seen then some name else repeated? (name :: seen) rest

/-- The models of a definition, for a catalog that holds the models `known` (`to_models`). -/
def build (d : Definition) (known : Catalog) : Result (List Model) :=
  let names := d.models.map ModelDefinition.name
  match repeated? [] names with
  | some name => .error (.invalidModel (.declaredTwice name))
  | none => d.models.mapM (ModelDefinition.model fun name => decide (name ∈ names) || known.has name)

/-- Declare every model of a definition, in order (`register`). -/
def register (d : Definition) (c : Catalog) : Result Catalog := do
  let models ← d.build c
  models.foldlM Catalog.declare c

theorem register_eq {d : Definition} {c : Catalog} {models : List Model}
    (h : d.build c = .ok models) : d.register c = models.foldlM Catalog.declare c := by
  rw [register, h]; rfl

end Definition

end RecordModel
