import RecordModel.Catalog.Name
import RecordModel.Error
import RecordModel.Value.Basic

/-!
# Fields

A field is a scalar of a storage type, or a relation to one record of another model,
stored as that record's id.

Results:
* `Field.scalar_column`, `Field.relation_column`: the columns of fields that are given
  none.
-/
namespace RecordModel

inductive FieldType where
  | scalar (type : DataType)
  /-- A reference to one record of the model `target`. -/
  | relation (target : String)
  deriving DecidableEq

/-- A field of a model and its column (`FieldInfo`). -/
structure Field where
  name : String
  column : String
  type : FieldType
  required : Bool
  unique : Bool
  index : Bool
  primaryKey : Bool
  default : Option Value

namespace Field

/-- A plain field, stored under its derived name (`new`). -/
def scalar (name : String) (type : DataType) : Field :=
  ⟨name, snakeCase name, .scalar type, false, false, false, false, none⟩

/-- A relation, stored under its derived name with `_id` behind it (`many2one`). -/
def relation (name target : String) : Field :=
  ⟨name, snakeCase name ++ "_id", .relation target, false, false, false, false, none⟩

/-- The key that every model starts with (`primary_key`). -/
def id : Field :=
  { scalar idField .integer with primaryKey := true, required := true, unique := true }

/-- A field of a type under its default column. -/
def ofType (name : String) : FieldType → Field
  | .scalar type => scalar name type
  | .relation target => relation name target

def isRelation (f : Field) : Bool :=
  match f.type with
  | .relation _ => true
  | .scalar _ => false

/-- The model that a relation points at (`related_model`). -/
def target? (f : Field) : Option String :=
  match f.type with
  | .relation target => some target
  | .scalar _ => none

/-- Type of the stored column; a relation stores an integer id (`data_type`). -/
def dataType (f : Field) : DataType :=
  match f.type with
  | .scalar type => type
  | .relation _ => .integer

/-- The key column of a table, the only one with a key clause (`is_primary_key`). -/
def isKey (f : Field) : Bool := f.primaryKey && f.name == idField

theorem scalar_column (name : String) (type : DataType) :
    (scalar name type).column = snakeCase name := rfl

theorem relation_column (name target : String) :
    (relation name target).column = snakeCase name ++ "_id" := rfl

end Field

end RecordModel
