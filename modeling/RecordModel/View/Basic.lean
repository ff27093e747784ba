import RecordModel.Error
import RecordModel.Json.Printer
import RecordModel.Json.Record
import RecordModel.Json.Reader

/-!
# Views

A view record says how records of a model are shown: its type, its priority among the
views of the model, and an architecture that is kept as it is.

Results:
* `ViewType.read?_name`: a type is read back from its name.
-/
namespace RecordModel

open RecordModel.Number

inductive ViewType where
  | tree
  | list
  | form
  | graph
  | calendar
  | diagram
  | gantt
  | kanban
  | search
  | qweb
  deriving DecidableEq

namespace ViewType

def name : ViewType → String
  | tree => "tree"
  | list => "list"
  | form => "form"
  | graph => "graph"
  | calendar => "calendar"
  | diagram => "diagram"
  | gantt => "gantt"
  | kanban => "kanban"
  | search => "search"
  | qweb => "qweb"

def all : List ViewType :=
  [tree, list, form, graph, calendar, diagram, gantt, kanban, search, qweb]

def read? (s : String) : Option ViewType := all.find? fun t => t.name = s

end ViewType

/-- How a view relates to the one that it inherits from. -/
inductive InheritanceMode where
  | primary
  | extension
  deriving DecidableEq

def InheritanceMode.name : InheritanceMode → String
  | primary => "primary"
  | extension => "extension"

def InheritanceMode.read? (s : String) : Option InheritanceMode :=
  [primary, extension].find? fun m => m.name = s

/-- How records of a model are shown. -/
structure View where
  id : String
  name : String
  model : String
  type : ViewType
  /-- Views of a lower number come first. -/
  priority : UInt8
  arch : String
  /-- The id of the view that this one extends. -/
  inheritId : Option String
  fieldParent : String
  mode : InheritanceMode
  fields : List String
  deriving DecidableEq

namespace View

def defaultPriority : UInt8 := 16

/-- A view that is named by its id. -/
def new (id model : String) (type : ViewType) : View :=
  ⟨id, id, model, type, defaultPriority, "", none, "", .primary, []⟩

/-! ## Documents -/

/-- The members of a view record, in the order of its array form. -/
def members : List String :=
  ["id", "name", "model", "type", "priority", "arch", "inherit_id", "field_parent", "mode", "fields"]

def ofJson? (j : Json) : Option View := do
  let fields ← Json.fieldsOf members j
  return {
    id := ← Json.needed fields "id" Json.toText?
    name := ← Json.withDefault fields "name" "" Json.toText?
    model := ← Json.needed fields "model" Json.toText?
    type := ← Json.needed fields "type" fun j => j.toChoice?.bind ViewType.read?
    priority := ← Json.withDefault fields "priority" defaultPriority fun j =>
      (j.toNatBelow? 256).map UInt8.ofNat
    arch := ← Json.withDefault fields "arch" "" Json.toText?
    inheritId := ← Json.withDefault fields "inherit_id" none (Json.toOption? Json.toText?)
    fieldParent := ← Json.withDefault fields "field_parent" "" Json.toText?
    mode := ← Json.withDefault fields "mode" .primary fun j =>
      j.toChoice?.bind InheritanceMode.read?
    fields := ← Json.withDefault fields "fields" [] (Json.toList? Json.toText?) }

def toJson (v : View) : Json :=
  .record [
    ("id", .string v.id), ("name", .string v.name), ("model", .string v.model),
    ("type", .string v.type.name), ("priority", .ofNat v.priority.toNat),
    ("arch", .string v.arch),
    ("inherit_id", match v.inheritId with | some id => .string id | none => .null),
    ("field_parent", .string v.fieldParent), ("mode", .string v.mode.name),
    ("fields", .array (v.fields.map .string))]

/-- The views of a document that lists view records. -/
def readAll (text : String) : Result (List View) :=
  match (Json.read text).bind (Json.toList? ofJson?) with
  | some views => .ok views
  | none => .error (.view .records)

end View

/-- A reference to a view; stored as the id alone. -/
structure ViewRef where
  id : String
  name : String
  deriving DecidableEq

namespace ViewRef

def text (r : ViewRef) : String := "[" ++ r.id ++ "," ++ r.name ++ "]"

def toJson (r : ViewRef) : Json := .string r.id

/-- Read a stored reference; its name is not known then. -/
def read? (text : String) : Option ViewRef := do
  return ⟨← (← Json.read text).toText?, ""⟩

end ViewRef

theorem ViewType.read?_name (t : ViewType) : read? t.name = some t := by
  cases t <;> decide +kernel

end RecordModel
