import RecordModel.Dictionary
import RecordModel.Method.Program

/-!
# Methods and their layers

Every pair of a model and a method name has a chain of layers. The newest layer is on
top and runs first; each layer is linked to the one below, which it reaches through a
request of its program. All layers of a method share its signature. A registry can be
frozen; it then refuses further layers.

Layers are numbered as they are declared, and a link always goes to a smaller number, so
that following the links comes to an end.

Results:
* `Registry.declare_frozen`: a frozen registry refuses every layer.
* `Method.follow_eq`: the layers from one on are itself and those from the one below on.
-/
namespace RecordModel

/-- An implementation of a method (`MethodLayer`). -/
structure Layer where
  id : LayerId
  model : String
  method : String
  body : Body

/-- A method of a model and its chain of layers (`MethodInfo`). -/
structure Method where
  model : String
  name : String
  signature : Signature
  /-- The layer that runs first. -/
  topId : LayerId
  /-- The layer below each layer but the one at the bottom. -/
  below : Dictionary LayerId LayerId
  layers : Dictionary LayerId Layer
  below_lt : ∀ {upper lower : LayerId}, below.get? upper = some lower → lower.number < upper.number
  hasTop : (layers.get? topId).isSome = true

namespace Method

/-- A method of one layer. -/
def new (model name : String) (signature : Signature) (layer : Layer) : Method where
  model
  name
  signature
  topId := layer.id
  below := .empty
  layers := Dictionary.empty.insert layer.id layer
  below_lt h := by cases h
  hasTop := by simp

/-- Put a layer on top (`with_layer`). -/
def push (m : Method) (layer : Layer) (hnew : m.topId.number < layer.id.number) : Method where
  model := m.model
  name := m.name
  signature := m.signature
  topId := layer.id
  below := m.below.insert layer.id m.topId
  layers := m.layers.insert layer.id layer
  below_lt {upper lower} h := by
    rw [Dictionary.get?_insert] at h
    split at h
    · rename_i hu; cases h; rwa [hu]
    · exact m.below_lt h
  hasTop := by simp

def top (m : Method) : Layer := (m.layers.get? m.topId).get m.hasTop

/-- The layer of a number (`layer`). -/
def layer (m : Method) (id : LayerId) : Result Layer :=
  match m.layers.get? id with
  | some l => .ok l
  | none => .error (.unknownMethod m.model (m.name ++ " (" ++ id.text ++ ")"))

/-- The layer below the one of a number (`next_layer`). -/
def next? (m : Method) (id : LayerId) : Option Layer := (m.below.get? id).bind m.layers.get?

/-- The layers from one on down to the bottom. -/
def follow (m : Method) (id : LayerId) : List LayerId :=
  match _ : m.below.get? id with
  | some next => id :: m.follow next
  | none => [id]
termination_by id.number
decreasing_by exact m.below_lt ‹_›

/-- The layers from top to bottom (`chain`). -/
def chain (m : Method) : List LayerId := m.follow m.topId

def size (m : Method) : Nat := m.layers.size

def fullName (m : Method) : String := m.model ++ "." ++ m.name

/-- What a layer of the method is told when it runs. -/
def frame (m : Method) (layer : LayerId) (dialect : Option Sql.Dialect) : Frame :=
  ⟨m.model, m.name, m.signature, m.chain, layer, dialect⟩

theorem follow_eq (m : Method) (id : LayerId) :
    m.follow id = id :: ((m.below.get? id).map m.follow).getD [] := by
  rw [follow]
  split <;> rename_i h <;> simp [h]

end Method

/-- All methods by model and name, and the number of the next layer (`MethodRegistry`). -/
structure Registry where
  methods : Dictionary (String × String) Method
  /-- The method that each layer belongs to. -/
  owners : Dictionary LayerId (String × String)
  next : Nat
  frozen : Bool
  topId_lt : ∀ {key : String × String} {m : Method}, methods.get? key = some m → m.topId.number < next

namespace Registry

/-- No methods; layers are numbered from `first` on. -/
def empty (first : Nat) : Registry where
  methods := .empty
  owners := .empty
  next := first
  frozen := false
  topId_lt h := by cases h

def method? (r : Registry) (model name : String) : Option Method := r.methods.get? (model, name)

/-- The method of a model by its name (`lookup`). -/
def lookup (r : Registry) (model name : String) : Result Method :=
  match r.method? model name with
  | some m => .ok m
  | none => .error (.unknownMethod model name)

def has (r : Registry) (model name : String) : Bool := (r.method? model name).isSome

/-- The layer that a registry makes next. -/
def freshLayer (r : Registry) (model name : String) (body : Body) : Layer :=
  ⟨⟨r.next⟩, model, name, body⟩

/-- The registry with a method that has the next layer on top. -/
def store (r : Registry) (key : String × String) (m : Method) (hm : m.topId.number = r.next) :
    Registry where
  methods := r.methods.insert key m
  owners := r.owners.insert m.topId key
  next := r.next + 1
  frozen := r.frozen
  topId_lt {other n} h := by
    rw [Dictionary.get?_insert] at h
    split at h
    · cases h; exact hm ▸ Nat.lt_succ_self _
    · exact Nat.lt_succ_of_lt (r.topId_lt h)

/-- Put a layer on top of a method; the first layer of a method fixes its signature
(`declare_layer`). -/
def declare (r : Registry) (model name : String) (signature : Signature) (body : Body) :
    Result LayerId × Registry :=
  if r.frozen then (.error (.alreadyBootstrapped (model ++ "." ++ name)), r)
  else
    let layer := r.freshLayer model name body
    match hm : r.method? model name with
    | some m =>
      if m.signature = signature then
        (.ok layer.id, r.store (model, name) (m.push layer (r.topId_lt hm)) rfl)
      else (.error (.signatureMismatch model name m.signature.text signature.text), r)
    | none =>
      match signature.checkShape with
      | .ok () => (.ok layer.id, r.store (model, name) (.new model name signature layer) rfl)
      | .error fault => (.error (.invalidSignature model name fault), r)

/-- The layer below the one of a number; none at the bottom (`resolve_next`). -/
def resolveNext (r : Registry) (id : LayerId) : Result (Option Layer) :=
  match r.owners.get? id with
  | some key => .ok ((r.methods.get? key).bind fun m => m.next? id)
  | none => .error (.unknownMethod "" id.text)

/-- The names of a model's methods in alphabetical order (`methods_of`). -/
def namesOf (r : Registry) (model : String) : List String :=
  Catalog.sortNames ((r.methods.keys.filter fun key => key.1 = model).map Prod.snd)

/-- Freeze the registry; tells whether it was not frozen before (`bootstrap`). -/
def bootstrap (r : Registry) : Bool × Registry := (!r.frozen, { r with frozen := true })

/-- Leave out the layer numbers before `n`. -/
def reserve (r : Registry) (n : Nat) : Registry where
  methods := r.methods
  owners := r.owners
  next := max r.next n
  frozen := r.frozen
  topId_lt h := Nat.lt_of_lt_of_le (r.topId_lt h) (Nat.le_max_left ..)

theorem declare_frozen {r : Registry} (model name : String) (signature : Signature) (body : Body)
    (h : r.frozen = true) :
    r.declare model name signature body = (.error (.alreadyBootstrapped (model ++ "." ++ name)), r) := by
  rw [declare, if_pos h]

end Registry

end RecordModel
