import RecordModel.Catalog.Definition
import RecordModel.Method.Registry
import RecordModel.Method.Typed

/-!
# Environments

A catalog and the methods of its models. Bootstrapping checks the relations of the
catalog and then freezes both for good.

A caller may hold the catalog and the registry one after the other, so that each
definition here that touches only one of them is a step of its own: declaring models,
checking a model, declaring a layer, freezing the catalog, freezing the registry.

Results:
* `Environment.bootstrap_ok`: after a bootstrap both parts are frozen.
-/
namespace RecordModel

open RecordModel.Text

/-- Models and methods. -/
structure Environment where
  catalog : Catalog
  /-- The catalog takes no further models. -/
  frozen : Bool
  registry : Registry

namespace Environment

/-- No models and no methods; layers are numbered from `first` on. -/
def empty (first : Nat) : Environment := ⟨.empty, false, .empty first⟩

/-! ## Models -/

/-- Declare a model, before bootstrap (`declare_model`). -/
def declareModel (e : Environment) (m : Model) : Result Environment :=
  if e.frozen then .error (.alreadyBootstrapped m.name)
  else do return { e with catalog := ← e.catalog.declare m }

/-- Declare all models of a definition or none (`declare_models`). -/
def declareModels (e : Environment) (d : Definition) : Result Environment :=
  if e.frozen then
    .error (.alreadyBootstrapped (join ", " (d.models.map ModelDefinition.name)))
  else do return { e with catalog := ← d.register e.catalog }

/-- The model is declared (`check_model`). -/
def checkModel (e : Environment) (model : String) : Result Unit :=
  check (e.catalog.has model) (.unknownModel model)

/-! ## Methods -/

/-- Put a layer on top of a method in the registry. -/
def register (e : Environment) (model method : String) (signature : Signature) (body : Body) :
    Result (LayerId × Environment) :=
  match e.registry.declare model method signature body with
  | (.ok id, registry) => .ok (id, { e with registry })
  | (.error cause, _) => .error cause

/-- Put a layer on top of a method of a declared model (`declare_dynamic_method`). -/
def declareMethod (e : Environment) (model method : String) (signature : Signature) (body : Body) :
    Result (LayerId × Environment) := do
  e.checkModel model
  e.register model method signature body

/-- Put a typed layer on top of a method of a declared model (`declare_method`). -/
def declareTyped {φ : Type} [LayerFunction φ] (e : Environment) (model method : String)
    (f : Frame → RecordSet → φ) : Result (LayerId × Environment) :=
  e.declareMethod model method (LayerFunction.signature φ) (.typed f)

/-! ## Bootstrap -/

/-- Freeze the catalog if all its relations have a target. -/
def freezeCatalog (e : Environment) : Result Environment := do
  e.catalog.validate
  return { e with frozen := true }

def freezeRegistry (e : Environment) : Environment := { e with registry := e.registry.bootstrap.2 }

/-- Freeze models and methods; nothing happens the second time (`bootstrap`). -/
def bootstrap (e : Environment) : Result Environment :=
  if e.frozen then .ok e
  else do return (← e.freezeCatalog).freezeRegistry

/-- The records of a model by their ids (`recordset`). -/
def recordSet (e : Environment) (model : String) (ids : List Int64) : Result RecordSet := do
  return ⟨← e.catalog.getModel model, ids⟩

theorem bootstrap_ok {e e' : Environment} (h : e.bootstrap = .ok e') (hn : e.frozen = false) :
    e'.frozen = true ∧ e'.registry.frozen = true ∧ e'.catalog = e.catalog ∧
      e.catalog.validate = .ok () := by
  rw [bootstrap, if_neg (by simp [hn]), freezeCatalog] at h
  cases hv : e.catalog.validate with
  | error cause => rw [hv] at h; cases h
  | ok u => rw [hv] at h; cases h; exact ⟨rfl, rfl, rfl, rfl⟩

end Environment

end RecordModel
