import RecordModel.Environment.Basic

/-!
# Calling methods

A call starts at the top layer of a method. Before a layer runs its arguments are
checked against the method's signature, and after it its result is. The method is the
one that was found when the call began, while the layer below is looked up when it is
asked for; both agree, because layers are only ever put on top.

Calls may nest to a bound, so that every call comes to an end.

Results:
* `invoke_refused`: arguments that do not fit run no layer.
* `Program.run_bind`: a program put together from two runs them one after the other.
-/
namespace RecordModel

/-- All that calls can change: the environment, and the state of the caller's database. -/
structure World (σ : Type) where
  environment : Environment
  store : σ

namespace World

variable {σ : Type}

/-- Act on the database of the caller, if there is one. -/
def onDatabase {α : Type} (db : Option (Database σ)) (act : Database σ → Action σ α) (w : World σ) :
    Result α × World σ :=
  match db with
  | none => (.error (.invalidExpression .noDatabase), w)
  | some d =>
    let (result, store) := act d w.store
    (result, { w with store })

/-- Put a layer on top of a method of the environment. -/
def declare (w : World σ) (model method : String) (signature : Signature) (body : Body) :
    Result LayerId × World σ :=
  match w.environment.declareMethod model method signature body with
  | .ok (id, environment) => (.ok id, { w with environment })
  | .error cause => (.error cause, w)

/-- Change the environment or, if that fails, leave it as it is. -/
def change (w : World σ) (f : Environment → Result Environment) : Result Unit × World σ :=
  match f w.environment with
  | .ok environment => (.ok (), { w with environment })
  | .error cause => (.error cause, w)

end World

/-- How requests to run further layers are answered. -/
structure Calls (σ : Type) where
  next : RecordSet → List Value → World σ → Result Value × World σ
  call : RecordSet → String → List Value → World σ → Result Value × World σ

/-- Run a program to its end. -/
def Program.run {σ α : Type} (db : Option (Database σ)) (calls : Calls σ) :
    Program Body α → World σ → Result α × World σ
  | done result, w => (result, w)
  | next rs args reply, w =>
    let (r, w) := calls.next rs args w
    (reply r).run db calls w
  | call rs method args reply, w =>
    let (r, w) := calls.call rs method args w
    (reply r).run db calls w
  | declare model method signature body reply, w =>
    let (r, w) := w.declare model method signature body
    (reply r).run db calls w
  | declareModel m reply, w =>
    let (r, w) := w.change fun e => e.declareModel m
    (reply r).run db calls w
  | declareModels d reply, w =>
    let (r, w) := w.change fun e => e.declareModels d
    (reply r).run db calls w
  | bootstrap reply, w =>
    let (r, w) := w.change Environment.bootstrap
    (reply r).run db calls w
  | catalog reply, w => (reply w.environment.catalog).run db calls w
  | execute sql args reply, w =>
    let (r, w) := w.onDatabase db fun d => d.execute sql args
    (reply r).run db calls w
  | query sql args reply, w =>
    let (r, w) := w.onDatabase db fun d => d.query sql args
    (reply r).run db calls w

/-- Answers by way of `invoke`, for a program that a layer of a method runs
(`call_next`, `call`). -/
def Calls.through {σ : Type}
    (invoke : Method → Layer → RecordSet → List Value → World σ → Result Value × World σ)
    (m : Method) (layer : LayerId) : Calls σ where
  next rs args w :=
    match w.environment.registry.resolveNext layer with
    | .error cause => (.error cause, w)
    | .ok none => (.error (.noNextLayer m.model m.name), w)
    | .ok (some below) => invoke m below rs args w
  call rs method args w :=
    match w.environment.registry.lookup rs.model.name method with
    | .error cause => (.error cause, w)
    | .ok m => invoke m m.top rs args w

/-- Run a layer of a method (`run`); `depth` bounds how far calls may nest. -/
def invoke {σ : Type} (db : Option (Database σ)) :
    Nat → Method → Layer → RecordSet → List Value → World σ → Result Value × World σ
  | 0, _, _, _, _, w => (.error .tooDeep, w)
  | depth + 1, m, layer, rs, args, w =>
    match m.signature.checkArgs m.fullName args with
    | .error cause => (.error cause, w)
    | .ok () =>
      let frame := m.frame layer.id (db.map Database.dialect)
      let calls := Calls.through (invoke db depth) m layer.id
      match (layer.body.run frame rs args).run db calls w with
      | (.error cause, w) => (.error cause, w)
      | (.ok value, w) => ((m.signature.checkReturn m.fullName value).map fun () => value, w)

/-- Call a method of a record set, for a caller with or without a database
(`call`, `call_with`, `dispatch`). -/
def World.call {σ : Type} (depth : Nat) (db : Option (Database σ)) (rs : RecordSet)
    (method : String) (args : List Value) (w : World σ) : Result Value × World σ :=
  match w.environment.registry.lookup rs.model.name method with
  | .error cause => (.error cause, w)
  | .ok m => invoke db depth m m.top rs args w

/-! ## What runs, and when -/

theorem invoke_refused {σ : Type} {db : Option (Database σ)} {depth : Nat} {m : Method}
    {layer : Layer} {rs : RecordSet} {args : List Value} {w : World σ} {cause : Error}
    (h : m.signature.checkArgs m.fullName args = .error cause) :
    invoke db (depth + 1) m layer rs args w = (.error cause, w) := by
  rw [invoke, h]

theorem Program.run_bind {σ α γ : Type} {db : Option (Database σ)} {calls : Calls σ}
    (p : Program Body α) (f : α → Program Body γ) (w : World σ) :
    (p.bind f).run db calls w =
      match p.run db calls w with
      | (.ok a, w) => (f a).run db calls w
      | (.error cause, w) => (.error cause, w) := by
  induction p generalizing w with
  | done result => cases result <;> rfl
  | next rs args reply ih => exact ih _ _
  | call rs method args reply ih => exact ih _ _
  | declare model method signature body reply ih => exact ih _ _
  | declareModel m reply ih => exact ih _ _
  | declareModels d reply ih => exact ih _ _
  | bootstrap reply ih => exact ih _ _
  | catalog reply ih => exact ih _ _
  | execute sql args reply ih => exact ih _ _
  | query sql args reply ih => exact ih _ _

end RecordModel
