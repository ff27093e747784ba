import RecordModel.Catalog.Definition
import RecordModel.Database.Inquiry
import RecordModel.Method.Signature
import RecordModel.RecordSet.Basic

/-!
# Programs of layers

A layer's program is a tree of requests: it runs the layer below, calls a method from its
top, declares a further layer or model, bootstraps the environment, looks at the catalog,
or asks the database of the caller. What the environment answers decides how the program
goes on. A program has no other effect, so it can be reasoned about before it is run.

Results:
* `Program.bind_done`, `Program.tryCatch_ok`: how programs are put together.
-/
namespace RecordModel

open RecordModel.Sql RecordModel.Number

/-- The number that a layer is known by. -/
structure LayerId where
  number : Nat
  deriving DecidableEq

def LayerId.text (id : LayerId) : String := "layer#" ++ natText id.number

/-- What a running layer is told: its method as it was when the call began, its own
number, and the dialect of the caller's database if there is one (`MethodCall`). -/
structure Frame where
  model : String
  method : String
  signature : Signature
  /-- The layers of the method, top first. -/
  chain : List LayerId
  layer : LayerId
  dialect : Option Dialect

/-- A program that ends in an `α`; `β` is the type of the bodies that it can declare. -/
inductive Program (β α : Type) where
  | done (result : Result α)
  /-- Run the layer below the running one. -/
  | next (rs : RecordSet) (args : List Value) (reply : Result Value → Program β α)
  /-- Call a method of a record set from its top layer. -/
  | call (rs : RecordSet) (method : String) (args : List Value) (reply : Result Value → Program β α)
  /-- Put a layer on top of a method. -/
  | declare (model method : String) (signature : Signature) (body : β)
      (reply : Result LayerId → Program β α)
  | declareModel (m : Model) (reply : Result Unit → Program β α)
  | declareModels (d : Definition) (reply : Result Unit → Program β α)
  | bootstrap (reply : Result Unit → Program β α)
  | catalog (reply : Catalog → Program β α)
  | execute (sql : String) (args : List Value) (reply : Result Nat → Program β α)
  | query (sql : String) (args : List Value) (reply : Result (List Row) → Program β α)

/-- The body of a layer: its program for a frame, a record set and arguments (`Callable`). -/
inductive Body where
  | ofRun (run : Frame → RecordSet → List Value → Program Body Value)

def Body.run : Body → Frame → RecordSet → List Value → Program Body Value
  | ofRun run => run

namespace Program

variable {β α γ : Type}

/-- Go on with `f` when a program has ended in a value. -/
def bind : Program β α → (α → Program β γ) → Program β γ
  | done (.ok a), f => f a
  | done (.error cause), _ => done (.error cause)
  | next rs args reply, f => next rs args fun r => (reply r).bind f
  | call rs method args reply, f => call rs method args fun r => (reply r).bind f
  | declare model method signature body reply, f =>
    declare model method signature body fun r => (reply r).bind f
  | declareModel m reply, f => declareModel m fun r => (reply r).bind f
  | declareModels d reply, f => declareModels d fun r => (reply r).bind f
  | bootstrap reply, f => bootstrap fun r => (reply r).bind f
  | catalog reply, f => catalog fun c => (reply c).bind f
  | execute sql args reply, f => execute sql args fun r => (reply r).bind f
  | query sql args reply, f => query sql args fun r => (reply r).bind f

/-- Go on with `handle` when a program has failed. -/
def tryCatch : Program β α → (Error → Program β α) → Program β α
  | done (.ok a), _ => done (.ok a)
  | done (.error cause), handle => handle cause
  | next rs args reply, handle => next rs args fun r => (reply r).tryCatch handle
  | call rs method args reply, handle => call rs method args fun r => (reply r).tryCatch handle
  | declare model method signature body reply, handle =>
    declare model method signature body fun r => (reply r).tryCatch handle
  | declareModel m reply, handle => declareModel m fun r => (reply r).tryCatch handle
  | declareModels d reply, handle => declareModels d fun r => (reply r).tryCatch handle
  | bootstrap reply, handle => bootstrap fun r => (reply r).tryCatch handle
  | catalog reply, handle => catalog fun c => (reply c).tryCatch handle
  | execute sql args reply, handle => execute sql args fun r => (reply r).tryCatch handle
  | query sql args reply, handle => query sql args fun r => (reply r).tryCatch handle

instance : Monad (Program β) where
  pure a := done (.ok a)
  bind := bind

instance : MonadExcept Error (Program β) where
  throw cause := done (.error cause)
  tryCatch := tryCatch

instance : MonadLift (Except Error) (Program β) where
  monadLift := done

/-! ## Requests -/

/-- Run the layer below the running one (`call_next`). -/
def callNext (rs : RecordSet) (args : List Value) : Program β Value := next rs args done

/-- Call a method from its top layer (`call`). -/
def callMethod (rs : RecordSet) (method : String) (args : List Value) : Program β Value :=
  call rs method args done

/-- Put a layer on top of a method. -/
def declareLayer (model method : String) (signature : Signature) (body : β) : Program β LayerId :=
  declare model method signature body done

def getCatalog : Program β Catalog := catalog fun c => done (.ok c)

/-- Ask the database of the caller. -/
def ask (i : Inquiry α) : Program β α :=
  query i.statement.sql i.statement.args fun reply => done (reply.bind i.read)

theorem bind_done (a : α) (f : α → Program β γ) : (done (.ok a)).bind f = f a := rfl

theorem tryCatch_ok (a : α) (handle : Error → Program β α) :
    (done (.ok a)).tryCatch handle = done (.ok a) := rfl

end Program

end RecordModel
