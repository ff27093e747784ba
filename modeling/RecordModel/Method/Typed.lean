import RecordModel.Method.Program

/-!
# Typed layers

A layer can be written as a function of typed arguments with a typed result; its
signature then follows from the types.

Results:
* `Argument.ofValue_ok`: a value of the right kind is always read.
* `LayerFunction.apply_cons`: arguments are read one by one, from the first.
-/
namespace RecordModel

open RecordModel.Number RecordModel.Calendar

/-- A type of arguments: its kind, and how a value is read; every value of the kind is. -/
class Argument (α : Type) where
  kind : Kind
  ofValue? : Value → Option α
  kind_ne_recordSet : kind ≠ .recordSet := by decide
  kind_ne_unit : kind ≠ .unit := by decide
  isSome_of_accepts : ∀ v : Value, kind.accepts v = true → (ofValue? v).isSome = true := by
    intro v h
    cases v <;> simp_all [Kind.accepts, Value.toFloat?, Value.toText?, Value.toBool?]

/-- A type of results: its kind, and the value of a result, which is of this kind. -/
class Outcome (α : Type) where
  kind : Kind
  toValue : α → Value
  kind_ne_recordSet : kind ≠ .recordSet := by decide
  accepts_toValue : ∀ a : α, kind.accepts (toValue a) = true := by intro a; rfl

/-- Read a value as an argument (`from_value`). -/
def Argument.ofValue (α : Type) [Argument α] (v : Value) : Result α :=
  match Argument.ofValue? v with
  | some a => .ok a
  | none => .error (.typeMismatch (.conversion (Argument.kind α) v))

instance : Argument Int64 where
  kind := .integer
  ofValue?
    | .integer x => some x
    | _ => none

instance : Argument Binary64 where
  kind := .float
  ofValue? := Value.toFloat?

instance : Argument String where
  kind := .text
  ofValue? := Value.toText?

instance : Argument Bool where
  kind := .boolean
  ofValue? := Value.toBool?

instance : Argument Date where
  kind := .date
  ofValue?
    | .date x => some x
    | _ => none

instance : Argument DateTime where
  kind := .dateTime
  ofValue?
    | .dateTime x => some x
    | _ => none

instance : Argument (List Value) where
  kind := .list
  ofValue?
    | .list x => some x
    | _ => none

instance : Argument Value where
  kind := .value
  ofValue? := some

instance : Outcome Int64 where
  kind := .integer
  toValue := .integer

instance : Outcome Binary64 where
  kind := .float
  toValue := .float

instance : Outcome String where
  kind := .text
  toValue := .text

instance : Outcome Bool where
  kind := .boolean
  toValue := .boolean

instance : Outcome Date where
  kind := .date
  toValue := .date

instance : Outcome DateTime where
  kind := .dateTime
  toValue := .dateTime

instance : Outcome (List Value) where
  kind := .list
  toValue := .list

instance : Outcome Value where
  kind := .value
  toValue v := v

instance : Outcome Unit where
  kind := .unit
  toValue _ := .null

/-- A function of typed arguments that ends in a program with a typed result. -/
class LayerFunction (φ : Type) where
  kinds : List Kind
  returns : Kind
  apply : φ → List Value → Program Body Value

instance {α : Type} [Outcome α] : LayerFunction (Program Body α) where
  kinds := []
  returns := Outcome.kind α
  apply p _ := p.bind fun a => .done (.ok (Outcome.toValue a))

instance {α φ : Type} [Argument α] [LayerFunction φ] : LayerFunction (α → φ) where
  kinds := Argument.kind α :: LayerFunction.kinds φ
  returns := LayerFunction.returns φ
  apply f
    | [] => .done (.error (.typeMismatch .missingArgument))
    | v :: args =>
      match Argument.ofValue α v with
      | .ok a => LayerFunction.apply (f a) args
      | .error cause => .done (.error cause)

/-- The signature of a typed layer (`signature`). -/
def LayerFunction.signature (φ : Type) [LayerFunction φ] : Signature :=
  .method (LayerFunction.kinds φ) (LayerFunction.returns φ)

/-- The body of a typed layer (`into_callable`). -/
def Body.typed {φ : Type} [LayerFunction φ] (f : Frame → RecordSet → φ) : Body :=
  .ofRun fun frame rs args => LayerFunction.apply (f frame rs) args

/-- Run the layer below and read its result (`next`). -/
def Program.callNextAs {β : Type} (α : Type) [Argument α] (rs : RecordSet) (args : List Value) :
    Program β α := do
  let v ← Program.callNext rs args
  Argument.ofValue α v

theorem Argument.ofValue_ok {α : Type} [Argument α] {v : Value}
    (h : (Argument.kind α).accepts v = true) : ∃ a, Argument.ofValue α v = .ok a := by
  obtain ⟨a, ha⟩ := Option.isSome_iff_exists.1 (Argument.isSome_of_accepts v h)
  exact ⟨a, by rw [Argument.ofValue, ha]⟩

theorem LayerFunction.apply_cons {α φ : Type} [Argument α] [LayerFunction φ] {f : α → φ} {v : Value}
    {a : α} (args : List Value) (h : Argument.ofValue α v = .ok a) :
    LayerFunction.apply f (v :: args) = LayerFunction.apply (f a) args := by
  simp [LayerFunction.apply, h]

end RecordModel
