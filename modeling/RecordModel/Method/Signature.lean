import RecordModel.Error

/-!
# Signatures

The kinds of a method's parameters and of its result. The receiver, a record set, is the
first parameter of every method that can be declared.

Results:
* `Signature.checkArgs_ok`: arguments pass exactly if each has the kind of its parameter.
* `Signature.checkShape_method`: parameters behind a receiver make a good shape.
-/
namespace RecordModel

open RecordModel.Text

structure Signature where
  params : List Kind
  returns : Kind
  deriving DecidableEq

namespace Signature

/-- A receiver and the kinds behind it (`method`). -/
def method (args : List Kind) (returns : Kind) : Signature := ⟨.recordSet :: args, returns⟩

/-- The kinds behind the receiver. -/
def args (s : Signature) : List Kind := s.params.drop 1

def text (s : Signature) : String :=
  "fn(" ++ join ", " (s.params.map Kind.name) ++ ") -> " ++ s.returns.name

/-- What a signature must fulfil before a method may have it (`check_shape`). -/
def checkShape (s : Signature) : Except SignatureFault Unit :=
  if s.params.head? ≠ some .recordSet then .error (.noReceiver s.params.head?)
  else if Kind.recordSet ∈ s.args then .error .innerReceiver
  else if Kind.unit ∈ s.args then .error .unitArgument
  else if s.returns = .recordSet then .error .recordSetResult
  else .ok ()

/-- Each argument has the kind of its parameter; `position` is that of the first. -/
def checkKinds (method : String) (position : Nat) : List Kind → List Value → Result Unit
  | kind :: kinds, value :: values =>
    if kind.accepts value then checkKinds method (position + 1) kinds values
    else .error (.typeMismatch (.argument method position kind value))
  | _, _ => .ok ()

/-- The arguments fit the parameters behind the receiver, in number and in kind (`check_args`). -/
def checkArgs (s : Signature) (method : String) (values : List Value) : Result Unit :=
  if s.args.length ≠ values.length then
    .error (.typeMismatch (.argumentCount method s.args.length values.length))
  else checkKinds method 1 s.args values

/-- The result has the kind that the signature promises (`check_return`). -/
def checkReturn (s : Signature) (method : String) (value : Value) : Result Unit :=
  check (s.returns.accepts value) (.typeMismatch (.result method s.returns value))

/-! ## What the checks ensure -/

theorem checkKinds_ok {method : String} {position : Nat} {kinds : List Kind} {values : List Value}
    (h : kinds.length = values.length) :
    checkKinds method position kinds values = .ok () ↔
      ∀ p ∈ kinds.zip values, p.1.accepts p.2 = true := by
  induction kinds generalizing position values with
  | nil => simp [checkKinds]
  | cons kind kinds ih =>
    match values with
    | value :: values =>
      rw [checkKinds]
      by_cases hk : kind.accepts value = true
      · rw [if_pos hk, ih (Nat.succ.inj h)]
        simp [hk]
      · rw [if_neg hk]
        simp [hk]

theorem checkArgs_ok {s : Signature} {method : String} {values : List Value} :
    s.checkArgs method values = .ok () ↔
      s.args.length = values.length ∧ ∀ p ∈ s.args.zip values, p.1.accepts p.2 = true := by
  unfold checkArgs
  split
  · rename_i h; simp [h]
  · rename_i h
    have h := Decidable.not_not.1 h
    rw [checkKinds_ok h]
    exact (and_iff_right h).symm

theorem checkShape_method {args : List Kind} {returns : Kind}
    (h1 : Kind.recordSet ∉ args) (h2 : Kind.unit ∉ args) (h3 : returns ≠ .recordSet) :
    (method args returns).checkShape = .ok () := by
  simp [checkShape, method, Signature.args, h1, h2, h3]

end Signature

end RecordModel
