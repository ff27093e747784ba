import RecordModel.Proofs.Method.Typing

/-!
# Calls are well typed all the way down

A layer can be written as a function whose parameters and result are of some of the types
that have a kind. Its arguments are checked against kinds, then read as the types of the
function; its result is turned into a value and checked against a kind again.

**The types.** `ParamType` and `ResultType` name the types that have a kind, and `LayerType`
the functions of any number of such parameters. The kinds of a typed layer follow from
these names, and so do the reading of its arguments and the value of its result.

Results:
* `LayerType.exists_reads`: arguments that the signature of a typed layer takes are read.
* `LayerType.apply_eq`: with these arguments, only the function itself runs.
* `runsAs_of_takes`: no check of a typed layer fails once its arguments are taken.
* `call_typed`: the layers that run because of a call get arguments of the right kinds, hand
  back values of the right kinds, and run as their functions do if they are typed.
-/
namespace RecordModel

open RecordModel.Number RecordModel.Calendar

/-! ## Types with a kind -/

/-- The types that a parameter of a typed layer can have. -/
inductive ParamType where
  | integer
  | float
  | text
  | boolean
  | date
  | dateTime
  | list
  | value

/-- The types that the result of a typed layer can have. -/
inductive ResultType where
  | param (p : ParamType)
  | unit

def ParamType.type : ParamType → Type
  | integer => Int64
  | float => Binary64
  | text => String
  | boolean => Bool
  | date => Date
  | dateTime => DateTime
  | list => List Value
  | value => Value

def ResultType.type : ResultType → Type
  | param p => p.type
  | unit => Unit

instance (p : ParamType) : Argument p.type :=
  match p with
  | .integer => inferInstanceAs (Argument Int64)
  | .float => inferInstanceAs (Argument Binary64)
  | .text => inferInstanceAs (Argument String)
  | .boolean => inferInstanceAs (Argument Bool)
  | .date => inferInstanceAs (Argument Date)
  | .dateTime => inferInstanceAs (Argument DateTime)
  | .list => inferInstanceAs (Argument (List Value))
  | .value => inferInstanceAs (Argument Value)

instance (res : ResultType) : Outcome res.type :=
  match res with
  | .param .integer => inferInstanceAs (Outcome Int64)
  | .param .float => inferInstanceAs (Outcome Binary64)
  | .param .text => inferInstanceAs (Outcome String)
  | .param .boolean => inferInstanceAs (Outcome Bool)
  | .param .date => inferInstanceAs (Outcome Date)
  | .param .dateTime => inferInstanceAs (Outcome DateTime)
  | .param .list => inferInstanceAs (Outcome (List Value))
  | .param .value => inferInstanceAs (Outcome Value)
  | .unit => inferInstanceAs (Outcome Unit)

/-! ## Functions of such types -/

/-- The functions of parameters of some types that end in a program with such a result. -/
def LayerType (res : ResultType) : List ParamType → Type
  | [] => Program Body res.type
  | p :: params => p.type → LayerType res params

instance instLayerFunction (res : ResultType) :
    (params : List ParamType) → LayerFunction (LayerType res params)
  | [] => inferInstanceAs (LayerFunction (Program Body res.type))
  | p :: params =>
    letI := instLayerFunction res params
    inferInstanceAs (LayerFunction (p.type → LayerType res params))

/-- Arguments for parameters of some types. -/
def TypedArguments : List ParamType → Type
  | [] => Unit
  | p :: params => p.type × TypedArguments params

/-- The values are read as the arguments, one by one. -/
def ReadsAs : (params : List ParamType) → List Value → TypedArguments params → Prop
  | [], [], _ => True
  | p :: params, v :: values, (a, arguments) =>
    Argument.ofValue p.type v = .ok a ∧ ReadsAs params values arguments
  | _, _, _ => False

namespace LayerType

variable {res : ResultType} {params : List ParamType}

/-- The program of a function for its arguments. -/
def applied : {params : List ParamType} → LayerType res params → TypedArguments params →
    Program Body res.type
  | [], p, _ => p
  | _ :: _, f, (a, arguments) => applied (f a) arguments

theorem kinds_eq (res : ResultType) (params : List ParamType) :
    LayerFunction.kinds (LayerType res params) = params.map fun p => Argument.kind p.type := by
  induction params with
  | nil => rfl
  | cons p params ih => exact congrArg _ ih

theorem returns_eq (res : ResultType) (params : List ParamType) :
    LayerFunction.returns (LayerType res params) = Outcome.kind res.type := by
  induction params with
  | nil => rfl
  | cons p params ih => exact ih

/-- Values that the signature of a typed layer takes are read as its arguments. -/
theorem exists_reads {values : List Value}
    (h : (LayerFunction.signature (LayerType res params)).Takes values) :
    ∃ arguments, ReadsAs params values arguments := by
  replace h : List.Forall₂ (fun kind value => kind.accepts value = true)
      (params.map fun p => Argument.kind p.type) values := kinds_eq res params ▸ h
  induction params generalizing values with
  | nil =>
    cases h
    exact ⟨(), trivial⟩
  | cons p params ih =>
    obtain ⟨v, rest, hv, hrest, rfl⟩ := List.forall₂_cons_left_iff.1 h
    obtain ⟨a, ha⟩ := Argument.ofValue_ok hv
    obtain ⟨arguments, harguments⟩ := ih hrest
    exact ⟨(a, arguments), ha, harguments⟩

/-- Once the values are read, the program of a typed layer is that of its function. -/
theorem apply_eq {values : List Value} {arguments : TypedArguments params}
    (h : ReadsAs params values arguments) (f : LayerType res params) :
    LayerFunction.apply f values =
      (f.applied arguments).bind fun a => .done (.ok (Outcome.toValue a)) := by
  induction params generalizing values with
  | nil => rfl
  | cons p params ih =>
    match values, arguments, h with
    | v :: values, (a, arguments), ⟨ha, h⟩ =>
      exact (LayerFunction.apply_cons values ha).trans (ih h (f a))

end LayerType

/-! ## Running a typed layer -/

/-- A layer of a typed function runs as the function does: its arguments are read, and what
the function comes to is what the layer comes to, as a value. No check of the layer fails,
whatever the method that it runs for under the signature of the function. -/
def RunsAs {res : ResultType} {params : List ParamType}
    (f : Frame → RecordSet → LayerType res params) (layer : Layer) (values : List Value) : Prop :=
  layer.body = .typed f ∧ ∃ arguments, ReadsAs params values arguments ∧
    ∀ {σ : Type} (db : Option (Database σ)) (depth : Nat) (m : Method) (rs : RecordSet)
      (w : World σ), m.signature = LayerFunction.signature (LayerType res params) →
      invoke db (depth + 1) m layer rs values w =
        (((f (m.frame layer.id (db.map Database.dialect)) rs).applied arguments).run db
          (.through (invoke db depth) m layer.id) w).map (Except.map Outcome.toValue) id

theorem runsAs_of_takes {res : ResultType} {params : List ParamType}
    {f : Frame → RecordSet → LayerType res params} {layer : Layer} (hbody : layer.body = .typed f)
    {values : List Value} (h : (LayerFunction.signature (LayerType res params)).Takes values) :
    RunsAs f layer values := by
  obtain ⟨arguments, hreads⟩ := LayerType.exists_reads h
  refine ⟨hbody, arguments, hreads, ?_⟩
  intro σ db depth m rs w hsignature
  have hargs : m.signature.checkArgs m.fullName values = .ok () :=
    Signature.checkArgs_ok_iff.2 (hsignature ▸ h)
  have hreturn (a : res.type) :
      m.signature.checkReturn m.fullName (Outcome.toValue a) = .ok () := by
    rw [Signature.checkReturn_ok, hsignature]
    show (LayerFunction.returns (LayerType res params)).accepts _ = true
    rw [LayerType.returns_eq]
    exact Outcome.accepts_toValue a
  rw [invoke, hargs, hbody]
  dsimp only [Body.typed, Body.run]
  rw [LayerType.apply_eq hreads, Program.run_bind]
  generalize Program.run db _ _ w = out
  obtain ⟨cause | a, w⟩ := out
  · rfl
  · dsimp only [Program.run]
    rw [hreturn]
    rfl

/-! ## Calls -/

/-- Whatever a call of a method does, its log fits: every layer that runs gets arguments that
the signature of its chain takes, and every value that a caller is handed is of the kind that
the chain returns. The log changes nothing of the call and misses no layer that runs because
of it, however deep calls may nest. A layer that was declared as a typed function runs as
that function. -/
theorem call_typed {σ : Type} (db : Option (Database σ)) (depth : Nat) (rs : RecordSet)
    (method : String) (args : List Value) {w : World σ} (hr : w.environment.registry.Reachable) :
    ∃ result, ∃ final : World (Traced σ),
      w.callTraced depth db rs method args = (result, final) ∧
      w.call depth db rs method args = (result, final.erase) ∧
      final.Fits ∧
      (∀ m, w.environment.registry.lookup rs.model.name method = .ok m →
        (∀ value, result = .ok value → m.signature.returns.accepts value = true ∧
          final.log.getLast? = some (.answers m.top value)) ∧
        ∀ {inner a}, depth = inner + 1 →
          Relation.ReflTransGen (Activation.Starts db) ⟨inner, m, m.top, rs, args, w⟩ a →
          (∀ {p v}, a.At db p v → .runs a.layer a.args ∈ final.log) ∧
          ∀ {value v}, a.outcome db = (.ok value, v) → .answers a.layer value ∈ final.log) ∧
      ∀ {first calls}, final.environment.registry = (Registry.empty first).after calls →
        ∀ {res params} (f : Frame → RecordSet → LayerType res params) {model name id},
          ⟨.declareTyped model name f, .ok (.layer id)⟩ ∈ (Registry.empty first).history calls →
          ∀ layer values, .runs layer values ∈ final.log → layer.id = id →
            RunsAs f layer values := by
  obtain ⟨hfits, hvalue⟩ := @World.callTraced_fits σ db depth rs method args w hr
  have herase := @World.callTraced_erase σ db depth rs method args w
  have hlogged {m inner a} (hm : w.environment.registry.lookup rs.model.name method = .ok m)
      (hdepth : depth = inner + 1)
      (ha : Relation.ReflTransGen (Activation.Starts db) ⟨inner, m, m.top, rs, args, w⟩ a) :
      a.Logged db (w.callTraced depth db rs method args).2.log :=
    hdepth ▸ World.callTraced_logged hm ha
  generalize w.callTraced depth db rs method args = out at *
  obtain ⟨result, final⟩ := out
  refine ⟨result, final, rfl, herase.symm, hfits, fun m hm => ⟨hvalue m hm, ?_⟩, ?_⟩
  · intro inner a hdepth ha
    have hlog := hlogged hm hdepth ha
    exact ⟨hlog.runs, hlog.answers⟩
  · intro first calls hregistry res params f model name id hdeclared layer values hruns hid
    have htells := Registry.tells_history first calls
    obtain ⟨s, hentry, htakes⟩ := hfits.log _ hruns
    -- The layer of a number is the one that was declared, under the signature of its type.
    have hdeclared : final.environment.registry.taken? id =
        some (LayerFunction.signature (LayerType res params), ⟨id, model, name, .typed f⟩) :=
      hregistry ▸ htells.taken?_iff.2 ⟨rfl, hdeclared⟩
    rw [hid, hdeclared] at hentry
    cases hentry
    exact runsAs_of_takes rfl htakes

/-- The number after a whole number. -/
def addOne : Frame → RecordSet → LayerType (.param .integer) [.integer] :=
  fun _ _ (n : Int64) => (return n + 1 : Program Body Int64)

/-- Twice a whole number goes to the layer below. -/
def passDouble : Frame → RecordSet → LayerType (.param .integer) [.integer] :=
  fun _ rs (n : Int64) => Program.callNextAs Int64 rs [.integer (n + n)]

def countCalls : List Registry.Call := [
  .declareTyped "Partner" "count" addOne,
  .declareTyped "Partner" "count" passDouble]

def countWorld : World Unit where
  environment := {
    catalog := ⟨[.new "Partner"]⟩
    frozen := false
    registry := (Registry.empty 1).after countCalls }
  store := ()

/-- Both layers run as their functions, one within the other. -/
theorem count_typed :
    ∃ final : World (Traced Unit),
      countWorld.environment.registry.Reachable ∧
      countWorld.callTraced 2 none ⟨.new "Partner", []⟩ "count" [.integer 20] =
        (.ok (.integer 41), final) ∧
      final.log = [.runs ⟨⟨2⟩, "Partner", "count", .typed passDouble⟩ [.integer 20],
        .runs ⟨⟨1⟩, "Partner", "count", .typed addOne⟩ [.integer 40],
        .answers ⟨⟨1⟩, "Partner", "count", .typed addOne⟩ (.integer 41),
        .answers ⟨⟨2⟩, "Partner", "count", .typed passDouble⟩ (.integer 41)] ∧
      final.Fits ∧
      RunsAs passDouble ⟨⟨2⟩, "Partner", "count", .typed passDouble⟩ [.integer 20] ∧
      RunsAs addOne ⟨⟨1⟩, "Partner", "count", .typed addOne⟩ [.integer 40] := by
  have hr : countWorld.environment.registry.Reachable := ⟨1, countCalls, rfl⟩
  obtain ⟨result, final, hcall, -, hfits, -, htyped⟩ :=
    call_typed none 2 ⟨.new "Partner", []⟩ "count" [.integer 20] hr
  obtain ⟨rfl, rfl⟩ := Prod.mk.inj hcall
  refine ⟨_, hr, rfl, rfl, hfits, ?_, ?_⟩
  · exact htyped rfl passDouble (List.mem_of_getElem? (i := 1) rfl) _ _
      (List.mem_of_getElem? (i := 0) rfl) rfl
  · exact htyped rfl addOne (List.mem_of_getElem? (i := 0) rfl) _ _
      (List.mem_of_getElem? (i := 1) rfl) rfl

end RecordModel
