import Mathlib.Logic.Relation
import RecordModel.Environment.Call
import RecordModel.Proofs.Environment.Operations

/-!
# A call walks the layers that it found

A running layer holds its method as it was when the call began, but the layer below is
looked up in the registry of the moment. By then the running layers may have declared
further ones, on this method or on others, and called any methods. The lookup still gives
the layer that is behind the running one in the method that is held: layers only ever go on
top, and a link that is once there is never changed.

**Activations.** An `Activation` is one run of one layer. Its program takes steps
(`Program.step`), and each request to run a further layer starts another activation
(`Activation.Starts`). `Activation.At` says where the program of an activation comes to. A
world that calls of its registry lead to (`World.LeadsTo`) is later than another, and all
worlds that a program comes to are later than the one that it begins in.

Results:
* `Registry.Reachable.lookup`: a method that is found keeps the links of its layers.
* `invoke_leads`: whatever a call does to the registry is done by calls of the registry.
* `Activation.At.outcome_eq`: where the program of an activation ends, its outcome is known.
* `dispatch_snapshot`: every layer that runs because of a call gets the layer behind it.
-/
namespace RecordModel

/-! ## Links that stay -/

namespace Registry

/-- Calls lead to the registry from an empty one. -/
def Reachable (r : Registry) : Prop := ∃ first calls, r = (empty first).after calls

/-- Each of the layers is linked to the one behind it, now and after any calls. -/
def Keeps (r : Registry) (layers : List Layer) : Prop :=
  ∀ later i l, layers[i]? = some l → (r.after later).resolveNext l.id = .ok layers[i + 1]?

theorem Keeps.after {r : Registry} {layers : List Layer} (h : r.Keeps layers) (calls : List Call) :
    (r.after calls).Keeps layers := by
  intro later i l hl
  rw [← after_append]
  exact h _ i l hl

/-- Later layers of a method stand in front of the ones that it has, which keep their order. -/
theorem Tells.keeps {r : Registry} {events : List Event} (h : r.Tells events)
    (key : String × String) : r.Keeps (declared events key) := by
  intro later i l hl
  have htells := h.run later
  have hsplit := declared_append events (r.history later) key
  let newer := declared (r.history later) key
  have hshift : ∀ j, (declared (events ++ r.history later) key)[newer.length + j]? =
      (declared events key)[j]? := by
    intro j
    rw [hsplit, List.getElem?_append_right (Nat.le_add_right ..), Nat.add_sub_cancel_left]
  rw [htells.next ((hshift i).trans hl), Nat.add_assoc, hshift]

namespace Reachable

variable {r : Registry} (h : r.Reachable)

include h in
theorem after (calls : List Call) : (r.after calls).Reachable := by
  obtain ⟨first, earlier, rfl⟩ := h
  exact ⟨first, earlier ++ calls, (after_append ..).symm⟩

include h in
/-- A method that is found has a list of layers whose links stay. -/
theorem lookup {model method : String} {m : Method} (hm : r.lookup model method = .ok m) :
    ∃ layers, m.Holds layers ∧ r.Keeps layers := by
  obtain ⟨first, calls, rfl⟩ := h
  have htells := tells_history first calls
  exact ⟨_, (htells.method (lookup_eq_ok.1 hm)).holds, htells.keeps _⟩

include h in
/-- No call changes what is below a layer. -/
theorem resolveNext_after {id : LayerId} {key : String × String} (hid : r.owners.get? id = some key)
    (later : List Call) : (r.after later).resolveNext id = r.resolveNext id := by
  obtain ⟨first, calls, rfl⟩ := h
  have htells := tells_history first calls
  obtain ⟨l, hl, rfl⟩ := List.mem_map.1 (htells.owner.1 hid)
  obtain ⟨i, hi⟩ := List.mem_iff_getElem?.1 hl
  rw [htells.keeps key later i l hi]
  exact (htells.keeps key [] i l hi).symm

end Reachable

end Registry

/-! ## Requests change a registry by its calls -/

/-- Calls of the registry lead from the one of a world to that of another. -/
def World.LeadsTo {σ : Type} (w w' : World σ) : Prop :=
  ∃ calls, w'.environment.registry = w.environment.registry.after calls

namespace World

variable {σ : Type} {w w' w'' : World σ}

theorem LeadsTo.of_eq (h : w'.environment.registry = w.environment.registry) : w.LeadsTo w' :=
  ⟨[], h⟩

theorem LeadsTo.trans (h : w.LeadsTo w') (h' : w'.LeadsTo w'') : w.LeadsTo w'' := by
  obtain ⟨calls, h⟩ := h
  obtain ⟨later, h'⟩ := h'
  exact ⟨calls ++ later, by rw [h', h, Registry.after_append]⟩

theorem LeadsTo.reachable (h : w.LeadsTo w') (hw : w.environment.registry.Reachable) :
    w'.environment.registry.Reachable := by
  obtain ⟨calls, h⟩ := h
  exact h ▸ hw.after calls

theorem LeadsTo.keeps (h : w.LeadsTo w') {layers : List Layer}
    (hw : w.environment.registry.Keeps layers) : w'.environment.registry.Keeps layers := by
  obtain ⟨calls, h⟩ := h
  exact h ▸ hw.after calls

theorem declare_leadsTo (w : World σ) (model method : String) (signature : Signature) (body : Body) :
    w.LeadsTo (w.declare model method signature body).2 := by
  unfold declare
  split
  · rename_i id e he
    exact ⟨_, Environment.declareMethod_registry he⟩
  · exact .of_eq rfl

theorem change_leadsTo (w : World σ) {f : Environment → Result Environment}
    (hf : ∀ {e e'}, f e = .ok e' → ∃ calls, e'.registry = e.registry.after calls) :
    w.LeadsTo (w.change f).2 := by
  unfold change
  split
  · rename_i e he
    exact hf he
  · exact .of_eq rfl

theorem onDatabase_leadsTo {α : Type} (w : World σ) (db : Option (Database σ))
    (act : Database σ → Action σ α) : w.LeadsTo (w.onDatabase db act).2 := by
  cases db <;> exact .of_eq rfl

end World

/-! ## One request after the other -/

/-- The next request of a program, answered. -/
def Program.step {σ α : Type} (db : Option (Database σ)) (calls : Calls σ) :
    Program Body α → World σ → Option (Program Body α × World σ)
  | done _, _ => none
  | next rs args reply, w => some ((calls.next rs args w).map reply id)
  | call rs method args reply, w => some ((calls.call rs method args w).map reply id)
  | declare model method signature body reply, w =>
    some ((w.declare model method signature body).map reply id)
  | declareModel m reply, w => some ((w.change fun e => e.declareModel m).map reply id)
  | declareModels d reply, w => some ((w.change fun e => e.declareModels d).map reply id)
  | bootstrap reply, w => some ((w.change Environment.bootstrap).map reply id)
  | catalog reply, w => some (reply w.environment.catalog, w)
  | execute sql args reply, w => some ((w.onDatabase db fun d => d.execute sql args).map reply id)
  | query sql args reply, w => some ((w.onDatabase db fun d => d.query sql args).map reply id)

/-- One program and world lead to another in some steps. -/
def Program.Steps {σ α : Type} (db : Option (Database σ)) (calls : Calls σ) :
    Program Body α × World σ → Program Body α × World σ → Prop :=
  Relation.ReflTransGen fun s t => s.1.step db calls s.2 = some t

/-- To run further layers changes a registry by its calls. -/
structure Calls.Lead {σ : Type} (calls : Calls σ) : Prop where
  next : ∀ rs args (w : World σ), w.LeadsTo (calls.next rs args w).2
  call : ∀ rs method args (w : World σ), w.LeadsTo (calls.call rs method args w).2

namespace Program

variable {σ α : Type} {db : Option (Database σ)} {calls : Calls σ}

theorem step_leads (h : calls.Lead) {p q : Program Body α} {w v : World σ}
    (hs : p.step db calls w = some (q, v)) : w.LeadsTo v := by
  cases p with
  | done result => cases hs
  | next rs args reply => cases hs; exact h.next ..
  | call rs method args reply => cases hs; exact h.call ..
  | declare model method signature body reply => cases hs; exact w.declare_leadsTo ..
  | declareModel m reply =>
    cases hs
    refine w.change_leadsTo (f := fun e => e.declareModel m) fun he => ?_
    obtain ⟨-, c, -, rfl⟩ := Environment.declareModel_ok he
    exact ⟨[], rfl⟩
  | declareModels d reply =>
    cases hs
    refine w.change_leadsTo (f := fun e => e.declareModels d) fun he => ?_
    obtain ⟨-, c, -, rfl⟩ := Environment.declareModels_ok he
    exact ⟨[], rfl⟩
  | bootstrap reply => cases hs; exact w.change_leadsTo Environment.bootstrap_registry
  | catalog reply => cases hs; exact .of_eq rfl
  | execute sql args reply =>
    cases hs
    exact w.onDatabase_leadsTo db fun d => d.execute sql args
  | query sql args reply =>
    cases hs
    exact w.onDatabase_leadsTo db fun d => d.query sql args

/-- A step is a part of the run. -/
theorem run_step {p q : Program Body α} {w v : World σ} (hs : p.step db calls w = some (q, v)) :
    p.run db calls w = q.run db calls v := by
  cases p <;> cases hs <;> rfl

theorem Steps.run_eq {s t : Program Body α × World σ} (h : Steps db calls s t) :
    s.1.run db calls s.2 = t.1.run db calls t.2 := by
  induction h with
  | refl => rfl
  | tail _ hs ih => exact ih.trans (run_step hs)

theorem Steps.leads (hc : calls.Lead) {s t : Program Body α × World σ} (h : Steps db calls s t) :
    s.2.LeadsTo t.2 := by
  induction h with
  | refl => exact .of_eq rfl
  | tail _ hs ih => exact ih.trans (step_leads hc hs)

/-- The steps of a program go on to its end. -/
theorem exists_steps_done (p : Program Body α) (w : World σ) :
    ∃ result v, Steps db calls (p, w) (.done result, v) := by
  induction p generalizing w with
  | done result => exact ⟨result, w, .refl⟩
  | next _ _ _ ih | call _ _ _ _ ih | declare _ _ _ _ _ ih | declareModel _ _ ih
  | declareModels _ _ ih | bootstrap _ ih | catalog _ ih | execute _ _ _ ih | query _ _ _ ih =>
    exact (ih _ _).imp fun result h => h.imp fun v h => .head rfl h

theorem run_leads (hc : calls.Lead) (p : Program Body α) (w : World σ) :
    w.LeadsTo (p.run db calls w).2 := by
  obtain ⟨result, v, h⟩ := p.exists_steps_done w
  rw [h.run_eq]
  exact h.leads hc

end Program

/-! ## Calls -/

section Calls

variable {σ : Type} {db : Option (Database σ)}

theorem Calls.through_lead
    {invoke : Method → Layer → RecordSet → List Value → World σ → Result Value × World σ}
    (h : ∀ m layer rs args (w : World σ), w.LeadsTo (invoke m layer rs args w).2) (m : Method)
    (layer : LayerId) :
    (Calls.through invoke m layer).Lead where
  next rs args w := by
    dsimp only [through]
    split
    · exact .of_eq rfl
    · exact .of_eq rfl
    · exact h ..
  call rs method args w := by
    dsimp only [through]
    split
    · exact .of_eq rfl
    · exact h ..

/-- Whatever a layer and those that it runs do to a registry, calls of the registry do. -/
theorem invoke_leads (depth : Nat) (m : Method) (layer : Layer) (rs : RecordSet) (args : List Value)
    (w : World σ) : w.LeadsTo (invoke db depth m layer rs args w).2 := by
  induction depth generalizing m layer rs args w with
  | zero => exact .of_eq rfl
  | succ depth ih =>
    have hrun : ∀ p : Program Body Value,
        w.LeadsTo (p.run db (Calls.through (invoke db depth) m layer.id) w).2 :=
      fun p => p.run_leads (Calls.through_lead ih m layer.id) w
    have hrun := hrun (layer.body.run (m.frame layer.id (db.map Database.dialect)) rs args)
    rw [invoke]
    split
    · exact .of_eq rfl
    · dsimp only
      split <;> rename_i h <;> rwa [h] at hrun

end Calls

/-! ## Activations -/

/-- One run of a layer; what it runs may nest to a depth. -/
structure Activation (σ : Type) where
  depth : Nat
  method : Method
  layer : Layer
  rs : RecordSet
  args : List Value
  world : World σ

namespace Activation

variable {σ : Type}

def outcome (db : Option (Database σ)) (a : Activation σ) : Result Value × World σ :=
  invoke db (a.depth + 1) a.method a.layer a.rs a.args a.world

def program (db : Option (Database σ)) (a : Activation σ) : Program Body Value :=
  a.layer.body.run (a.method.frame a.layer.id (db.map Database.dialect)) a.rs a.args

def calls (db : Option (Database σ)) (a : Activation σ) : Calls σ :=
  .through (invoke db a.depth) a.method a.layer.id

/-- The arguments are taken, and the program of the layer comes to `p` in the world `w`. -/
structure At (db : Option (Database σ)) (a : Activation σ) (p : Program Body Value) (w : World σ) :
    Prop where
  accepted : a.method.signature.checkArgs a.method.fullName a.args = .ok ()
  steps : Program.Steps db (a.calls db) (a.program db, a.world) (p, w)

/-- A request of one activation starts another. -/
inductive Starts (db : Option (Database σ)) : Activation σ → Activation σ → Prop where
  | next {a : Activation σ} {depth rs args reply w below} :
    a.At db (.next rs args reply) w → a.depth = depth + 1 →
    w.environment.registry.resolveNext a.layer.id = .ok (some below) →
    Starts db a ⟨depth, a.method, below, rs, args, w⟩
  | call {a : Activation σ} {depth rs method args reply w m} :
    a.At db (.call rs method args reply) w → a.depth = depth + 1 →
    w.environment.registry.lookup rs.model.name method = .ok m →
    Starts db a ⟨depth, m, m.top, rs, args, w⟩

/-- What a call of the method gives if the program of its layer ends in a result: the result, if
it fits the signature. -/
def answer (a : Activation σ) (result : Result Value) : Result Value :=
  result.bind fun value =>
    (a.method.signature.checkReturn a.method.fullName value).map fun () => value

/-- The layer of an activation is the one at `i` in the chain of its method. Whatever calls
the registry has had since the activation began, a request for the layer below runs the one
behind it in that chain. -/
structure Walks (db : Option (Database σ)) (a : Activation σ) (i : Nat) : Prop where
  here : a.method.chain[i]? = some a.layer.id
  layer_eq : a.method.layer a.layer.id = .ok a.layer
  next : ∀ {id rs args w}, a.method.chain[i + 1]? = some id → a.world.LeadsTo w →
    ∃ below, a.method.layer id = .ok below ∧
      (a.calls db).next rs args w = invoke db a.depth a.method below rs args w
  /-- The answer is what the program of the layer below ends in. -/
  answered : ∀ {id below depth rs args w result w'}, a.method.chain[i + 1]? = some id →
    a.method.layer id = .ok below → a.depth = depth + 1 → a.world.LeadsTo w →
    At db ⟨depth, a.method, below, rs, args, w⟩ (.done result) w' →
    (a.calls db).next rs args w = (a.answer result, w')
  /-- Arguments that do not fit run no layer. -/
  refused : ∀ {id depth rs args w cause}, a.method.chain[i + 1]? = some id →
    a.depth = depth + 1 → a.world.LeadsTo w →
    a.method.signature.checkArgs a.method.fullName args = .error cause →
    (a.calls db).next rs args w = (.error cause, w)
  last : ∀ {rs args w}, a.method.chain[i + 1]? = none → a.world.LeadsTo w →
    (a.calls db).next rs args w = (.error (.noNextLayer a.method.model a.method.name), w)

/-- The method of an activation is made of layers whose links stay, and its own is one. -/
structure Placed (a : Activation σ) (layers : List Layer) (i : Nat) : Prop where
  reachable : a.world.environment.registry.Reachable
  holds : a.method.Holds layers
  keeps : a.world.environment.registry.Keeps layers
  here : layers[i]? = some a.layer

variable {db : Option (Database σ)} {a b : Activation σ}

theorem At.leads {p : Program Body Value} {w : World σ} (h : a.At db p w) : a.world.LeadsTo w :=
  h.steps.leads (Calls.through_lead (invoke_leads a.depth) ..)

/-- What a program ends in is the outcome of its activation if it fits the signature. -/
theorem At.outcome_eq {result : Result Value} {w : World σ} (h : a.At db (.done result) w) :
    a.outcome db = (a.answer result, w) := by
  have hrun : (a.program db).run db (a.calls db) a.world = (result, w) := h.steps.run_eq
  rw [program, calls] at hrun
  rw [outcome, invoke, h.accepted]
  dsimp only
  rw [hrun]
  cases result <;> rfl

/-- Whatever calls follow, the layer of an activation is linked to the one behind it. -/
theorem Placed.resolveNext {layers : List Layer} {i : Nat} (h : a.Placed layers i) {w : World σ}
    (hw : a.world.LeadsTo w) :
    w.environment.registry.resolveNext a.layer.id = .ok layers[i + 1]? :=
  hw.keeps h.keeps [] i a.layer h.here

theorem placed_top {depth : Nat} {rs : RecordSet} {model method : String} {args : List Value}
    {w : World σ} {m : Method} (hw : w.environment.registry.Reachable)
    (hm : w.environment.registry.lookup model method = .ok m) :
    ∃ layers, Placed ⟨depth, m, m.top, rs, args, w⟩ layers 0 := by
  obtain ⟨layers, hholds, hkeeps⟩ := hw.lookup hm
  exact ⟨layers, hw, hholds, hkeeps, hholds.top_eq⟩

/-- What starts from a placed activation is placed. -/
theorem Starts.placed (h : Starts db a b) (ha : ∃ layers i, a.Placed layers i) :
    ∃ layers i, b.Placed layers i := by
  obtain ⟨layers, i, ha⟩ := ha
  cases h with
  | @next depth rs args reply w below hat hdepth hbelow =>
    rw [ha.resolveNext hat.leads] at hbelow
    exact ⟨layers, i + 1, hat.leads.reachable ha.reachable, ha.holds, hat.leads.keeps ha.keeps,
      Except.ok.inj hbelow⟩
  | @call depth rs method args reply w m hat hdepth hm =>
    obtain ⟨layers, hb⟩ := placed_top (hat.leads.reachable ha.reachable) hm
    exact ⟨layers, 0, hb⟩

theorem Placed.walks {layers : List Layer} {i : Nat} (h : a.Placed layers i) : a.Walks db i := by
  have hnext : ∀ {rs args w}, a.world.LeadsTo w →
      (a.calls db).next rs args w = match layers[i + 1]? with
        | none => (.error (.noNextLayer a.method.model a.method.name), w)
        | some below => invoke db a.depth a.method below rs args w := by
    intro rs args w hw
    dsimp only [calls, Calls.through]
    rw [h.resolveNext hw]
    cases layers[i + 1]? <;> rfl
  have hbelow : ∀ {id}, a.method.chain[i + 1]? = some id →
      ∃ below, layers[i + 1]? = some below ∧ below.id = id := by
    intro id hid
    rw [h.holds.getElem?_chain] at hid
    exact Option.map_eq_some_iff.1 hid
  refine ⟨?_, h.holds.layer_eq h.here, ?_, ?_, ?_, ?_⟩
  · rw [h.holds.getElem?_chain, h.here]
    rfl
  · intro id rs args w hid hw
    obtain ⟨below, hb, rfl⟩ := hbelow hid
    exact ⟨below, h.holds.layer_eq hb, by rw [hnext hw, hb]⟩
  · intro id below depth rs args w result w' hid hlayer hdepth hw hat
    obtain ⟨found, hfound, rfl⟩ := hbelow hid
    cases (h.holds.layer_eq hfound).symm.trans hlayer
    have houtcome := hat.outcome_eq
    rw [outcome] at houtcome
    rw [hnext hw, hfound, hdepth]
    exact houtcome
  · intro id depth rs args w cause hid hdepth hw hargs
    obtain ⟨below, hb, rfl⟩ := hbelow hid
    rw [hnext hw, hb, hdepth]
    exact invoke_refused hargs
  · intro rs args w hid hw
    rw [h.holds.getElem?_chain] at hid
    rw [hnext hw, Option.map_eq_none_iff.1 hid]

end Activation

/-- No declaration and no bootstrap changes what is below a layer. So every layer that runs
because of a call finds the layer below it in the chain of its method as that was when the
call began, whatever the layers have done to the registry by then. What such a layer answers is
what its program ends in. -/
theorem dispatch_snapshot {r : Registry} (hr : r.Reachable) :
    (∀ {id key}, r.owners.get? id = some key → ∀ later,
      (r.after later).resolveNext id = r.resolveNext id) ∧
    ∀ {σ : Type} (db : Option (Database σ)) (depth : Nat) (rs : RecordSet) (method : String)
      (args : List Value) (w : World σ) (m : Method),
      w.environment.registry = r → r.lookup rs.model.name method = .ok m →
      w.call (depth + 1) db rs method args = Activation.outcome db ⟨depth, m, m.top, rs, args, w⟩ ∧
        ∀ a, Relation.ReflTransGen (Activation.Starts db) ⟨depth, m, m.top, rs, args, w⟩ a →
          (∀ {p w'}, a.At db p w' → a.world.LeadsTo w') ∧
          (∀ {result w'}, a.At db (.done result) w' → a.outcome db = (a.answer result, w')) ∧
          ∃ i, a.Walks db i := by
  refine ⟨hr.resolveNext_after, ?_⟩
  rintro σ db depth rs method args w m rfl hm
  refine ⟨by rw [World.call, hm]; rfl, fun a ha => ?_⟩
  have hplaced : ∃ layers i, a.Placed layers i := by
    induction ha with
    | refl =>
      obtain ⟨layers, htop⟩ := Activation.placed_top hr hm
      exact ⟨layers, 0, htop⟩
    | tail _ hstarts ih => exact hstarts.placed ih
  obtain ⟨layers, i, h⟩ := hplaced
  exact ⟨Activation.At.leads, Activation.At.outcome_eq, i, h.walks⟩

/-- A layer that puts another one on top of its method before it runs the one below. -/
def relay : Body := .ofRun fun frame rs args =>
  .declare frame.model frame.method frame.signature
    (.ofRun fun _ _ _ => .done (.ok (.integer 0))) fun _ => .callNext rs args

/-- The layer below it. -/
def seven : Layer := ⟨⟨1⟩, "Partner", "touch", .ofRun fun _ _ _ => .done (.ok (.integer 7))⟩

/-- A method of a relay over the layer that gives seven. -/
def relays : Method :=
  (Method.new "Partner" "touch" (.method [] .integer) seven).push
    ⟨⟨2⟩, "Partner", "touch", relay⟩ (by decide)

def relayWorld : World Unit where
  environment := {
    catalog := ⟨[.new "Partner"]⟩
    frozen := false
    registry := (Registry.empty 1).after [
      .declare "Partner" "touch" (.method [] .integer) seven.body,
      .declare "Partner" "touch" (.method [] .integer) relay] }
  store := ()

theorem relays_chain : relays.chain = [⟨2⟩, ⟨1⟩] := by
  have htop : relays.below.get? relays.topId = some ⟨1⟩ := rfl
  have hbottom : relays.below.get? ⟨1⟩ = none := rfl
  rw [Method.chain, Method.follow_eq, htop, Option.map_some, Option.getD_some, Method.follow_eq,
    hbottom]
  rfl

/-- The relay gets seven from the layer below it, though a third one, which gives zero, is on top
by then. -/
theorem relays_walk :
    ∃ later : World Unit, ∃ newer,
      later.environment.registry.lookup "Partner" "touch" = .ok newer ∧ newer.topId = ⟨3⟩ ∧
      Activation.Starts none ⟨1, relays, relays.top, ⟨.new "Partner", []⟩, [], relayWorld⟩
        ⟨0, relays, seven, ⟨.new "Partner", []⟩, [], later⟩ ∧
      (Activation.calls none
        ⟨1, relays, relays.top, ⟨.new "Partner", []⟩, [], relayWorld⟩).next
          ⟨.new "Partner", []⟩ [] later = (.ok (.integer 7), later) ∧
      relayWorld.call 2 none ⟨.new "Partner", []⟩ "touch" [] = (.ok (.integer 7), later) := by
  have hr : relayWorld.environment.registry.Reachable := ⟨1, _, rfl⟩
  obtain ⟨-, hwalk⟩ := dispatch_snapshot hr
  let rs : RecordSet := ⟨.new "Partner", []⟩
  let upper : Activation Unit := ⟨1, relays, relays.top, rs, [], relayWorld⟩
  let later := (relayWorld.declare "Partner" "touch" (.method [] .integer)
    (.ofRun fun _ _ _ => .done (.ok (.integer 0)))).2
  have hat : upper.At none (.next rs [] .done) later := ⟨rfl, .head rfl .refl⟩
  obtain ⟨hcall, hwalks⟩ := hwalk none 1 rs "touch" [] relayWorld relays rfl rfl
  obtain ⟨hleads, hanswer, i, hwalked⟩ := hwalks upper .refl
  -- the relay is the first layer of the chain
  have hi : i = 0 := by
    have hhere : relays.chain[i]? = some ⟨2⟩ := hwalked.here
    rw [relays_chain] at hhere
    match i with
    | 0 => rfl
    | 1 => cases hhere
    | i + 2 => cases hhere
  have hbelow : relays.chain[i + 1]? = some ⟨1⟩ := by rw [relays_chain, hi]; rfl
  have hseven : Activation.At none ⟨0, relays, seven, rs, [], later⟩ (.done (.ok (.integer 7)))
      later := ⟨rfl, .refl⟩
  have hnext : (upper.calls none).next rs [] later = (.ok (.integer 7), later) :=
    hwalked.answered hbelow rfl rfl (hleads hat) hseven
  have hdone : upper.At none (.done (.ok (.integer 7))) later :=
    ⟨rfl, hat.steps.tail (by rw [Program.step, hnext]; rfl)⟩
  refine ⟨later, _, rfl, rfl, .next hat rfl rfl, hnext, ?_⟩
  rw [hcall]
  exact hanswer hdone

end RecordModel
