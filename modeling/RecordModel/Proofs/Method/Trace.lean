import RecordModel.Proofs.Method.Dispatch

/-!
# Calls that keep a log

`invokeTraced` runs layers as `invoke` does and keeps a log: it notes which bodies run, with
which arguments, and which values are handed to the callers. The log is kept with the state
of the caller's database, where no program sees it.

**Nothing changes.** Without their logs, the worlds that a program comes to are those that it
comes to anyway (`Program.step_erase`), and so is the outcome of a call.

**Nothing is missed.** Logs only grow, and only through the layers that run. What starts from
an activation runs while the activation does, so that it is noted by the end of it
(`Activation.Starts.logged`).

Results:
* `invokeTraced_erase`, `World.callTraced_erase`: the log changes nothing of what a call does.
* `Program.step_log`: what one request does to the log.
* `World.callTraced_logged`: whatever runs because of a call is in its log.
-/
namespace RecordModel

/-- What is noted of the layers that run. -/
inductive CallEvent where
  /-- The body of a layer begins to run. -/
  | runs (layer : Layer) (args : List Value)
  /-- The caller of a layer is handed a value. -/
  | answers (layer : Layer) (value : Value)

/-- The state of a database, with a log beside it. -/
abbrev Traced (σ : Type) := σ × List CallEvent

/-- The database leaves the log alone. -/
def Database.traced {σ : Type} (db : Database σ) : Database (Traced σ) where
  driver := db.driver
  dialect := db.dialect
  executor := {
    execute sql args s :=
      let (outcome, state) := db.executor.execute sql args s.1
      (outcome, state, s.2)
    query sql args s :=
      let (outcome, state) := db.executor.query sql args s.1
      (outcome, state, s.2) }

namespace World

variable {σ : Type}

/-- Start a log. -/
def traced (w : World σ) : World (Traced σ) := ⟨w.environment, (w.store, [])⟩

def log (w : World (Traced σ)) : List CallEvent := w.store.2

def erase (w : World (Traced σ)) : World σ := ⟨w.environment, w.store.1⟩

theorem erase_environment (w : World (Traced σ)) : w.erase.environment = w.environment := rfl

def note (w : World (Traced σ)) (e : CallEvent) : World (Traced σ) :=
  { w with store := (w.store.1, w.store.2 ++ [e]) }

end World

/-- Hand back what the body of a layer comes to if it fits the signature, and note it. -/
def handBack {σ : Type} (m : Method) (layer : Layer) :
    Result Value × World (Traced σ) → Result Value × World (Traced σ)
  | (.error cause, w) => (.error cause, w)
  | (.ok value, w) =>
    match m.signature.checkReturn m.fullName value with
    | .error cause => (.error cause, w)
    | .ok () => (.ok value, w.note (.answers layer value))

/-- Run a layer of a method as `invoke` does, and note what runs and what is handed back. -/
def invokeTraced {σ : Type} (db : Option (Database σ)) :
    Nat → Method → Layer → RecordSet → List Value → World (Traced σ) →
      Result Value × World (Traced σ)
  | 0, _, _, _, _, w => (.error .tooDeep, w)
  | depth + 1, m, layer, rs, args, w =>
    match m.signature.checkArgs m.fullName args with
    | .error cause => (.error cause, w)
    | .ok () =>
      let frame := m.frame layer.id (db.map Database.dialect)
      let calls := Calls.through (invokeTraced db depth) m layer.id
      handBack m layer ((layer.body.run frame rs args).run (db.map Database.traced) calls
        (w.note (.runs layer args)))

/-- Call a method as `World.call` does, with a log from the start. -/
def World.callTraced {σ : Type} (depth : Nat) (db : Option (Database σ)) (rs : RecordSet)
    (method : String) (args : List Value) (w : World σ) : Result Value × World (Traced σ) :=
  match w.environment.registry.lookup rs.model.name method with
  | .error cause => (.error cause, w.traced)
  | .ok m => invokeTraced db depth m m.top rs args w.traced

/-! ## Requests to run further layers -/

namespace Calls

variable {σ : Type}
  (invoke : Method → Layer → RecordSet → List Value → World σ → Result Value × World σ)
  (m : Method) (layer : LayerId)

/-- A request for the layer below fails, or runs the one that the registry gives. -/
theorem through_next (rs : RecordSet) (args : List Value) (w : World σ) :
    (∃ cause, (through invoke m layer).next rs args w = (.error cause, w)) ∨
      ∃ below, w.environment.registry.resolveNext layer = .ok (some below) ∧
        (through invoke m layer).next rs args w = invoke m below rs args w := by
  dsimp only [through]
  split
  · exact .inl ⟨_, rfl⟩
  · exact .inl ⟨_, rfl⟩
  · rename_i below hbelow
    exact .inr ⟨below, hbelow, rfl⟩

/-- A request for a method fails, or runs its top layer. -/
theorem through_call (rs : RecordSet) (method : String) (args : List Value) (w : World σ) :
    (∃ cause, (through invoke m layer).call rs method args w = (.error cause, w)) ∨
      ∃ m', w.environment.registry.lookup rs.model.name method = .ok m' ∧
        (through invoke m layer).call rs method args w = invoke m' m'.top rs args w := by
  dsimp only [through]
  split
  · exact .inl ⟨_, rfl⟩
  · rename_i m' hm
    exact .inr ⟨m', hm, rfl⟩

end Calls

/-! ## A log changes nothing -/

section Erasure

variable {σ : Type} {db : Option (Database σ)}

/-- An outcome without its log. -/
def eraseLog {α : Type} (out : α × World (Traced σ)) : α × World σ :=
  (out.1, out.2.erase)

namespace World

theorem declare_erase (w : World (Traced σ)) (model method : String) (signature : Signature)
    (body : Body) :
    eraseLog (w.declare model method signature body) =
      w.erase.declare model method signature body := by
  unfold declare
  rw [erase_environment]
  cases w.environment.declareMethod model method signature body <;> rfl

theorem change_erase (w : World (Traced σ)) (f : Environment → Result Environment) :
    eraseLog (w.change f) = w.erase.change f := by
  unfold change
  rw [erase_environment]
  cases f w.environment <;> rfl

end World

/-- Further layers run alike with and without a log. -/
structure Calls.Erase (traced : Calls (Traced σ)) (calls : Calls σ) : Prop where
  next : ∀ rs args w, eraseLog (traced.next rs args w) = calls.next rs args w.erase
  call : ∀ rs method args w,
    eraseLog (traced.call rs method args w) = calls.call rs method args w.erase

/-- A request is answered alike with and without a log. -/
theorem Program.step_erase {α : Type} {traced : Calls (Traced σ)} {calls : Calls σ}
    (h : traced.Erase calls) (p : Program Body α) (w : World (Traced σ)) :
    (p.step (db.map Database.traced) traced w).map eraseLog = p.step db calls w.erase := by
  cases p with
  | done result => rfl
  | next rs args reply => rw [step, step, ← h.next]; rfl
  | call rs method args reply => rw [step, step, ← h.call]; rfl
  | declare model method signature body reply => rw [step, step, ← World.declare_erase]; rfl
  | declareModel m reply => rw [step, step, ← World.change_erase]; rfl
  | declareModels d reply => rw [step, step, ← World.change_erase]; rfl
  | bootstrap reply => rw [step, step, ← World.change_erase]; rfl
  | catalog reply => rfl
  | execute sql args reply => cases db <;> rfl
  | query sql args reply => cases db <;> rfl

/-- Whatever a program comes to without a log, it comes to with one. -/
theorem Program.Steps.traced {α : Type} {traced : Calls (Traced σ)} {calls : Calls σ}
    (h : traced.Erase calls) {p : Program Body α} {w : World (Traced σ)}
    {t : Program Body α × World σ} (hs : Steps db calls (p, w.erase) t) :
    ∃ t', Steps (db.map Database.traced) traced (p, w) t' ∧ eraseLog t' = t := by
  induction hs with
  | refl => exact ⟨(p, w), .refl, rfl⟩
  | tail _ hs ih =>
    obtain ⟨t', hsteps, rfl⟩ := ih
    have hs : t'.1.step db calls t'.2.erase = some _ := hs
    rw [← step_erase h] at hs
    obtain ⟨u, hu, rfl⟩ := Option.map_eq_some_iff.1 hs
    exact ⟨u, hsteps.tail hu, rfl⟩

/-- A program runs alike with and without a log. -/
theorem Program.run_erase {α : Type} {traced : Calls (Traced σ)} {calls : Calls σ}
    (h : traced.Erase calls) (p : Program Body α) (w : World (Traced σ)) :
    eraseLog (p.run (db.map Database.traced) traced w) = p.run db calls w.erase := by
  obtain ⟨result, v, hsteps⟩ := @exists_steps_done σ α db calls p w.erase
  obtain ⟨⟨q, v'⟩, htraced, hq⟩ := hsteps.traced h
  cases hq
  rw [hsteps.run_eq, htraced.run_eq]
  rfl

theorem Calls.through_erase
    {traced : Method → Layer → RecordSet → List Value → World (Traced σ) →
      Result Value × World (Traced σ)}
    {invoke : Method → Layer → RecordSet → List Value → World σ → Result Value × World σ}
    (h : ∀ m layer rs args w, eraseLog (traced m layer rs args w) = invoke m layer rs args w.erase)
    (m : Method) (layer : LayerId) :
    (Calls.through traced m layer).Erase (.through invoke m layer) where
  next rs args w := by
    dsimp only [through, World.erase_environment]
    cases w.environment.registry.resolveNext layer with
    | error cause => rfl
    | ok below =>
      cases below with
      | none => rfl
      | some below => exact h ..
  call rs method args w := by
    dsimp only [through, World.erase_environment]
    cases w.environment.registry.lookup rs.model.name method with
    | error cause => rfl
    | ok m => exact h ..

theorem handBack_erase (m : Method) (layer : Layer) (out : Result Value × World (Traced σ)) :
    eraseLog (handBack m layer out) = match eraseLog out with
      | (.error cause, w) => (.error cause, w)
      | (.ok value, w) => ((m.signature.checkReturn m.fullName value).map fun () => value, w) := by
  obtain ⟨cause | value, w⟩ := out
  · rfl
  · show eraseLog (handBack m layer (.ok value, w)) =
      ((m.signature.checkReturn m.fullName value).map fun () => value, w.erase)
    rw [handBack]
    cases m.signature.checkReturn m.fullName value <;> rfl

/-- The log changes nothing of what a layer and those that it runs do. -/
theorem invokeTraced_erase (depth : Nat) (m : Method) (layer : Layer) (rs : RecordSet)
    (args : List Value) (w : World (Traced σ)) :
    eraseLog (invokeTraced db depth m layer rs args w) =
      invoke db depth m layer rs args w.erase := by
  induction depth generalizing m layer rs args w with
  | zero => rfl
  | succ depth ih =>
    rw [invoke, invokeTraced]
    cases m.signature.checkArgs m.fullName args with
    | error cause => rfl
    | ok u =>
      dsimp only
      rw [handBack_erase, Program.run_erase (Calls.through_erase ih m layer.id)]
      rfl

theorem World.callTraced_erase (depth : Nat) (rs : RecordSet) (method : String) (args : List Value)
    (w : World σ) :
    eraseLog (w.callTraced depth db rs method args) = w.call depth db rs method args := by
  unfold callTraced call
  cases w.environment.registry.lookup rs.model.name method with
  | error cause => rfl
  | ok m => exact invokeTraced_erase ..

end Erasure

/-! ## A log misses nothing -/

section Complete

variable {σ : Type} {db : Option (Database σ)}

/-- Logs grow while further layers run. -/
structure Calls.Grow (calls : Calls (Traced σ)) : Prop where
  next : ∀ rs args w, w.log <+: (calls.next rs args w).2.log
  call : ∀ rs method args w, w.log <+: (calls.call rs method args w).2.log

namespace World

theorem declare_log (w : World (Traced σ)) (model method : String) (signature : Signature)
    (body : Body) : (w.declare model method signature body).2.log = w.log := by
  unfold declare
  split <;> rfl

theorem change_log (w : World (Traced σ)) (f : Environment → Result Environment) :
    (w.change f).2.log = w.log := by
  unfold change
  split <;> rfl

theorem onDatabase_log {α : Type} (w : World (Traced σ))
    (act : Database (Traced σ) → Action (Traced σ) α)
    (hact : ∀ d : Database σ, ∀ s, (act d.traced s).2.2 = s.2) :
    (w.onDatabase (db.map Database.traced) act).2.log = w.log := by
  cases db with
  | none => rfl
  | some d => exact hact d w.store

end World

namespace Program

variable {α : Type} {calls : Calls (Traced σ)}

/-- Only requests to run further layers are noted. -/
theorem step_log {p q : Program Body α} {w v : World (Traced σ)}
    (hs : p.step (db.map Database.traced) calls w = some (q, v)) :
    v.log = w.log ∨ (∃ rs args, v = (calls.next rs args w).2) ∨
      ∃ rs method args, v = (calls.call rs method args w).2 := by
  cases p with
  | done result => cases hs
  | next rs args reply => cases hs; exact .inr (.inl ⟨rs, args, rfl⟩)
  | call rs method args reply => cases hs; exact .inr (.inr ⟨rs, method, args, rfl⟩)
  | declare model method signature body reply => cases hs; exact .inl (w.declare_log ..)
  | declareModel m reply => cases hs; exact .inl (w.change_log fun e => e.declareModel m)
  | declareModels d reply => cases hs; exact .inl (w.change_log fun e => e.declareModels d)
  | bootstrap reply => cases hs; exact .inl (w.change_log Environment.bootstrap)
  | catalog reply => cases hs; exact .inl rfl
  | execute sql args reply =>
    cases hs; exact .inl (w.onDatabase_log (fun d => d.execute sql args) fun d s => rfl)
  | query sql args reply =>
    cases hs; exact .inl (w.onDatabase_log (fun d => d.query sql args) fun d s => rfl)

theorem Steps.log_grows (h : calls.Grow) {s t : Program Body α × World (Traced σ)}
    (hs : Steps (db.map Database.traced) calls s t) : s.2.log <+: t.2.log := by
  induction hs with
  | refl => exact List.prefix_rfl
  | tail _ hs ih =>
    refine ih.trans ?_
    obtain hlog | ⟨rs, args, hnext⟩ | ⟨rs, method, args, hcall⟩ := step_log hs
    · exact hlog ▸ List.prefix_rfl
    · exact hnext ▸ h.next ..
    · exact hcall ▸ h.call ..

theorem run_log_grows (h : calls.Grow) (p : Program Body α) (w : World (Traced σ)) :
    w.log <+: (p.run (db.map Database.traced) calls w).2.log := by
  obtain ⟨result, v, hs⟩ := @exists_steps_done _ α (db.map Database.traced) calls p w
  rw [hs.run_eq]
  exact hs.log_grows h

end Program

/-- What a body comes to is an error, or fits the signature and is noted. -/
theorem handBack_cases (m : Method) (layer : Layer) (out : Result Value × World (Traced σ)) :
    (∃ cause, handBack m layer out = (.error cause, out.2)) ∨
      ∃ value, m.signature.checkReturn m.fullName value = .ok () ∧
        handBack m layer out = (.ok value, out.2.note (.answers layer value)) := by
  obtain ⟨cause | value, w⟩ := out
  · exact .inl ⟨cause, rfl⟩
  · rw [handBack]
    split
    · exact .inl ⟨_, rfl⟩
    · rename_i hreturn
      exact .inr ⟨value, hreturn, rfl⟩

theorem handBack_log_grows (m : Method) (layer : Layer) (out : Result Value × World (Traced σ)) :
    out.2.log <+: (handBack m layer out).2.log := by
  obtain ⟨cause, h⟩ | ⟨value, -, h⟩ := handBack_cases m layer out
  · exact h ▸ List.prefix_rfl
  · exact h ▸ List.prefix_append ..

theorem Calls.through_grow {traced : Method → Layer → RecordSet → List Value → World (Traced σ) →
      Result Value × World (Traced σ)}
    (h : ∀ m layer rs args w, w.log <+: (traced m layer rs args w).2.log) (m : Method)
    (layer : LayerId) : (Calls.through traced m layer).Grow where
  next rs args w := by
    obtain ⟨cause, hnext⟩ | ⟨below, -, hnext⟩ := through_next traced m layer rs args w
    · exact hnext ▸ List.prefix_rfl
    · exact hnext ▸ h ..
  call rs method args w := by
    obtain ⟨cause, hcall⟩ | ⟨m', -, hcall⟩ := through_call traced m layer rs method args w
    · exact hcall ▸ List.prefix_rfl
    · exact hcall ▸ h ..

theorem invokeTraced_log_grows (depth : Nat) (m : Method) (layer : Layer) (rs : RecordSet)
    (args : List Value) (w : World (Traced σ)) :
    w.log <+: (invokeTraced db depth m layer rs args w).2.log := by
  induction depth generalizing m layer rs args w with
  | zero => exact List.prefix_rfl
  | succ depth ih =>
    rw [invokeTraced]
    split
    · exact List.prefix_rfl
    · exact (List.prefix_append ..).trans <|
        (Program.run_log_grows (Calls.through_grow ih m layer.id) _ (w.note _)).trans
          (handBack_log_grows ..)

namespace Activation

/-- What an activation adds to a log is in the log given. -/
def Logged (db : Option (Database σ)) (a : Activation σ) (log : List CallEvent) : Prop :=
  ∃ w : World (Traced σ), w.erase = a.world ∧
    (invokeTraced db (a.depth + 1) a.method a.layer a.rs a.args w).2.log <+: log

def tracedCalls (db : Option (Database σ)) (a : Activation σ) : Calls (Traced σ) :=
  .through (invokeTraced db a.depth) a.method a.layer.id

variable {a b : Activation σ} {log : List CallEvent}

theorem tracedCalls_grow : (a.tracedCalls db).Grow :=
  Calls.through_grow (invokeTraced_log_grows a.depth) a.method a.layer.id

/-- Wherever the program of an activation comes to, that it runs is noted by then, and what
is noted from there on is in the log. -/
theorem Logged.reach (h : a.Logged db log) {p : Program Body Value} {w : World σ}
    (hat : a.At db p w) :
    ∃ w' : World (Traced σ), w'.erase = w ∧ .runs a.layer a.args ∈ w'.log ∧
      (p.run (db.map Database.traced) (a.tracedCalls db) w').2.log <+: log := by
  obtain ⟨v, hv, hlog⟩ := h
  have hcalls : (a.tracedCalls db).Erase (a.calls db) :=
    Calls.through_erase (invokeTraced_erase a.depth) a.method a.layer.id
  have hsteps : Program.Steps db (a.calls db)
      (a.program db, (v.note (.runs a.layer a.args)).erase) (p, w) := hv ▸ hat.steps
  obtain ⟨⟨q, w'⟩, htraced, hq⟩ := hsteps.traced hcalls
  cases hq
  refine ⟨w', rfl, ?_, ?_⟩
  · have hgrow := htraced.log_grows tracedCalls_grow
    exact hgrow.mem (List.mem_append_right _ (List.mem_singleton_self _))
  · rw [invokeTraced, hat.accepted] at hlog
    rw [← htraced.run_eq]
    exact (handBack_log_grows ..).trans hlog

/-- An activation whose program begins is noted. -/
theorem Logged.runs (h : a.Logged db log) {p : Program Body Value} {w : World σ}
    (hat : a.At db p w) : .runs a.layer a.args ∈ log := by
  obtain ⟨w', -, hruns, hlog⟩ := h.reach hat
  exact ((Program.run_log_grows tracedCalls_grow _ _).trans hlog).mem hruns

/-- What starts from an activation is noted with it. -/
theorem Starts.logged (h : Starts db a b) (ha : a.Logged db log) : b.Logged db log := by
  cases h with
  | @next depth rs args reply w below hat hdepth hbelow =>
    obtain ⟨w', rfl, -, hlog⟩ := ha.reach hat
    have hnext : (a.tracedCalls db).next rs args w' =
        invokeTraced db (depth + 1) a.method below rs args w' := by
      dsimp only [tracedCalls, Calls.through]
      rw [← World.erase_environment, hbelow, hdepth]
    rw [Program.run, hnext] at hlog
    exact ⟨w', rfl, (Program.run_log_grows tracedCalls_grow ..).trans hlog⟩
  | @call depth rs method args reply w m hat hdepth hm =>
    obtain ⟨w', rfl, -, hlog⟩ := ha.reach hat
    have hcall : (a.tracedCalls db).call rs method args w' =
        invokeTraced db (depth + 1) m m.top rs args w' := by
      dsimp only [tracedCalls, Calls.through]
      rw [← World.erase_environment, hm, hdepth]
    rw [Program.run, hcall] at hlog
    exact ⟨w', rfl, (Program.run_log_grows tracedCalls_grow ..).trans hlog⟩

/-- A value that an activation hands back is noted. -/
theorem Logged.answers (h : a.Logged db log) {value : Value} {w : World σ}
    (hout : a.outcome db = (.ok value, w)) : .answers a.layer value ∈ log := by
  obtain ⟨v, hv, hlog⟩ := h
  rw [outcome, ← hv, ← invokeTraced_erase, invokeTraced] at hout
  rw [invokeTraced] at hlog
  split at hout
  · cases hout
  · rename_i hargs
    rw [hargs] at hlog
    dsimp only at hout hlog
    generalize Program.run _ _ _ _ = out at hout hlog
    obtain ⟨cause, h⟩ | ⟨value, -, h⟩ := handBack_cases a.method a.layer out
    · rw [h] at hout
      cases hout
    · rw [h] at hout hlog
      cases hout
      exact hlog.mem (List.mem_append_right _ (List.mem_singleton_self _))

end Activation

/-- Whatever runs because of a call is in its log. -/
theorem World.callTraced_logged {depth : Nat} {rs : RecordSet} {method : String} {args : List Value}
    {w : World σ} {m : Method} (hm : w.environment.registry.lookup rs.model.name method = .ok m)
    {a : Activation σ}
    (ha : Relation.ReflTransGen (Activation.Starts db) ⟨depth, m, m.top, rs, args, w⟩ a) :
    a.Logged db (w.callTraced (depth + 1) db rs method args).2.log := by
  have hcall : w.callTraced (depth + 1) db rs method args =
      invokeTraced db (depth + 1) m m.top rs args w.traced := by
    simp only [callTraced, hm]
  induction ha with
  | refl => exact ⟨w.traced, rfl, hcall ▸ List.prefix_rfl⟩
  | tail _ hstarts ih => exact hstarts.logged ih

end Complete

end RecordModel
