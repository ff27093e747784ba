import Mathlib.Data.List.Forall2
import RecordModel.Proofs.Method.Entries
import RecordModel.Proofs.Method.Trace

/-!
# What the log of a call says

A log fits a registry if every body in it belongs to a layer whose signature takes the
arguments, and every value to one whose signature returns it.

**Invariant.** While a layer runs, the log fits the registry and the layer has an entry under
the signature of the running method (`World.Within`). The layer below has the same
signature, and the registry only gains entries; so each request that the layer makes keeps
the invariant, and further layers begin with it.

Results:
* `Program.step_within`, `Program.run_within`: what one request keeps, and what a run keeps.
* `invokeTraced_fits`: a layer and those that it runs leave a log that fits.
* `World.callTraced_fits`: so does a call, whose value is of the kind of its method.
-/
namespace RecordModel

/-! ## Signatures and what is noted -/

/-- Each argument is accepted by the kind of its parameter, and there are no others. -/
def Signature.Takes (s : Signature) (args : List Value) : Prop :=
  List.Forall₂ (fun kind value => kind.accepts value = true) s.args args

theorem Signature.checkArgs_ok_iff {s : Signature} {method : String} {args : List Value} :
    s.checkArgs method args = .ok () ↔ s.Takes args := by
  rw [checkArgs_ok, Takes, List.forall₂_iff_zip, Prod.forall]

theorem Signature.checkReturn_ok {s : Signature} {method : String} {value : Value} :
    s.checkReturn method value = .ok () ↔ s.returns.accepts value = true := by
  unfold checkReturn check
  split <;> rename_i h <;> simp [h]

/-- The layer belongs to a chain of the registry, and what is noted of it fits the signature
of the chain. -/
def CallEvent.Fits (r : Registry) : CallEvent → Prop
  | runs layer args => ∃ s, r.taken? layer.id = some (s, layer) ∧ s.Takes args
  | answers layer value => ∃ s, r.taken? layer.id = some (s, layer) ∧ s.returns.accepts value = true

theorem CallEvent.Fits.after {r : Registry} {e : CallEvent} (h : e.Fits r) (hr : r.Reachable)
    (later : List Registry.Call) : e.Fits (r.after later) := by
  cases e <;> exact h.imp fun s hs => ⟨hr.taken?_after hs.1 later, hs.2⟩

namespace World

variable {σ : Type}

/-- All that is noted fits the registry. -/
structure Fits (w : World (Traced σ)) : Prop where
  reachable : w.environment.registry.Reachable
  log : ∀ e ∈ w.log, e.Fits w.environment.registry

/-- A layer of the method runs. -/
structure Within (m : Method) (layer : Layer) (w : World (Traced σ)) : Prop extends Fits w where
  entry : w.environment.registry.taken? layer.id = some (m.signature, layer)

variable {w w' : World (Traced σ)} {m : Method} {layer : Layer}

/-- Logs fit later registries too. -/
theorem Fits.of_leads (h : w.Fits) (hl : w.LeadsTo w') (hlog : w'.log = w.log) : w'.Fits := by
  refine ⟨hl.reachable h.reachable, fun e he => ?_⟩
  obtain ⟨calls, hcalls⟩ := hl
  rw [hcalls]
  exact (h.log e (hlog ▸ he)).after h.reachable calls

theorem Fits.note (h : w.Fits) {e : CallEvent} (he : e.Fits w.environment.registry) :
    (w.note e).Fits := by
  refine ⟨h.reachable, fun e' he' => ?_⟩
  rcases List.mem_append.1 he' with he' | he'
  · exact h.log e' he'
  · exact List.mem_singleton.1 he' ▸ he

theorem Within.of_leads (h : w.Within m layer) (hl : w.LeadsTo w') (hf : w'.Fits) :
    w'.Within m layer := by
  refine ⟨hf, ?_⟩
  obtain ⟨calls, hcalls⟩ := hl
  rw [hcalls]
  exact h.reachable.taken?_after h.entry calls

end World

/-! ## Every step keeps what a log says -/

section Fits

variable {σ : Type} {db : Option (Database σ)} {m : Method} {layer : Layer}

/-- Logs still fit after the further layers that a layer runs. -/
structure Calls.Fit (calls : Calls (Traced σ)) (m : Method) (layer : Layer) : Prop where
  lead : calls.Lead
  next : ∀ {rs args} {w : World (Traced σ)}, w.Within m layer → (calls.next rs args w).2.Fits
  call : ∀ {rs method args} {w : World (Traced σ)}, w.Within m layer →
    (calls.call rs method args w).2.Fits

/-- A step keeps the log and the entry of the running layer. -/
theorem Program.step_within {α : Type} {calls : Calls (Traced σ)} (h : calls.Fit m layer)
    {p q : Program Body α} {w v : World (Traced σ)}
    (hs : p.step (db.map Database.traced) calls w = some (q, v)) (hw : w.Within m layer) :
    v.Within m layer := by
  have hl : w.LeadsTo v := step_leads h.lead hs
  refine hw.of_leads hl ?_
  obtain hlog | ⟨rs, args, rfl⟩ | ⟨rs, method, args, rfl⟩ := step_log hs
  · exact hw.toFits.of_leads hl hlog
  · exact h.next hw
  · exact h.call hw

theorem Program.run_within {α : Type} {calls : Calls (Traced σ)} (h : calls.Fit m layer)
    (p : Program Body α) {w : World (Traced σ)} (hw : w.Within m layer) :
    (p.run (db.map Database.traced) calls w).2.Within m layer := by
  let db' := db.map Database.traced
  obtain ⟨result, v, hsteps⟩ := @exists_steps_done _ α db' calls p w
  have hwithin : ∀ {t}, Steps db' calls (p, w) t → t.2.Within m layer := by
    intro t ht
    induction ht with
    | refl => exact hw
    | tail _ hs ih => exact step_within h hs ih
  rw [hsteps.run_eq]
  exact hwithin hsteps

theorem handBack_fits {out : Result Value × World (Traced σ)} (h : out.2.Within m layer) :
    (handBack m layer out).2.Fits ∧
      ∀ value, (handBack m layer out).1 = .ok value →
        m.signature.returns.accepts value = true ∧
        (handBack m layer out).2.log.getLast? = some (.answers layer value) := by
  obtain ⟨cause, hout⟩ | ⟨value, hreturn, hout⟩ := handBack_cases m layer out
  · rw [hout]
    exact ⟨h.toFits, fun value h => by cases h⟩
  · have haccepts := Signature.checkReturn_ok.1 hreturn
    rw [hout]
    refine ⟨h.toFits.note ⟨_, h.entry, haccepts⟩, ?_⟩
    intro value h
    cases h
    exact ⟨haccepts, List.getLast?_concat⟩

theorem invokeTraced_leads (depth : Nat) (m : Method) (layer : Layer) (rs : RecordSet)
    (args : List Value) (w : World (Traced σ)) :
    w.LeadsTo (invokeTraced db depth m layer rs args w).2 := by
  have h : w.erase.LeadsTo (invoke db depth m layer rs args w.erase).2 := invoke_leads ..
  rw [← invokeTraced_erase] at h
  exact h

/-- What is noted of a layer and of those that it runs fits, and so does what it hands back. -/
theorem invokeTraced_fits (depth : Nat) {m : Method} {layer : Layer} (rs : RecordSet)
    (args : List Value) {w : World (Traced σ)} (hw : w.Within m layer) :
    (invokeTraced db depth m layer rs args w).2.Fits ∧
      ∀ value, (invokeTraced db depth m layer rs args w).1 = .ok value →
        m.signature.returns.accepts value = true ∧
        (invokeTraced db depth m layer rs args w).2.log.getLast? = some (.answers layer value) := by
  induction depth generalizing m layer rs args w with
  | zero => exact ⟨hw.toFits, fun value h => by cases h⟩
  | succ depth ih =>
    -- The layer below and any layer on top of a chain have an entry for their own method.
    have hcalls : (Calls.through (invokeTraced db depth) m layer.id).Fit m layer := by
      refine ⟨Calls.through_lead (invokeTraced_leads depth) m layer.id, ?_, ?_⟩
      · intro rs args w hw
        obtain ⟨cause, h⟩ | ⟨below, hbelow, h⟩ :=
          Calls.through_next (invokeTraced db depth) m layer.id rs args w
        · exact h ▸ hw.toFits
        · exact h ▸ (ih rs args ⟨hw.toFits, hw.reachable.taken?_below hw.entry hbelow⟩).1
      · intro rs method args w hw
        obtain ⟨cause, h⟩ | ⟨m', hm, h⟩ :=
          Calls.through_call (invokeTraced db depth) m layer.id rs method args w
        · exact h ▸ hw.toFits
        · exact h ▸ (ih rs args ⟨hw.toFits, hw.reachable.taken?_top hm⟩).1
    rw [invokeTraced]
    split
    · exact ⟨hw.toFits, fun value h => by cases h⟩
    · rename_i hargs
      have hnoted : (w.note (.runs layer args)).Within m layer :=
        ⟨hw.toFits.note ⟨_, hw.entry, Signature.checkArgs_ok_iff.1 hargs⟩, hw.entry⟩
      exact handBack_fits (Program.run_within hcalls _ hnoted)

theorem World.callTraced_fits (depth : Nat) (rs : RecordSet) (method : String) (args : List Value)
    {w : World σ} (hr : w.environment.registry.Reachable) :
    (w.callTraced depth db rs method args).2.Fits ∧
      ∀ m, w.environment.registry.lookup rs.model.name method = .ok m →
        ∀ value, (w.callTraced depth db rs method args).1 = .ok value →
          m.signature.returns.accepts value = true ∧
          (w.callTraced depth db rs method args).2.log.getLast? = some (.answers m.top value) := by
  have hstart : w.traced.Fits := ⟨hr, fun e he => by cases he⟩
  unfold callTraced
  cases hm : w.environment.registry.lookup rs.model.name method with
  | error cause => exact ⟨hstart, fun m h => by cases h⟩
  | ok m =>
    have hlog := @invokeTraced_fits σ db depth m m.top rs args _ ⟨hstart, hr.taken?_top hm⟩
    refine ⟨hlog.1, fun m' h => ?_⟩
    cases h
    exact hlog.2

end Fits

end RecordModel
