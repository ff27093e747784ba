import RecordModel.Environment.Basic
import RecordModel.Proofs.Catalog.Reachable
import RecordModel.Proofs.Method.History

/-!
# What an operation that succeeds has done

Each operation of an environment touches its catalog, its registry or the two flags. The
lemmas here say of every operation what it has found and what it has changed if it
succeeds; what refuses it follows from their conditions.

Results:
* `Catalog.has_of_declare`, `Catalog.has_of_register`: models are only ever added.
* `Environment.bootstrap_cases`: a bootstrap freezes both parts or finds them frozen.
* `Environment.declareMethod_registry`, `Environment.bootstrap_registry`: the registry
  changes by its calls.
-/
namespace RecordModel

/-! ## Catalogs grow -/

namespace Catalog

theorem has_of_declare {c c' : Catalog} {m : Model} (h : c.declare m = .ok c') {name : String}
    (hn : c.has name = true) : c'.has name = true := by
  obtain ⟨-, -, -, hmodels⟩ := declare_ok h
  rw [has_iff, hmodels, List.map_append]
  exact List.mem_append_left _ (has_iff.1 hn)

theorem has_of_declareAll {ms : List Model} {c c' : Catalog}
    (h : ms.foldlM Catalog.declare c = .ok c') {name : String} (hn : c.has name = true) :
    c'.has name = true := by
  induction ms generalizing c with
  | nil => cases h; exact hn
  | cons m ms ih =>
    rw [List.foldlM_cons] at h
    obtain ⟨c1, hm, h⟩ := bind_eq_ok.1 h
    exact ih h (has_of_declare hm hn)

theorem has_of_register {d : Definition} {c c' : Catalog} (h : d.register c = .ok c')
    {name : String} (hn : c.has name = true) : c'.has name = true := by
  cases hb : d.build c with
  | error e => simp only [Definition.register, hb] at h; cases h
  | ok models =>
    rw [Definition.register_eq hb] at h
    exact has_of_declareAll h hn

end Catalog

namespace Environment

variable {e e' : Environment}

/-! ## Models -/

theorem declareModel_ok {m : Model} (h : e.declareModel m = .ok e') :
    e.frozen = false ∧ ∃ c, e.catalog.declare m = .ok c ∧ e' = { e with catalog := c } := by
  unfold declareModel at h
  split at h
  · cases h
  · rename_i hf
    obtain ⟨c, hc, h⟩ := bind_eq_ok.1 h
    cases h
    exact ⟨by simpa using hf, c, hc, rfl⟩

theorem declareModels_ok {d : Definition} (h : e.declareModels d = .ok e') :
    e.frozen = false ∧ ∃ c, d.register e.catalog = .ok c ∧ e' = { e with catalog := c } := by
  unfold declareModels at h
  split at h
  · cases h
  · rename_i hf
    obtain ⟨c, hc, h⟩ := bind_eq_ok.1 h
    cases h
    exact ⟨by simpa using hf, c, hc, rfl⟩

/-! ## Methods -/

theorem checkModel_ok {model : String} (h : e.checkModel model = .ok ()) :
    e.catalog.has model = true := by
  unfold checkModel check at h
  split at h
  · assumption
  · cases h

theorem register_ok {model method : String} {signature : Signature} {body : Body} {id : LayerId}
    (h : e.register model method signature body = .ok (id, e')) :
    ∃ registry, e.registry.declare model method signature body = (.ok id, registry) ∧
      e' = { e with registry } := by
  unfold register at h
  split at h
  · rename_i id' registry hd
    cases h
    exact ⟨registry, hd, rfl⟩
  · cases h

theorem declareMethod_ok {model method : String} {signature : Signature} {body : Body} {id : LayerId}
    (h : e.declareMethod model method signature body = .ok (id, e')) :
    e.catalog.has model = true ∧ e.register model method signature body = .ok (id, e') := by
  obtain ⟨u, hcheck, h⟩ := bind_eq_ok.1 h
  exact ⟨checkModel_ok hcheck, h⟩

/-! ## Bootstrap -/

theorem freezeCatalog_ok (h : e.freezeCatalog = .ok e') :
    e.catalog.validate = .ok () ∧ e' = { e with frozen := true } := by
  obtain ⟨u, hv, h⟩ := bind_eq_ok.1 h
  cases h
  exact ⟨hv, rfl⟩

theorem bootstrap_cases (h : e.bootstrap = .ok e') :
    e.frozen = true ∧ e' = e ∨
      e.frozen = false ∧ ∃ f, e.freezeCatalog = .ok f ∧ e' = f.freezeRegistry := by
  unfold bootstrap at h
  split at h
  · rename_i hf
    cases h
    exact .inl ⟨hf, rfl⟩
  · rename_i hf
    obtain ⟨f, hc, h⟩ := bind_eq_ok.1 h
    cases h
    exact .inr ⟨by simpa using hf, f, hc, rfl⟩

/-! ## Operations and the calls of the registry -/

theorem declareMethod_registry {model method : String} {signature : Signature} {body : Body}
    {id : LayerId} (h : e.declareMethod model method signature body = .ok (id, e')) :
    e'.registry = e.registry.after [.declare model method signature body] := by
  obtain ⟨registry, hd, rfl⟩ := register_ok (declareMethod_ok h).2
  simp only [Registry.after, List.foldl_cons, List.foldl_nil, Registry.answer, hd]

theorem bootstrap_registry (h : e.bootstrap = .ok e') :
    ∃ calls, e'.registry = e.registry.after calls := by
  obtain ⟨-, rfl⟩ | ⟨-, f, hf, rfl⟩ := bootstrap_cases h
  · exact ⟨[], rfl⟩
  · obtain ⟨-, rfl⟩ := freezeCatalog_ok hf
    exact ⟨[.bootstrap], rfl⟩

end Environment

end RecordModel
