import RecordModel.Proofs.Environment.Interleaving

/-!
# Catalogs that grow

Whatever the callers of an environment do, models are only ever added to its catalog, each behind
those that are there. So a model that was found once is found from then on.

Results:
* `Catalog.Extends.getModel`: a model stays what it is.
* `Environment.Step.extends`, `Environment.Run.extends`: one section, and any sections, of any
  callers extend the catalog.
-/
namespace RecordModel

/-- A catalog that comes of another by declaring models. -/
structure Catalog.Extends (c c' : Catalog) : Prop where
  reachable : c.Reachable → c'.Reachable
  models : c.models <+: c'.models

namespace Catalog.Extends

variable {c c' : Catalog}

theorem refl (c : Catalog) : c.Extends c := ⟨id, List.prefix_refl _⟩

theorem trans {c'' : Catalog} (h : c.Extends c') (h' : c'.Extends c'') : c.Extends c'' :=
  ⟨h'.reachable ∘ h.reachable, h.models.trans h'.models⟩

theorem declare {m : Model} (h : c.declare m = .ok c') : c.Extends c' where
  reachable hc := .declare hc h
  models := by
    obtain ⟨-, -, -, hmodels⟩ := declare_ok h
    exact ⟨[m], hmodels.symm⟩

theorem register {d : Definition} (h : d.register c = .ok c') : c.Extends c' where
  reachable hc := .register hc h
  models := by
    cases hb : d.build c with
    | error e =>
      simp only [Definition.register, hb] at h
      cases h
    | ok models =>
      rw [Definition.register_eq hb] at h
      exact foldlM_keeps (P := fun c' => c.models <+: c'.models)
        (fun _ _ _ hs hd => hs.trans (Extends.declare hd).models) (List.prefix_refl _) h

/-- A model stays what it is. -/
theorem getModel (h : c.Extends c') {name : String} {m : Model} (hm : c.getModel name = .ok m) :
    c'.getModel name = .ok m := by
  obtain ⟨models, hmodels⟩ := h.models
  rw [getModel_eq_ok] at hm ⊢
  rw [model?, ← hmodels, List.find?_append]
  rw [model?] at hm
  rw [hm]
  rfl

end Catalog.Extends

/-! ## Sections -/

namespace Environment

theorem enter_extends (e : Environment) (op : Operation) :
    e.catalog.Extends (e.enter op).2.catalog := by
  cases op with
  | declareModel m =>
    rw [enter]
    cases h : e.declareModel m with
    | error cause => exact .refl _
    | ok e' =>
      obtain ⟨-, c, hc, rfl⟩ := declareModel_ok h
      exact .declare hc
  | declareModels d =>
    rw [enter]
    cases h : e.declareModels d with
    | error cause => exact .refl _
    | ok e' =>
      obtain ⟨-, c, hc, rfl⟩ := declareModels_ok h
      exact .register hc
  | declareMethod r =>
    rw [enter]
    cases e.checkModel r.model <;> exact .refl _
  | bootstrap =>
    rw [enter]
    split
    · exact .refl _
    · cases h : e.freezeCatalog with
      | error cause => exact .refl _
      | ok e' =>
        obtain ⟨-, rfl⟩ := freezeCatalog_ok h
        exact .refl _

theorem enroll_catalog (e : Environment) (r : Registration) :
    (e.enroll r).2.catalog = e.catalog := by
  obtain ⟨cause, h⟩ | ⟨-, id, registry, h, -⟩ := e.enroll_cases r <;> rw [h]

section

variable {ι : Type} [DecidableEq ι] {s t : State ι}

theorem State.entered_environment (s : State ι) (i : ι) (p : Progress × Environment) :
    (s.entered i p).environment = p.2 := by
  obtain ⟨progress, e⟩ := p
  cases progress <;> rfl

/-- One section adds models, if it changes the catalog at all. -/
theorem Step.extends {sec : Section ι} (h : Step s sec t) :
    s.environment.catalog.Extends t.environment.catalog := by
  cases h with
  | enter op _ _ =>
    rw [State.entered_environment]
    exact s.environment.enter_extends op
  | enroll _ =>
    have hcatalog := s.environment.enroll_catalog
    simp only [hcatalog]
    exact .refl _
  | freeze _ => exact .refl _

/-- So do any sections of any callers. -/
theorem Run.extends {history : List (Section ι)} (h : Run s history t) :
    s.environment.catalog.Extends t.environment.catalog := by
  induction h with
  | refl => exact .refl _
  | step _ hstep ih => exact ih.trans hstep.extends
  | reserve n _ ih => exact ih

end

end Environment

end RecordModel
