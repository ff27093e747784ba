import Mathlib.Data.List.Nodup
import RecordModel.Catalog.Definition

/-!
# Reachable catalogs

A catalog is only ever built from the empty one, by declaring models and by registering
definitions. `Catalog.Reachable` is every catalog that comes about so, in any order of
steps; a step that fails gives no catalog and is not a step here. What the check of a model
ensures (`Model.WellFormed`) and what a declaration ensures of the whole catalog
(`Catalog.WellFormed`) therefore hold in every reachable one.

Results:
* `Catalog.Reachable.wellFormed`: the models of a reachable catalog are well formed, and
  no two of them share a name or a table.
* `Model.WellFormed.getField_name`: a field of a well-formed model is found by its name.
* `Catalog.validate_iff_closed`: the check of the relations passes exactly if every
  relation has a declared target.
-/
namespace RecordModel

/-! ## Steps that succeed -/

theorem bind_eq_ok {ε α β : Type} {x : Except ε α} {f : α → Except ε β} {b : β} :
    (x >>= f) = .ok b ↔ ∃ a, x = .ok a ∧ f a = .ok b := by
  cases x with
  | error e =>
    constructor
    · intro h; cases h
    · rintro ⟨a, h, -⟩; cases h
  | ok a =>
    constructor
    · intro h; exact ⟨a, rfl, h⟩
    · rintro ⟨a', h, h'⟩; cases h; exact h'

theorem map_eq_ok {ε α β : Type} {x : Except ε α} {f : α → β} {b : β} :
    x.map f = .ok b ↔ ∃ a, x = .ok a ∧ f a = b := by
  cases x <;> simp [Except.map]

theorem mapM_eq_ok {α β : Type} {f : α → Result β} {g : α → β} {xs : List α}
    (h : ∀ x ∈ xs, f x = .ok (g x)) : xs.mapM f = .ok (xs.map g) := by
  induction xs with
  | nil => rfl
  | cons x xs ih =>
    rw [List.mapM_cons, h x (by simp), ih fun y hy => h y (by simp [hy])]
    rfl

/-- What every step keeps holds after all of them. -/
theorem foldlM_keeps {ε σ α : Type} {step : σ → α → Except ε σ} {P : σ → Prop}
    (hstep : ∀ s a s', P s → step s a = .ok s' → P s') {xs : List α} {s s' : σ} (hs : P s)
    (hrun : xs.foldlM step s = .ok s') : P s' := by
  induction xs generalizing s with
  | nil => cases hrun; exact hs
  | cons x xs ih =>
    rw [List.foldlM_cons] at hrun
    obtain ⟨s₁, hone, hrest⟩ := bind_eq_ok.1 hrun
    exact ih (hstep s x s₁ hs hone) hrest

/-! ## Identifiers -/

theorem isNameChar_of_isIdentifier {name : String} (h : isIdentifier name = true) :
    ∀ c ∈ name.toList, isNameChar c = true := by
  unfold isIdentifier at h
  cases hn : name.toList with
  | nil => simp
  | cons c rest =>
    rw [hn, isIdentifier_cons] at h
    intro d hd
    rcases List.mem_cons.1 hd with rfl | hd
    · have hstart := h.1
      unfold isNameStart at hstart
      unfold isNameChar Char.isAlphanum
      rw [Bool.or_right_comm, hstart, Bool.true_or]
    · exact h.2 d hd

theorem isEmpty_of_isIdentifier {name : String} (h : isIdentifier name = true) :
    name.isEmpty = false := by
  cases hn : name.isEmpty with
  | false => rfl
  | true =>
    rw [String.isEmpty_iff.1 hn] at h
    cases h

/-! ## Models -/

/-- What `Model.check` ensures. -/
structure Model.WellFormed (m : Model) : Prop where
  table : isIdentifier m.table = true
  identifiers : ∀ f ∈ m.fields, isIdentifier f.name = true ∧ isIdentifier f.column = true
  names_nodup : (m.fields.map Field.name).Nodup
  columns_nodup : (m.fields.map Field.column).Nodup
  keepsId : m.keepsId = true

theorem Model.check_ok {m : Model} (h : m.check = .ok ()) : m.WellFormed := by
  unfold Model.check at h
  by_cases ht : isIdentifier m.table = true
  · simp only [ht, Bool.not_true, Bool.false_eq_true, if_false] at h
    cases hf : checkFields m.name [] [] m.fields with
    | error e => rw [hf] at h; cases h
    | ok u =>
      rw [hf] at h
      by_cases hk : m.keepsId = true
      · obtain ⟨hid, hnames, hcolumns, -⟩ := checkFields_ok hf
        exact ⟨ht, hid, hnames, hcolumns, hk⟩
      · simp only [bind, Except.bind, pure, Except.pure, hk] at h
        cases h
  · simp only [ht] at h
    cases h

namespace Model

theorem field?_mem {m : Model} {name : String} {f : Field} (h : m.field? name = some f) :
    f ∈ m.fields := by
  unfold field? at h
  split at h
  · rename_i g hg
    cases h
    exact List.mem_of_find?_eq_some hg
  · exact List.mem_of_find?_eq_some h

theorem getField_ok {m : Model} {name : String} {f : Field} :
    m.getField name = .ok f ↔ m.field? name = some f := by
  unfold getField
  split
  · rename_i g hg; simp [hg]
  · rename_i hg; simp [hg]

theorem getField_mem {m : Model} {name : String} {f : Field} (h : m.getField name = .ok f) :
    f ∈ m.fields :=
  field?_mem (getField_ok.1 h)

namespace WellFormed

variable {m : Model} (h : m.WellFormed)

include h in
theorem getField_name {f : Field} (hf : f ∈ m.fields) : m.getField f.name = .ok f := by
  rw [getField_ok]
  unfold field?
  cases hg : m.fields.find? fun g => g.name = f.name with
  | none => exact absurd hf fun hf => by simpa using List.find?_eq_none.1 hg f hf
  | some g =>
    have hname : g.name = f.name := by simpa using List.find?_some hg
    have hmem := List.mem_of_find?_eq_some hg
    exact congrArg some (List.inj_on_of_nodup_map h.names_nodup hmem hf hname)

include h in
/-- The key is found under its name. -/
theorem getField_id :
    ∃ f, m.getField idField = .ok f ∧ f.column = idField ∧ f.isRelation = false := by
  have hk := h.keepsId
  unfold Model.keepsId at hk
  split at hk
  · rename_i f hf
    simp only [Bool.and_eq_true, beq_iff_eq, Bool.not_eq_true'] at hk
    exact ⟨f, getField_ok.2 hf, hk.1, hk.2⟩
  · cases hk

end WellFormed

end Model

/-! ## Catalogs -/

/-- What declaring models one by one ensures. -/
structure Catalog.WellFormed (c : Catalog) : Prop where
  models : ∀ m ∈ c.models, m.WellFormed
  names_nodup : (c.models.map Model.name).Nodup
  tables_nodup : (c.models.map Model.table).Nodup

namespace Catalog

/-- The catalogs that declarations and definitions lead to from the empty one. -/
inductive Reachable : Catalog → Prop where
  | empty : Reachable .empty
  | declare {c c' : Catalog} {m : Model} : Reachable c → c.declare m = .ok c' → Reachable c'
  | register {c c' : Catalog} {d : Definition} : Reachable c → d.register c = .ok c' → Reachable c'

theorem WellFormed.empty : Catalog.empty.WellFormed :=
  ⟨fun _ h => (List.not_mem_nil h).elim, List.nodup_nil, List.nodup_nil⟩

theorem has_eq_false {c : Catalog} {name : String} (h : c.has name = false) {m : Model}
    (hm : m ∈ c.models) : m.name ≠ name := by
  intro he
  have hn : c.model? name = none := by simpa [has] using h
  exact absurd he (by simpa using List.find?_eq_none.1 hn m hm)

theorem WellFormed.declare {c c' : Catalog} {m : Model} (h : c.WellFormed)
    (hd : c.declare m = .ok c') : c'.WellFormed := by
  obtain ⟨hcheck, hname, htable, hmodels⟩ := declare_ok hd
  refine ⟨?_, ?_, ?_⟩
  · intro o ho
    rw [hmodels] at ho
    rcases List.mem_append.1 ho with ho | ho
    · exact h.models o ho
    · rw [List.mem_singleton.1 ho]
      exact Model.check_ok hcheck
  · rw [hmodels, List.map_append, List.map_singleton]
    refine List.nodup_append.2 ⟨h.names_nodup, List.nodup_singleton _, ?_⟩
    intro n hn k hk
    obtain ⟨o, ho, rfl⟩ := List.mem_map.1 hn
    rw [List.mem_singleton.1 hk]
    exact has_eq_false hname ho
  · rw [hmodels, List.map_append, List.map_singleton]
    refine List.nodup_append.2 ⟨h.tables_nodup, List.nodup_singleton _, ?_⟩
    intro t ht k hk
    obtain ⟨o, ho, rfl⟩ := List.mem_map.1 ht
    rw [List.mem_singleton.1 hk]
    exact htable o ho

theorem WellFormed.declareAll {ms : List Model} {c c' : Catalog} (h : c.WellFormed)
    (hd : ms.foldlM Catalog.declare c = .ok c') : c'.WellFormed :=
  foldlM_keeps (P := Catalog.WellFormed) (fun _ _ _ h hd => h.declare hd) h hd

theorem WellFormed.register {d : Definition} {c c' : Catalog} (h : c.WellFormed)
    (hd : d.register c = .ok c') : c'.WellFormed := by
  cases hb : d.build c with
  | error e => simp only [Definition.register, hb] at hd; cases hd
  | ok models =>
    rw [Definition.register_eq hb] at hd
    exact h.declareAll hd

theorem Reachable.wellFormed {c : Catalog} (h : c.Reachable) : c.WellFormed := by
  induction h with
  | empty => exact .empty
  | declare _ hd ih => exact ih.declare hd
  | register _ hd ih => exact ih.register hd

theorem getModel_mem {c : Catalog} {name : String} {m : Model} (h : c.getModel name = .ok m) :
    m ∈ c.models := by
  unfold getModel at h
  split at h
  · rename_i m' hm; cases h; exact (model?_name hm).2
  · cases h

theorem related_mem {c : Catalog} {f : Field} {m : Model} (h : c.related f = .ok m) :
    m ∈ c.models := by
  unfold related at h
  split at h
  · exact getModel_mem h
  · cases h

theorem isRelation_of_related {c : Catalog} {f : Field} {m : Model} (h : c.related f = .ok m) :
    f.isRelation = true := by
  unfold related Field.target? at h
  unfold Field.isRelation
  split at h
  · split at *
    · rfl
    · contradiction
  · cases h

/-! ## Relation targets -/

/-- Every relation points at a declared model. -/
def Closed (c : Catalog) : Prop := ∀ m ∈ c.models, ∀ target ∈ m.targets, c.has target = true

theorem has_iff {c : Catalog} {name : String} : c.has name = true ↔ name ∈ c.models.map Model.name := by
  simp [has, model?]

theorem mem_names {c : Catalog} {name : String} : name ∈ c.names ↔ c.has name = true := by
  rw [has_iff, names, sortNames, List.mem_mergeSort]

theorem getModel_eq_ok {c : Catalog} {name : String} {m : Model} :
    c.getModel name = .ok m ↔ c.model? name = some m := by
  unfold getModel
  split
  · rename_i o ho; simp [ho]
  · rename_i ho; simp [ho]

theorem mem_targets {m : Model} {target : String} :
    target ∈ m.targets ↔ ∃ f ∈ m.fields, f.target? = some target := by
  simp [Model.targets]

theorem model?_eq_some_of_mem {c : Catalog} (hnames : (c.models.map Model.name).Nodup) {m : Model}
    (hm : m ∈ c.models) : c.model? m.name = some m := by
  obtain ⟨o, ho⟩ := Option.isSome_iff_exists.1 (has_iff.2 (List.mem_map_of_mem hm))
  obtain ⟨hname, hmem⟩ := model?_name ho
  rw [ho, List.inj_on_of_nodup_map hnames hmem hm hname]

theorem mem_sorted {c : Catalog} (hnames : (c.models.map Model.name).Nodup) {m : Model} :
    m ∈ c.sorted ↔ m ∈ c.models := by
  rw [sorted, List.mem_filterMap]
  constructor
  · rintro ⟨name, -, h⟩
    exact (model?_name h).2
  · intro hm
    have h := model?_eq_some_of_mem hnames hm
    exact ⟨m.name, mem_names.2 (by rw [has, h]; rfl), h⟩

theorem danglingRelation?_eq_none {c : Catalog} {m : Model} :
    c.danglingRelation? m = none ↔ ∀ target ∈ m.targets, c.has target = true := by
  simp only [danglingRelation?, List.findSome?_eq_none_iff, mem_targets]
  constructor
  · rintro h target ⟨f, hf, ht⟩
    have hf := h f hf
    rw [ht] at hf
    by_contra hn
    simp [hn] at hf
  · intro h f hf
    cases ht : f.target? with
    | none => rfl
    | some target => simp [h target ⟨f, hf, ht⟩]

/-- The check of the relations says whether all have their target. -/
theorem validate_iff_closed {c : Catalog} (hnames : (c.models.map Model.name).Nodup) :
    c.validate = .ok () ↔ c.Closed := by
  have hnone : c.sorted.findSome? c.danglingRelation? = none ↔ c.Closed := by
    simp only [List.findSome?_eq_none_iff, danglingRelation?_eq_none, mem_sorted hnames, Closed]
  rw [← hnone, validate]
  split
  · rename_i cause h; simp [h]
  · rename_i h; simp [h]

end Catalog

end RecordModel
