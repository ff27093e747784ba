import Mathlib.Logic.Relation
import RecordModel.Catalog.Order
import RecordModel.Proofs.Catalog.Reachable

/-!
# Targets before the models that point at them

The dependency order of a catalog holds every model once. A model that another one points
at comes first, unless a chain of relations leads from it back to the other one. The
relations may form any graph: a search that meets a model which is still being visited
passes it over, and this happens only where such a chain exists.

Results:
* `Catalog.visit_finished`: what one visit adds to the finished models.
* `Catalog.dependencyOrder_finished`: the whole search gives every model once.
* `Catalog.dependencyOrder_targets_first`: the order of the models.
-/
namespace RecordModel

namespace Catalog

/-- A relation of the model `a` points at `b`. -/
def PointsAt (c : Catalog) (a b : String) : Prop := ∃ m, c.model? a = some m ∧ b ∈ m.targets

/-- A chain of relations leads from `a` to `b`. -/
def Reaches (c : Catalog) : String → String → Prop := Relation.TransGen c.PointsAt

/-- Wherever a model stands, its targets stand in front of it or lead back to it. -/
def TargetsFirst (c : Catalog) (order : List Model) : Prop :=
  ∀ front m back, order = front ++ m :: back → ∀ target ∈ m.targets, target ≠ m.name →
    target ∈ front.map Model.name ∨ c.Reaches target m.name

/-- What holds of the models that are finished at any time of the search. -/
structure Finished (c : Catalog) (done : List Model) : Prop where
  declared : ∀ m ∈ done, m ∈ c.models
  names_nodup : (done.map Model.name).Nodup
  targetsFirst : c.TargetsFirst done

/-- The models `done'` are those of `done` and further ones that are not on a path. -/
def Adds (path : List String) (done done' : List Model) : Prop :=
  ∃ added, done' = done ++ added ∧ ∀ m ∈ added, m.name ∉ path

variable {c : Catalog}

/-! ## The parts of a visit -/

theorem mem_successors {m : Model} {target : String} :
    target ∈ successors m ↔ target ∈ m.targets ∧ target ≠ m.name := by
  simp [successors, sortNames, List.mem_eraseDups, List.mem_mergeSort]

theorem TargetsFirst.snoc {done : List Model} (h : c.TargetsFirst done) {m : Model}
    (hm : ∀ target ∈ m.targets, target ≠ m.name →
      target ∈ done.map Model.name ∨ c.Reaches target m.name) :
    c.TargetsFirst (done ++ [m]) := by
  intro front o back he
  rcases List.eq_nil_or_concat back with rfl | ⟨back, last, rfl⟩
  · obtain ⟨rfl, h⟩ := List.append_inj' he rfl
    cases h
    exact hm
  · rw [List.concat_eq_append, ← List.cons_append, ← List.append_assoc] at he
    exact h front o back (List.append_inj' he rfl).1

theorem Finished.empty : c.Finished [] where
  declared m hm := (List.not_mem_nil hm).elim
  names_nodup := List.nodup_nil
  targetsFirst front m back h := by simp at h

theorem Finished.snoc {done : List Model} (h : c.Finished done) {m : Model} (hm : m ∈ c.models)
    (hnew : m.name ∉ done.map Model.name)
    (htargets : ∀ target ∈ m.targets, target ≠ m.name →
      target ∈ done.map Model.name ∨ c.Reaches target m.name) :
    c.Finished (done ++ [m]) where
  declared o ho := by
    rcases List.mem_append.1 ho with ho | ho
    · exact h.declared o ho
    · rw [List.mem_singleton.1 ho]; exact hm
  names_nodup := by
    rw [List.map_append, List.map_singleton, List.nodup_append]
    refine ⟨h.names_nodup, List.nodup_singleton _, ?_⟩
    intro a ha b hb hab
    rw [List.mem_singleton.1 hb] at hab
    exact hnew (hab ▸ ha)
  targetsFirst := h.targetsFirst.snoc htargets

theorem Adds.refl (path : List String) (done : List Model) : Adds path done done :=
  ⟨[], by simp⟩

theorem Adds.trans {path : List String} {d1 d2 d3 : List Model} (h1 : Adds path d1 d2)
    (h2 : Adds path d2 d3) : Adds path d1 d3 := by
  obtain ⟨a, rfl, ha⟩ := h1
  obtain ⟨b, rfl, hb⟩ := h2
  refine ⟨a ++ b, List.append_assoc .., ?_⟩
  intro m hm
  exact (List.mem_append.1 hm).elim (ha m) (hb m)

theorem Adds.mem {path : List String} {done done' : List Model} (h : Adds path done done')
    {name : String} (hn : name ∈ done.map Model.name) : name ∈ done'.map Model.name := by
  obtain ⟨added, rfl, -⟩ := h
  rw [List.map_append]
  exact List.mem_append_left _ hn

/-- A name on the path that is not finished is not finished afterwards. -/
theorem Adds.not_mem {path : List String} {done done' : List Model} (h : Adds path done done')
    {name : String} (hp : name ∈ path) (hn : name ∉ done.map Model.name) :
    name ∉ done'.map Model.name := by
  obtain ⟨added, rfl, hadded⟩ := h
  rw [List.map_append, List.mem_append]
  rintro (h | h)
  · exact hn h
  · obtain ⟨m, hm, rfl⟩ := List.mem_map.1 h
    exact hadded m hm hp

/-! ## The search -/

/-- What a visit of the models `names` along a path has done when it ends in `done'`: they
are all finished or on the path. -/
structure Visited (c : Catalog) (path : List String) (done : List Model) (names : List String)
    (done' : List Model) : Prop where
  finished : c.Finished done'
  adds : Adds path done done'
  covered : ∀ name ∈ names, name ∈ path ∨ name ∈ done'.map Model.name

/-- Visits one after the other, if each by itself goes well. -/
theorem visitAll_finished {path names : List String}
    (h : ∀ name ∈ names, ∀ done, c.Finished done →
      ∃ done', c.visit path done name = .ok done' ∧ c.Visited path done [name] done')
    {done : List Model} (hdone : c.Finished done) :
    ∃ done', names.foldlM (fun done name => c.visit path done name) done = .ok done' ∧
      c.Visited path done names done' := by
  induction names generalizing done with
  | nil => exact ⟨done, rfl, hdone, .refl path done, by simp⟩
  | cons name names ih =>
    obtain ⟨d1, hrun, hv⟩ := h name (by simp) done hdone
    obtain ⟨d2, hrest, hv2⟩ := ih (fun n hn => h n (by simp [hn])) hv.finished
    refine ⟨d2, ?_, hv2.finished, hv.adds.trans hv2.adds, ?_⟩
    · rw [List.foldlM_cons, hrun]
      exact hrest
    · intro n hn
      rcases List.mem_cons.1 hn with rfl | hn
      · exact (hv.covered n (by simp)).imp id hv2.adds.mem
      · exact hv2.covered n hn

/-- A visit of a declared model along a path that leads to it ends well. The path is what
lets a model be passed over: whoever stands on it reaches the model that is visited. -/
theorem visit_finished (hclosed : c.Closed) {path : List String} {done : List Model}
    {name : String} (hname : c.has name = true) (hpath : ∀ p ∈ path, c.Reaches p name)
    (hdone : c.Finished done) :
    ∃ done', c.visit path done name = .ok done' ∧ c.Visited path done [name] done' := by
  induction hn : (c.unentered path).length using Nat.strongRecOn generalizing path done name with
  | ind n ih =>
    rw [visit]
    split
    · rename_i hold
      refine ⟨done, rfl, hdone, .refl path done, ?_⟩
      intro o ho
      right
      simpa [List.mem_singleton.1 ho] using hold
    split
    · rename_i hold hp
      refine ⟨done, rfl, hdone, .refl path done, ?_⟩
      intro o ho
      exact .inl (List.mem_singleton.1 ho ▸ hp)
    rename_i hold hp
    obtain ⟨m, hsome⟩ := Option.isSome_iff_exists.1 hname
    obtain ⟨rfl, hmem⟩ := model?_name hsome
    split
    · rename_i cause hm
      rw [getModel_eq_ok.2 hsome] at hm
      cases hm
    rename_i o ho
    cases (getModel_eq_ok.2 hsome).symm.trans ho
    have hsearch : ∀ target ∈ successors m, ∀ d, c.Finished d → ∃ d',
        c.visit (m.name :: path) d target = .ok d' ∧ c.Visited (m.name :: path) d [target] d' := by
      intro target ht d hd
      obtain ⟨ht, -⟩ := mem_successors.1 ht
      have hpoints : c.PointsAt m.name target := ⟨m, hsome, ht⟩
      refine ih _ (hn ▸ unentered_cons ho hp) (hclosed m hmem target ht) ?_ hd rfl
      intro p hpp
      rcases List.mem_cons.1 hpp with rfl | hpp
      · exact .single hpoints
      · exact (hpath p hpp).tail hpoints
    obtain ⟨done', hrun, hv⟩ := visitAll_finished hsearch hdone
    have hnew : m.name ∉ done'.map Model.name :=
      hv.adds.not_mem (by simp) (by simpa using hold)
    refine ⟨done' ++ [m], by rw [hrun]; rfl, ?_, ?_, ?_⟩
    · refine hv.finished.snoc hmem hnew ?_
      intro target ht hne
      rcases hv.covered target (mem_successors.2 ⟨ht, hne⟩) with hin | hin
      · rcases List.mem_cons.1 hin with h | hin
        · exact absurd h hne
        · exact .inr (hpath target hin)
      · exact .inl hin
    · obtain ⟨added, rfl, hadded⟩ := hv.adds
      refine ⟨added ++ [m], List.append_assoc .., ?_⟩
      intro o ho
      rcases List.mem_append.1 ho with ho | ho
      · exact fun hop => hadded o ho (by simp [hop])
      · rw [List.mem_singleton.1 ho]; exact hp
    · intro o ho
      simp [List.mem_singleton.1 ho]

/-- The search ends without an error, and gives every model exactly once. -/
theorem dependencyOrder_finished (hnames : (c.models.map Model.name).Nodup)
    (hclosed : c.Closed) :
    ∃ order, c.dependencyOrder = .ok order ∧ order.Perm c.models ∧ c.Finished order := by
  have hvisit : ∀ name ∈ c.names, ∀ done, c.Finished done →
      ∃ done', c.visit [] done name = .ok done' ∧ c.Visited [] done [name] done' :=
    fun name hn done hd => visit_finished hclosed (mem_names.1 hn) (by simp) hd
  obtain ⟨order, hrun, hv⟩ := visitAll_finished hvisit .empty
  refine ⟨order, hrun, ?_, hv.finished⟩
  refine (List.perm_ext_iff_of_nodup (.of_map _ hv.finished.names_nodup) (.of_map _ hnames)).2 ?_
  intro m
  refine ⟨hv.finished.declared m, fun hm => ?_⟩
  have hname : m.name ∈ c.names := mem_names.2 (has_iff.2 (List.mem_map_of_mem hm))
  obtain ⟨o, ho, he⟩ := List.mem_map.1 ((hv.covered m.name hname).resolve_left (by simp))
  exact List.inj_on_of_nodup_map hnames (hv.finished.declared o ho) hm he ▸ ho

theorem dependencyOrder_single {m : Model} (hclosed : Catalog.Closed ⟨[m]⟩) :
    Catalog.dependencyOrder ⟨[m]⟩ = .ok [m] := by
  have hnames : ([m].map Model.name).Nodup := List.nodup_singleton m.name
  obtain ⟨order, hrun, hperm, -⟩ := dependencyOrder_finished hnames hclosed
  rw [hrun, List.perm_singleton.1 hperm]

/-- The search over a catalog whose relations all have a declared target ends without an
error and gives every model exactly once, and the target of a relation stands in front of
the model that points at it unless it reaches that model back. -/
theorem dependencyOrder_targets_first (hnames : (c.models.map Model.name).Nodup)
    (hclosed : c.Closed) :
    ∃ order, c.dependencyOrder = .ok order ∧ order.Perm c.models ∧
      ∀ front m back, order = front ++ m :: back → ∀ target ∈ m.targets, target ≠ m.name →
        ¬ c.Reaches target m.name → target ∈ front.map Model.name := by
  obtain ⟨order, hrun, hperm, hfinished⟩ := dependencyOrder_finished hnames hclosed
  refine ⟨order, hrun, hperm, ?_⟩
  intro front m back he target ht hne hback
  exact (hfinished.targetsFirst front m back he target ht hne).resolve_right hback

/-- Articles and their authors point at each other, sections at sections. -/
def newsroom : Catalog := ⟨[
  (Model.new "Comment").withField (.relation "article" "Article"),
  ((Model.new "Article").withField (.relation "author" "Author")).withField
    (.relation "section" "Section"),
  (Model.new "Author").withField (.relation "favourite" "Article"),
  (Model.new "Section").withField (.relation "parent" "Section")]⟩

/-- Articles come before comments, which nothing points at. -/
theorem newsroom_order : (newsroom.models.map Model.name).Nodup ∧ newsroom.Closed ∧
    ∃ order, newsroom.dependencyOrder = .ok order ∧ order.Perm newsroom.models ∧
      ∀ front m back, order = front ++ m :: back → m.name = "Comment" →
        "Article" ∈ front.map Model.name := by
  have hnames : (newsroom.models.map Model.name).Nodup := by decide
  have hclosed : newsroom.Closed := by unfold Closed; decide
  have htargets : ∀ m ∈ newsroom.models, m.name = "Comment" → "Article" ∈ m.targets := by decide
  have hback : ¬ newsroom.Reaches "Article" "Comment" := by
    intro h
    obtain ⟨name, -, m, hm, ht⟩ := Relation.TransGen.tail'_iff.1 h
    have hnone : ∀ m ∈ newsroom.models, "Comment" ∉ m.targets := by decide
    exact hnone m (model?_name hm).2 ht
  obtain ⟨order, hrun, hperm, hfirst⟩ := dependencyOrder_targets_first hnames hclosed
  refine ⟨hnames, hclosed, order, hrun, hperm, ?_⟩
  intro front m back he hm
  have hmem : m ∈ newsroom.models := hperm.mem_iff.1 (by simp [he])
  exact hfirst front m back he "Article" (htargets m hmem hm) (by simp [hm]) (by rwa [hm])

end Catalog

end RecordModel
