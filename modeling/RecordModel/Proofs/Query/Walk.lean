import Mathlib.Data.List.Infix
import RecordModel.Proofs.Catalog.Reachable
import RecordModel.Query.Join

/-!
# Walks through a catalog

A path follows relations, each to the model that it points at, and ends with a field of the
last model. `Follows c m hops last` says that `hops` lead from `m` to `last`. Every prefix of
the hops stands for one table of the FROM clause (`joinAt`), the empty one for the root table,
so that the tables of a path are those of the prefixes of its hops.

Results:
* `resolve_ok`: a path that is resolved follows hops, and joins the tables of their prefixes.
* `resolve_names`: in a well-formed catalog the names of hops and of a field are a path that
  is resolved to them.
-/
namespace RecordModel

/-- A relation that is followed, and the model it points at. -/
structure Hop where
  field : Field
  target : Model

/-- Hops that lead from one model to another. -/
inductive Follows (c : Catalog) : Model → List Hop → Model → Prop where
  | stay (m : Model) : Follows c m [] m
  | hop {m last : Model} {h : Hop} {rest : List Hop} : h.field ∈ m.fields →
    h.field.isRelation = true → c.related h.field = .ok h.target → Follows c h.target rest last →
      Follows c m (h :: rest) last

namespace Follows

variable {c : Catalog} {m mid last : Model} {hs hs' : List Hop} {h : Hop}

theorem append (h1 : Follows c m hs mid) (h2 : Follows c mid hs' last) :
    Follows c m (hs ++ hs') last := by
  induction h1 with
  | stay => exact h2
  | hop hf hr ht _ ih => exact .hop hf hr ht (ih h2)

theorem split (hw : Follows c m (hs ++ hs') last) :
    ∃ mid, Follows c m hs mid ∧ Follows c mid hs' last := by
  induction hs generalizing m with
  | nil => exact ⟨m, .stay m, hw⟩
  | cons h hs ih =>
    cases hw with
    | hop hf hr ht hrest =>
      obtain ⟨mid, h1, h2⟩ := ih hrest
      exact ⟨mid, .hop hf hr ht h1, h2⟩

theorem split_cons (hw : Follows c m (h :: hs) last) :
    ∃ mid, Follows c m [h] mid ∧ Follows c mid hs last := by
  rw [← List.singleton_append] at hw
  exact hw.split

theorem target_eq (hw : Follows c m [h] last) : last = h.target := by
  cases hw with
  | hop _ _ _ hstay => cases hstay; rfl

theorem unique (h1 : Follows c m hs mid) (h2 : Follows c m hs last) : mid = last := by
  induction h1 with
  | stay => cases h2; rfl
  | hop _ _ _ _ ih =>
    cases h2 with
    | hop _ _ _ hrest => exact ih hrest

theorem last_mem (hw : Follows c m hs last) (hm : m ∈ c.models) : last ∈ c.models := by
  induction hw with
  | stay => exact hm
  | hop _ _ ht _ ih => exact ih (Catalog.related_mem ht)

theorem field_mem (hw : Follows c m hs last) (hm : m ∈ c.models) (hh : h ∈ hs) :
    ∃ n ∈ c.models, h.field ∈ n.fields ∧ h.field.isRelation = true := by
  obtain ⟨before, behind, rfl⟩ := List.append_of_mem hh
  obtain ⟨n, h1, h2⟩ := hw.split
  cases h2 with
  | hop hf hr _ _ => exact ⟨n, h1.last_mem hm, hf, hr⟩

theorem hop_eq_of_column (hm : m.WellFormed) {g : Hop} (h1 : Follows c m [g] mid)
    (h2 : Follows c m [h] last) (hcol : g.field.column = h.field.column) : g = h := by
  cases h1 with
  | hop hg _ htg _ =>
    cases h2 with
    | hop hh _ hth _ =>
      obtain ⟨f, target⟩ := g
      obtain ⟨f', target'⟩ := h
      cases List.inj_on_of_nodup_map hm.columns_nodup hg hh hcol
      cases htg.symm.trans hth
      rfl

end Follows

/-- Hops that can be followed from the model. -/
def Walked (c : Catalog) (m : Model) (hops : List Hop) : Prop := ∃ last, Follows c m hops last

/-- The hops that the segments of a path name, all but the last one. -/
def hopsOf (c : Catalog) (m : Model) : List String → List Hop
  | segment :: next :: rest =>
    match m.getField segment with
    | .error _ => []
    | .ok f =>
      match c.related f with
      | .error _ => []
      | .ok target => ⟨f, target⟩ :: hopsOf c target (next :: rest)
  | _ => []

theorem hopsOf_relation {c : Catalog} {m target : Model} {segment next : String}
    {rest : List String} {f : Field} (hf : m.getField segment = .ok f)
    (ht : c.related f = .ok target) :
    hopsOf c m (segment :: next :: rest) = ⟨f, target⟩ :: hopsOf c target (next :: rest) := by
  rw [hopsOf, hf]
  simp only [ht]

/-! ## Tables on the way -/

/-- The table that a hop from the table `previous` joins. -/
def Hop.join (previous : String) (h : Hop) : Join :=
  ⟨h.target.table, previous ++ Join.separator ++ h.field.column,
    some ⟨h.field.required, h.field.column, previous⟩⟩

/-- The alias of the table that hops from the table `root` lead to. -/
def hopAlias (root : String) (hops : List Hop) : String :=
  hops.foldl (fun previous h => (h.join previous).aliasName) root

/-- The table that hops lead to; without a hop it is the root table. -/
def joinAt (root : Model) (hops : List Hop) : Join :=
  match hops.getLast? with
  | none => .root root
  | some h => h.join (hopAlias root.table hops.dropLast)

@[simp] theorem hopAlias_nil (root : String) : hopAlias root [] = root := rfl

theorem hopAlias_snoc (root : String) (hs : List Hop) (h : Hop) :
    hopAlias root (hs ++ [h]) = hopAlias root hs ++ Join.separator ++ h.field.column := by
  simp [hopAlias, Hop.join]

@[simp] theorem joinAt_nil (root : Model) : joinAt root [] = .root root := rfl

@[simp] theorem joinAt_snoc (root : Model) (hs : List Hop) (h : Hop) :
    joinAt root (hs ++ [h]) = h.join (hopAlias root.table hs) := by
  simp [joinAt]

theorem joinAt_aliasName (root : Model) (hops : List Hop) :
    (joinAt root hops).aliasName = hopAlias root.table hops := by
  rcases List.eq_nil_or_concat hops with rfl | ⟨hs, h, rfl⟩
  · rfl
  · rw [List.concat_eq_append, joinAt_snoc, hopAlias_snoc]; rfl

/-- The tables of a path: those of the prefixes of its hops. -/
def tablesOf (root : Model) (hops : List Hop) : List Join := hops.inits.map (joinAt root)

theorem tablesOf_snoc (root : Model) (hs : List Hop) (h : Hop) :
    tablesOf root (hs ++ [h]) = tablesOf root hs ++ [h.join (hopAlias root.table hs)] := by
  simp [tablesOf, List.inits_append]

theorem lastAlias_snoc (js : List Join) (j : Join) : lastAlias (js ++ [j]) = j.aliasName := by
  simp [lastAlias]

theorem lastAlias_tablesOf (root : Model) (hops : List Hop) :
    lastAlias (tablesOf root hops) = hopAlias root.table hops := by
  rcases List.eq_nil_or_concat hops with rfl | ⟨hs, h, rfl⟩
  · rfl
  · rw [List.concat_eq_append, tablesOf_snoc, lastAlias_snoc, hopAlias_snoc]; rfl

/-! ## Resolving -/

/-- A segment that names a relation adds a hop. -/
theorem walk_relation {c : Catalog} {path : Path} {root m target : Model} {done : List Hop}
    {segment next : String} {rest : List String} {f : Field} (hf : m.getField segment = .ok f)
    (hr : f.isRelation = true) (ht : c.related f = .ok target) :
    walk c path m (tablesOf root done) (segment :: next :: rest) =
      walk c path target (tablesOf root (done ++ [⟨f, target⟩])) (next :: rest) := by
  rw [walk, hf, tablesOf_snoc, ← lastAlias_tablesOf]
  · simp only [bind, Except.bind, hr, ht]
    rfl
  · simp

/-- A walk that gets past a segment found a relation there, and its target. -/
theorem relation_of_walk {c : Catalog} {path : Path} {m : Model} {joins : List Join}
    {segment next : String} {rest : List String} {r : Resolution}
    (h : walk c path m joins (segment :: next :: rest) = .ok r) :
    ∃ f target, m.getField segment = .ok f ∧ f.isRelation = true ∧ c.related f = .ok target := by
  rw [walk] at h
  · obtain ⟨f, hf, h⟩ := bind_eq_ok.1 h
    dsimp only at h
    split at h
    · cases h
    obtain ⟨target, ht, -⟩ := bind_eq_ok.1 h
    exact ⟨f, target, hf, Catalog.isRelation_of_related ht, ht⟩
  · simp

/-- What one walk does: it follows the hops of its segments, behind those that are `done`. -/
theorem walk_ok {c : Catalog} {path : Path} {root m : Model} {done : List Hop}
    {segments : List String} {r : Resolution}
    (h : walk c path m (tablesOf root done) segments = .ok r) :
    ∃ last, Follows c m (hopsOf c m segments) last ∧
      r.joins = tablesOf root (done ++ hopsOf c m segments) ∧ r.field ∈ last.fields := by
  induction segments generalizing m done with
  | nil => cases h
  | cons segment rest ih =>
    cases rest with
    | nil =>
      rw [walk] at h
      obtain ⟨f, hf, h⟩ := bind_eq_ok.1 h
      cases h
      exact ⟨m, .stay m, by rw [hopsOf, List.append_nil]; simp, Model.getField_mem hf⟩
    | cons next rest =>
      obtain ⟨f, target, hf, hr, ht⟩ := relation_of_walk h
      rw [walk_relation hf hr ht] at h
      obtain ⟨last, hw, hjoins, hfield⟩ := ih h
      rw [List.append_assoc] at hjoins
      rw [hopsOf_relation hf ht]
      exact ⟨last, .hop (Model.getField_mem hf) hr ht hw, hjoins, hfield⟩

theorem resolve_ok {c : Catalog} {root : Model} {path : Path} {r : Resolution}
    (h : resolve c root path = .ok r) :
    ∃ last, Follows c root (hopsOf c root path.segments) last ∧
      r.joins = tablesOf root (hopsOf c root path.segments) ∧ r.field ∈ last.fields := by
  unfold resolve at h
  split at h
  · cases h
  split at h
  · cases h
  have hstart : tablesOf root [] = [.root root] := rfl
  rw [← hstart] at h
  exact walk_ok h

/-- The path of hops and a field at their end. -/
def namesPath (hops : List Hop) (f : Field) : Path :=
  ⟨hops.map (fun h => h.field.name) ++ [f.name]⟩

theorem walk_names {c : Catalog} (hc : c.WellFormed) {path : Path} {root m last : Model}
    {hops : List Hop} {f : Field} (done : List Hop) (hm : m ∈ c.models)
    (hw : Follows c m hops last) (hf : f ∈ last.fields) :
    walk c path m (tablesOf root done) (namesPath hops f).segments =
        .ok ⟨tablesOf root (done ++ hops), f⟩ ∧
      hopsOf c m (namesPath hops f).segments = hops := by
  induction hw generalizing done with
  | stay m =>
    rw [namesPath, List.map_nil, List.nil_append, walk, (hc.models m hm).getField_name hf,
      List.append_nil]
    exact ⟨rfl, rfl⟩
  | @hop m last h rest hfield hr ht _ ih =>
    obtain ⟨hwalk, hhops⟩ := ih (done ++ [h]) (Catalog.related_mem ht) hf
    have hname := (hc.models m hm).getField_name hfield
    have hcons : (namesPath (h :: rest) f).segments =
        h.field.name :: (namesPath rest f).segments := rfl
    rw [List.append_assoc] at hwalk
    cases hs : (namesPath rest f).segments with
    | nil => simp [namesPath] at hs
    | cons s ss =>
      rw [hcons, hs, walk_relation hname hr ht, hopsOf_relation hname ht, ← hs, hhops]
      exact ⟨hwalk, rfl⟩

theorem resolve_names {c : Catalog} (hc : c.WellFormed) {root last : Model} {hops : List Hop}
    {f : Field} (hroot : root ∈ c.models) (hw : Follows c root hops last) (hf : f ∈ last.fields) :
    resolve c root (namesPath hops f) = .ok ⟨tablesOf root hops, f⟩ ∧
      hopsOf c root (namesPath hops f).segments = hops := by
  have hnames : (namesPath hops f).segments.any String.isEmpty = false := by
    rw [List.any_eq_false]
    intro s hs
    rcases List.mem_append.1 hs with hs | hs
    · obtain ⟨h, hh, rfl⟩ := List.mem_map.1 hs
      obtain ⟨m, hm, hmem, -⟩ := hw.field_mem hroot hh
      simp [isEmpty_of_isIdentifier ((hc.models m hm).identifiers _ hmem).1]
    · rw [List.mem_singleton.1 hs]
      simp [isEmpty_of_isIdentifier ((hc.models _ (hw.last_mem hroot)).identifiers f hf).1]
  have hne : (namesPath hops f).segments.isEmpty = false := by simp [namesPath]
  rw [resolve, hne, hnames]
  exact walk_names hc [] hroot hw hf

end RecordModel
