import RecordModel.Proofs.Query.Walk
import RecordModel.Query.Compile

/-!
# The tables of a query

The joins of all paths of a query are put together, each alias once. As long as different
hops from the root have different aliases, the set is a tree: it holds the tables of the
prefixes of all paths, each once, and each behind the table that it is joined to.

Results:
* `addJoins_tablesOf`: adding the tables of one path keeps the tree.
* `resolveAll_tables`: the tables of paths are those of the prefixes of their hops.
* `Compiler.selection_ok`, `Compiler.selection_joins`: what a SELECT statement is compiled from; its
  joins are those of all its paths.
-/
namespace RecordModel

open RecordModel.Sql

theorem Compiler.new_ok {c : Catalog} {d : Dialect} {q : Query} {k : Compiler}
    (h : Compiler.new c d q = .ok k) :
    ∃ root ∈ c.models, c.getModel q.model = .ok root ∧ k = ⟨c, d, q, root⟩ := by
  obtain ⟨root, hroot, hk⟩ := bind_eq_ok.1 h
  cases hk
  exact ⟨root, Catalog.getModel_mem hroot, hroot, rfl⟩

/-- The hops that a path takes from the query's model. -/
def Compiler.hops (k : Compiler) (path : Path) : List Hop :=
  hopsOf k.catalog k.model path.segments

/-- The hops are the first ones, or all, that one of the paths takes. -/
def Compiler.Passes (k : Compiler) (paths : List Path) (hops : List Hop) : Prop :=
  ∃ path ∈ paths, hops <+: k.hops path

/-- Different hops lead to tables with different aliases. -/
def AliasesDistinct (root : String) (walked : List Hop → Prop) : Prop :=
  ∀ hs hs', walked hs → walked hs' → hopAlias root hs = hopAlias root hs' → hs = hs'

theorem AliasesDistinct.mono {root : String} {walked walked' : List Hop → Prop}
    (h : AliasesDistinct root walked') (hsub : ∀ hs, walked hs → walked' hs) :
    AliasesDistinct root walked :=
  fun hs hs' hw hw' => h hs hs' (hsub hs hw) (hsub hs' hw')

/-- Hops of which none is there twice, each behind the hops that it goes on from. -/
inductive Tree : List (List Hop) → Prop where
  | root : Tree [[]]
  | grow {ps : List (List Hop)} {p : List Hop} {h : Hop} : Tree ps → p ∈ ps → p ++ [h] ∉ ps →
    Tree (ps ++ [p ++ [h]])

theorem Tree.nil_mem {ps : List (List Hop)} (h : Tree ps) : [] ∈ ps := by
  induction h with
  | root => simp
  | grow _ _ _ ih => exact List.mem_append_left _ ih

/-! ## Adding joins -/

theorem addJoins_append (set js js' : List Join) :
    addJoins set (js ++ js') = addJoins (addJoins set js) js' := by
  induction js generalizing set with
  | nil => rfl
  | cons j js ih =>
    rw [List.cons_append, addJoins, addJoins]
    split <;> exact ih _

theorem addJoins_extends (set js : List Join) : set <+: addJoins set js := by
  induction js generalizing set with
  | nil => exact List.prefix_refl _
  | cons j js ih =>
    rw [addJoins]
    split
    · exact ih set
    · exact (List.prefix_append set [j]).trans (ih (set ++ [j]))

/-- A single join is added if its alias is new. -/
theorem addJoins_singleton (set : List Join) (j : Join) :
    addJoins set [j] = if j.aliasName ∈ set.map Join.aliasName then set else set ++ [j] := by
  have hany : (set.any fun k => k.aliasName = j.aliasName) = true ↔
      j.aliasName ∈ set.map Join.aliasName := by
    simp [List.any_eq_true, List.mem_map]
  rw [addJoins, addJoins, addJoins]
  simp only [hany]

section

variable {root : Model} {walked : List Hop → Prop}
  (hdistinct : AliasesDistinct root.table walked)

include hdistinct in
/-- One table is added if its hops are not there yet. -/
theorem addJoins_joinAt {ps : List (List Hop)} {p : List Hop} (hps : ∀ q ∈ ps, walked q)
    (hp : walked p) :
    (p ∈ ps → addJoins (ps.map (joinAt root)) [joinAt root p] = ps.map (joinAt root)) ∧
      (p ∉ ps → addJoins (ps.map (joinAt root)) [joinAt root p] =
        (ps ++ [p]).map (joinAt root)) := by
  have halias : (joinAt root p).aliasName ∈ (ps.map (joinAt root)).map Join.aliasName ↔ p ∈ ps := by
    simp only [List.map_map, List.mem_map, Function.comp_apply, joinAt_aliasName]
    constructor
    · rintro ⟨q, hq, he⟩
      exact hdistinct q p (hps q hq) hp he ▸ hq
    · exact fun h => ⟨p, h, rfl⟩
  rw [addJoins_singleton]
  constructor
  · intro h
    rw [if_pos (halias.2 h)]
  · intro h
    rw [if_neg (fun hc => h (halias.1 hc)), List.map_append, List.map_singleton]

include hdistinct in
/-- What the tables of one path add to a tree, which may have no root yet. -/
theorem addJoins_tablesOf {ps : List (List Hop)} (htree : ps = [] ∨ Tree ps)
    (hps : ∀ q ∈ ps, walked q) {hs : List Hop} (hhs : ∀ q, q <+: hs → walked q) :
    ∃ qs, addJoins (ps.map (joinAt root)) (tablesOf root hs) = qs.map (joinAt root) ∧ Tree qs ∧
      ∀ q, q ∈ qs ↔ q ∈ ps ∨ q <+: hs := by
  induction hs using List.reverseRecOn with
  | nil =>
    have hstart : tablesOf root [] = [joinAt root []] := rfl
    obtain ⟨hold, hnew⟩ := addJoins_joinAt hdistinct hps (hhs [] (List.prefix_refl []))
    rcases htree with rfl | htree
    · refine ⟨[[]], by rw [hstart, hnew (by simp)]; rfl, .root, by simp⟩
    · refine ⟨ps, by rw [hstart, hold htree.nil_mem], htree, fun q => ?_⟩
      rw [List.prefix_nil]
      exact ⟨.inl, fun h => h.elim id fun he => he ▸ htree.nil_mem⟩
  | append_singleton hs h ih =>
    obtain ⟨qs, hadd, hqs, hmem⟩ := ih fun q hq => hhs q (hq.trans (List.prefix_append hs [h]))
    have hwalked : ∀ q ∈ qs, walked q := fun q hq =>
      ((hmem q).1 hq).elim (hps q) fun hpre => hhs q (hpre.trans (List.prefix_append hs [h]))
    obtain ⟨hold, hnew⟩ := addJoins_joinAt hdistinct hwalked (hhs _ (List.prefix_refl (hs ++ [h])))
    have hat : h.join (hopAlias root.table hs) = joinAt root (hs ++ [h]) := (joinAt_snoc ..).symm
    rw [tablesOf_snoc, addJoins_append, hadd, hat]
    by_cases hin : hs ++ [h] ∈ qs
    · refine ⟨qs, hold hin, hqs, fun q => ?_⟩
      rw [hmem, List.prefix_concat_iff]
      constructor
      · exact fun hq => hq.imp_right .inr
      · rintro (hq | rfl | hq)
        · exact .inl hq
        · exact (hmem _).1 hin
        · exact .inr hq
    · refine ⟨qs ++ [hs ++ [h]], hnew hin, .grow hqs ((hmem hs).2 (.inr (List.prefix_refl hs))) hin,
        fun q => ?_⟩
      rw [List.mem_append, List.mem_singleton, hmem, List.prefix_concat_iff, or_assoc,
        or_comm (a := q <+: hs)]

end

/-! ## Resolving paths -/

namespace Compiler

theorem resolve_hops {k : Compiler} {path : Path} {r : Resolution} (h : k.resolve path = .ok r) :
    ∃ last, Follows k.catalog k.model (k.hops path) last ∧
      r.joins = tablesOf k.model (k.hops path) ∧
      r.field ∈ last.fields :=
  resolve_ok h

theorem Passes.walked {k : Compiler} {paths : List Path} {q : List Hop} (h : k.Passes paths q)
    (hpaths : ∀ path ∈ paths, ∃ r, k.resolve path = .ok r) : Walked k.catalog k.model q := by
  obtain ⟨path, hp, rest, hq⟩ := h
  obtain ⟨r, hr⟩ := hpaths path hp
  obtain ⟨last, hw, -⟩ := resolve_hops hr
  rw [← hq] at hw
  obtain ⟨mid, hmid, -⟩ := hw.split
  exact ⟨mid, hmid⟩

theorem Passes.front {k : Compiler} {paths : List Path} {hs hs' : List Hop}
    (h : k.Passes paths (hs ++ hs')) : k.Passes paths hs := by
  obtain ⟨path, hp, hpre⟩ := h
  exact ⟨path, hp, (List.prefix_append hs hs').trans hpre⟩

theorem resolveAll_cons {k : Compiler} {set set' : List Join} {path : Path} {rest : List Path}
    {columns : List ColumnRef} (h : k.resolveAll set (path :: rest) = .ok (set', columns)) :
    ∃ r columns', k.resolve path = .ok r ∧
      k.resolveAll (addJoins set r.joins) rest = .ok (set', columns') ∧
        columns = r.column :: columns' := by
  rw [resolveAll] at h
  obtain ⟨r, hr, h⟩ := bind_eq_ok.1 h
  obtain ⟨⟨set'', columns'⟩, hrest, h⟩ := bind_eq_ok.1 h
  cases h
  exact ⟨r, columns', hr, hrest, rfl⟩

theorem resolveAll_extends {k : Compiler} {paths : List Path} {set set' : List Join}
    {columns : List ColumnRef} (h : k.resolveAll set paths = .ok (set', columns)) :
    set <+: set' := by
  induction paths generalizing set columns with
  | nil => cases h; exact List.prefix_refl _
  | cons path rest ih =>
    obtain ⟨r, columns', -, hrest, -⟩ := resolveAll_cons h
    exact (addJoins_extends set r.joins).trans (ih hrest)

/-- A query plays no part in resolving paths from its model. -/
theorem resolveAll_query {c : Catalog} {d : Dialect} (q q' : Query) {m : Model} (set : List Join)
    (paths : List Path) :
    (Compiler.mk c d q m).resolveAll set paths = (Compiler.mk c d q' m).resolveAll set paths := by
  induction paths generalizing set with
  | nil => rfl
  | cons path rest ih =>
    rw [resolveAll, resolveAll]
    simp only [ih]
    rfl

theorem resolve_of_resolveAll {k : Compiler} {set set' : List Join} {paths : List Path}
    {columns : List ColumnRef} (h : k.resolveAll set paths = .ok (set', columns)) :
    ∀ path ∈ paths, ∃ r, k.resolve path = .ok r := by
  induction paths generalizing set columns with
  | nil => simp
  | cons path rest ih =>
    obtain ⟨r, columns', hr, hrest, -⟩ := resolveAll_cons h
    intro p hp
    rcases List.mem_cons.1 hp with rfl | hp
    · exact ⟨r, hr⟩
    · exact ih hrest p hp

theorem exists_resolveAll {k : Compiler} {paths : List Path}
    (h : ∀ path ∈ paths, ∃ r, k.resolve path = .ok r) (set : List Join) :
    ∃ set' columns, k.resolveAll set paths = .ok (set', columns) := by
  induction paths generalizing set with
  | nil => exact ⟨set, [], rfl⟩
  | cons path rest ih =>
    obtain ⟨r, hr⟩ := h path (by simp)
    obtain ⟨set', columns, hrest⟩ := ih (fun p hp => h p (by simp [hp])) (addJoins set r.joins)
    refine ⟨set', r.column :: columns, ?_⟩
    rw [resolveAll, hr]
    simp only [bind, Except.bind, hrest]
    rfl

theorem resolveAll_append {k : Compiler} {set set' set'' : List Join} {ps qs : List Path}
    {columns columns' : List ColumnRef} (h1 : k.resolveAll set ps = .ok (set', columns))
    (h2 : k.resolveAll set' qs = .ok (set'', columns')) :
    k.resolveAll set (ps ++ qs) = .ok (set'', columns ++ columns') := by
  induction ps generalizing set columns with
  | nil => cases h1; exact h2
  | cons p ps ih =>
    obtain ⟨r, columns1, hr, hrest, rfl⟩ := resolveAll_cons h1
    rw [List.cons_append, resolveAll, hr]
    simp only [bind, Except.bind, ih hrest]
    rfl

/-- The set of joins of resolved paths is a tree over the prefixes of their hops. -/
theorem resolveAll_tables {k : Compiler} {walked : List Hop → Prop}
    (hdistinct : AliasesDistinct k.model.table walked) {paths : List Path} {ps : List (List Hop)}
    (htree : ps = [] ∨ Tree ps) (hps : ∀ q ∈ ps, walked q)
    (hpaths : ∀ q, k.Passes paths q → walked q) {set : List Join} {columns : List ColumnRef}
    (h : k.resolveAll (ps.map (joinAt k.model)) paths = .ok (set, columns)) :
    ∃ qs, set = qs.map (joinAt k.model) ∧ (qs = [] ∨ Tree qs) ∧
      ∀ q, q ∈ qs ↔ q ∈ ps ∨ k.Passes paths q := by
  induction paths generalizing ps columns with
  | nil =>
    cases h
    exact ⟨ps, rfl, htree, fun q => by simp [Passes]⟩
  | cons path rest ih =>
    obtain ⟨r, columns', hr, hrest, -⟩ := resolveAll_cons h
    obtain ⟨last, -, hjoins, -⟩ := resolve_hops hr
    obtain ⟨qs, hadd, hqs, hmem⟩ := addJoins_tablesOf hdistinct htree hps fun q hq =>
      hpaths q ⟨path, by simp, hq⟩
    have hwalked : ∀ q ∈ qs, walked q := fun q hq =>
      ((hmem q).1 hq).elim (hps q) fun hpre => hpaths q ⟨path, by simp, hpre⟩
    rw [hjoins, hadd] at hrest
    obtain ⟨os, hset, hos, hos'⟩ := ih (.inr hqs) hwalked
      (fun q ⟨p, hp, hpre⟩ => hpaths q ⟨p, List.mem_cons_of_mem _ hp, hpre⟩) hrest
    refine ⟨os, hset, hos, fun q => ?_⟩
    rw [hos', hmem, or_assoc]
    simp [Passes]

/-- What a SELECT statement is made of: the joins of all its paths, one set after the other, the
columns that the paths end at, and the terms of the condition. -/
theorem selection_ok {k : Compiler} {paths : List Path} {s : Selection}
    (h : k.selection paths = .ok s) :
    ∃ orders joins columns joins' columns' joins'' orderColumns,
      k.query.orders.mapM SortKey.read = .ok orders ∧ columns ≠ [] ∧
      k.resolveAll [] paths = .ok (joins, columns) ∧
      k.resolveAll joins k.query.condition.paths = .ok (joins', columns') ∧
      k.resolveAll joins' k.query.groups = .ok (joins'', s.groups) ∧
      k.resolveAll joins'' (orders.map SortKey.path) = .ok (s.joins, orderColumns) ∧
      compileNodes k.catalog k.dialect k.model k.query.condition.nodes = .ok s.terms ∧
      s.columns = (columns.zip paths).map (fun (column, path) => ⟨column, path.text⟩) ∧
      s.orders =
        (orderColumns.zip orders).map (fun (column, order) => ⟨column, order.direction⟩) := by
  unfold selection at h
  obtain ⟨orders, horders, h⟩ := bind_eq_ok.1 h
  obtain ⟨⟨joins, columns⟩, hcolumns, h⟩ := bind_eq_ok.1 h
  dsimp only at h
  split at h
  · cases h
  rename_i hne
  obtain ⟨⟨joins', columns'⟩, hcondition, h⟩ := bind_eq_ok.1 h
  obtain ⟨⟨joins'', groups⟩, hgroups, h⟩ := bind_eq_ok.1 h
  obtain ⟨⟨joins4, orderColumns⟩, hordered, h⟩ := bind_eq_ok.1 h
  obtain ⟨terms, hterms, h⟩ := bind_eq_ok.1 h
  cases h
  exact ⟨orders, joins, columns, joins', columns', joins'', orderColumns, horders,
    by simpa using hne, hcolumns, hcondition, hgroups, hordered, hterms, rfl, rfl⟩

/-- All paths of a query that is compiled to a statement. -/
def used (k : Compiler) (paths : List Path) (orders : List SortKey) : List Path :=
  paths ++ k.query.condition.paths ++ k.query.groups ++ orders.map SortKey.path

/-- The FROM clause of a SELECT statement is made of the joins of all its paths. -/
theorem selection_joins {k : Compiler} {paths : List Path} {s : Selection}
    (h : k.selection paths = .ok s) : ∃ orders columns,
      k.query.orders.mapM SortKey.read = .ok orders ∧
        k.resolveAll [] (k.used paths orders) = .ok (s.joins, columns) := by
  obtain ⟨orders, _, _, _, _, _, _, horders, -, hcolumns, hcondition, hgroups, hordered, -⟩ :=
    selection_ok h
  exact ⟨orders, _, horders, resolveAll_append (resolveAll_append
    (resolveAll_append hcolumns hcondition) hgroups) hordered⟩

end Compiler

end RecordModel
