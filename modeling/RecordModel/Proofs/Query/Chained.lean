import RecordModel.Proofs.Query.Operation

/-!
# Joins in a row

A set of joins only ever grows at its end, by the tables of one path after the other. So the
root table comes first, each other table stands behind the one that it is joined to, and the
columns that paths end at are columns of tables in the set.

Results:
* `Chained.addJoins`: adding the tables of a path keeps each table behind the one it is joined to.
* `Compiler.resolveAll_chained`: so does resolving paths, and their columns are there.
* `Compiler.selection_placed`, `Compiler.target_placed`: the columns of a statement are columns of
  its tables.
-/
namespace RecordModel

open RecordModel.Sql

/-! ## Joins in a row -/

/-- Joins of different aliases, the root table first, and each joined to one before it. -/
inductive Chained (root : Model) : List Join → Prop where
  | root : Chained root [.root root]
  | grow {set : List Join} {j : Join} {link : JoinLink} : Chained root set → j.link = some link →
    link.previous ∈ set.map Join.aliasName → isIdentifier link.column = true →
      j.aliasName ∉ set.map Join.aliasName → Chained root (set ++ [j])

/-- A column of a table that is there, with a proper name. -/
def ColumnRef.Bound (set : List Join) (r : ColumnRef) : Prop :=
  r.aliasName ∈ set.map Join.aliasName ∧ isIdentifier r.column = true

theorem ColumnRef.Bound.mono {set set' : List Join} {r : ColumnRef} (h : r.Bound set)
    (hset : set <+: set') : r.Bound set' :=
  ⟨(hset.map Join.aliasName).subset h.1, h.2⟩

namespace Chained

variable {root : Model} {set : List Join}

/-- The columns that tables are joined by have proper names. -/
theorem identifiers (h : Chained root set) :
    ∀ j ∈ set, ∀ link ∈ j.link, isIdentifier link.column = true := by
  induction h with
  | root => simp [Join.root]
  | @grow set j link _ hlink _ hcolumn _ ih =>
    have hlast : ∀ l ∈ j.link, isIdentifier l.column = true := fun l hl => by
      cases hlink.symm.trans hl
      exact hcolumn
    exact List.forall_mem_append.2 ⟨ih, List.forall_mem_singleton.2 hlast⟩

/-- Behind the root table all tables are joined ones. -/
theorem joined (h : Chained root set) :
    ∃ joins, set = .root root :: joins ∧ ∀ j ∈ joins, j.isJoined = true := by
  induction h with
  | root => exact ⟨[], rfl, by simp⟩
  | @grow set j link _ hlink _ _ _ ih =>
    obtain ⟨joins, rfl, hjoins⟩ := ih
    have hlast : j.isJoined = true := by rw [Join.isJoined, hlink]; rfl
    exact ⟨joins ++ [j], rfl, List.forall_mem_append.2 ⟨hjoins, List.forall_mem_singleton.2 hlast⟩⟩

theorem root_first (h : Chained root set) : ∃ joins, set = .root root :: joins :=
  h.joined.imp fun _ h => h.1

/-- Without a relation there is the root table alone. -/
theorem eq_root (h : Chained root set) (hnone : hasJoins set = false) : set = [.root root] := by
  cases h with
  | root => rfl
  | @grow set j link _ hlink _ _ _ =>
    have hnot := List.any_eq_false.1 hnone j (by simp)
    simp [Join.isJoined, hlink] at hnot

theorem root_mem (h : Chained root set) : root.table ∈ set.map Join.aliasName := by
  obtain ⟨joins, rfl⟩ := h.root_first
  exact List.mem_cons_self

theorem aliases_nodup (h : Chained root set) : (set.map Join.aliasName).Nodup := by
  induction h with
  | root => simp
  | @grow set j link hset _ _ _ hnew ih =>
    rw [List.map_append, List.map_singleton, ← List.concat_eq_append]
    exact ih.concat hnew

/-- Every table but the first one is joined to one before it. -/
theorem tied (h : Chained root set) {before behind : List Join} {j : Join}
    (hset : set = before ++ j :: behind) (hne : before ≠ []) :
    ∃ link, j.link = some link ∧ link.previous ∈ before.map Join.aliasName := by
  induction h generalizing behind with
  | root =>
    obtain ⟨b, before, rfl⟩ := List.exists_cons_of_ne_nil hne
    cases before <;> cases hset
  | @grow set i link hchained hlink hprevious _ _ ih =>
    rcases List.eq_nil_or_concat behind with rfl | ⟨behind', last, rfl⟩
    · obtain ⟨rfl, hi⟩ := List.append_inj' hset rfl
      cases hi
      exact ⟨link, hlink, hprevious⟩
    · rw [List.concat_eq_append, ← List.cons_append, ← List.append_assoc] at hset
      exact ih (List.append_inj' hset rfl).1

/-- Adding the tables of a path keeps each table behind the one it is joined to, and the last
table of the path is there. -/
theorem addJoins {hops : List Hop} (hset : set = [] ∨ Chained root set)
    (hcolumns : ∀ h ∈ hops, isIdentifier h.field.column = true) :
    Chained root (RecordModel.addJoins set (tablesOf root hops)) ∧
      hopAlias root.table hops ∈
        (RecordModel.addJoins set (tablesOf root hops)).map Join.aliasName := by
  induction hops using List.reverseRecOn with
  | nil =>
    have hstart : tablesOf root [] = [.root root] := rfl
    rcases hset with rfl | hset
    · exact ⟨.root, List.mem_cons_self⟩
    · have hthere : (Join.root root).aliasName ∈ set.map Join.aliasName := hset.root_mem
      rw [hstart, addJoins_singleton, if_pos hthere]
      exact ⟨hset, hset.root_mem⟩
  | append_singleton hops h ih =>
    obtain ⟨hchained, hprevious⟩ := ih fun g hg => hcolumns g (by simp [hg])
    rw [tablesOf_snoc, addJoins_append, hopAlias_snoc, addJoins_singleton]
    split
    · rename_i hmem
      exact ⟨hchained, hmem⟩
    · rename_i hnew
      refine ⟨.grow hchained rfl hprevious (hcolumns h (by simp)) hnew, ?_⟩
      rw [List.map_append]
      exact List.mem_append_right _ (List.mem_singleton.2 rfl)

end Chained

/-! ## Columns that are there -/

namespace Compiler

variable {k : Compiler}

theorem mem_columns {paths : List Path} {set set' : List Join} {columns : List ColumnRef}
    (h : k.resolveAll set paths = .ok (set', columns)) {path : Path} (hpath : path ∈ paths)
    {r : Resolution} (hr : k.resolve path = .ok r) : r.column ∈ columns := by
  induction paths generalizing set columns with
  | nil => cases hpath
  | cons first rest ih =>
    obtain ⟨r', columns', hfirst, hrest, rfl⟩ := resolveAll_cons h
    rcases List.mem_cons.1 hpath with rfl | hpath
    · cases hfirst.symm.trans hr
      exact List.mem_cons_self
    · exact List.mem_cons_of_mem _ (ih hrest hpath)

variable (hc : k.catalog.WellFormed) (hm : k.model ∈ k.catalog.models)

include hc hm

/-- One path adds its tables, and its column is one of the last of them. -/
theorem resolve_chained {path : Path} {r : Resolution} {set : List Join}
    (hset : set = [] ∨ Chained k.model set) (h : k.resolve path = .ok r) :
    Chained k.model (addJoins set r.joins) ∧ r.column.Bound (addJoins set r.joins) := by
  obtain ⟨last, hw, hjoins, hf⟩ := resolve_hops h
  have hcolumns : ∀ hop ∈ k.hops path, isIdentifier hop.field.column = true := by
    intro hop hhop
    obtain ⟨m, hmem, hfield, -⟩ := hw.field_mem hm hhop
    exact ((hc.models m hmem).identifiers _ hfield).2
  obtain ⟨hchained, hlast⟩ := Chained.addJoins hset hcolumns
  rw [← lastAlias_tablesOf, ← hjoins] at hlast
  rw [← hjoins] at hchained
  exact ⟨hchained, hlast, ((hc.models last (hw.last_mem hm)).identifiers _ hf).2⟩

theorem resolveAll_chained {paths : List Path} {set set' : List Join} {columns : List ColumnRef}
    (hset : set = [] ∨ Chained k.model set) (h : k.resolveAll set paths = .ok (set', columns)) :
    (set' = [] ∨ Chained k.model set') ∧ ∀ r ∈ columns, r.Bound set' := by
  induction paths generalizing set columns with
  | nil =>
    cases h
    exact ⟨hset, by simp⟩
  | cons path rest ih =>
    obtain ⟨r, columns', hr, hrest, rfl⟩ := resolveAll_cons h
    obtain ⟨hchained, hbound⟩ := resolve_chained hc hm hset hr
    obtain ⟨hset', hcolumns⟩ := ih (.inr hchained) hrest
    exact ⟨hset', List.forall_mem_cons.2 ⟨hbound.mono (resolveAll_extends hrest), hcolumns⟩⟩

/-- The columns of a condition are those of its paths. -/
theorem terms_bound {set set' : List Join} {columns : List ColumnRef} {terms : List Term}
    (hset : set = [] ∨ Chained k.model set)
    (h : k.resolveAll set k.query.condition.paths = .ok (set', columns))
    (hterms : compileNodes k.catalog k.dialect k.model k.query.condition.nodes = .ok terms) :
    ∀ t ∈ termTests terms, t.column.Bound set' := by
  obtain ⟨haccepts, rfl⟩ := leaves_of_compileNodes hterms
  intro t ht
  rw [tests_terms, leavesAll_pruneAll] at ht
  obtain ⟨l, hl, rfl⟩ := List.mem_map.1 ht
  obtain ⟨r, f, hr, -, htest⟩ := (haccepts l hl).test_eq
  rw [htest]
  exact (resolveAll_chained hc hm hset h).2 _ (mem_columns h (Condition.path_mem_paths hl) hr)

end Compiler

/-- Every column of a SELECT statement is one of a table of its own. -/
structure Selection.Placed (s : Selection) (root : Model) : Prop where
  joins : Chained root s.joins
  columns : ∀ p ∈ s.columns, p.column.Bound s.joins
  terms : ∀ t ∈ termTests s.terms, t.column.Bound s.joins
  groups : ∀ r ∈ s.groups, r.Bound s.joins
  orders : ∀ o ∈ s.orders, o.column.Bound s.joins

/-- The root table as a FROM clause of its own. -/
def Target.root (t : Target) : Join := ⟨t.table, t.table, none⟩

/-- So is every column of an update or a deletion, if it has joins. -/
structure Target.Placed (t : Target) (root : Model) : Prop where
  table : t.table = root.table
  joins : t.joins = [] ∨ Chained root t.joins
  terms : ∀ test ∈ termTests t.terms, test.column.Bound t.joins

/-- Without a relation there is the root table alone, or no table. -/
theorem Target.Placed.alone {t : Target} {root : Model} (h : t.Placed root)
    (hnone : hasJoins t.joins = false) : t.joins = [] ∨ t.joins = [t.root] := by
  refine h.joins.imp_right fun hchained => ?_
  rw [hchained.eq_root hnone, Target.root, h.table]
  rfl

/-- An inner query has the root table first. -/
theorem Target.Placed.chained {t : Target} {root : Model} (ht : t.Placed root)
    (hjoined : hasJoins t.joins = true) : Chained root t.joins :=
  ht.joins.resolve_left fun hnil => by
    rw [hnil] at hjoined
    cases hjoined

namespace Compiler

variable {k : Compiler} (hc : k.catalog.WellFormed) (hm : k.model ∈ k.catalog.models)

include hc hm

theorem selection_placed {paths : List Path} {s : Selection} (h : k.selection paths = .ok s) :
    s.Placed k.model := by
  obtain ⟨orders, joins, columns, joins', columns', joins'', orderColumns, -, hne, h1, h2, h3, h4,
    hterms, hprojection, hordered⟩ := selection_ok h
  obtain ⟨hjoins, hcolumns⟩ := resolveAll_chained hc hm (.inl rfl) h1
  obtain ⟨hjoins', -⟩ := resolveAll_chained hc hm hjoins h2
  obtain ⟨hjoins'', hgroups⟩ := resolveAll_chained hc hm hjoins' h3
  obtain ⟨hall, horders⟩ := resolveAll_chained hc hm hjoins'' h4
  have hbehind4 := resolveAll_extends h4
  have hbehind3 := (resolveAll_extends h3).trans hbehind4
  have hbehind2 := (resolveAll_extends h2).trans hbehind3
  have hprojected : ∀ r ∈ columns, r.Bound s.joins := fun r hr => (hcolumns r hr).mono hbehind2
  refine ⟨hall.resolve_left fun hnil => ?_, fun p hp => ?_, fun t ht => ?_, fun r hr => ?_,
    fun o ho => ?_⟩
  · obtain ⟨r, hr⟩ := List.exists_mem_of_ne_nil _ hne
    have hmem := (hprojected r hr).1
    rw [hnil] at hmem
    cases hmem
  · rw [hprojection] at hp
    obtain ⟨⟨column, path⟩, hzip, rfl⟩ := List.mem_map.1 hp
    exact hprojected column (List.of_mem_zip hzip).1
  · exact (terms_bound hc hm hjoins h2 hterms t ht).mono hbehind3
  · exact (hgroups r hr).mono hbehind4
  · rw [hordered] at ho
    obtain ⟨⟨column, order⟩, hzip, rfl⟩ := List.mem_map.1 ho
    exact horders column (List.of_mem_zip hzip).1

theorem target_placed {t : Target} (h : k.target = .ok t) : t.Placed k.model := by
  obtain ⟨htable, ⟨columns, hjoins⟩, hterms⟩ := target_ok h
  exact ⟨htable, (resolveAll_chained hc hm (.inl rfl) hjoins).1,
    terms_bound hc hm (.inl rfl) hjoins hterms⟩

end Compiler

end RecordModel
