import RecordModel.Proofs.Query.Tables

/-!
# Aliases

An alias is made of the root table and the columns on the way, with two underscores in front
of each column. Joins are told apart by their aliases alone, so no join is lost exactly if
different hops from the root never have the same alias. Columns may hold underscores
themselves, and then they may: `boss`, `boss` and the single column `boss__boss` lead to
one alias.

Results:
* `joins_kept_iff`: the joins of paths are kept exactly if the aliases of the different hops
  that they take differ, and those of all lists of paths exactly if no columns clash.
* `aliasesDistinct_of_columns`: they do not if no column of a relation is that of another
  relation with a single underscore behind it, or with two and more.
-/
namespace RecordModel

open RecordModel.Sql

/-- Every join of every path is in the set of joins of all of them, unchanged, and it is the
only one of its alias. -/
def Compiler.KeepsJoins (k : Compiler) (paths : List Path) : Prop :=
  ∃ set columns, k.resolveAll [] paths = .ok (set, columns) ∧
    ∀ path ∈ paths, ∀ r, k.resolve path = .ok r → ∀ j ∈ r.joins,
      set.filter (fun s => s.aliasName = j.aliasName) = [j]

/-! ## Sets without doubles -/

theorem filter_aliasName {set : List Join} (h : (set.map Join.aliasName).Nodup) {j : Join}
    (hj : j ∈ set) : set.filter (fun s => s.aliasName = j.aliasName) = [j] := by
  induction set with
  | nil => exact absurd hj (List.not_mem_nil)
  | cons s set ih =>
    obtain ⟨hs, hset⟩ := List.nodup_cons.1 h
    rcases List.mem_cons.1 hj with rfl | hj
    · have hnone : set.filter (fun s => s.aliasName = j.aliasName) = [] := by
        refine List.filter_eq_nil_iff.2 fun t ht => ?_
        have hne : t.aliasName ≠ j.aliasName := fun he => hs (he ▸ List.mem_map_of_mem ht)
        simpa using hne
      rw [List.filter_cons_of_pos (by simp), hnone]
    · have hne : s.aliasName ≠ j.aliasName := fun he => hs (he ▸ List.mem_map_of_mem hj)
      rw [List.filter_cons_of_neg (by simpa using hne), ih hset hj]

theorem Compiler.resolveAll_nodup {k : Compiler} {paths : List Path} {set set' : List Join}
    {columns : List ColumnRef} (hset : (set.map Join.aliasName).Nodup)
    (h : k.resolveAll set paths = .ok (set', columns)) : (set'.map Join.aliasName).Nodup := by
  induction paths generalizing set columns with
  | nil => cases h; exact hset
  | cons path rest ih =>
    obtain ⟨r, columns', -, hrest, -⟩ := resolveAll_cons h
    exact ih (addJoins_aliases_nodup hset) hrest

/-! ## The exact condition -/

theorem keepsJoins_of_distinct {k : Compiler} {paths : List Path}
    (hpaths : ∀ path ∈ paths, ∃ r, k.resolve path = .ok r)
    (hdistinct : AliasesDistinct k.model.table (k.Passes paths)) : k.KeepsJoins paths := by
  obtain ⟨set, columns, hset⟩ := Compiler.exists_resolveAll hpaths []
  have hstart : k.resolveAll (([] : List (List Hop)).map (joinAt k.model)) paths =
      .ok (set, columns) := hset
  obtain ⟨qs, hqs, -, hmem⟩ := Compiler.resolveAll_tables hdistinct (.inl rfl) (by simp)
    (fun q hq => hq) hstart
  refine ⟨set, columns, hset, fun path hp r hr j hj => ?_⟩
  obtain ⟨last, -, hjoins, -⟩ := Compiler.resolve_hops hr
  rw [hjoins, tablesOf, List.mem_map] at hj
  obtain ⟨q, hq, rfl⟩ := hj
  refine filter_aliasName (Compiler.resolveAll_nodup (by simp) hset) ?_
  rw [hqs]
  exact List.mem_map_of_mem ((hmem q).2 (.inr ⟨path, hp, (List.mem_inits ..).1 hq⟩))

/-- If paths lose no join, then hops with the same alias lead to the same join. -/
theorem joinAt_eq_of_kept {k : Compiler} {paths : List Path} (hkept : k.KeepsJoins paths)
    (hpaths : ∀ path ∈ paths, ∃ r, k.resolve path = .ok r) {hs hs' : List Hop}
    (hw : k.Passes paths hs) (hw' : k.Passes paths hs')
    (halias : hopAlias k.model.table hs = hopAlias k.model.table hs') :
    joinAt k.model hs = joinAt k.model hs' := by
  obtain ⟨set, columns, -, hkeep⟩ := hkept
  have hkeepAt {hops : List Hop} (h : k.Passes paths hops) :
      set.filter (fun s => s.aliasName = hopAlias k.model.table hops) = [joinAt k.model hops] := by
    obtain ⟨path, hp, hpre⟩ := h
    obtain ⟨r, hr⟩ := hpaths path hp
    obtain ⟨last, -, hjoins, -⟩ := Compiler.resolve_hops hr
    rw [← joinAt_aliasName]
    refine hkeep path hp r hr _ ?_
    rw [hjoins]
    exact List.mem_map_of_mem ((List.mem_inits ..).2 hpre)
  have h := hkeepAt hw
  rw [halias, hkeepAt hw'] at h
  exact (List.singleton_inj.1 h).symm

/-- Hops are told apart by their aliases if joins are: equal joins go on from equal aliases
by equal columns, and so the hops are equal from the last to the first. -/
theorem distinct_of_joinAt_eq {c : Catalog} (hc : c.WellFormed) {root : Model}
    (hroot : root ∈ c.models) {walked : List Hop → Prop}
    (hwalked : ∀ hs, walked hs → Walked c root hs)
    (hfront : ∀ hs h, walked (hs ++ [h]) → walked hs)
    (hjoin : ∀ hs hs', walked hs → walked hs' →
      hopAlias root.table hs = hopAlias root.table hs' → joinAt root hs = joinAt root hs') :
    AliasesDistinct root.table walked := by
  intro hs hs' hw hw' halias
  have hj := hjoin hs hs' hw hw' halias
  induction hs using List.reverseRecOn generalizing hs' with
  | nil =>
    rcases List.eq_nil_or_concat hs' with rfl | ⟨ts, h', rfl⟩
    · rfl
    · rw [List.concat_eq_append, joinAt_nil, joinAt_snoc] at hj
      cases congrArg Join.link hj
  | append_singleton ts h ih =>
    rcases List.eq_nil_or_concat hs' with rfl | ⟨ts', h', rfl⟩
    · rw [joinAt_nil, joinAt_snoc] at hj
      cases congrArg Join.link hj
    · rw [List.concat_eq_append] at hw' hj ⊢
      rw [joinAt_snoc, joinAt_snoc] at hj
      have hlink := congrArg Join.link hj
      simp only [Hop.join, Option.some.injEq, JoinLink.mk.injEq] at hlink
      obtain ⟨-, hcolumn, hprevious⟩ := hlink
      have hts := hfront ts h hw
      have hts' := hfront ts' h' hw'
      cases ih ts' hts hts' hprevious (hjoin ts ts' hts hts' hprevious)
      obtain ⟨last, hlast⟩ := hwalked _ hw
      obtain ⟨last', hlast'⟩ := hwalked _ hw'
      obtain ⟨mid, hmid, hstep⟩ := hlast.split
      obtain ⟨mid', hmid', hstep'⟩ := hlast'.split
      cases hmid.unique hmid'
      rw [Follows.hop_eq_of_column (hc.models mid (hmid.last_mem hroot)) hstep hstep' hcolumn]

theorem keepsJoins_iff {k : Compiler} (hc : k.catalog.WellFormed) (hm : k.model ∈ k.catalog.models)
    {paths : List Path} (hpaths : ∀ path ∈ paths, ∃ r, k.resolve path = .ok r) :
    k.KeepsJoins paths ↔ AliasesDistinct k.model.table (k.Passes paths) := by
  constructor
  · intro hkept
    exact distinct_of_joinAt_eq hc hm (fun hs hw => hw.walked hpaths) (fun hs h hw => hw.front)
      fun hs hs' hw hw' halias => joinAt_eq_of_kept hkept hpaths hw hw' halias
  · exact keepsJoins_of_distinct hpaths

/-- Hops that can be followed are taken by a path. -/
theorem exists_passes {k : Compiler} (hc : k.catalog.WellFormed) (hm : k.model ∈ k.catalog.models)
    {hops : List Hop} (hw : Walked k.catalog k.model hops) :
    ∃ path r, k.resolve path = .ok r ∧ k.hops path = hops := by
  obtain ⟨last, hlast⟩ := hw
  obtain ⟨f, hf, -⟩ := (hc.models last (hlast.last_mem hm)).getField_id
  obtain ⟨hr, hhops⟩ := resolve_names hc hm hlast (Model.getField_mem hf)
  exact ⟨_, _, hr, hhops⟩

theorem all_keepsJoins_iff {k : Compiler} (hc : k.catalog.WellFormed)
    (hm : k.model ∈ k.catalog.models) :
    (∀ paths : List Path, (∀ path ∈ paths, ∃ r, k.resolve path = .ok r) → k.KeepsJoins paths) ↔
      AliasesDistinct k.model.table (Walked k.catalog k.model) := by
  constructor
  · intro hall hs hs' hw hw'
    obtain ⟨path, r, hr, rfl⟩ := exists_passes hc hm hw
    obtain ⟨path', r', hr', rfl⟩ := exists_passes hc hm hw'
    have hpaths : ∀ p ∈ [path, path'], ∃ r, k.resolve p = .ok r :=
      List.forall_mem_cons.2 ⟨⟨r, hr⟩, List.forall_mem_singleton.2 ⟨r', hr'⟩⟩
    exact (keepsJoins_iff hc hm hpaths).1 (hall _ hpaths) _ _
      ⟨path, by simp, List.prefix_refl _⟩ ⟨path', by simp, List.prefix_refl _⟩
  · intro hdistinct paths hpaths
    exact (keepsJoins_iff hc hm hpaths).2 (hdistinct.mono fun hs hw => hw.walked hpaths)

/-! ## Clashes -/

/-- What hops add to an alias. -/
def columnsText (hops : List Hop) : List Char :=
  hops.flatMap fun h => '_' :: '_' :: h.field.column.toList

/-- The column of one relation of a model is that of another with `excess` behind it, and the hops
behind the two relations make up for the difference. -/
def Clash (c : Catalog) (m : Model) : Prop :=
  ∃ g h gs hs excess, Walked c m (g :: gs) ∧ Walked c m (h :: hs) ∧ excess ≠ [] ∧
    h.field.column.toList = g.field.column.toList ++ excess ∧ columnsText gs = excess ++ columnsText hs

theorem columnsText_append (gs hs : List Hop) :
    columnsText (gs ++ hs) = columnsText gs ++ columnsText hs :=
  List.flatMap_append

theorem columnsText_cons (h : Hop) (hs : List Hop) :
    columnsText (h :: hs) = '_' :: '_' :: (h.field.column.toList ++ columnsText hs) := rfl

theorem hopAlias_toList (root : String) (hops : List Hop) :
    (hopAlias root hops).toList = root.toList ++ columnsText hops := by
  induction hops using List.reverseRecOn with
  | nil => simp [columnsText]
  | append_singleton hs h ih =>
    have hseparator : Join.separator.toList = ['_', '_'] := rfl
    rw [hopAlias_snoc, String.toList_append, String.toList_append, ih, hseparator,
      columnsText_append]
    simp [columnsText]

theorem hopAlias_eq_iff {root : String} {hs hs' : List Hop} :
    hopAlias root hs = hopAlias root hs' ↔ columnsText hs = columnsText hs' := by
  rw [← String.toList_inj, hopAlias_toList, hopAlias_toList, List.append_cancel_left_eq]

/-- Without a clash on the way, hops are told apart by the text of their columns: the first
columns are the same, or one goes on where the other ends. -/
theorem eq_of_columnsText {c : Catalog} (hc : c.WellFormed) {m last last' : Model}
    (hm : m ∈ c.models) {hs hs' : List Hop} (hw : Follows c m hs last) (hw' : Follows c m hs' last')
    (hclash : ∀ ps n, Follows c m ps n → ¬ Clash c n) (h : columnsText hs = columnsText hs') :
    hs = hs' := by
  induction hs generalizing m hs' with
  | nil =>
    cases hs' with
    | nil => rfl
    | cons h' hs' => cases h
  | cons g gs ih =>
    cases hs' with
    | nil => cases h
    | cons g' gs' =>
      rw [columnsText_cons, columnsText_cons, List.cons_inj_right, List.cons_inj_right] at h
      have hcolumn : g.field.column.toList = g'.field.column.toList := by
        have hhere := hclash [] m (.stay m)
        rcases List.append_eq_append_iff.1 h with ⟨excess, hover, htext⟩ | ⟨excess, hover, htext⟩
        · by_cases hnil : excess = []
          · rw [hover, hnil, List.append_nil]
          · exact absurd ⟨g, g', gs, gs', excess, ⟨last, hw⟩, ⟨last', hw'⟩, hnil, hover, htext⟩ hhere
        · by_cases hnil : excess = []
          · rw [hover, hnil, List.append_nil]
          · exact absurd ⟨g', g, gs', gs, excess, ⟨last', hw'⟩, ⟨last, hw⟩, hnil, hover, htext⟩ hhere
      obtain ⟨mid, hg, hgs⟩ := hw.split_cons
      obtain ⟨mid', hg', hgs'⟩ := hw'.split_cons
      cases hg.hop_eq_of_column (hc.models m hm) hg' (String.toList_inj.1 hcolumn)
      cases hg.unique hg'
      rw [ih (hg.last_mem hm) hgs hgs' (fun ps n hps => hclash _ n (hg.append hps))
        (List.append_cancel_left h)]

theorem distinct_iff_no_clash {c : Catalog} (hc : c.WellFormed) {root : Model}
    (hroot : root ∈ c.models) :
    AliasesDistinct root.table (Walked c root) ↔ ∀ hs m, Follows c root hs m → ¬ Clash c m := by
  constructor
  · rintro hdistinct ps m hps ⟨g, h, gs, hs, excess, ⟨last, hg⟩, ⟨last', hh⟩, hover, hcolumn, htext⟩
    have halias : hopAlias root.table (ps ++ g :: gs) = hopAlias root.table (ps ++ h :: hs) := by
      rw [hopAlias_eq_iff, columnsText_append, columnsText_append, columnsText_cons,
        columnsText_cons, hcolumn, htext, List.append_assoc]
    have heq := hdistinct _ _ ⟨last, hps.append hg⟩ ⟨last', hps.append hh⟩ halias
    obtain ⟨rfl, -⟩ := List.cons.inj (List.append_cancel_left heq)
    exact hover (by simpa using hcolumn)
  · rintro hclash hs hs' ⟨last, hw⟩ ⟨last', hw'⟩ halias
    exact eq_of_columnsText hc hroot hw hw' hclash (hopAlias_eq_iff.1 halias)

/-- Paths lose no join exactly if the hops that they take have different aliases. No paths from
the root ever lose one exactly if all hops have, that is, if no columns on the way clash. -/
theorem joins_kept_iff {c : Catalog} (hc : c.Reachable) {d : Dialect} {q : Query} {k : Compiler}
    (hk : Compiler.new c d q = .ok k) :
    (∀ paths : List Path, (∀ path ∈ paths, ∃ r, k.resolve path = .ok r) →
      (k.KeepsJoins paths ↔ AliasesDistinct k.model.table (k.Passes paths))) ∧
    ((∀ paths : List Path, (∀ path ∈ paths, ∃ r, k.resolve path = .ok r) → k.KeepsJoins paths) ↔
      AliasesDistinct k.model.table (Walked c k.model)) ∧
    (AliasesDistinct k.model.table (Walked c k.model) ↔
      ∀ hs m, Follows c k.model hs m → ¬ Clash c m) := by
  obtain ⟨root, hroot, -, rfl⟩ := Compiler.new_ok hk
  refine ⟨fun paths hpaths => ?_, ?_, ?_⟩
  · exact keepsJoins_iff hc.wellFormed hroot hpaths
  · exact all_keepsJoins_iff (k := ⟨c, d, q, root⟩) hc.wellFormed hroot
  · exact distinct_iff_no_clash hc.wellFormed hroot

/-! ## Plain columns -/

/-- The second column is the first one with a single underscore behind it, or with two and
more. -/
def Extends (a b : String) : Prop :=
  b.toList = a.toList ++ ['_'] ∨ a.toList ++ ['_', '_'] <+: b.toList

instance (a b : String) : Decidable (Extends a b) :=
  inferInstanceAs (Decidable (_ ∨ _))

theorem extends_of_clash {g h : Hop} {gs hs : List Hop} {excess : List Char} (hover : excess ≠ [])
    (hcolumn : h.field.column.toList = g.field.column.toList ++ excess)
    (htext : columnsText gs = excess ++ columnsText hs) :
    Extends g.field.column h.field.column := by
  cases gs with
  | nil => exact absurd (List.append_eq_nil_iff.1 htext.symm).1 hover
  | cons next gs =>
    rw [columnsText_cons] at htext
    rcases excess with _ | ⟨a, _ | ⟨b, excess⟩⟩
    · exact absurd rfl hover
    · simp only [List.cons_append, List.cons.injEq] at htext
      rw [← htext.1] at hcolumn
      exact .inl hcolumn
    · simp only [List.cons_append, List.cons.injEq] at htext
      refine .inr ⟨excess, ?_⟩
      rw [hcolumn, ← htext.1, ← htext.2.1, List.append_assoc]
      rfl

/-- Relations of one model whose columns do not extend one another keep aliases apart. -/
theorem aliasesDistinct_of_columns {c : Catalog} (hc : c.WellFormed) {root : Model}
    (hroot : root ∈ c.models)
    (hcolumns : ∀ m ∈ c.models, ∀ f ∈ m.relations, ∀ f' ∈ m.relations,
      ¬ Extends f.column f'.column) :
    AliasesDistinct root.table (Walked c root) := by
  rw [distinct_iff_no_clash hc hroot]
  rintro ps m hps ⟨g, h, gs, hs, excess, ⟨last, hg⟩, ⟨last', hh⟩, hover, hcolumn, htext⟩
  cases hg with
  | hop hf hr _ _ =>
    cases hh with
    | hop hf' hr' _ _ =>
      exact hcolumns m (hps.last_mem hroot) _ (List.mem_filter.2 ⟨hf, hr⟩) _
        (List.mem_filter.2 ⟨hf', hr'⟩) (extends_of_clash hover hcolumn htext)

/-! ## Two staffs -/

/-- Employees with a boss, in the given column, and a deputy. -/
def employee (bossColumn deputyColumn : String) : Model :=
  (((Model.new "Employee").withField (.scalar "name" .text)).withField
    { Field.relation "boss" "Employee" with column := bossColumn }).withField
      { Field.relation "deputy" "Employee" with column := deputyColumn }

def staff (bossColumn deputyColumn : String) : Compiler :=
  ⟨⟨[employee bossColumn deputyColumn]⟩, .sqlite, .new "Employee", employee bossColumn deputyColumn⟩

def staffPaths : List Path := [.ofText "boss.boss.name", .ofText "deputy.name"]

/-- With plain columns no join of the two paths is lost. -/
theorem staff_keepsJoins : (staff "boss_id" "deputy_id").catalog.Reachable ∧
    (staff "boss_id" "deputy_id").KeepsJoins staffPaths := by
  have hreachable : (staff "boss_id" "deputy_id").catalog.Reachable :=
    .declare .empty (m := employee "boss_id" "deputy_id") rfl
  have hpaths : ∀ path ∈ staffPaths, ∃ r, (staff "boss_id" "deputy_id").resolve path = .ok r :=
    List.forall_mem_cons.2 ⟨⟨_, rfl⟩, List.forall_mem_singleton.2 ⟨_, rfl⟩⟩
  have hdistinct : AliasesDistinct (employee "boss_id" "deputy_id").table
      (Walked ⟨[employee "boss_id" "deputy_id"]⟩ (employee "boss_id" "deputy_id")) :=
    aliasesDistinct_of_columns hreachable.wellFormed (List.mem_singleton.2 rfl) (by decide)
  exact ⟨hreachable, (joins_kept_iff hreachable (d := .sqlite) (q := .new "Employee") rfl).2.1.2
    hdistinct staffPaths hpaths⟩

/-- The boss of the boss and the deputy have one alias, and the join of the deputy is lost. -/
theorem staff_loses_deputy : (staff "boss" "boss__boss").catalog.Reachable ∧
    (∀ path ∈ staffPaths, ∃ r, (staff "boss" "boss__boss").resolve path = .ok r) ∧
      ¬ (staff "boss" "boss__boss").KeepsJoins staffPaths := by
  refine ⟨.declare .empty (m := employee "boss" "boss__boss") rfl,
    List.forall_mem_cons.2 ⟨⟨_, rfl⟩, List.forall_mem_singleton.2 ⟨_, rfl⟩⟩, ?_⟩
  rintro ⟨set, columns, hset, hkeep⟩
  have hkept : (staff "boss" "boss__boss").resolveAll [] staffPaths =
      .ok ([.root (employee "boss" "boss__boss"),
          ⟨"employee", "employee__boss", some ⟨false, "boss", "employee"⟩⟩,
          ⟨"employee", "employee__boss__boss", some ⟨false, "boss", "employee__boss"⟩⟩],
        [⟨"employee__boss__boss", "name"⟩, ⟨"employee__boss__boss", "name"⟩]) := rfl
  cases hkept.symm.trans hset
  have hdeputy := hkeep (.ofText "deputy.name") (by simp [staffPaths]) _ rfl
    ⟨"employee", "employee__boss__boss", some ⟨false, "boss__boss", "employee"⟩⟩
    (List.mem_cons_of_mem _ (List.mem_singleton.2 rfl))
  exact absurd hdeputy (by decide)

end RecordModel
