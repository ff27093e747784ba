import RecordModel.Proofs.Query.Alias
import RecordModel.Proofs.Query.Reading

/-!
# Rows of a FROM clause

A FROM clause is evaluated from left to right: the root table first, then one join after the
other, each row so far being extended by the rows that the ON condition holds for. Where no
row is found, an inner join drops the row so far, and a left join extends it by NULLs.

In a database whose keys are unique and whose relations refer to existing records, the
joined rows are root records: each of them at most once, in the order of the root table. As
every hop is an inner join just if its own relation is required, a root record is left out
exactly if a path meets a relation that is NULL and a required one behind it.

Results:
* `fromRows_tree`: the joined rows of a tree of tables.
* `fromRows_selection`: the root records among the joined rows of a SELECT statement.
-/
namespace RecordModel

open RecordModel.Sql

/-- A stored row: the value of each column, and none for NULL. -/
abbrev TableRow (κ : Type) := String → Option κ

/-- The rows of each table. -/
abbrev Tables (κ : Type) := String → List (TableRow κ)

/-- A joined row: a row for each alias so far. -/
abbrev Scope (κ : Type) := List (String × TableRow κ)

/-- The row that a left join puts in place of a missing one. -/
def nullRow {κ : Type} : TableRow κ := fun _ => none

/-- Keys are unique and never NULL, and a relation refers to an existing record of its target,
unless it is optional and NULL. -/
structure Sound {κ : Type} (t : Tables κ) (c : Catalog) : Prop where
  keys : ∀ m ∈ c.models, ∀ row ∈ t m.table, row idField ≠ none
  unique : ∀ m ∈ c.models, ((t m.table).map fun row => row idField).Nodup
  required : ∀ m ∈ c.models, ∀ f ∈ m.fields, ∀ target, c.related f = .ok target →
    f.required = true → ∀ row ∈ t m.table, row f.column ≠ none
  references : ∀ m ∈ c.models, ∀ f ∈ m.fields, ∀ target, c.related f = .ok target →
    ∀ row ∈ t m.table, ∀ v, row f.column = some v → ∃ next ∈ t target.table, next idField = some v

section

variable {κ : Type} [DecidableEq κ]

/-- Is the database sound? -/
def soundCheck (t : Tables κ) (c : Catalog) : Bool :=
  c.models.all fun m =>
    decide ((t m.table).map fun row => row idField).Nodup &&
      (t m.table).all fun row => (row idField).isSome &&
        m.fields.all fun f =>
          match c.related f, row f.column with
          | .error _, _ => true
          | .ok _, none => !f.required
          | .ok target, some v => (t target.table).any fun next => decide (next idField = some v)

theorem sound_of_check {t : Tables κ} {c : Catalog} (h : soundCheck t c = true) : Sound t c := by
  unfold soundCheck at h
  simp only [List.all_eq_true, Bool.and_eq_true, decide_eq_true_eq] at h
  refine ⟨fun m hm row hrow => ?_, fun m hm => (h m hm).1, ?_, ?_⟩
  · exact Option.isSome_iff_ne_none.1 ((h m hm).2 row hrow).1
  · intro m hm f hf target ht hreq row hrow hnull
    have hfield := ((h m hm).2 row hrow).2 f hf
    simp [ht, hnull, hreq] at hfield
  · intro m hm f hf target ht row hrow v hv
    have hfield := ((h m hm).2 row hrow).2 f hf
    simpa [ht, hv] using hfield

/-! ## Evaluation -/

def cell (scope : Scope κ) (r : ColumnRef) : Option κ :=
  (scope.lookup r.aliasName).bind fun row => row r.column

/-- Does the ON condition hold? A NULL on a side makes it unknown. -/
def Join.holdsOn (j : Join) (link : JoinLink) (scope : Scope κ) : Bool :=
  match cell scope ⟨link.previous, link.column⟩, cell scope ⟨j.aliasName, idField⟩ with
  | some a, some b => decide (a = b)
  | _, _ => false

/-- The joined rows that one joined row is extended to. -/
def Join.extend (t : Tables κ) (j : Join) (scope : Scope κ) : List (Scope κ) :=
  let extended := (t j.table).map fun row => scope ++ [(j.aliasName, row)]
  match j.link with
  | none => extended
  | some link =>
    let found := extended.filter (j.holdsOn link)
    if !link.required && found.isEmpty then [scope ++ [(j.aliasName, nullRow)]] else found

/-- The joined rows of a FROM clause. -/
def fromRows (t : Tables κ) (joins : List Join) : List (Scope κ) :=
  joins.foldl (fun scopes j => scopes.flatMap (j.extend t)) [[]]

/-! ## Records on the way -/

/-- The record that a relation of a row refers to. -/
def next? (t : Tables κ) (row : TableRow κ) (h : Hop) : Option (TableRow κ) :=
  (row h.field.column).bind fun v => (t h.target.table).find? fun r => r idField = some v

/-- The record that hops lead to, unless a relation on the way is NULL. -/
def follow (t : Tables κ) (row : TableRow κ) : List Hop → Option (TableRow κ)
  | [] => some row
  | h :: rest => (next? t row h).bind fun r => follow t r rest

/-- If a relation on the way is NULL, then none behind it is required. -/
def survives (t : Tables κ) (row : TableRow κ) : List Hop → Bool
  | [] => true
  | h :: rest =>
    match next? t row h with
    | some r => survives t r rest
    | none => rest.all fun g => !g.field.required

theorem follow_snoc (t : Tables κ) (row : TableRow κ) (hs : List Hop) (h : Hop) :
    follow t row (hs ++ [h]) = (follow t row hs).bind fun r => next? t r h := by
  induction hs generalizing row with
  | nil => simp [follow]
  | cons g hs ih => simp [follow, ih, Option.bind_assoc]

theorem filter_eq_find? {rows : List (TableRow κ)} (h : (rows.map fun row => row idField).Nodup)
    (v : κ) : (rows.filter fun row => row idField = some v) =
      (rows.find? fun row => row idField = some v).toList := by
  induction rows with
  | nil => rfl
  | cons row rows ih =>
    obtain ⟨hrow, hrows⟩ := List.nodup_cons.1 h
    by_cases hv : row idField = some v
    · have hnone : rows.filter (fun r => r idField = some v) = [] := by
        refine List.filter_eq_nil_iff.2 fun r hr he => hrow ?_
        have heq : r idField = row idField := by rw [hv]; simpa using he
        exact List.mem_map.2 ⟨r, hr, heq⟩
      simp [hv, hnone]
    · simp [hv, ih hrows]

/-! ## Extending one row -/

/-- A hop's record is there, or the hop is optional. -/
def kept (t : Tables κ) (row : TableRow κ) (hops : List Hop) : Bool :=
  match hops.getLast? with
  | none => true
  | some h => !h.field.required || (follow t row hops).isSome

/-- The joined row that a root record is extended to. -/
def scopeOf (t : Tables κ) (root : Model) (ps : List (List Hop)) (row : TableRow κ) : Scope κ :=
  ps.map fun p => (hopAlias root.table p, (follow t row p).getD nullRow)

variable {t : Tables κ} {root : Model}

theorem lookup_scopeOf {ps : List (List Hop)} (hdistinct : AliasesDistinct root.table (· ∈ ps))
    {p : List Hop} (hp : p ∈ ps) (row : TableRow κ) (behind : Scope κ) :
    (scopeOf t root ps row ++ behind).lookup (hopAlias root.table p) =
      some ((follow t row p).getD nullRow) := by
  induction ps with
  | nil => exact absurd hp (List.not_mem_nil)
  | cons q ps ih =>
    rw [scopeOf, List.map_cons, List.cons_append, List.lookup_cons]
    by_cases he : hopAlias root.table p = hopAlias root.table q
    · cases hdistinct p q hp (by simp) he
      simp
    · have hps : p ∈ ps := (List.mem_cons.1 hp).resolve_left fun hpq => he (by rw [hpq])
      have hne : (hopAlias root.table p == hopAlias root.table q) = false := by simpa using he
      rw [hne]
      exact ih (hdistinct.mono fun a ha => List.mem_cons_of_mem _ ha) hps

theorem lookup_scopeOf_new {ps : List (List Hop)} {p : List Hop}
    (hnew : ∀ q ∈ ps, hopAlias root.table q ≠ hopAlias root.table p) (row r : TableRow κ) :
    (scopeOf t root ps row ++ [(hopAlias root.table p, r)]).lookup (hopAlias root.table p) =
      some r := by
  induction ps with
  | nil => simp [scopeOf]
  | cons q ps ih =>
    rw [scopeOf, List.map_cons, List.cons_append, List.lookup_cons]
    have hne : (hopAlias root.table p == hopAlias root.table q) = false := by
      simpa using fun he => hnew q (by simp) he.symm
    rw [hne]
    exact ih fun a ha => hnew a (List.mem_cons_of_mem _ ha)

omit [DecidableEq κ] in
theorem getD_nullRow (row? : Option (TableRow κ)) (column : String) :
    row?.getD nullRow column = row?.bind fun r => r column := by
  cases row? <;> rfl

theorem follow_value (t : Tables κ) (row : TableRow κ) (p : List Hop) (h : Hop) :
    follow t row (p ++ [h]) = ((follow t row p).bind fun r => r h.field.column).bind fun v =>
      (t h.target.table).find? fun r => r idField = some v := by
  rw [follow_snoc, Option.bind_assoc]
  rfl

/-- Rows whose key is a value that may be NULL. -/
theorem filter_value {rows : List (TableRow κ)} (h : (rows.map fun row => row idField).Nodup)
    (v? : Option κ) :
    (rows.filter fun r => match v?, r idField with
      | some a, some b => decide (a = b)
      | _, _ => false) =
        (v?.bind fun v => rows.find? fun r => r idField = some v).toList := by
  cases v? with
  | none => simp
  | some v =>
    rw [Option.bind_some, ← filter_eq_find? h]
    congr 1
    funext r
    cases hr : r idField with
    | none => simp
    | some b => simp [eq_comm]

/-- What one join does to the joined row of a root record. -/
theorem extend_scopeOf {ps : List (List Hop)} {p : List Hop} {h : Hop} (hp : p ∈ ps)
    (hnew : p ++ [h] ∉ ps)
    (hdistinct : AliasesDistinct root.table (· ∈ ps ++ [p ++ [h]]))
    (hunique : ((t h.target.table).map fun row => row idField).Nodup) (row : TableRow κ) :
    (joinAt root (p ++ [h])).extend t (scopeOf t root ps row) =
      if kept t row (p ++ [h]) then [scopeOf t root (ps ++ [p ++ [h]]) row] else [] := by
  have hps : AliasesDistinct root.table (· ∈ ps) :=
    hdistinct.mono fun a ha => List.mem_append_left _ ha
  have haliases : ∀ q ∈ ps, hopAlias root.table q ≠ hopAlias root.table (p ++ [h]) :=
    fun q hq he => hnew (hdistinct q (p ++ [h]) (List.mem_append_left _ hq) (by simp) he ▸ hq)
  have hscope : scopeOf t root (ps ++ [p ++ [h]]) row = scopeOf t root ps row ++
      [(hopAlias root.table (p ++ [h]), (follow t row (p ++ [h])).getD nullRow)] := by
    simp [scopeOf]
  have hkept : kept t row (p ++ [h]) = (!h.field.required || (follow t row (p ++ [h])).isSome) := by
    simp [kept]
  have hfound : ((t h.target.table).map fun r => scopeOf t root ps row ++
      [(hopAlias root.table (p ++ [h]), r)]).filter ((joinAt root (p ++ [h])).holdsOn
        ⟨h.field.required, h.field.column, hopAlias root.table p⟩) =
      (follow t row (p ++ [h])).toList.map fun r => scopeOf t root ps row ++
        [(hopAlias root.table (p ++ [h]), r)] := by
    rw [List.filter_map, follow_value, ← filter_value hunique]
    congr 2
    funext r
    simp only [Function.comp_apply, Join.holdsOn, cell, joinAt_aliasName, lookup_scopeOf hps hp,
      lookup_scopeOf_new haliases, Option.bind_some, getD_nullRow]
  have htable : (joinAt root (p ++ [h])).table = h.target.table := by rw [joinAt_snoc]; rfl
  have hlink : (joinAt root (p ++ [h])).link =
      some ⟨h.field.required, h.field.column, hopAlias root.table p⟩ := by rw [joinAt_snoc]; rfl
  rw [Join.extend, htable, hlink, joinAt_aliasName, hscope, hkept]
  simp only [hfound]
  cases h.field.required <;> cases follow t row (p ++ [h]) <;> simp

/-! ## The tree of tables -/

theorem flatMap_singleton_of_filter {α β : Type} (xs : List α) (keep : α → Bool) (g : α → β) :
    (xs.flatMap fun x => if keep x then [g x] else []) = (xs.filter keep).map g := by
  induction xs with
  | nil => rfl
  | cons x xs ih => by_cases h : keep x = true <;> simp [h, ih]

theorem fromRows_snoc (t : Tables κ) (joins : List Join) (j : Join) :
    fromRows t (joins ++ [j]) = (fromRows t joins).flatMap (j.extend t) := by
  simp [fromRows]

theorem fromRows_root (t : Tables κ) (root : Model) :
    fromRows t [joinAt root []] = (t root.table).map (scopeOf t root [[]]) := by
  simp [fromRows, Join.extend, Join.root, scopeOf, follow]

/-- The joined rows of a tree are root records, each with the records that its hops lead to;
a root record stays if all these are kept. -/
theorem fromRows_tree {ps : List (List Hop)} (htree : Tree ps)
    (hdistinct : AliasesDistinct root.table (· ∈ ps))
    (hunique : ∀ p h, p ++ [h] ∈ ps → ((t h.target.table).map fun row => row idField).Nodup) :
    fromRows t (ps.map (joinAt root)) =
      ((t root.table).filter fun row => ps.all (kept t row)).map (scopeOf t root ps) := by
  induction htree with
  | root =>
    have hall : ((t root.table).filter fun row => [[]].all (kept t row)) = t root.table := by
      rw [List.filter_eq_self]
      simp [kept]
    rw [hall]
    exact fromRows_root t root
  | @grow ps p h _ hp hnew ih =>
    have hbefore := ih (hdistinct.mono fun a ha => List.mem_append_left _ ha)
      fun p h hmem => hunique p h (List.mem_append_left _ hmem)
    have hstep (row : TableRow κ) := extend_scopeOf hp hnew hdistinct (hunique p h (by simp)) row
    rw [List.map_append, List.map_singleton, fromRows_snoc, hbefore, List.flatMap_map]
    simp only [hstep]
    rw [flatMap_singleton_of_filter, List.filter_filter]
    congr 2
    funext row
    rw [List.all_append, Bool.and_comm]
    simp

/-! ## Root records that stay -/

theorem next?_mem {t : Tables κ} {row r : TableRow κ} {h : Hop} (hr : next? t row h = some r) :
    r ∈ t h.target.table := by
  obtain ⟨v, -, hfind⟩ := Option.bind_eq_some_iff.1 hr
  exact List.mem_of_find?_eq_some hfind

/-- In a sound database the record of a required relation is there. -/
theorem Sound.next?_isSome {c : Catalog} (hsound : Sound t c) {m last : Model} (hm : m ∈ c.models)
    {h : Hop} (hw : Follows c m [h] last) (hreq : h.field.required = true) {row : TableRow κ}
    (hrow : row ∈ t m.table) : (next? t row h).isSome := by
  cases hw with
  | hop hf _ ht _ =>
    obtain ⟨v, hv⟩ := Option.ne_none_iff_exists'.1 (hsound.required m hm _ hf _ ht hreq row hrow)
    obtain ⟨r, hr, hid⟩ := hsound.references m hm _ hf _ ht row hrow v hv
    rw [next?, hv, Option.bind_some, List.find?_isSome]
    exact ⟨r, hr, by simpa using hid⟩

theorem kept_cons (t : Tables κ) (row : TableRow κ) (h : Hop) {hs : List Hop} (hne : hs ≠ []) :
    kept t row (h :: hs) =
      match next? t row h with
      | some r => kept t r hs
      | none => hs.getLast?.all fun g => !g.field.required := by
  obtain ⟨g, hg⟩ := Option.isSome_iff_exists.1 (List.getLast?_isSome.2 hne)
  have hlast : (h :: hs).getLast? = some g := by rw [List.getLast?_cons_of_ne_nil hne, hg]
  unfold kept
  rw [hlast, hg, follow]
  cases next? t row h <;> simp

theorem kept_singleton (t : Tables κ) (row : TableRow κ) (h : Hop) :
    kept t row [h] = (!h.field.required || (next? t row h).isSome) := by
  cases hn : next? t row h <;> simp [kept, follow, hn]

/-- All records on the way are kept just if the root record survives. -/
theorem kept_iff_survives {c : Catalog} (hsound : Sound t c) {m last : Model} (hm : m ∈ c.models)
    {hs : List Hop} (hw : Follows c m hs last) {row : TableRow κ} (hrow : row ∈ t m.table) :
    (∀ q, q <+: hs → kept t row q = true) ↔ survives t row hs = true := by
  induction hs generalizing m row with
  | nil =>
    constructor
    · exact fun _ => rfl
    · intro _ q hq
      rw [List.prefix_nil.1 hq]
      rfl
  | cons h rest ih =>
    obtain ⟨mid, hstep, hrest⟩ := hw.split_cons
    have hfirst : kept t row [h] = true := by
      rw [kept_singleton, Bool.or_eq_true, Bool.not_eq_true']
      cases hreq : h.field.required with
      | false => exact .inl rfl
      | true => exact .inr (hsound.next?_isSome hm hstep hreq hrow)
    have hprefixes : (∀ q, q <+: h :: rest → kept t row q = true) ↔
        ∀ q, q ≠ [] → q <+: rest → kept t row (h :: q) = true := by
      constructor
      · exact fun hall q _ hq => hall (h :: q) ((List.prefix_cons_inj h).2 hq)
      · intro hall q hq
        rcases List.prefix_cons_iff.1 hq with rfl | ⟨q', rfl, hq'⟩
        · rfl
        · by_cases hne : q' = []
          · rw [hne]; exact hfirst
          · exact hall q' hne hq'
    rw [hprefixes, survives]
    cases hn : next? t row h with
    | some r =>
      have hmid : mid = h.target := hstep.target_eq
      subst hmid
      rw [← ih (hstep.last_mem hm) hrest (next?_mem hn)]
      constructor
      · intro hall q hq
        by_cases hne : q = []
        · rw [hne]; rfl
        · have hkept := hall q hne hq
          rwa [kept_cons t row h hne, hn] at hkept
      · intro hall q hne hq
        rw [kept_cons t row h hne, hn]
        exact hall q hq
    | none =>
      simp only [List.all_eq_true]
      constructor
      · intro hall g hg
        obtain ⟨before, behind, rfl⟩ := List.append_of_mem hg
        have hkept := hall (before ++ [g]) (by simp) ⟨behind, by simp⟩
        rw [kept_cons t row h (by simp), hn] at hkept
        simpa using hkept
      · intro hall q hne hq
        rw [kept_cons t row h hne, hn]
        obtain ⟨g, hg⟩ := Option.isSome_iff_exists.1 (List.getLast?_isSome.2 hne)
        rw [hg]
        exact hall g (hq.subset (List.mem_of_getLast? hg))

/-- No required relation stands behind an optional one. -/
def RequiredFirst (hops : List Hop) : Prop :=
  hops.Pairwise fun h g => g.field.required = true → h.field.required = true

theorem survives_of_requiredFirst {c : Catalog} (hsound : Sound t c) {m last : Model}
    (hm : m ∈ c.models) {hs : List Hop} (hw : Follows c m hs last) (hfirst : RequiredFirst hs)
    {row : TableRow κ} (hrow : row ∈ t m.table) : survives t row hs = true := by
  induction hs generalizing m row with
  | nil => rfl
  | cons h rest ih =>
    obtain ⟨mid, hstep, hrest⟩ := hw.split_cons
    obtain ⟨hbehind, hfirst⟩ := List.pairwise_cons.1 hfirst
    rw [survives]
    cases hn : next? t row h with
    | some r =>
      have hmid : mid = h.target := hstep.target_eq
      subst hmid
      exact ih (hstep.last_mem hm) hrest hfirst (next?_mem hn)
    | none =>
      simp only [List.all_eq_true, Bool.not_eq_true']
      intro g hg
      by_contra hreq
      have hsome := hsound.next?_isSome hm hstep (hbehind g hg (by simpa using hreq)) hrow
      rw [hn] at hsome
      cases hsome

/-! ## Statements -/

/-- The root records among the joined rows of resolved paths. -/
theorem fromRows_resolveAll {k : Compiler} (hm : k.model ∈ k.catalog.models)
    (hsound : Sound t k.catalog) {paths : List Path}
    (hne : paths ≠ []) (hdistinct : AliasesDistinct k.model.table (k.Passes paths))
    {set : List Join} {columns : List ColumnRef}
    (h : k.resolveAll [] paths = .ok (set, columns)) :
    (fromRows t set).map (fun scope => scope.lookup k.model.table) =
      ((t k.model.table).filter fun row =>
        paths.all fun path => survives t row (k.hops path)).map some := by
  have hresolved := Compiler.resolve_of_resolveAll h
  have hstart : k.resolveAll (([] : List (List Hop)).map (joinAt k.model)) paths =
      .ok (set, columns) := h
  obtain ⟨ps, rfl, hps, hmem⟩ := Compiler.resolveAll_tables hdistinct (.inl rfl) (by simp)
    (fun q hq => hq) hstart
  have hmem' : ∀ q, q ∈ ps ↔ k.Passes paths q := by simpa using hmem
  obtain ⟨path, hpath⟩ := List.exists_mem_of_ne_nil _ hne
  have hroot : [] ∈ ps := (hmem' []).2 ⟨path, hpath, List.nil_prefix⟩
  have htree : Tree ps := hps.resolve_left fun hnil => by rw [hnil] at hroot; cases hroot
  have hd : AliasesDistinct k.model.table (· ∈ ps) := hdistinct.mono fun a ha => (hmem' a).1 ha
  have hunique : ∀ p h, p ++ [h] ∈ ps →
      ((t h.target.table).map fun row => row idField).Nodup := by
    intro p h hp
    obtain ⟨last, hw⟩ := ((hmem' _).1 hp).walked hresolved
    obtain ⟨mid, -, hstep⟩ := hw.split
    rw [← hstep.target_eq]
    exact hsound.unique last (hw.last_mem hm)
  have hkept : ∀ row ∈ t k.model.table, ps.all (kept t row) =
      paths.all fun path => survives t row (k.hops path) := by
    intro row hrow
    rw [Bool.eq_iff_iff, List.all_eq_true, List.all_eq_true]
    have hpath : ∀ path ∈ paths, (∀ q, q <+: k.hops path → kept t row q = true) ↔
        survives t row (k.hops path) = true := by
      intro path hp
      obtain ⟨r, hr⟩ := hresolved path hp
      obtain ⟨last, hw, -⟩ := Compiler.resolve_hops hr
      exact kept_iff_survives hsound hm hw hrow
    constructor
    · exact fun hall path hp => (hpath path hp).1 fun q hq => hall q ((hmem' q).2 ⟨path, hp, hq⟩)
    · intro hall q hq
      obtain ⟨path, hp, hpre⟩ := (hmem' q).1 hq
      exact (hpath path hp).2 (hall path hp) q hpre
  have hlookup (row : TableRow κ) :
      (scopeOf t k.model ps row).lookup k.model.table = some row := by
    have hrow := lookup_scopeOf (t := t) hd hroot row []
    rw [List.append_nil] at hrow
    exact hrow
  rw [fromRows_tree htree hd hunique, List.filter_congr hkept, List.map_map]
  exact List.map_congr_left fun row _ => hlookup row

/-- A query whose paths are resolved is compiled to a SELECT statement whose joined rows are root
records, each at most once and in order. A root record is left out exactly if some path
meets a relation that is NULL and a required one behind it, so none is if on no path a
required relation stands behind an optional one. -/
theorem fromRows_selection {c : Catalog} {d : Dialect} {q : Query} {k : Compiler}
    (hk : Compiler.new c d q = .ok k) {paths : List Path} (hne : paths ≠ [])
    {orders : List SortKey} (horders : q.orders.mapM SortKey.read = .ok orders)
    (hpaths : ∀ path ∈ k.used paths orders, ∃ r, k.resolve path = .ok r)
    (hoperators : ∀ l ∈ leavesAll q.condition.nodes, ∃ f, d.operatorSql l.operator l.argument = .ok f)
    (hsound : Sound t c)
    (hdistinct : AliasesDistinct k.model.table (k.Passes (k.used paths orders))) :
    ∃ s, k.selection paths = .ok s ∧
      (fromRows t s.joins).map (fun scope => scope.lookup k.model.table) =
        ((t k.model.table).filter fun row =>
          (k.used paths orders).all fun path => survives t row (k.hops path)).map some ∧
      ((∀ path ∈ k.used paths orders, RequiredFirst (k.hops path)) →
        (fromRows t s.joins).map (fun scope => scope.lookup k.model.table) =
          (t k.model.table).map some) := by
  obtain ⟨root, hm, -, rfl⟩ := Compiler.new_ok hk
  obtain ⟨s, hs⟩ := Compiler.exists_selection (k := ⟨c, d, q, root⟩) horders hne hpaths hoperators
  obtain ⟨orders', columns, horders', hjoins⟩ := Compiler.selection_joins hs
  cases horders.symm.trans horders'
  have hused : (Compiler.mk c d q root).used paths orders ≠ [] := by
    simp [Compiler.used, hne]
  have hrows := fromRows_resolveAll hm hsound hused hdistinct hjoins
  refine ⟨s, hs, hrows, fun hfirst => ?_⟩
  rw [hrows, List.filter_eq_self.2]
  intro row hrow
  rw [List.all_eq_true]
  intro path hp
  obtain ⟨r, hr⟩ := hpaths path hp
  obtain ⟨last, hw, -⟩ := Compiler.resolve_hops hr
  exact survives_of_requiredFirst hsound hm hw (hfirst path hp) hrow

end

/-! ## A help desk -/

def team : Model := (Model.new "Team").withField (.scalar "name" .text)

/-- A member of a team. -/
def member : Model :=
  ((Model.new "Member").withField (.scalar "name" .text)).withField
    { Field.relation "team" "Team" with required := true }

/-- A ticket, which may be assigned to a member. -/
def ticket : Model :=
  ((Model.new "Ticket").withField (.scalar "title" .text)).withField (.relation "assignee" "Member")

def helpDesk : Compiler := ⟨⟨[team, member, ticket]⟩, .sqlite, .new "Ticket", ticket⟩

theorem helpDesk_reachable : helpDesk.catalog.Reachable :=
  .declare (c := ⟨[team, member]⟩) (.declare (c := ⟨[team]⟩) (.declare .empty (m := team) rfl)
    (m := member) rfl) (m := ticket) rfl

/-- One ticket is assigned, the other is not. -/
def helpDeskTables : Tables Nat := fun table =>
  match table with
  | "team" => [fun column => [("id", 1)].lookup column]
  | "member" => [fun column => [("id", 1), ("team_id", 1)].lookup column]
  | "ticket" => [fun column => [("id", 1), ("assignee_id", 1)].lookup column,
      fun column => [("id", 2)].lookup column]
  | _ => []

theorem helpDesk_sound : Sound helpDeskTables helpDesk.catalog := sound_of_check rfl

theorem helpDesk_distinct {paths : List Path}
    (hpaths : ∀ path ∈ paths, ∃ r, helpDesk.resolve path = .ok r) :
    AliasesDistinct ticket.table (helpDesk.Passes paths) := by
  have hall : AliasesDistinct ticket.table (Walked helpDesk.catalog ticket) :=
    aliasesDistinct_of_columns helpDesk_reachable.wellFormed (by simp [helpDesk]) (by decide)
  exact hall.mono fun hs hw => hw.walked hpaths

/-- Asked for the names of members, both tickets are there; asked for the names of teams, the
one that is assigned. -/
theorem helpDesk_rows : Sound helpDeskTables helpDesk.catalog ∧
    (∃ s, helpDesk.selection [.ofText "assignee.name"] = .ok s ∧
      (fromRows helpDeskTables s.joins).map (fun scope => scope.lookup "ticket") =
        (helpDeskTables "ticket").map some) ∧
    ∃ s, helpDesk.selection [.ofText "assignee.team.name"] = .ok s ∧
      (fromRows helpDeskTables s.joins).map (fun scope => scope.lookup "ticket") =
        ((helpDeskTables "ticket").take 1).map some := by
  have hnew : Compiler.new helpDesk.catalog .sqlite (.new "Ticket") = .ok helpDesk := rfl
  have horders : (Query.new "Ticket").orders.mapM SortKey.read = .ok [] := rfl
  have hoperators : ∀ l ∈ leavesAll (Query.new "Ticket").condition.nodes,
      ∃ f, Dialect.sqlite.operatorSql l.operator l.argument = .ok f := by
    intro l hl
    cases hl
  have hnames : ∀ path ∈ [Path.ofText "assignee.name"], ∃ r, helpDesk.resolve path = .ok r :=
    List.forall_mem_singleton.2 ⟨_, rfl⟩
  have hteams : ∀ path ∈ [Path.ofText "assignee.team.name"],
      ∃ r, helpDesk.resolve path = .ok r :=
    List.forall_mem_singleton.2 ⟨_, rfl⟩
  have hsingle (path : Path) : [path] ≠ [] := List.cons_ne_nil path []
  obtain ⟨s1, hs1, -, hall⟩ := fromRows_selection hnew (hsingle (.ofText "assignee.name")) horders
    hnames hoperators helpDesk_sound (helpDesk_distinct hnames)
  obtain ⟨s2, hs2, hsome, -⟩ := fromRows_selection hnew (hsingle (.ofText "assignee.team.name"))
    horders hteams hoperators helpDesk_sound (helpDesk_distinct hteams)
  exact ⟨helpDesk_sound,
    ⟨s1, hs1, hall (List.forall_mem_singleton.2 (List.pairwise_singleton ..))⟩, s2, hs2, hsome⟩

/-- The ticket that is not assigned is no row of the FROM clause for the names of teams. -/
theorem helpDesk_drops_ticket :
    helpDesk.catalog.Reachable ∧ Sound helpDeskTables helpDesk.catalog ∧
      (helpDeskTables helpDesk.model.table).length = 2 ∧
        ∃ s, helpDesk.selection [.ofText "assignee.team.name"] = .ok s ∧
          (fromRows helpDeskTables s.joins).length = 1 :=
  ⟨helpDesk_reachable, helpDesk_sound, rfl, _, rfl, rfl⟩

end RecordModel
