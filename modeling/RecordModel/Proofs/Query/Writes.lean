import RecordModel.Proofs.Query.Evaluation
import RecordModel.Proofs.Query.Projected

/-!
# Rows that are written

An update and a deletion cannot join tables. A condition that stays within the root table is
their own WHERE clause; one that crosses relations goes into an inner query for the keys of
the rows that it holds for. The joins of a SELECT statement are put together from the paths it
projects first and those of the condition behind them, the joins of an inner query from the
condition alone, so the two agree only because a key is a column of the root table, and the
root table is the first one on every path.

What the statements do is read off their texts and arguments (`Statement.Gives`,
`Statement.Affects`).

Results:
* `Compiler.keys_eq`: the selection of keys has the joins, the terms and the failures of the
  target of an update or a deletion.
* `Target.Placed.columnQuery?_keys`, `Target.Placed.innerQuery?_condition`: its text and an inner
  query ask for the same keys.
* `Target.Placed.reaches_iff`: what is written directly or by an inner query are the rows with
  these keys.
* `written_rows`: an update and a deletion write the rows whose keys the SELECT statement gives,
  and bind the same arguments for their condition.
-/
namespace RecordModel

open RecordModel.Text RecordModel.Sql

/-- Keys are unique and never NULL. -/
structure Keyed {κ : Type} (t : Tables κ) (c : Catalog) : Prop where
  keys : ∀ m ∈ c.models, ∀ row ∈ t m.table, row idField ≠ none
  unique : ∀ m ∈ c.models, ((t m.table).map fun row => row idField).Nodup

theorem Sound.keyed {κ : Type} {t : Tables κ} {c : Catalog} (h : Sound t c) : Keyed t c :=
  ⟨h.keys, h.unique⟩

/-! ## Keys of a target -/

/-- The selection of the keys that a target's condition holds for. -/
def Target.keys (tgt : Target) : Selection where
  distinct := false
  columns := [⟨⟨tgt.table, idField⟩, idField⟩]
  joins := if tgt.joins.isEmpty then [tgt.root] else tgt.joins
  terms := tgt.terms
  groups := []
  orders := []
  limit := 0
  offset := 0

theorem Target.keys_joins {tgt : Target} (h : hasJoins tgt.joins = true) :
    tgt.keys.joins = tgt.joins := by
  cases hj : tgt.joins with
  | nil => rw [hj] at h; cases h
  | cons j js => simp [Target.keys, hj]

theorem Target.Placed.keys_alone {tgt : Target} {root : Model} (h : tgt.Placed root)
    (hnone : hasJoins tgt.joins = false) : tgt.keys.joins = [tgt.root] := by
  rcases h.alone hnone with hj | hj <;> simp [Target.keys, hj]

theorem Target.Placed.keys_chained {tgt : Target} {root : Model} (h : tgt.Placed root) :
    Chained root tgt.keys.joins := by
  cases hjoined : hasJoins tgt.joins with
  | true =>
    rw [Target.keys_joins hjoined]
    exact h.chained hjoined
  | false =>
    have hroot : tgt.root = .root root := by rw [Target.root, h.table]; rfl
    rw [h.keys_alone hjoined, hroot]
    exact .root

section

variable {κ : Type} [DecidableEq κ] {t : Tables κ}

theorem fromRows_single (table : String) :
    fromRows t [⟨table, table, none⟩] = (t table).map fun row => [(table, row)] := by
  simp [fromRows, Join.extend]

/-- As keys are unique, what holds for a row holds for a row with its key. -/
theorem holds_root_iff {table : String} (hkeys : ∀ row ∈ t table, row idField ≠ none)
    (hunique : ((t table).map fun row => row idField).Nodup) {row : TableRow κ}
    (hrow : row ∈ t table) (holds : Scope κ → Prop) :
    holds [(table, row)] ↔ ∃ v, row idField = some v ∧
      ∃ scope ∈ fromRows t [⟨table, table, none⟩], holds scope ∧
        cell scope ⟨table, idField⟩ = some v := by
  have hcell (r : TableRow κ) : cell [(table, r)] ⟨table, idField⟩ = r idField := by simp [cell]
  rw [fromRows_single]
  constructor
  · intro hholds
    obtain ⟨v, hv⟩ := Option.ne_none_iff_exists'.1 (hkeys row hrow)
    exact ⟨v, hv, _, List.mem_map_of_mem hrow, hholds, by rw [hcell, hv]⟩
  · rintro ⟨v, hv, scope, hscope, hholds, hkey⟩
    obtain ⟨r, hr, rfl⟩ := List.mem_map.1 hscope
    rw [hcell] at hkey
    have hsame : r = row := List.inj_on_of_nodup_map hunique hr hrow (hkey.trans hv.symm)
    rwa [hsame] at hholds

end

/-! ## Joins of a target -/

namespace Compiler

variable {k : Compiler}

/-- Every path starts at the root table. -/
theorem resolve_root {path : Path} {r : Resolution} (h : k.resolve path = .ok r) :
    ∃ joins, r.joins = .root k.model :: joins := by
  obtain ⟨last, -, hjoins, -⟩ := resolve_hops h
  rw [hjoins, tablesOf]
  cases k.hops path <;> exact ⟨_, rfl⟩

/-- With a path there is no difference between starting at the root table and with no table. -/
theorem resolveAll_root (path : Path) (rest : List Path) :
    k.resolveAll [.root k.model] (path :: rest) = k.resolveAll [] (path :: rest) := by
  rw [resolveAll, resolveAll]
  cases hr : k.resolve path with
  | error e => rfl
  | ok r =>
    obtain ⟨joins, hjoins⟩ := resolve_root hr
    have hset : addJoins [.root k.model] r.joins = addJoins [] r.joins := by
      rw [hjoins, addJoins, addJoins]
      simp
    simp only [bind, Except.bind, hset]

/-- The key of a well-formed model is a column of its own table. -/
theorem resolve_id (hc : k.catalog.WellFormed) (hm : k.model ∈ k.catalog.models) :
    ∃ f, k.resolve (.ofText idField) = .ok ⟨[.root k.model], f⟩ ∧ f.column = idField := by
  obtain ⟨f, hf, hcolumn, -⟩ := (hc.models _ hm).getField_id
  refine ⟨f, ?_, hcolumn⟩
  have hsegments : (Path.ofText idField).segments = [idField] := by decide
  have hempty : [idField].any String.isEmpty = false := by decide
  unfold Compiler.resolve RecordModel.resolve
  simp only [hsegments, hempty, walk, hf]
  rfl

theorem resolveAll_id (hc : k.catalog.WellFormed) (hm : k.model ∈ k.catalog.models) :
    k.resolveAll [] [.ofText idField] =
      .ok ([.root k.model], [⟨k.model.table, idField⟩]) := by
  obtain ⟨f, hid, hcolumn⟩ := resolve_id hc hm
  have hkey : (Resolution.mk [.root k.model] f).column = ⟨k.model.table, idField⟩ := by
    rw [Resolution.column, hcolumn]
    rfl
  simp only [resolveAll, hid, bind, Except.bind, hkey]
  rfl

end Compiler

/-- Neither grouped nor ordered, limited or told apart. -/
structure Query.Bare (q : Query) : Prop where
  groups : q.groups = []
  orders : q.orders = []
  limit : q.limit = 0
  offset : q.offset = 0
  distinct : q.distinct = false

theorem Compiler.keys_eq {c : Catalog} (hc : c.WellFormed) {d : Dialect} {q : Query}
    (hq : q.Bare) {root : Model} (hm : root ∈ c.models) :
    (Compiler.mk c d (q.select [idField]) root).selection
        (Compiler.mk c d (q.select [idField]) root).projection =
      Except.map Target.keys (Compiler.mk c d q root).target := by
  have hprojection : (Compiler.mk c d (q.select [idField]) root).projection =
      [.ofText idField] := rfl
  have hbare : (q.select [idField]).Bare :=
    ⟨hq.groups, hq.orders, hq.limit, hq.offset, hq.distinct⟩
  have horders : (q.select [idField]).orders.mapM SortKey.read = .ok [] := by
    rw [hbare.orders]
    rfl
  have hfirst := resolveAll_id (k := ⟨c, d, q, root⟩) hc hm
  have hnone (set : List Join) : (Compiler.mk c d q root).resolveAll set [] = .ok (set, []) := rfl
  have hcondition : (q.select [idField]).condition = q.condition := rfl
  have hlabel : (Path.ofText idField).text = idField := by decide
  have hempty : [(⟨root.table, idField⟩ : ColumnRef)].isEmpty = false := rfl
  unfold selection target
  rw [hprojection, horders]
  simp only [resolveAll_query (q.select [idField]) q, hfirst, hnone, bind, Except.bind,
    hcondition, hbare.groups, hbare.limit, hbare.offset, hbare.distinct, List.map_nil, hempty]
  cases hpaths : q.condition.paths with
  | nil =>
    simp only [hnone]
    cases compileNodes c d root q.condition.nodes with
    | error e => rfl
    | ok terms => simp [Except.map, pure, Except.pure, Target.keys, Target.root, Join.root, hlabel]
  | cons path rest =>
    have hroot := resolveAll_root (k := ⟨c, d, q, root⟩) path rest
    rw [hroot]
    cases hall : (Compiler.mk c d q root).resolveAll [] (path :: rest) with
    | error e => rfl
    | ok found =>
      obtain ⟨joins, columns⟩ := found
      have hjoins : joins.isEmpty = false := by
        have hextends := resolveAll_extends (hroot.trans hall)
        cases joins with
        | nil => exact absurd (List.prefix_nil.1 hextends) (List.cons_ne_nil _ _)
        | cons j js => rfl
      dsimp only
      cases compileNodes c d root q.condition.nodes with
      | error e => rfl
      | ok terms => simp [Except.map, pure, Except.pure, Target.keys, hjoins, hlabel]

theorem Compiler.plan_keys {c : Catalog} (hc : c.WellFormed) {d : Dialect} {q : Query}
    (hq : q.Bare) {root : Model} (hm : root ∈ c.models) :
    (Compiler.mk c d (q.select [idField]) root).plan .select =
      Except.map (fun tgt => .select tgt.keys) (Compiler.mk c d q root).target := by
  rw [plan, keys_eq hc hq hm]
  cases (Compiler.mk c d q root).target <;> rfl

/-! ## Texts of targets -/

theorem nil_intercalate {α : Type} (lss : List (List α)) : [].intercalate lss = lss.flatten := by
  induction lss with
  | nil => rfl
  | cons ls lss ih =>
    cases lss with
    | nil => simp
    | cons ms lss =>
      rw [List.intercalate_cons_cons, ih, List.append_nil]
      rfl

/-- The lexemes of a FROM clause are those of its tables. -/
theorem lexes_joinsText {joins : List Join}
    (h : ∀ j ∈ joins, ∀ link ∈ j.link, isIdentifier link.column = true) :
    Lexes (joinsText joins) (joins.flatMap Join.lexemes) := by
  have hall : List.Forall₂ Lexes (joins.map Join.text) (joins.map Join.lexemes) := by
    rw [List.forall₂_map_left_iff, List.forall₂_map_right_iff, List.forall₂_same]
    exact fun j hj => Join.lexes_text (h j hj)
  have hjoin := Lexes.join (by decide : Lexes " " []) (by decide) (by decide) hall
  rwa [nil_intercalate] at hjoin

theorem lexes_withClause {sql clause : String} {ls ms : List Lexeme} (hsql : Lexes sql ls)
    (hclause : Lexes clause ms) : Lexes (withClause sql clause) (ls ++ ms) := by
  unfold withClause
  split
  · rename_i hempty
    have hnone : clause = "" := by simpa using hempty
    rw [hnone] at hclause
    have hnil : [] = ms := hclause.lexemes
    rwa [← hnil, List.append_nil]
  · have hblank := hsql.before (by decide : Lexes " " []) (by decide)
    rw [List.append_nil] at hblank
    exact hblank.behind hclause (back_append (by decide) _)

theorem Chained.isFrom {root : Model} {set : List Join} (h : Chained root set) : IsFrom set := by
  obtain ⟨joins, hset, hjoins⟩ := h.joined
  exact ⟨root.table, joins, hset, hjoins⟩

namespace Target

/-- The query for the keys of the rows that a clause holds for. -/
def keyQuery (tgt : Target) (clause : String) : ColumnQuery :=
  ⟨⟨tgt.table, idField⟩, tgt.keys.joins, lexemes clause⟩

theorem keys_text (tgt : Target) (d : Dialect) (clause : String) :
    tgt.keys.text d clause = withClause (join " " ["SELECT",
      (Projection.mk ⟨tgt.table, idField⟩ idField).text, "FROM", joinsText tgt.keys.joins])
        clause := by
  have hlimit : part (d.limitOffsetSql tgt.keys.limit tgt.keys.offset) = [] := by cases d <;> rfl
  rw [← join_append_part (by simp), Selection.text, hlimit]
  simp [Target.keys, listPart, join]

end Target

namespace Target.Placed

variable {tgt : Target} {root : Model} {clause : String} (h : tgt.Placed root)
  (hclause : DirectClause clause)

include h hclause

/-- What the text of the selection of keys asks for. -/
theorem columnQuery?_keys (d : Dialect) :
    columnQuery? (lexemes (tgt.keys.text d clause)) = some (tgt.keyQuery clause) := by
  have hchained := h.keys_chained
  have hid : isIdentifier idField = true := by decide
  have hkey : Lexes (Projection.mk ⟨tgt.table, idField⟩ idField).text _ := Projection.lexes_text hid
  have hparts : List.Forall₂ Lexes
      ["SELECT", (Projection.mk ⟨tgt.table, idField⟩ idField).text, "FROM",
        joinsText tgt.keys.joins]
      [[.word "SELECT"], (Projection.mk ⟨tgt.table, idField⟩ idField).lexemes, [.word "FROM"],
        tgt.keys.joins.flatMap Join.lexemes] :=
    .cons (by decide) (.cons hkey (.cons (by decide)
      (.cons (lexes_joinsText hchained.identifiers) .nil)))
  have hjoin := Lexes.join (by decide : Lexes " " []) (by decide) (by decide) hparts
  have hall := lexes_withClause hjoin hclause.lexes
  have hread := columnQuery?_lexemes ⟨tgt.table, idField⟩ (some idField) hchained.isFrom
    hclause.isClause
  rw [keys_text, hall.lexemes, nil_intercalate]
  simp only [Projection.lexemes, List.flatten_cons, List.flatten_nil, List.append_nil,
    List.cons_append, List.nil_append]
  exact hread

/-- A condition across relations looks for keys in an inner query. -/
theorem lexes_condition (hjoined : hasJoins tgt.joins = true) :
    Lexes (tgt.condition clause) (.word "WHERE" :: .name tgt.table :: .mark '.' :: .word idField ::
      .word "IN" :: .mark '(' :: (.word "SELECT" :: .name tgt.table :: .mark '.' :: .word idField ::
        .word "FROM" :: (tgt.keys.joins.flatMap Join.lexemes ++ lexemes clause) ++
          [.mark ')'])) := by
  have hid : isIdentifier idField = true := by decide
  have hjoins : Lexes (joinsText tgt.joins) (tgt.keys.joins.flatMap Join.lexemes) := by
    have hall := lexes_joinsText h.keys_chained.identifiers
    rwa [keys_joins hjoined] at hall ⊢
  have hkey := (lexes_column tgt.table hid).before (by decide : Lexes " FROM " [.word "FROM"])
    (by decide)
  have htables := (hkey.behind hjoins (back_append (by decide) _)).before
    (by decide : Lexes " " []) (by decide)
  have hall := lexes_inner tgt.table (htables.behind hclause.lexes (back_append (by decide) _))
  unfold condition
  rw [if_pos hjoined]
  simp only [ColumnRef.text, String.append_assoc, List.append_assoc, List.cons_append,
    List.nil_append] at hall ⊢
  exact hall

theorem innerQuery?_condition (hjoined : hasJoins tgt.joins = true) :
    innerQuery? (lexemes (tgt.condition clause)) =
      some (⟨tgt.table, idField⟩, tgt.keyQuery clause) := by
  have hread := columnQuery?_lexemes ⟨tgt.table, idField⟩ none h.keys_chained.isFrom
    hclause.isClause
  rw [(lexes_condition h hclause hjoined).lexemes]
  simp only [innerQuery?, List.getLast?_concat, List.dropLast_concat, and_self, if_true]
  exact Option.map_eq_some_iff.2 ⟨_, hread, rfl⟩

/-- The condition of a target is a clause too. -/
theorem lexes_clause : Lexes (tgt.condition clause) (lexemes (tgt.condition clause)) ∧
    IsClause (lexemes (tgt.condition clause)) := by
  by_cases hjoined : hasJoins tgt.joins = true
  · have hlexes := lexes_condition h hclause hjoined
    rw [hlexes.lexemes]
    exact ⟨hlexes, .inr ⟨_, rfl⟩⟩
  · unfold condition
    rw [if_neg hjoined]
    exact ⟨hclause.lexes, hclause.isClause⟩

/-- What the text of a deletion writes. -/
theorem rowWrite?_delete : rowWrite? (lexemes (tgt.deleteText clause)) =
    some ⟨tgt.table, 0, lexemes (tgt.condition clause)⟩ := by
  have htable := (by decide : Lexes "DELETE FROM " [.word "DELETE", .word "FROM"]).behind
    (lexes_quoteName tgt.table) (by decide)
  have hall := lexes_withClause htable (h.lexes_clause hclause).1
  rw [deleteText, hall.lexemes]
  simp [rowWrite?]

/-- What the text of an update writes. -/
theorem rowWrite?_update {assignments : List Assignment} (hne : assignments ≠ [])
    (hcolumns : ∀ a ∈ assignments, isIdentifier a.column = true) :
    rowWrite? (lexemes (tgt.updateText (assignments.map (Assignment.text fun _ => "?")) clause)) =
      some ⟨tgt.table, assignments.length, lexemes (tgt.condition clause)⟩ := by
  have hall := lexes_withClause (lexes_update hcolumns tgt.table) (h.lexes_clause hclause).1
  have hsome : assignments.map Assignment.column ≠ [] := by simpa using hne
  have hset := settings_intercalate hsome (h.lexes_clause hclause).2
  rw [updateText, hall.lexemes]
  simp only [List.cons_append, List.nil_append, rowWrite?, hset]
  simp

/-- What is written directly or by an inner query are the rows with the keys that the query for keys
gives. -/
theorem reaches_iff {κ : Type} [DecidableEq κ] {t : Tables κ} {judge : Judge κ}
    {args : List Value} (hkeys : ∀ row ∈ t tgt.table, row idField ≠ none)
    (hunique : ((t tgt.table).map fun row => row idField).Nodup) {row : TableRow κ}
    (hrow : row ∈ t tgt.table) (values : Nat) :
    (RowWrite.mk tgt.table values (lexemes (tgt.condition clause))).Reaches t judge args row ↔
      ∃ v, row idField = some v ∧ (tgt.keyQuery clause).Gives t judge args (some v) := by
  by_cases hjoined : hasJoins tgt.joins = true
  · -- the inner query is the query for keys
    have hcell : cell [(tgt.table, row)] ⟨tgt.table, idField⟩ = row idField := by simp [cell]
    simp only [RowWrite.Reaches, innerQuery?_condition h hclause hjoined, hcell]
  · -- the clause is about the row itself, and no other row has its key
    have hdirect : tgt.condition clause = clause := by rw [condition, if_neg hjoined]
    have halone := h.keys_alone (by simpa using hjoined)
    simp only [RowWrite.Reaches, hdirect, hclause.direct, ColumnQuery.Gives, keyQuery, halone]
    exact holds_root_iff hkeys hunique hrow fun scope =>
      ClauseHolds judge args scope (lexemes clause)

end Target.Placed

/-! ## Statements -/

namespace Compiler

/-- The text of the condition behind the tables of a statement. -/
def conditionText (k : Compiler) : String :=
  clauseText (fun l => (k.test l).spread) (pruneAll k.query.condition.nodes)

/-- What a database says of the condition of a query, for a joined row. -/
def conditionTruth {κ : Type} (k : Compiler) (judge : Judge κ) (scope : Scope κ) : Truth :=
  conditionValue (pruneAll k.query.condition.nodes)
    ((leavesAll k.query.condition.nodes).map fun l => (k.test l).spread.truth judge scope)

/-- A compiled SELECT statement for keys gives a value. -/
def Returns {κ : Type} [DecidableEq κ] (k : Compiler) (t : Tables κ) (judge : Judge κ)
    (v : Option κ) : Prop :=
  ∃ st, k.select = .ok st ∧ st.Gives t judge v

/-- A compiled update or deletion writes a row. -/
def Affects {κ : Type} [DecidableEq κ] (k : Compiler) (t : Tables κ) (judge : Judge κ)
    (op : Operation) (row : TableRow κ) : Prop :=
  ∃ st, k.run op = .ok st ∧ st.Affects t judge row

/-- The operation is a deletion, or an update whose payload is accepted. -/
def Writes (k : Compiler) : Operation → Prop
  | .delete => True
  | .update payload => ∃ assignments, k.assignments .update payload = .ok assignments
  | .select | .count | .insert _ => False

variable {k : Compiler} (hc : k.catalog.WellFormed) (hm : k.model ∈ k.catalog.models)

include hc hm

theorem directClause_conditionText
    (h : ∀ l ∈ leavesAll k.query.condition.nodes, k.Accepts l) : DirectClause k.conditionText := by
  refine directClause_clauseText fun l hl => ?_
  rw [leavesAll_pruneAll] at hl
  exact (h l hl).legible hc hm

/-- The text of the condition, with the operands of its leaves as arguments, holds just if the
condition does. -/
theorem clauseHolds_conditionText (h : ∀ l ∈ leavesAll k.query.condition.nodes, k.Accepts l)
    {κ : Type} (judge : Judge κ) (scope : Scope κ) :
    ClauseHolds judge ((leavesAll k.query.condition.nodes).flatMap Comparison.operands) scope
        (lexemes k.conditionText) ↔ k.conditionTruth judge scope = .holds := by
  have hlegible : ∀ l ∈ leavesAll (pruneAll k.query.condition.nodes),
      (k.test l).spread.Legible := by
    rw [leavesAll_pruneAll]
    exact fun l hl => (h l hl).legible hc hm
  have hholds := clauseHolds_clauseText judge scope (pruneAll_solid k.query.condition.nodes)
    hlegible
  rwa [leavesAll_pruneAll, operands_eq h] at hholds

/-- A writing operation is planned from its target alone, and its text says that the rows which the
condition of the target holds for are written. -/
theorem plan_of_writes {op : Operation} (hop : k.Writes op) :
    ∃ plan : Target → Plan, k.plan op = Except.map plan k.target ∧
      ∀ tgt, k.target = .ok tgt → ∀ clause, DirectClause clause →
        rowWrite? (lexemes ((plan tgt).text k.dialect (fun _ => "?") clause)) =
          some ⟨tgt.table, op.values.length, lexemes (tgt.condition clause)⟩ := by
  cases op with
  | select | count | insert payload => cases hop
  | update payload =>
    obtain ⟨assignments, ha⟩ := hop
    refine ⟨fun tgt => .update tgt assignments, ?_, fun tgt htgt clause hclause => ?_⟩
    · rw [plan, ha]
      cases k.target <;> rfl
    · have hlength : assignments.length = (Operation.update payload).values.length := by
        rw [Operation.values, ← (assignments_ok ha).1, List.length_map]
      rw [← hlength]
      refine (target_placed hc hm htgt).rowWrite?_update hclause (assignments_ne_nil ha)
        fun a hmem => ?_
      obtain ⟨f, hf, hcolumn⟩ := (assignments_ok ha).2 a hmem
      rw [hcolumn]
      exact ((hc.models _ hm).identifiers f hf).2
  | delete =>
    refine ⟨.delete, ?_, fun tgt htgt clause hclause => ?_⟩
    · rw [plan]
      cases k.target <;> rfl
    · exact (target_placed hc hm htgt).rowWrite?_delete hclause

omit hc hm in
theorem Writes.nodes_eq {op : Operation} (hop : k.Writes op) (cond : Condition) :
    op.nodes cond = cond.nodes := by
  cases op with
  | select | count | insert payload => cases hop
  | update payload | delete => rfl

variable {κ : Type} [DecidableEq κ] {t : Tables κ} {judge : Judge κ} {tgt : Target}
  (htgt : k.target = .ok tgt)

include htgt

/-- An update and a deletion write the rows with the keys that the query for keys gives. -/
theorem affects_iff (hkeys : ∀ row ∈ t k.model.table, row idField ≠ none)
    (hunique : ((t k.model.table).map fun row => row idField).Nodup) {op : Operation}
    (hop : k.Writes op) (row : TableRow κ) :
    k.Affects t judge op row ↔ row ∈ t k.model.table ∧ ∃ v, row idField = some v ∧
      (tgt.keyQuery k.conditionText).Gives t judge
        ((leavesAll k.query.condition.nodes).flatMap Comparison.operands) (some v) := by
  obtain ⟨plan, hplan, hread⟩ := plan_of_writes hc hm hop
  have hclause := directClause_conditionText hc hm
    (leaves_of_compileNodes (target_ok htgt).2.2).1
  have hplaced := target_placed hc hm htgt
  have hrun := run_of_plan hc hm (hplan.trans (congrArg (Except.map plan) htgt))
  rw [hop.nodes_eq, Operation.operands, hop.nodes_eq] at hrun
  have hwrite := hread tgt htgt _ hclause
  rw [← hplaced.table] at hkeys hunique ⊢
  constructor
  · rintro ⟨st, hst, w, hw, hrow, hreached⟩
    cases hrun.symm.trans hst
    cases hwrite.symm.trans hw
    rw [List.drop_left] at hreached
    exact ⟨hrow, (hplaced.reaches_iff hclause hkeys hunique hrow _).1 hreached⟩
  · rintro ⟨hrow, hgiven⟩
    refine ⟨_, hrun, _, hwrite, hrow, ?_⟩
    rw [List.drop_left]
    exact (hplaced.reaches_iff hclause hkeys hunique hrow _).2 hgiven

end Compiler

section

variable {c : Catalog} (hc : c.WellFormed) {d : Dialect} {q : Query} (hq : q.Bare) {root : Model}
  (hm : root ∈ c.models)

include hc hq hm

/-- The SELECT statement for keys is that of the target's keys. -/
theorem Compiler.select_keys {tgt : Target} (htgt : (Compiler.mk c d q root).target = .ok tgt) :
    (Compiler.mk c d (q.select [idField]) root).select =
      .ok ⟨tgt.keys.text d (Compiler.mk c d q root).conditionText,
        (leavesAll q.condition.nodes).flatMap Comparison.operands⟩ := by
  have hplan := plan_keys hc (d := d) hq hm
  rw [htgt] at hplan
  exact run_of_plan hc hm hplan

theorem Compiler.returns_iff {κ : Type} [DecidableEq κ] (t : Tables κ) (judge : Judge κ)
    {tgt : Target} (htgt : (Compiler.mk c d q root).target = .ok tgt) (v : Option κ) :
    (Compiler.mk c d (q.select [idField]) root).Returns t judge v ↔
      (tgt.keyQuery (Compiler.mk c d q root).conditionText).Gives t judge
        ((leavesAll q.condition.nodes).flatMap Comparison.operands) v := by
  have hselect := select_keys hc hq hm htgt
  have hclause := directClause_conditionText (k := ⟨c, d, q, root⟩) hc hm
    (leaves_of_compileNodes (target_ok htgt).2.2).1
  have hread := (target_placed hc hm htgt).columnQuery?_keys hclause d
  constructor
  · rintro ⟨st, hst, asked, hasked, hgiven⟩
    cases hselect.symm.trans hst
    cases hread.symm.trans hasked
    exact hgiven
  · intro hgiven
    exact ⟨_, hselect, _, hread, hgiven⟩

end

/-- For a query that is neither grouped, ordered, limited nor made distinct, an update and a
deletion write exactly the rows of the root table whose keys the SELECT statement for keys
gives; and all three bind the same arguments for the condition, or fail with the same error. What
the SELECT statement gives are the keys of the joined rows that the condition holds for. -/
theorem written_rows {κ : Type} [DecidableEq κ] {c : Catalog} (hc : c.Reachable) {d : Dialect}
    {q : Query} (hq : q.Bare) {k ids : Compiler} (hk : Compiler.new c d q = .ok k)
    (hids : Compiler.new c d (q.select [idField]) = .ok ids) {t : Tables κ} (hkeys : Keyed t c)
    (judge : Judge κ) {op : Operation} (hop : k.Writes op) :
    Except.map Statement.args (k.run op) =
        Except.map (fun st => op.values ++ st.args) ids.select ∧
      (∀ row, k.Affects t judge op row ↔
        row ∈ t k.model.table ∧ ∃ v, row idField = some v ∧ ids.Returns t judge (some v)) ∧
      ∀ v, ids.Returns t judge v ↔ ∃ s, ids.selection ids.projection = .ok s ∧
        ∃ scope ∈ fromRows t s.joins, k.conditionTruth judge scope = .holds ∧
          cell scope ⟨k.model.table, idField⟩ = v := by
  obtain ⟨root, hm, hroot, rfl⟩ := Compiler.new_ok hk
  obtain ⟨root', -, hroot', rfl⟩ := Compiler.new_ok hids
  have hmodel : c.getModel q.model = .ok root' := hroot'
  cases hroot.symm.trans hmodel
  have hwf := hc.wellFormed
  have hselection := Compiler.keys_eq hwf (d := d) hq hm
  obtain ⟨plan, hplan, -⟩ := Compiler.plan_of_writes hwf hm hop
  cases htgt : (Compiler.mk c d q root).target with
  | error e =>
    -- nothing is written, and no key is given
    have hselect : (Compiler.mk c d (q.select [idField]) root).select = .error e := by
      have hrun := Compiler.run_eq ⟨c, d, q.select [idField], root⟩ .select
      rwa [Compiler.plan_keys hwf hq hm, htgt] at hrun
    have hrun : (Compiler.mk c d q root).run op = .error e := by
      rw [Compiler.run_eq, hplan, htgt]
      rfl
    rw [htgt] at hselection
    simp [Compiler.Affects, Compiler.Returns, hselect, hrun, hselection, Except.map]
  | ok tgt =>
    have hselect := Compiler.select_keys hwf (d := d) hq hm htgt
    have haccepts := (Compiler.leaves_of_compileNodes (Compiler.target_ok htgt).2.2).1
    have hreturns (v : Option κ) := Compiler.returns_iff hwf hq hm t judge htgt v
    rw [htgt] at hplan hselection
    have hrun := Compiler.run_of_plan hwf hm hplan
    refine ⟨?_, fun row => ?_, fun v => ?_⟩
    · rw [hrun, hselect, Operation.operands, hop.nodes_eq]
      rfl
    · rw [Compiler.affects_iff hwf hm htgt (hkeys.keys root hm) (hkeys.unique root hm) hop]
      simp only [hreturns]
    · have htable := (Compiler.target_ok htgt).1
      have hholds (scope : Scope κ) := Compiler.clauseHolds_conditionText (k := ⟨c, d, q, root⟩)
        hwf hm haccepts judge scope
      rw [hreturns, hselection]
      simp only [Sql.ColumnQuery.Gives, Target.keyQuery, hholds, Except.map, Except.ok.injEq,
        exists_eq_left', htable]

/-! ## Tickets of a team -/

/-- Tickets that are assigned to a member of the first team. -/
def teamTickets : Query :=
  (Query.new "Ticket").filter
    (Condition.empty.addLeaf .and (.ofText "assignee.team") .equals (.integer 1))

/-- Comparing with a number; NULL makes it unknown. -/
def numberJudge : Judge Nat := fun sql args value =>
  match sql, args, value with
  | [.mark '=', .mark '?'], [.integer i], some n => if i.toInt = n then .holds else .fails
  | _, _, _ => .unknown

/-- The ticket that is assigned to a member of the team. -/
def assignedTicket : TableRow Nat := fun column => [("id", 1), ("assignee_id", 1)].lookup column

/-- The ticket that is assigned to nobody. -/
def unassignedTicket : TableRow Nat := fun column => [("id", 2)].lookup column

def assignedScope : Scope Nat :=
  [("ticket", assignedTicket),
    ("ticket__assignee_id", fun column => [("id", 1), ("team_id", 1)].lookup column)]

def unassignedScope : Scope Nat :=
  [("ticket", unassignedTicket), ("ticket__assignee_id", nullRow)]

/-- Deleting them takes an inner query, which deletes the assigned ticket and leaves the other
one. -/
theorem teamTickets_deleted :
    helpDesk.catalog.Reachable ∧ teamTickets.Bare ∧ Keyed helpDeskTables helpDesk.catalog ∧
      ∃ k st, Compiler.new helpDesk.catalog .sqlite teamTickets = .ok k ∧ k.run .delete = .ok st ∧
        st.sql = "DELETE FROM \"ticket\" WHERE \"ticket\".id IN (SELECT \"ticket\".id "
          ++ "FROM \"ticket\" LEFT JOIN \"member\" AS \"ticket__assignee_id\" "
          ++ "ON \"ticket\".assignee_id = \"ticket__assignee_id\".id "
          ++ "WHERE \"ticket__assignee_id\".team_id = ?)" ∧
        k.Affects helpDeskTables numberJudge .delete assignedTicket ∧
        ¬ k.Affects helpDeskTables numberJudge .delete unassignedTicket := by
  have hbare : teamTickets.Bare := ⟨rfl, rfl, rfl, rfl, rfl⟩
  have hnew : Compiler.new helpDesk.catalog .sqlite teamTickets =
      .ok ⟨helpDesk.catalog, .sqlite, teamTickets, ticket⟩ := rfl
  have hids : Compiler.new helpDesk.catalog .sqlite (teamTickets.select [idField]) =
      .ok ⟨helpDesk.catalog, .sqlite, teamTickets.select [idField], ticket⟩ := rfl
  have hop : (Compiler.mk helpDesk.catalog .sqlite teamTickets ticket).Writes .delete := trivial
  obtain ⟨-, hwritten, hreturns⟩ := written_rows helpDesk_reachable hbare hnew hids
    helpDesk_sound.keyed numberJudge hop
  refine ⟨helpDesk_reachable, hbare, helpDesk_sound.keyed, _, _, hnew, rfl, by decide +kernel, ?_,
    fun haffected => ?_⟩
  · refine (hwritten assignedTicket).2 ⟨List.mem_cons_self, 1, rfl, (hreturns _).2 ?_⟩
    exact ⟨_, rfl, assignedScope, List.mem_cons_self, rfl, rfl⟩
  · obtain ⟨-, v, hv, hreturned⟩ := (hwritten unassignedTicket).1 haffected
    obtain ⟨s, hs, scope, hscope, hholds, hkey⟩ := (hreturns _).1 hreturned
    cases hs
    have hrows : scope ∈ [assignedScope, unassignedScope] := hscope
    rcases List.mem_cons.1 hrows with rfl | hrows
    · exact absurd (hkey.trans hv.symm) (by decide)
    · rw [List.mem_singleton.1 hrows] at hholds
      cases hholds

end RecordModel
