import RecordModel.Proofs.Query.Alike
import RecordModel.Proofs.Query.Binding
import RecordModel.Proofs.Query.Scoping
import RecordModel.Proofs.Sql.Units

/-!
# The dialects agree

A query and a payload are compiled for two dialects. Paths are resolved in the catalog and
arguments are refused by the operators, and neither looks at the dialect, so that both
compilations fail with the same error or both succeed. If they succeed they bind the same
arguments, and their texts differ in the keyword of caseless matching and in the tail of a limited
query alone.

Results:
* `Compiler.plan_dialects`: plans are the same but for the texts of the leaves.
* `sameReading_clauseText`: clauses whose leaves have the same reading have the same reading.
* `Compiler.sameReading_text`: so have the statements around them.
* `run_dialects`: the statements for two dialects.
-/
namespace RecordModel

open RecordModel.Text RecordModel.Sql

/-! ## Plans -/

theorem operatorSql_dialects (d d' : Dialect) (op : Operator) (arg : Value) :
    Agree (fun _ _ => True) (d.operatorSql op arg) (d'.operatorSql op arg) := by
  unfold Dialect.operatorSql
  split
  · exact .error _
  · cases op with
    | isIn | notIn =>
      dsimp only
      split
      · exact .error _
      · exact .ok trivial
    | equals | notEquals | lower | lowerOrEqual | greater | greaterOrEqual | like | notLike
    | ilike | notIlike | likePattern | ilikePattern | isNull | isNotNull => exact .ok trivial

mutual
theorem compileNode_dialects (c : Catalog) (d d' : Dialect) (root : Model) : ∀ node : Node,
    Agree (fun _ _ => True) (compileNode c d root node) (compileNode c d' root node)
  | .leaf link path op arg => by
    rw [compileNode, compileNode]
    exact .bind_same fun r => (operatorSql_dialects d d' op arg).bind fun _ _ _ => .ok trivial
  | .group link nodes => by
    rw [compileNode, compileNode]
    exact (compileNodes_dialects c d d' root nodes).bind fun _ _ _ => .ok trivial

theorem compileNodes_dialects (c : Catalog) (d d' : Dialect) (root : Model) :
    ∀ nodes : List Node,
      Agree (fun _ _ => True) (compileNodes c d root nodes) (compileNodes c d' root nodes)
  | [] => .ok trivial
  | node :: rest => by
    rw [compileNodes, compileNodes]
    exact (compileNode_dialects c d d' root node).bind fun _ _ _ =>
      (compileNodes_dialects c d d' root rest).bind fun _ _ _ => .ok trivial
end

namespace Compiler

variable {c : Catalog} {q : Query} {m : Model}

theorem resolveAll_dialect (d d' : Dialect) (set : List Join) (paths : List Path) :
    (Compiler.mk c d q m).resolveAll set paths = (Compiler.mk c d' q m).resolveAll set paths := by
  induction paths generalizing set with
  | nil => rfl
  | cons path rest ih =>
    rw [resolveAll, resolveAll]
    simp only [ih]
    rfl

theorem selection_dialects (d d' : Dialect) (paths : List Path) :
    Agree (fun s s' => s' = { s with terms := s'.terms })
      ((Compiler.mk c d q m).selection paths) ((Compiler.mk c d' q m).selection paths) := by
  unfold selection
  simp only [resolveAll_dialect d' d]
  refine .bind_same fun orders => .bind_same ?_
  rintro ⟨joins, columns⟩
  dsimp only
  split
  · exact .error _
  · refine .bind_same ?_
    rintro ⟨joins, -⟩
    refine .bind_same ?_
    rintro ⟨joins, groups⟩
    refine .bind_same ?_
    rintro ⟨joins, orderColumns⟩
    exact (compileNodes_dialects c d d' m q.condition.nodes).bind fun ts us _ => .ok rfl

theorem target_dialects (d d' : Dialect) :
    Agree (fun t t' => t' = { t with terms := t'.terms })
      (Compiler.mk c d q m).target (Compiler.mk c d' q m).target := by
  unfold target
  simp only [resolveAll_dialect d' d]
  refine .bind_same ?_
  rintro ⟨joins, -⟩
  exact (compileNodes_dialects c d d' m q.condition.nodes).bind fun ts us _ => .ok rfl

theorem plan_dialects (d d' : Dialect) (op : Operation) :
    Agree (fun p p' => ∀ d mark clause, p.text d mark clause = p'.text d mark clause)
      ((Compiler.mk c d q m).plan op) ((Compiler.mk c d' q m).plan op) := by
  cases op with
  | select =>
    refine (selection_dialects d d' _).bind fun s s' hs => .ok fun d mark clause => ?_
    rw [hs]
    rfl
  | count =>
    refine (selection_dialects d d' _).bind fun s s' hs => .ok fun d mark clause => ?_
    rw [hs]
    rfl
  | insert payload => exact .bind_same fun assignments => .ok fun d mark clause => rfl
  | update payload =>
    refine .bind_same fun assignments =>
      (target_dialects d d').bind fun t t' ht => .ok fun d mark clause => ?_
    rw [ht]
    rfl
  | delete =>
    refine (target_dialects d d').bind fun t t' ht => .ok fun d mark clause => ?_
    rw [ht]
    rfl

end Compiler

/-! ## Clauses -/

/-- Atoms of the same reading, or the same connective or parenthesis. -/
inductive SameToken : WhereToken → WhereToken → Prop where
  | atom {a b : String} : SameReading a b → SameToken (.atom a) (.atom b)
  | mark {t : WhereToken} : (∀ sql, t ≠ .atom sql) → SameToken t t

namespace SameToken

variable {t u : WhereToken} {ts us : List WhereToken}

theorem text (h : SameToken t u) : SameReading t.text u.text := by
  cases h with
  | atom h => exact h
  | mark ht => exact .refl (TokensFill.inert_mark ht).closed

theorem opening_iff (h : SameToken t u) : t = .opening ↔ u = .opening := by
  cases h with
  | atom => simp
  | mark => rfl

theorem gap_eq (h : SameToken t u) (hrest : List.Forall₂ SameToken ts us) :
    gap t ts = gap u us := by
  cases hrest with
  | nil => rfl
  | @cons t' u' ts us h' _ =>
    have hspaced : t.spaced t' = u.spaced u' := by
      cases h with
      | atom => cases h' with
        | atom => rfl
        | mark => cases t' <;> rfl
      | mark => cases h' with
        | atom => cases t <;> rfl
        | mark => rfl
    rw [gap, gap, hspaced]

theorem tokensText (h : List.Forall₂ SameToken ts us) :
    SameReading (tokensText ts) (tokensText us) := by
  induction h with
  | nil => exact .refl rfl
  | @cons t u ts us htu hrest ih =>
    rw [tokensText_cons, tokensText_cons, ← htu.gap_eq hrest, String.append_assoc,
      String.append_assoc]
    have hbehind : SameReading (gap t ts ++ RecordModel.tokensText ts)
        (gap t ts ++ RecordModel.tokensText us) := by
      rcases gap_eq_empty_or_blank t ts with hgap | hgap <;> rw [hgap]
      · rwa [String.empty_append, String.empty_append]
      · exact ih.behind rfl (by decide)
    by_cases hopening : t = .opening
    · obtain rfl := hopening
      obtain rfl := htu.opening_iff.1 rfl
      show SameReading ("(" ++ _) ("(" ++ _)
      exact hbehind.behind rfl (by decide)
    · have hopening' : u ≠ .opening := fun h => hopening (htu.opening_iff.2 h)
      refine htu.text.append hbehind (.inr (front_gap hopening ts).not_name) (.inr ?_)
      rw [htu.gap_eq hrest]
      exact (front_gap hopening' us).not_name

end SameToken

theorem sameToken_link (first : Bool) (link : Link) :
    List.Forall₂ SameToken (linkTokens first link) (linkTokens first link) := by
  obtain ⟨isOr, isNot⟩ := link
  refine List.forall₂_same.2 fun t ht => .mark ?_
  rintro sql rfl
  cases first <;> cases isOr <;> cases isNot <;> simp [linkTokens] at ht

section

variable {tests tests' : Comparison → Test}

mutual
theorem sameToken_term : ∀ (node : Node) (first : Bool),
    (∀ l ∈ node.leaves, SameReading (tests l).text (tests' l).text) →
      List.Forall₂ SameToken ((node.term tests).tokens first) ((node.term tests').tokens first)
  | .leaf link path operator argument, first, h =>
    List.rel_append (sameToken_link first link)
      (.cons (.atom (h ⟨path, operator, argument⟩ (by simp [Node.leaves]))) .nil)
  | .group link nodes, first, h => by
    have hinner := sameToken_terms nodes true h
    have hclosing : List.Forall₂ SameToken [.closing] [.closing] := .cons (.mark (by simp)) .nil
    have hgroup := List.rel_append (sameToken_link first link)
      (.cons (.mark (t := .opening) (by simp)) (List.rel_append hinner hclosing))
    simp only [Node.term, Term.tokens, List.append_assoc, List.cons_append]
    exact hgroup

theorem sameToken_terms : ∀ (nodes : List Node) (first : Bool),
    (∀ l ∈ leavesAll nodes, SameReading (tests l).text (tests' l).text) →
      List.Forall₂ SameToken (termTokens first (termsOf tests nodes))
        (termTokens first (termsOf tests' nodes))
  | [], _, _ => .nil
  | node :: rest, first, h =>
    List.rel_append (sameToken_term node first fun l hl => h l (by simp [leavesAll, hl]))
      (sameToken_terms rest false fun l hl => h l (by simp [leavesAll, hl]))
end

theorem sameReading_clauseText {nodes : List Node}
    (h : ∀ l ∈ leavesAll nodes, SameReading (tests l).text (tests' l).text) :
    SameReading (clauseText tests nodes) (clauseText tests' nodes) := by
  unfold clauseText
  split
  · exact .refl rfl
  · exact (SameToken.tokensText (sameToken_terms nodes true h)).behind rfl (by decide)

end

/-! ## Leaves -/

theorem sameReading_placeholders (vs : List Value) :
    SameReading (join ", " (vs.map fun _ => "?")) (join ", " (vs.map fun _ => "?")) := by
  refine .join rfl (by decide) (by decide) (List.forall₂_same.2 fun s hs => ?_)
  obtain ⟨v, -, rfl⟩ := List.mem_map.1 hs
  exact .refl rfl

/-- The SQL of an operator: its keyword is the only place for a dialect. -/
theorem sameReading_around (d d' : Dialect) (op : Operator) (vs : List Value) :
    SameReading (d.around op (vs.map fun _ => "?")) (d'.around op (vs.map fun _ => "?")) := by
  have hkeyword : SameReading (d.keyword op ++ op.brackets.1) (d'.keyword op ++ op.brackets.1) := by
    cases d <;> cases d' <;> cases op <;> exact .of_readUnits rfl rfl rfl
  have hfront := (front_placeholders vs).not_name
  have hbehind : op.brackets.2.toList.foldl quoteAfter none = none := by cases op <;> rfl
  have hclosing : Front op.brackets.2.toList := by cases op <;> decide
  exact (hkeyword.append (sameReading_placeholders vs) (.inr hfront) (.inr hfront)).before
    hbehind hclosing

/-- A leaf that both compilers accept. -/
theorem Compiler.Accepts.sameReading {c : Catalog} {d d' : Dialect} {q : Query} {m : Model}
    {l : Comparison} (h : (Compiler.mk c d q m).Accepts l) (h' : (Compiler.mk c d' q m).Accepts l)
    (hc : c.WellFormed) (hm : m ∈ c.models) :
    SameReading ((Compiler.mk c d q m).test l).spread.text
      ((Compiler.mk c d' q m).test l).spread.text := by
  obtain ⟨r, f, hr, -, htest⟩ := h.test_eq
  obtain ⟨r', f', hr', -, htest'⟩ := h'.test_eq
  cases hr.symm.trans hr'
  have hcolumn := (inert_column hc hm hr).append (by decide : Inert " ")
  rw [h.spread_eq, h'.spread_eq, htest, htest']
  exact (sameReading_around d d' l.operator l.operands).behind hcolumn.closed
    (back_append (by decide) _)

/-! ## Texts around a clause -/

/-- The parts of a SELECT statement in front of its tail. -/
def Selection.untailed (s : Selection) (clause : String) : List String :=
  ["SELECT"] ++ (if s.distinct then ["DISTINCT"] else [])
    ++ [join ", " (s.columns.map Projection.text), "FROM", joinsText s.joins]
    ++ part clause
    ++ listPart "GROUP BY" (s.groups.map ColumnRef.text)
    ++ listPart "ORDER BY" (s.orders.map OrderItem.text)

theorem Selection.text_eq_withClause (s : Selection) (d : Dialect) (clause : String) :
    s.text d clause =
      withClause (join " " (s.untailed clause)) (d.limitOffsetSql s.limit s.offset) :=
  join_append_part (by simp) _

theorem sameReading_inert {ss : List String} (h : ∀ s ∈ ss, Inert s) :
    List.Forall₂ SameReading ss ss :=
  List.forall₂_same.2 fun s hs => .refl (h s hs).closed

section

variable {clause clause' : String} (h : SameReading clause clause')
  (hempty : clause = "" ↔ clause' = "")

include h hempty

theorem sameReading_part : List.Forall₂ SameReading (part clause) (part clause') := by
  have hemptys : clause.isEmpty = clause'.isEmpty := by
    rw [Bool.eq_iff_iff, String.isEmpty_iff, String.isEmpty_iff, hempty]
  unfold part
  rw [hemptys]
  split
  · exact .nil
  · exact .cons h .nil

theorem sameReading_withClause {sql sql' : String} (hsql : SameReading sql sql') :
    SameReading (withClause sql clause) (withClause sql' clause') := by
  have hemptys : clause.isEmpty = clause'.isEmpty := by
    rw [Bool.eq_iff_iff, String.isEmpty_iff, String.isEmpty_iff, hempty]
  unfold withClause
  rw [hemptys]
  split
  · exact hsql
  · exact (hsql.before rfl (by decide)).append h (.inl (back_append (by decide) sql).not_name)
      (.inl (back_append (by decide) sql').not_name)

/-- What stands in front of the tail has the same reading, and the tail is dropped. -/
theorem Selection.Plain.sameReading_text {s : Selection} (hs : s.Plain) (d d' : Dialect) :
    SameReading (s.text d clause) (s.text d' clause') := by
  have hfront := List.rel_append (sameReading_inert hs.inert_front) (sameReading_part h hempty)
  have hgroups := List.rel_append hfront (sameReading_inert hs.inert_groups)
  have horders := List.rel_append hgroups (sameReading_inert hs.inert_orders)
  have hjoin : SameReading (join " " (s.untailed clause)) (join " " (s.untailed clause')) :=
    .join rfl (by decide) (by decide) horders
  have htail := sameReading_withTail hjoin.left d s.limit s.offset
  have htail' := sameReading_withTail hjoin.right d' s.limit s.offset
  rw [s.text_eq_withClause d clause, s.text_eq_withClause d' clause']
  exact (htail.trans hjoin).trans htail'.symm

omit hempty in
theorem Target.sameReading_condition {t : Target} (hjoins : ∀ j ∈ t.joins, Inert j.text) :
    SameReading (t.condition clause) (t.condition clause') := by
  unfold Target.condition
  split
  · exact (h.behind (inert_front hjoins).closed (back_append (by decide) _)).before rfl (by decide)
  · exact h

theorem Target.sameReading_deleteText {t : Target} (hjoins : ∀ j ∈ t.joins, Inert j.text) :
    SameReading (t.deleteText clause) (t.deleteText clause') := by
  have hkeyword := (by decide : Inert "DELETE FROM ").append (inert_quoteName t.table)
  exact sameReading_withClause (sameReading_condition h hjoins) (condition_eq_empty_iff hempty)
    (.refl hkeyword.closed)

theorem Target.sameReading_updateText {t : Target} (hjoins : ∀ j ∈ t.joins, Inert j.text)
    {settings : List String} (hsettings : ∀ s ∈ settings, s.toList.foldl quoteAfter none = none) :
    SameReading (t.updateText settings clause) (t.updateText settings clause') := by
  have hkeyword := ((by decide : Inert "UPDATE ").append (inert_quoteName t.table)).append
    (by decide : Inert " SET ")
  have hlist : SameReading (join ", " settings) (join ", " settings) :=
    .join (by rfl) (by decide) (by decide) (List.forall₂_same.2 fun s hs => .refl (hsettings s hs))
  exact sameReading_withClause (sameReading_condition h hjoins) (condition_eq_empty_iff hempty)
    (hlist.behind hkeyword.closed (back_append (by decide) _))

end

namespace Compiler

variable {k : Compiler} {op : Operation}

/-- The statements of a plan around clauses of the same reading. -/
theorem sameReading_text (hc : k.catalog.WellFormed) (hm : k.model ∈ k.catalog.models) {p : Plan}
    (hp : k.plan op = .ok p) (d d' : Dialect) {clause clause' : String}
    (h : SameReading clause clause') (hempty : clause = "" ↔ clause' = "") :
    SameReading (p.text d (fun _ => "?") clause) (p.text d' (fun _ => "?") clause') := by
  have hcolumns := plan_inert_columns hc hm hp
  cases op with
  | select =>
    obtain ⟨s, hs, hp⟩ := bind_eq_ok.1 hp
    cases hp
    exact (selection_placed hc hm hs).plain.sameReading_text h hempty d d'
  | count =>
    obtain ⟨s, hs, hp⟩ := bind_eq_ok.1 hp
    cases hp
    have hselect := (selection_placed hc hm hs).plain.sameReading_text h hempty d d'
    exact (hselect.behind (by rfl) (by decide)).before (by rfl) (by decide)
  | insert payload =>
    obtain ⟨assignments, -, hp⟩ := bind_eq_ok.1 hp
    cases hp
    exact .refl (@Insertion.fills_text (fun _ => "?") _ hcolumns).closed
  | update payload =>
    obtain ⟨assignments, -, hp⟩ := bind_eq_ok.1 hp
    obtain ⟨t, ht, hp⟩ := bind_eq_ok.1 hp
    cases hp
    refine Target.sameReading_updateText h hempty (target_placed hc hm ht).inert_joins
      fun s hs => ?_
    obtain ⟨a, hmem, rfl⟩ := List.mem_map.1 hs
    rw [Assignment.text, String.append_assoc, String.toList_append, List.foldl_append,
      (hcolumns a hmem).closed]
    rfl
  | delete =>
    obtain ⟨t, ht, hp⟩ := bind_eq_ok.1 hp
    cases hp
    exact Target.sameReading_deleteText h hempty (target_placed hc hm ht).inert_joins

end Compiler

/-- For two dialects an operation fails with the same error, or it succeeds with the same
arguments and with texts that have everything in common but the keyword of caseless matching
and limits. -/
theorem run_dialects {c : Catalog} (hc : c.Reachable) (q : Query) (op : Operation) :
    Agree (fun st st' => st.args = st'.args ∧ common st.sql = common st'.sql)
      (Compiler.new c .postgres q >>= fun k => k.run op)
      (Compiler.new c .sqlite q >>= fun k => k.run op) := by
  cases hroot : c.getModel q.model with
  | error e =>
    simp only [Compiler.new, hroot]
    exact .error e
  | ok m =>
    have hm := Catalog.getModel_mem hroot
    have hnew (d : Dialect) : Compiler.new c d q = .ok ⟨c, d, q, m⟩ := by
      rw [Compiler.new, hroot]
      rfl
    rw [hnew, hnew]
    show Agree _ (Compiler.run _ op) (Compiler.run _ op)
    rw [Compiler.run_eq, Compiler.run_eq]
    refine (Compiler.plan_dialects .postgres .sqlite op).bind_of_eq fun p p' hp hp' htext => ?_
    have hstatement := Compiler.statement_eq hc.wellFormed hm hp
    have hstatement' := Compiler.statement_eq hc.wellFormed hm hp'
    obtain ⟨haccepts, -⟩ := Compiler.plan_leaves hp
    obtain ⟨haccepts', -⟩ := Compiler.plan_leaves hp'
    rw [hstatement, hstatement']
    refine .ok ⟨rfl, ?_⟩
    rw [← htext]
    refine (Compiler.sameReading_text hc.wellFormed hm hp .postgres .sqlite
      (sameReading_clauseText fun l hl => ?_) ?_).common_eq
    · rw [leavesAll_pruneAll] at hl
      exact (haccepts l hl).sameReading (haccepts' l hl) hc.wellFormed hm
    · exact (clauseText_eq_empty_iff _ _).trans (clauseText_eq_empty_iff _ _).symm

/-- Persons whose name holds a text in any case, but for the first three. -/
def laterNamesakes : Query :=
  ((Query.new "Person").filter
    (Condition.empty.addLeaf .and (.ofText "name") .ilike (.text "ann"))).withOffset 3

/-- An offset without a limit is written in two ways. -/
theorem laterNamesakes_dialects : people.Reachable ∧ ∃ st st',
    (Compiler.new people .postgres laterNamesakes >>= fun k => k.run .count) = .ok st ∧
    (Compiler.new people .sqlite laterNamesakes >>= fun k => k.run .count) = .ok st' ∧
    st.sql = "SELECT COUNT(*) FROM (SELECT \"person\".id AS \"id\" FROM \"person\" "
      ++ "WHERE \"person\".name ILIKE ? OFFSET 3) foo" ∧
    st'.sql = "SELECT COUNT(*) FROM (SELECT \"person\".id AS \"id\" FROM \"person\" "
      ++ "WHERE \"person\".name LIKE ? LIMIT -1 OFFSET 3) foo" ∧
    st.args = st'.args ∧ common st.sql = common st'.sql ∧
    common st'.sql = "SELECT COUNT(*) FROM (SELECT \"person\".id AS \"id\" FROM \"person\" "
      ++ "WHERE \"person\".name LIKE ?) foo" := by
  have hagree := run_dialects people_reachable laterNamesakes .count
  have hrun : (Compiler.new people .postgres laterNamesakes >>= fun k => k.run .count) =
      .ok ⟨_, _⟩ := rfl
  have hrun' : (Compiler.new people .sqlite laterNamesakes >>= fun k => k.run .count) =
      .ok ⟨_, _⟩ := rfl
  rw [hrun, hrun'] at hagree
  cases hagree with
  | ok h =>
    exact ⟨people_reachable, _, _, hrun, hrun', by decide, by decide, h.1, h.2,
      by decide +kernel⟩

end RecordModel
