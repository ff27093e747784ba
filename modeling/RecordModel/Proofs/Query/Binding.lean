import RecordModel.Proofs.Query.Chained

/-!
# Placeholders of statements

A statement is a text with placeholders and a list of arguments, and the database puts the
first argument in place of the first placeholder and so on. `Compiler.written` prints the same
statement with every operand where it belongs: each value of the payload at its column, and
the operands of each leaf behind the leaf's column. Filling the placeholders of the compiled
text gives just this, so that no argument is bound in another's place.

Names in a catalog that was built step by step are identifiers, and all other names stand in
quotes, so that no part of a statement but a payload and the leaves holds a placeholder.

Results:
* `Compiler.plan_fills`: filling the placeholders of a plan's text fills those of its clause and
  those of the payload.
* `Compiler.run_counts`: compiling never miscounts placeholders.
* `run_operands`: the arguments of a statement are its operands, each in its place.
-/
namespace RecordModel

open RecordModel.Text RecordModel.Number RecordModel.Sql

/-! ## Joins and columns -/

theorem Join.inert_text {j : Join} (h : ∀ link ∈ j.link, isIdentifier link.column = true) :
    Inert j.text := by
  unfold Join.text
  cases hl : j.link with
  | none => exact inert_quoteName j.table
  | some link =>
    have hkind : Inert (if link.required then "INNER JOIN " else "LEFT JOIN ") := by
      split <;> decide
    have hid : isIdentifier idField = true := by decide
    have htable := (hkind.append (inert_quoteName j.table)).append (by decide : Inert " AS ")
    have halias := (htable.append (inert_quoteName j.aliasName)).append (by decide : Inert " ON ")
    have hleft := halias.append (inert_columnRef link.previous (h link hl))
    exact (hleft.append (by decide : Inert " = ")).append (inert_columnRef j.aliasName hid)

theorem Chained.inert_text {root : Model} {set : List Join} (h : Chained root set) :
    ∀ j ∈ set, Inert j.text :=
  fun j hj => Join.inert_text (h.identifiers j hj)

theorem ColumnRef.Bound.inert_text {set : List Join} {r : ColumnRef} (h : r.Bound set) :
    Inert r.text :=
  inert_columnRef r.aliasName h.2

theorem Target.Placed.inert_joins {t : Target} {root : Model} (h : t.Placed root) :
    ∀ j ∈ t.joins, Inert j.text := by
  rcases h.joins with hnil | hchained
  · simp [hnil]
  · exact hchained.inert_text

/-! ## Texts around a clause -/

/-- No column and no join of a selection holds a placeholder. -/
structure Selection.Plain (s : Selection) : Prop where
  columns : ∀ p ∈ s.columns, Inert p.column.text
  joins : ∀ j ∈ s.joins, Inert j.text
  groups : ∀ r ∈ s.groups, Inert r.text
  orders : ∀ o ∈ s.orders, Inert o.column.text

theorem Selection.Placed.plain {s : Selection} {root : Model} (h : s.Placed root) : s.Plain where
  columns p hp := (h.columns p hp).inert_text
  joins := h.joins.inert_text
  groups r hr := (h.groups r hr).inert_text
  orders o ho := (h.orders o ho).inert_text

theorem inert_natText (n : Nat) : Inert (natText n) :=
  .of_forall fun _ hc => ne_of_isNameChar (isNameChar_of_isDigit (isDigit_of_mem_natText hc))

theorem inert_limitOffset (d : Dialect) (limit offset : Nat) :
    Inert (d.limitOffsetSql limit offset) := by
  obtain ⟨ss, htext, hss⟩ := limitOffsetSql_eq d limit offset
  rw [htext]
  refine Inert.join (by decide) fun s hs => ?_
  rcases hss s hs with rfl | rfl | rfl
  · decide
  · exact (by decide : Inert "LIMIT ").append (inert_natText limit)
  · exact (by decide : Inert "OFFSET ").append (inert_natText offset)

theorem inert_listPart {keyword : String} (hkeyword : Inert keyword) {items : List String}
    (h : ∀ s ∈ items, Inert s) : ∀ s ∈ listPart keyword items, Inert s := by
  intro s hs
  unfold listPart at hs
  split at hs
  · exact absurd hs List.not_mem_nil
  · rw [List.mem_singleton.1 hs]
    exact (hkeyword.append (by decide : Inert " ")).append (.join (by decide) h)

theorem inert_part {s : String} (h : Inert s) : ∀ t ∈ part s, Inert t := by
  intro t ht
  unfold part at ht
  split at ht
  · exact absurd ht List.not_mem_nil
  · rw [List.mem_singleton.1 ht]; exact h

theorem OrderItem.inert_text {o : OrderItem} (h : Inert o.column.text) : Inert o.text := by
  unfold OrderItem.text
  split
  · exact h
  · exact h.append (by decide)
  · exact h.append (by decide)

/-- What stands in front of the clause of a selection. -/
theorem Selection.Plain.inert_front {s : Selection} (hs : s.Plain) :
    ∀ t ∈ ["SELECT"] ++ (if s.distinct then ["DISTINCT"] else [])
      ++ [join ", " (s.columns.map Projection.text), "FROM", joinsText s.joins], Inert t := by
  have hlabel : ∀ p ∈ s.columns, Inert p.text := fun p hp =>
    ((hs.columns p hp).append (by decide : Inert " AS ")).append (inert_quoteName p.label)
  intro t ht
  simp only [List.mem_append, List.mem_cons, List.not_mem_nil, or_false] at ht
  rcases ht with (rfl | ht) | rfl | rfl | rfl
  · decide
  · split at ht
    · rw [List.mem_singleton.1 ht]; decide
    · exact absurd ht List.not_mem_nil
  · exact .join (by decide) (List.forall_mem_map.2 hlabel)
  · decide
  · exact .join (by decide) (List.forall_mem_map.2 hs.joins)

theorem Selection.Plain.inert_groups {s : Selection} (hs : s.Plain) :
    ∀ t ∈ listPart "GROUP BY" (s.groups.map ColumnRef.text), Inert t :=
  inert_listPart (by decide) (List.forall_mem_map.2 hs.groups)

theorem Selection.Plain.inert_orders {s : Selection} (hs : s.Plain) :
    ∀ t ∈ listPart "ORDER BY" (s.orders.map OrderItem.text), Inert t :=
  inert_listPart (by decide)
    (List.forall_mem_map.2 fun o ho => OrderItem.inert_text (hs.orders o ho))

/-- What stands in front of the clause of a target that selects keys. -/
theorem Target.inert_front {t : Target} (hjoins : ∀ j ∈ t.joins, Inert j.text) :
    Inert ("WHERE " ++ (ColumnRef.mk t.table idField).text ++ " IN (SELECT "
      ++ (ColumnRef.mk t.table idField).text ++ " FROM " ++ joinsText t.joins ++ " ") := by
  have hid : Inert (ColumnRef.mk t.table idField).text := inert_columnRef t.table (by decide)
  have hfrom : Inert (joinsText t.joins) := .join (by decide) (List.forall_mem_map.2 hjoins)
  have hkey := (by decide : Inert "WHERE ").append hid
  have hwhere := hkey.append (by decide : Inert " IN (SELECT ")
  have hselect := (hwhere.append hid).append (by decide : Inert " FROM ")
  exact (hselect.append hfrom).append (by decide)

section

variable {mark : Value → String} {clause clause' : String} {args : List Value}

theorem fillsAll_part (h : Fills mark clause args clause') (hempty : clause = "" ↔ clause' = "") :
    FillsAll mark (part clause) args (part clause') := by
  unfold part
  by_cases hclause : clause = ""
  · subst hclause
    rw [hempty.1 rfl, h.args_eq_nil]
    exact .nil
  · have h1 : clause.isEmpty = false := by simpa using hclause
    have h2 : clause'.isEmpty = false := by simpa using fun he => hclause (hempty.2 he)
    rw [h1, h2, ← List.append_nil args]
    exact .cons h .nil

theorem Selection.Plain.fills_text {s : Selection} (hs : s.Plain) (d : Dialect)
    (h : Fills mark clause args clause') (hempty : clause = "" ↔ clause' = "") :
    Fills mark (s.text d clause) args (s.text d clause') := by
  have hblank : Inert " " := by decide
  have hlimit := inert_part (inert_limitOffset d s.limit s.offset)
  have hparts := (((FillsAll.inert hs.inert_front).append (fillsAll_part h hempty)).append
    (.inert hs.inert_groups)).append (.inert hs.inert_orders) |>.append (.inert hlimit)
  simp only [List.nil_append, List.append_nil] at hparts
  exact hparts.join hblank

theorem Target.condition_eq_empty_iff {t : Target} (hempty : clause = "" ↔ clause' = "") :
    t.condition clause = "" ↔ t.condition clause' = "" := by
  unfold Target.condition
  split
  · simp
  · exact hempty

theorem Target.fills_condition {t : Target} (hjoins : ∀ j ∈ t.joins, Inert j.text)
    (h : Fills mark clause args clause') :
    Fills mark (t.condition clause) args (t.condition clause') := by
  unfold Target.condition
  split
  · exact (h.behind (inert_front hjoins)).before (by decide)
  · exact h

theorem fills_withClause {sql sql' : String} {us vs : List Value} (hsql : Fills mark sql us sql')
    (h : Fills mark clause vs clause') (hempty : clause = "" ↔ clause' = "") :
    Fills mark (withClause sql clause) (us ++ vs) (withClause sql' clause') := by
  unfold withClause
  by_cases hclause : clause = ""
  · subst hclause
    rw [hempty.1 rfl, h.args_eq_nil, List.append_nil]
    exact hsql
  · have h1 : clause.isEmpty = false := by simpa using hclause
    have h2 : clause'.isEmpty = false := by simpa using fun he => hclause (hempty.2 he)
    rw [h1, h2]
    exact (hsql.before (by decide)).append h

theorem Target.fills_updateText {t : Target} (hjoins : ∀ j ∈ t.joins, Inert j.text)
    {assignments : List Assignment} (hcolumns : ∀ a ∈ assignments, Inert a.column)
    (h : Fills mark clause args clause') (hempty : clause = "" ↔ clause' = "") :
    Fills mark (t.updateText (assignments.map (Assignment.text fun _ => "?")) clause)
      (assignments.map Assignment.value ++ args)
      (t.updateText (assignments.map (Assignment.text mark)) clause') := by
  have hsettings : FillsAll mark (assignments.map (Assignment.text fun _ => "?"))
      (assignments.flatMap fun a => [a.value]) (assignments.map (Assignment.text mark)) :=
    .map fun a ha => (Fills.placeholder a.value).behind ((hcolumns a ha).append (by decide))
  have hkeyword := ((by decide : Inert "UPDATE ").append (inert_quoteName t.table)).append
    (by decide : Inert " SET ")
  rw [← List.map_eq_flatMap] at hsettings
  exact fills_withClause ((hsettings.join (by decide)).behind hkeyword) (fills_condition hjoins h)
    (condition_eq_empty_iff hempty)

theorem Insertion.fills_text {i : Insertion} (hcolumns : ∀ a ∈ i.assignments, Inert a.column) :
    Fills mark (i.text fun _ => "?") (i.assignments.map Assignment.value) (i.text mark) := by
  have hvalues : FillsAll mark (i.assignments.map fun _ => "?")
      (i.assignments.flatMap fun a => [a.value]) (i.assignments.map fun a => mark a.value) :=
    .map fun a _ => Fills.placeholder a.value
  have hnames : Inert (join ", " (i.assignments.map Assignment.column)) :=
    .join (by decide) (List.forall_mem_map.2 hcolumns)
  have htable := ((by decide : Inert "INSERT INTO ").append (inert_quoteName i.table)).append
    (by decide : Inert " (")
  have hfront := (htable.append hnames).append (by decide : Inert ") VALUES (")
  rw [← List.map_eq_flatMap] at hvalues
  exact (((hvalues.join (by decide)).behind hfront).before (by decide)).before (by decide)

end

/-! ## Operands in place -/

namespace Compiler

/-- A leaf with its operands in place. -/
def writtenTest (k : Compiler) (mark : Value → String) (l : Comparison) : Test :=
  ⟨(k.test l).column, ⟨k.dialect.written mark l.operator l.argument, []⟩⟩

/-- The statement of an operation with every operand in its place. -/
def written (k : Compiler) (mark : Value → String) (op : Operation) : Result String := do
  let p ← k.plan op
  return p.text k.dialect mark
    (clauseText (k.writtenTest mark) (pruneAll (op.nodes k.query.condition)))

variable {k : Compiler} {op : Operation}

theorem Accepts.fills_spread {l : Comparison} (h : k.Accepts l) (hc : k.catalog.WellFormed)
    (hm : k.model ∈ k.catalog.models) (mark : Value → String) :
    Fills mark (k.test l).spread.text (k.test l).spread.fragment.args
      (k.writtenTest mark l).text := by
  obtain ⟨r, f, hr, -, ht⟩ := h.test_eq
  have hcolumn : Inert (k.test l).column.text := by
    rw [ht]
    exact inert_column hc hm hr
  rw [h.spread_eq]
  exact (fills_written mark k.dialect l.operator l.argument).behind
    (hcolumn.append (by decide : Inert " "))

/-- The columns that a plan writes to hold no placeholder. -/
theorem plan_inert_columns {p : Plan} (hc : k.catalog.WellFormed) (hm : k.model ∈ k.catalog.models)
    (h : k.plan op = .ok p) : ∀ a ∈ p.assignments, Inert a.column := by
  intro a ha
  obtain ⟨f, hf, hcolumn⟩ := (plan_assignments h).2 a ha
  rw [hcolumn]
  exact inert_of_isIdentifier ((hc.models _ hm).identifiers f hf).2

theorem plan_fills {p : Plan} (hc : k.catalog.WellFormed) (hm : k.model ∈ k.catalog.models)
    (h : k.plan op = .ok p) (mark : Value → String) :
    Fills mark
      (p.text k.dialect (fun _ => "?")
        (clauseText (fun l => (k.test l).spread) (pruneAll (op.nodes k.query.condition))))
      (op.operands k.query.condition)
      (p.text k.dialect mark
        (clauseText (k.writtenTest mark) (pruneAll (op.nodes k.query.condition)))) := by
  obtain ⟨haccepts, -⟩ := plan_leaves h
  obtain ⟨hvalues, -⟩ := plan_assignments h
  have hinert := plan_inert_columns hc hm h
  have hclause : Fills mark
      (clauseText (fun l => (k.test l).spread) (pruneAll (op.nodes k.query.condition)))
      ((leavesAll (op.nodes k.query.condition)).flatMap Comparison.operands)
      (clauseText (k.writtenTest mark) (pruneAll (op.nodes k.query.condition))) := by
    rw [← operands_eq haccepts, ← leavesAll_pruneAll]
    refine fills_clauseText fun l hl => ?_
    rw [leavesAll_pruneAll] at hl
    exact (haccepts l hl).fills_spread hc hm mark
  have hempty := (clauseText_eq_empty_iff (fun l => (k.test l).spread)
    (pruneAll (op.nodes k.query.condition))).trans
      (clauseText_eq_empty_iff (k.writtenTest mark) _).symm
  rw [Operation.operands, ← hvalues]
  cases op with
  | select =>
    obtain ⟨s, hs, h⟩ := bind_eq_ok.1 h
    cases h
    exact (selection_placed hc hm hs).plain.fills_text k.dialect hclause hempty
  | count =>
    obtain ⟨s, hs, h⟩ := bind_eq_ok.1 h
    cases h
    have hselect := (selection_placed hc hm hs).plain.fills_text k.dialect hclause hempty
    exact (hselect.behind (by decide)).before (by decide)
  | insert payload =>
    obtain ⟨assignments, -, h⟩ := bind_eq_ok.1 h
    cases h
    have hnone : (leavesAll (Operation.nodes k.query.condition (.insert payload))).flatMap
        Comparison.operands = [] := rfl
    rw [hnone, List.append_nil]
    exact Insertion.fills_text hinert
  | update payload =>
    obtain ⟨assignments, -, h⟩ := bind_eq_ok.1 h
    obtain ⟨t, ht, h⟩ := bind_eq_ok.1 h
    cases h
    have hjoins := (target_placed hc hm ht).inert_joins
    exact Target.fills_updateText hjoins hinert hclause hempty
  | delete =>
    obtain ⟨t, ht, h⟩ := bind_eq_ok.1 h
    cases h
    have hcondition := Target.fills_condition (target_placed hc hm ht).inert_joins hclause
    have hkeyword := (by decide : Inert "DELETE FROM ").append (inert_quoteName t.table)
    exact fills_withClause hkeyword.fills hcondition (Target.condition_eq_empty_iff hempty)

end Compiler

/-! ## Counting placeholders -/

/-- The result is not the fault of placeholders that do not match their arguments. -/
def Counts {α : Type} (x : Result α) : Prop :=
  ∀ n m, x ≠ .error (.invalidExpression (.placeholderCount n m))

theorem counts_ok {α : Type} (a : α) : Counts (.ok a) := fun _ _ h => by cases h

theorem Counts.bind {α β : Type} {x : Result α} {f : α → Result β} (hx : Counts x)
    (hf : ∀ a, x = .ok a → Counts (f a)) : Counts (x >>= f) := by
  cases x with
  | error e =>
    intro n m h
    cases h
    exact hx n m rfl
  | ok a => exact hf a rfl

theorem Counts.mapM {α β : Type} {f : α → Result β} (h : ∀ x, Counts (f x)) (xs : List α) :
    Counts (xs.mapM f) := by
  induction xs with
  | nil => exact counts_ok []
  | cons x xs ih =>
    rw [List.mapM_cons]
    exact (h x).bind fun y _ => ih.bind fun ys _ => counts_ok (y :: ys)

theorem Catalog.getModel_counts (c : Catalog) (name : String) : Counts (c.getModel name) := by
  unfold Catalog.getModel
  split <;> simp [Counts]

theorem Catalog.related_counts (c : Catalog) (f : Field) : Counts (c.related f) := by
  unfold Catalog.related
  split
  · exact c.getModel_counts _
  · simp [Counts]

theorem Model.getField_counts (m : Model) (name : String) : Counts (m.getField name) := by
  unfold Model.getField
  split <;> simp [Counts]

theorem walk_counts (c : Catalog) (path : Path) (m : Model) (joins : List Join)
    (segments : List String) : Counts (walk c path m joins segments) := by
  induction segments generalizing m joins with
  | nil => simp [walk, Counts]
  | cons segment rest ih =>
    cases rest with
    | nil =>
      rw [walk]
      exact (m.getField_counts segment).bind fun _ _ => counts_ok _
    | cons next rest =>
      rw [walk]
      · refine (m.getField_counts segment).bind fun f _ => ?_
        dsimp only
        split
        · simp [Counts, Bind.bind, Except.bind]
        · exact (c.related_counts f).bind fun target _ => ih target _
      · simp

theorem resolve_counts (c : Catalog) (root : Model) (path : Path) :
    Counts (resolve c root path) := by
  unfold resolve
  split
  · simp [Counts]
  · split
    · simp [Counts]
    · exact walk_counts c path root _ _

theorem operatorSql_counts (d : Dialect) (op : Operator) (arg : Value) :
    Counts (d.operatorSql op arg) := by
  unfold Dialect.operatorSql
  split
  · simp [Counts]
  · split
    all_goals first | exact counts_ok _ | (split <;> simp [Counts])

mutual
theorem compileNode_counts (c : Catalog) (d : Dialect) (root : Model) : ∀ node : Node,
    Counts (compileNode c d root node)
  | .leaf link path operator argument => by
    rw [compileNode]
    exact (resolve_counts c root path).bind fun r _ =>
      (operatorSql_counts d operator argument).bind fun _ _ => counts_ok _
  | .group link nodes => by
    rw [compileNode]
    exact (compileNodes_counts c d root nodes).bind fun _ _ => counts_ok _

theorem compileNodes_counts (c : Catalog) (d : Dialect) (root : Model) : ∀ nodes : List Node,
    Counts (compileNodes c d root nodes)
  | [] => counts_ok []
  | node :: rest => by
    rw [compileNodes]
    exact (compileNode_counts c d root node).bind fun _ _ =>
      (compileNodes_counts c d root rest).bind fun _ _ => counts_ok _
end

theorem SortKey.read_counts (entry : String) : Counts (SortKey.read entry) := by
  unfold SortKey.read
  split
  · simp [Counts]
  · exact counts_ok _
  · split
    · simp [Counts]
    · split <;> simp [Counts]

namespace Compiler

theorem resolveAll_counts (k : Compiler) (set : List Join) (paths : List Path) :
    Counts (k.resolveAll set paths) := by
  induction paths generalizing set with
  | nil => exact counts_ok _
  | cons path rest ih =>
    rw [resolveAll]
    exact (resolve_counts k.catalog k.model path).bind fun r _ =>
      (ih (addJoins set r.joins)).bind fun _ _ => counts_ok _

theorem selection_counts (k : Compiler) (paths : List Path) : Counts (k.selection paths) := by
  unfold selection
  refine (Counts.mapM SortKey.read_counts _).bind fun _ _ =>
    (k.resolveAll_counts [] paths).bind fun _ _ => ?_
  dsimp only
  split
  · simp [Counts, Bind.bind, Except.bind]
  · exact (k.resolveAll_counts _ _).bind fun _ _ => (k.resolveAll_counts _ _).bind fun _ _ =>
      (k.resolveAll_counts _ _).bind fun _ _ =>
        (compileNodes_counts _ _ _ _).bind fun _ _ => counts_ok _

theorem target_counts (k : Compiler) : Counts k.target :=
  (k.resolveAll_counts [] _).bind fun _ _ =>
    (compileNodes_counts _ _ _ _).bind fun _ _ => counts_ok _

theorem assignments_counts (k : Compiler) (kind : WriteKind) (payload : FieldMap) :
    Counts (k.assignments kind payload) := by
  unfold assignments
  split
  · simp [Counts]
  · exact Counts.mapM (fun _ => (k.model.getField_counts _).bind fun _ _ => counts_ok _) _

/-- Compiling never miscounts placeholders. -/
theorem plan_counts (k : Compiler) (op : Operation) : Counts (k.plan op) := by
  cases op with
  | select => exact (k.selection_counts _).bind fun _ _ => counts_ok _
  | count => exact (k.selection_counts _).bind fun _ _ => counts_ok _
  | insert payload => exact (k.assignments_counts _ _).bind fun _ _ => counts_ok _
  | update payload =>
    exact (k.assignments_counts _ _).bind fun _ _ =>
      k.target_counts.bind fun _ _ => counts_ok _
  | delete => exact k.target_counts.bind fun _ _ => counts_ok _

theorem run_counts {k : Compiler} (hc : k.catalog.WellFormed) (hm : k.model ∈ k.catalog.models)
    (op : Operation) : Counts (k.run op) := by
  rw [run_eq]
  refine (k.plan_counts op).bind fun p hp => ?_
  rw [statement_eq hc hm hp]
  exact counts_ok _

end Compiler

/-! ## Statements -/

/-- The statement with the marks of its arguments in place of its placeholders, one by one. -/
def Statement.filled (st : Statement) (mark : Value → String) : String :=
  String.ofList (weave (pieces none st.sql.toList) (st.args.map fun v => (mark v).toList))

/-- A compiled statement has as many placeholders as arguments; these are the operands of the
operation in order, and each of them belongs where its placeholder stands. Numbering puts `$` and
the digits of one, two and so on in place of the placeholders, up to the number of arguments.
Compiling never fails because placeholders and arguments do not match. -/
theorem run_operands {c : Catalog} (hc : c.Reachable) (d : Dialect) (q : Query) (op : Operation) :
    (∀ k st, Compiler.new c d q = .ok k → k.run op = .ok st →
      st.args = op.operands q.condition ∧
      countPlaceholders st.sql.toList = st.args.length ∧
      (∀ mark, k.written mark op = .ok (st.filled mark)) ∧
      Dialect.postgres.rebind st.sql = String.ofList (weave (pieces none st.sql.toList)
        ((List.range st.args.length).map fun k => '$' :: Nat.toDigits 10 (k + 1)))) ∧
    ∀ n m, (Compiler.new c d q >>= fun k => k.run op) ≠
      .error (.invalidExpression (.placeholderCount n m)) := by
  refine ⟨fun k st hk hst => ?_, ?_⟩
  · obtain ⟨root, hm, -, rfl⟩ := Compiler.new_ok hk
    rw [Compiler.run_eq] at hst
    obtain ⟨p, hp, hst⟩ := bind_eq_ok.1 hst
    have hfills := Compiler.plan_fills hc.wellFormed hm hp
    cases (Compiler.statement_eq hc.wellFormed hm hp).symm.trans hst
    have hcount := (hfills fun _ => "?").count
    refine ⟨rfl, hcount, fun mark => ?_, ?_⟩
    · rw [Compiler.written, hp, Statement.filled, (hfills mark).woven, String.ofList_toList]
      rfl
    · unfold countPlaceholders at hcount
      rw [← hcount, ← numbers_from_one]
      rfl
  · have hnew : Counts (Compiler.new c d q) :=
      (c.getModel_counts q.model).bind fun _ _ => counts_ok _
    refine hnew.bind fun k hk => ?_
    obtain ⟨root, hm, -, rfl⟩ := Compiler.new_ok hk
    exact Compiler.run_counts hc.wellFormed hm op

/-- Persons of one of two ages, or with a question mark in their names. -/
def markedPersons : Query :=
  (Query.new "Person").filter
    ((Condition.empty.addLeaf .and (.ofText "age") .isIn (.list [.integer 40, .integer 41])).addLeaf
      .or (.ofText "name") .like (.text "?"))

/-- The question marks of values are not taken for placeholders. -/
theorem markedPersons_operands : people.Reachable ∧ ∃ k st,
    Compiler.new people .postgres markedPersons = .ok k ∧
      k.run (.update ⟨[("name", .text "Ann?")]⟩) = .ok st ∧
        st.args = [.text "Ann?", .integer 40, .integer 41, .text "%?%"] ∧
          Dialect.postgres.rebind st.sql = "UPDATE \"person\" SET name = $1 "
            ++ "WHERE \"person\".age IN ($2, $3) OR \"person\".name LIKE $4" := by
  have hnew : Compiler.new people .postgres markedPersons =
      .ok ⟨people, .postgres, markedPersons, person⟩ := rfl
  obtain ⟨hrun, -⟩ := run_operands people_reachable .postgres markedPersons
    (.update ⟨[("name", .text "Ann?")]⟩)
  obtain ⟨hargs, -⟩ := hrun _ _ hnew rfl
  refine ⟨people_reachable, _, _, hnew, rfl, hargs, ?_⟩
  decide

end RecordModel
