import RecordModel.Proofs.Query.Binding

/-!
# Lists among the arguments

A placeholder can be bound to a scalar only. A list may stand in two places of an operation. As
the argument of a leaf it is looked at by the operator: a null check drops it, a set membership
spreads it over a placeholder for each item, and every other operator refuses it. In a
payload nothing looks at it, and the items of a list may be lists again.

The refusals are told from the other causes of failure by a second query, the same one with NULL
for every argument, which no operator refuses. The two are compiled side by side: as long as
the second one succeeds, the first one succeeds or fails because of a refused leaf.

Results:
* `exists_operatorSql_iff`, `operatorSql_refused`: which arguments an operator takes, and how it
  refuses the others.
* `Compiler.run_refused`: what a list argument does to a query that is compiled without it.
* `Compiler.run_scalars_iff`: exactly when every argument of a statement is a scalar.
-/
namespace RecordModel

open RecordModel.Sql

/-! ## What operators take -/

/-- A list is taken by a null check, and, unless it is empty, by a set membership. -/
def Operator.Takes (op : Operator) (arg : Value) : Prop :=
  arg.isList = true →
    op.isNullCheck = true ∨ (op.isSetMembership = true ∧ itemsOf arg ≠ [])

/-- How an operator refuses a list. -/
def Operator.refusal (op : Operator) : Error :=
  .invalidExpression (if op.isSetMembership then .noValues op else .listArgument op)

theorem Operator.refusal_category (op : Operator) : op.refusal.category = .data := rfl

variable {d : Dialect} {op : Operator} {arg : Value}

theorem exists_operatorSql (h : op.Takes arg) : ∃ f, d.operatorSql op arg = .ok f := by
  have hnot : ¬ (arg.isList && !op.isSetMembership && !op.isNullCheck) = true := by
    intro hlist
    simp only [Bool.and_eq_true, Bool.not_eq_true'] at hlist
    rcases h hlist.1.1 with hcheck | ⟨hset, -⟩
    · rw [hlist.2] at hcheck; cases hcheck
    · rw [hlist.1.2] at hset; cases hset
  have hitems (hset : op.isSetMembership = true) (hcheck : op.isNullCheck = false) :
      itemsOf arg ≠ [] := by
    cases hlist : arg.isList with
    | false => rw [itemsOf_eq hlist]; exact List.cons_ne_nil _ _
    | true => exact (h hlist).elim (fun h => by rw [hcheck] at h; cases h) fun h => h.2
  unfold Dialect.operatorSql
  rw [if_neg hnot]
  cases op with
  | isIn | notIn =>
    have hne : (itemsOf arg).isEmpty = false := by simpa using hitems rfl rfl
    simp [hne]
  | _ => exact ⟨_, rfl⟩

theorem operatorSql_refused (h : ¬ op.Takes arg) : d.operatorSql op arg = .error op.refusal := by
  unfold Operator.Takes at h
  push Not at h
  obtain ⟨hlist, hcheck, hitems⟩ := h
  have hcheck : op.isNullCheck = false := by simpa using hcheck
  unfold Dialect.operatorSql
  cases hset : op.isSetMembership with
  | false => simp [hlist, hcheck, hset, Operator.refusal]
  | true =>
    have hempty := hitems hset
    cases op <;> simp_all [Operator.isSetMembership, Operator.refusal]

theorem exists_operatorSql_iff : (∃ f, d.operatorSql op arg = .ok f) ↔ op.Takes arg := by
  refine ⟨fun ⟨f, hf⟩ => ?_, exists_operatorSql⟩
  by_contra h
  rw [operatorSql_refused h] at hf
  cases hf

/-! ## Without values -/

mutual
/-- The node with NULL for every argument. -/
def Node.unvalued : Node → Node
  | .leaf link path operator _ => .leaf link path operator .null
  | .group link nodes => .group link (unvaluedAll nodes)

def unvaluedAll : List Node → List Node
  | [] => []
  | node :: rest => node.unvalued :: unvaluedAll rest
end

mutual
theorem Node.leafPaths_unvalued : ∀ node : Node, node.unvalued.leafPaths = node.leafPaths
  | .leaf .. => rfl
  | .group _ nodes => leafPathsAll_unvalued nodes

theorem leafPathsAll_unvalued : ∀ nodes : List Node,
    leafPathsAll (unvaluedAll nodes) = leafPathsAll nodes
  | [] => rfl
  | node :: rest => by
    rw [unvaluedAll, leafPathsAll, leafPathsAll, node.leafPaths_unvalued,
      leafPathsAll_unvalued rest]
end

def Condition.unvalued (cond : Condition) : Condition := ⟨unvaluedAll cond.nodes⟩

/-- The compiler of the query with NULL for every argument. -/
def Compiler.unvalued (k : Compiler) : Compiler :=
  { k with query := k.query.filter k.query.condition.unvalued }

theorem Condition.paths_unvalued (cond : Condition) : cond.unvalued.paths = cond.paths := by
  rw [Condition.paths, Condition.paths, Condition.unvalued, leafPathsAll_unvalued]

/-! ## Refused leaves -/

/-- If the first run succeeds, the second one succeeds too or fails for one of these reasons. -/
def Unless {α β : Type} (reason : Error → Prop) (x : Result α) (y : Result β) : Prop :=
  (∃ a, x = .ok a) → (∃ b, y = .ok b) ∨ ∃ e, y = .error e ∧ reason e

namespace Unless

variable {α β γ δ : Type} {reason : Error → Prop}

theorem refl (x : Result α) : Unless reason x x := .inl

theorem bind {x : Result α} {y : Result β} {f : α → Result γ} {g : β → Result δ}
    (h : Unless reason x y) (hfg : ∀ a b, Unless reason (f a) (g b)) :
    Unless reason (x >>= f) (y >>= g) := by
  rintro ⟨c, hc⟩
  obtain ⟨a, ha, hc⟩ := bind_eq_ok.1 hc
  rcases h ⟨a, ha⟩ with ⟨b, rfl⟩ | ⟨e, rfl, he⟩
  · exact hfg a b ⟨c, hc⟩
  · exact .inr ⟨e, rfl, he⟩

/-- Two runs that begin with the same step. -/
theorem bind_same {x : Result α} {f : α → Result γ} {g : α → Result δ}
    (hfg : ∀ a, Unless reason (f a) (g a)) : Unless reason (x >>= f) (x >>= g) := by
  cases x with
  | error e => rintro ⟨c, hc⟩; cases hc
  | ok a => exact hfg a

theorem ok {x : Result α} (b : β) : Unless reason x (.ok b) := fun _ => .inl ⟨b, rfl⟩

theorem error {e : Error} {y : Result β} : Unless reason (.error e : Result α) y :=
  fun ⟨_, ha⟩ => by cases ha

theorem mono {reason' : Error → Prop} {x : Result α} {y : Result β} (h : Unless reason x y)
    (hreason : ∀ e, reason e → reason' e) : Unless reason' x y := fun hx =>
  (h hx).imp_right fun ⟨e, hy, he⟩ => ⟨e, hy, hreason e he⟩

end Unless

/-- The refusal of one of these leaves, which has a list that its operator does not take. -/
def Refuses (ls : List Comparison) (e : Error) : Prop :=
  ∃ l ∈ ls, ¬ l.operator.Takes l.argument ∧ e = l.operator.refusal

theorem Refuses.mono {ls ls' : List Comparison} (h : ls ⊆ ls') {e : Error} (he : Refuses ls e) :
    Refuses ls' e := by
  obtain ⟨l, hl, hrefused⟩ := he
  exact ⟨l, h hl, hrefused⟩

mutual
theorem compileNode_unless (c : Catalog) (d : Dialect) (m : Model) : ∀ node : Node,
    Unless (Refuses node.leaves) (compileNode c d m node.unvalued) (compileNode c d m node)
  | .leaf link path operator argument => by
    rw [Node.unvalued, compileNode, compileNode]
    refine .bind_same fun r => Unless.bind (fun _ => ?_) fun _ _ => .ok _
    by_cases h : operator.Takes argument
    · exact .inl (exists_operatorSql h)
    · exact .inr ⟨_, operatorSql_refused h, _, List.mem_singleton.2 rfl, h, rfl⟩
  | .group link nodes => by
    rw [Node.unvalued, compileNode, compileNode]
    exact (compileNodes_unless c d m nodes).bind fun _ _ => .ok _

theorem compileNodes_unless (c : Catalog) (d : Dialect) (m : Model) : ∀ nodes : List Node,
    Unless (Refuses (leavesAll nodes)) (compileNodes c d m (unvaluedAll nodes))
      (compileNodes c d m nodes)
  | [] => .refl _
  | node :: rest => by
    rw [unvaluedAll, compileNodes, compileNodes]
    have hnode := (compileNode_unless c d m node).mono fun e =>
      Refuses.mono (List.subset_append_left node.leaves (leavesAll rest))
    have hrest := (compileNodes_unless c d m rest).mono fun e =>
      Refuses.mono (List.subset_append_right node.leaves (leavesAll rest))
    exact hnode.bind fun _ _ => hrest.bind fun _ _ => .ok _
end

namespace Compiler

theorem selection_unless (k : Compiler) (paths : List Path) :
    Unless (Refuses (leavesAll k.query.condition.nodes)) (k.unvalued.selection paths)
      (k.selection paths) := by
  obtain ⟨c, d, q, m⟩ := k
  unfold selection
  simp only [unvalued, Query.filter, Condition.paths_unvalued,
    resolveAll_query { q with condition := q.condition.unvalued } q]
  refine .bind_same fun orders => .bind_same ?_
  rintro ⟨joins, columns⟩
  dsimp only
  split
  · exact .error
  · refine .bind_same ?_
    rintro ⟨joins, -⟩
    refine .bind_same ?_
    rintro ⟨joins, groups⟩
    refine .bind_same ?_
    rintro ⟨joins, orderColumns⟩
    exact (compileNodes_unless c d m q.condition.nodes).bind fun _ _ => .ok _

theorem target_unless (k : Compiler) :
    Unless (Refuses (leavesAll k.query.condition.nodes)) k.unvalued.target k.target := by
  obtain ⟨c, d, q, m⟩ := k
  unfold target
  simp only [unvalued, Query.filter, Condition.paths_unvalued,
    resolveAll_query { q with condition := q.condition.unvalued } q]
  refine .bind_same ?_
  rintro ⟨joins, -⟩
  exact (compileNodes_unless c d m q.condition.nodes).bind fun _ _ => .ok _

theorem plan_unless (k : Compiler) (op : Operation) :
    Unless (Refuses (leavesAll (op.nodes k.query.condition))) (k.unvalued.plan op) (k.plan op) := by
  cases op with
  | select => exact (k.selection_unless k.projection).bind fun _ _ => .ok _
  | count => exact (k.selection_unless _).bind fun _ _ => .ok _
  | insert payload => exact .refl _
  | update payload => exact .bind_same fun _ => k.target_unless.bind fun _ _ => .ok _
  | delete => exact k.target_unless.bind fun _ _ => .ok _

variable {k : Compiler} {op : Operation}

theorem run_eq_ok (hc : k.catalog.WellFormed) (hm : k.model ∈ k.catalog.models) {st : Statement}
    (h : k.run op = .ok st) : (∃ p, k.plan op = .ok p) ∧ st.args = op.operands k.query.condition ∧
      countPlaceholders st.sql.toList = st.args.length := by
  rw [run_eq] at h
  obtain ⟨p, hp, h⟩ := bind_eq_ok.1 h
  cases (statement_eq hc hm hp).symm.trans h
  exact ⟨⟨p, hp⟩, rfl, (plan_fills hc hm hp fun _ => "?").count⟩

theorem takes_of_plan {p : Plan} (h : k.plan op = .ok p) :
    ∀ l ∈ leavesAll (op.nodes k.query.condition), l.operator.Takes l.argument := fun l hl =>
  exists_operatorSql_iff.1 ((plan_leaves h).1 l hl).2

/-- An operation that is compiled without values is compiled with them, unless a leaf is
refused. -/
theorem run_refused (hc : k.catalog.WellFormed) (hm : k.model ∈ k.catalog.models)
    {st : Statement} (h : k.unvalued.run op = .ok st) :
    (∃ st, k.run op = .ok st) ∨
      ∃ e, k.run op = .error e ∧ Refuses (leavesAll (op.nodes k.query.condition)) e := by
  obtain ⟨hplan, -⟩ := run_eq_ok (k := k.unvalued) hc hm h
  rcases k.plan_unless op hplan with ⟨p, hp⟩ | ⟨e, hp, he⟩
  · exact .inl ⟨_, run_of_plan hc hm hp⟩
  · exact .inr ⟨e, by rw [run_eq, hp]; rfl, he⟩

end Compiler

/-! ## Scalars -/

/-- The operands of an operation are scalars if its payload and the items of its set memberships
are. -/
theorem Operation.operands_scalar_iff {cond : Condition} {op : Operation}
    (h : ∀ l ∈ leavesAll (op.nodes cond), l.operator.Takes l.argument) :
    (∀ v ∈ op.operands cond, v.isList = false) ↔
      (∀ v ∈ op.values, v.isList = false) ∧
        ∀ l ∈ leavesAll (op.nodes cond), l.operator.isSetMembership = true →
          ∀ v ∈ itemsOf l.argument, v.isList = false := by
  have hleaf : ∀ l ∈ leavesAll (op.nodes cond), ((∀ v ∈ l.operands, v.isList = false) ↔
      (l.operator.isSetMembership = true → ∀ v ∈ itemsOf l.argument, v.isList = false)) := by
    rintro ⟨path, operator, argument⟩ hl
    have htakes := h _ hl
    have hscalar (hset : operator.isSetMembership = false) (hcheck : operator.isNullCheck = false) :
        argument.isList = false := by
      by_contra hlist
      rcases htakes (by simpa using hlist) with hbad | ⟨hbad, -⟩
      · exact absurd hbad (by simp [hcheck])
      · exact absurd hbad (by simp [hset])
    cases operator with
    | isIn | notIn => exact ⟨fun h _ => h, fun h => h rfl⟩
    | isNull | isNotNull => exact ⟨nofun, fun _ _ => nofun⟩
    | like | notLike | ilike | notIlike =>
      exact ⟨nofun, fun _ v hv => by rw [List.mem_singleton.1 hv]; rfl⟩
    | _ => exact ⟨nofun, fun _ v hv => by rw [List.mem_singleton.1 hv]; exact hscalar rfl rfl⟩
  simp only [Operation.operands, List.mem_append, or_imp, forall_and, List.mem_flatMap,
    forall_exists_index, and_imp]
  refine and_congr_right fun _ => ⟨fun hall l hl => (hleaf l hl).1 fun v hv => hall v l hl hv, ?_⟩
  exact fun hall v l hl hv => (hleaf l hl).2 (hall l hl) v hv

/-- A compiled statement has a placeholder for each of its arguments, and its leaves have no lists
but those that their operators take. Its arguments are scalars exactly if there is no list
in the payload and none among the items of a set membership. An operation that is compiled with
NULL for every argument is compiled with its arguments exactly if its operators take them, and
fails otherwise with the refusal of a leaf. -/
theorem Compiler.run_scalars_iff {c : Catalog} (hc : c.Reachable) {d : Dialect} {q : Query}
    {k : Compiler} (hk : Compiler.new c d q = .ok k) (op : Operation) :
    (∀ st, k.run op = .ok st →
      countPlaceholders st.sql.toList = st.args.length ∧
      (∀ l ∈ leavesAll (op.nodes q.condition), l.operator.Takes l.argument) ∧
      ((∀ v ∈ st.args, v.isList = false) ↔
        (∀ v ∈ op.values, v.isList = false) ∧
          ∀ l ∈ leavesAll (op.nodes q.condition), l.operator.isSetMembership = true →
            ∀ v ∈ itemsOf l.argument, v.isList = false)) ∧
    ∀ st, k.unvalued.run op = .ok st →
      ((∃ st, k.run op = .ok st) ↔
        ∀ l ∈ leavesAll (op.nodes q.condition), l.operator.Takes l.argument) ∧
      ∀ e, k.run op = .error e → e.category = .data ∧
        Refuses (leavesAll (op.nodes q.condition)) e := by
  obtain ⟨root, hm, -, rfl⟩ := Compiler.new_ok hk
  have htaken {st : Statement} (h : (Compiler.mk c d q root).run op = .ok st) :
      ∀ l ∈ leavesAll (op.nodes q.condition), l.operator.Takes l.argument := by
    obtain ⟨⟨p, hp⟩, -⟩ := run_eq_ok hc.wellFormed hm h
    exact takes_of_plan hp
  refine ⟨fun st h => ?_, fun st₀ h => ?_⟩
  · obtain ⟨-, hargs, hcount⟩ := run_eq_ok hc.wellFormed hm h
    refine ⟨hcount, htaken h, ?_⟩
    rw [hargs]
    exact Operation.operands_scalar_iff (htaken h)
  · rcases run_refused hc.wellFormed hm h with ⟨st, hst⟩ | ⟨e, hrun, l, hl, hrefused, rfl⟩
    · exact ⟨⟨fun _ => htaken hst, fun _ => ⟨st, hst⟩⟩, fun e he => by rw [hst] at he; cases he⟩
    · have hfailed : ¬ ∃ st, (Compiler.mk c d q root).run op = .ok st := fun ⟨st, hst⟩ =>
        hrefused (htaken hst l hl)
      refine ⟨⟨fun hrun => absurd hrun hfailed, fun h => absurd (h l hl) hrefused⟩, fun e he => ?_⟩
      cases hrun.symm.trans he
      exact ⟨l.operator.refusal_category, l, hl, hrefused, rfl⟩

/-- Persons of one of two ages or called by one of two names, which the comparison with a name
refuses. -/
def namedEither : Query :=
  markedPersons.andFilter
    (Condition.empty.addLeaf .and (.ofText "name") .equals (.list [.text "Ann", .text "Bob"]))

/-- The list of ages is spread. With the list of names nothing is compiled, and whatever the
reason is, it is a fault of the data. -/
theorem namedEither_refused : people.Reachable ∧
    (∃ k st, Compiler.new people .postgres markedPersons = .ok k ∧ k.run .delete = .ok st ∧
      (∀ v ∈ st.args, v.isList = false) ∧ st.args.length = 3) ∧
    ∃ k, Compiler.new people .postgres namedEither = .ok k ∧
      (¬ ∃ st, k.run .delete = .ok st) ∧ ∀ e, k.run .delete = .error e → e.category = .data := by
  have hmarked : Compiler.new people .postgres markedPersons =
      .ok ⟨people, .postgres, markedPersons, person⟩ := rfl
  have hnamed : Compiler.new people .postgres namedEither =
      .ok ⟨people, .postgres, namedEither, person⟩ := rfl
  obtain ⟨hrun, -⟩ := Compiler.run_scalars_iff people_reachable hmarked .delete
  obtain ⟨hcount, -, hscalars⟩ := hrun _ rfl
  have hlists := hscalars.2 ⟨by decide, by decide⟩
  obtain ⟨-, hrefused⟩ := Compiler.run_scalars_iff people_reachable hnamed .delete
  obtain ⟨htakes, herror⟩ := hrefused _ rfl
  have hname : ⟨.ofText "name", .equals, .list [.text "Ann", .text "Bob"]⟩ ∈
      leavesAll namedEither.condition.nodes := by simp [namedEither, markedPersons,
        Query.andFilter, Query.filter, Condition.addLeaf, Condition.addGroup, Condition.empty,
        Condition.isEmpty, leavesAll, Node.leaves]
  refine ⟨people_reachable, ⟨_, _, hmarked, rfl, hlists, hcount.symm.trans rfl⟩, _, hnamed,
    fun h => ?_, fun e he => (herror e he).1⟩
  have htaken := htakes.1 h _ hname rfl
  simp [Operator.isNullCheck, Operator.isSetMembership] at htaken

/-- A list in a payload is bound as it is, and so is a list among the items of another list. -/
theorem listedNames_bound : people.Reachable ∧
    (∃ k st, Compiler.new people .sqlite (Query.new "Person") = .ok k ∧
      k.run (.insert ⟨[("name", .list [.text "Ann", .text "Bob"])]⟩) = .ok st ∧
        st.args = [.list [.text "Ann", .text "Bob"]]) ∧
    ∃ k st, Compiler.new people .sqlite ((Query.new "Person").filter
        (Condition.empty.addLeaf .and (.ofText "age") .isIn
          (.list [.list [.integer 40]]))) = .ok k ∧
      k.run .select = .ok st ∧ st.args = [.list [.integer 40]] :=
  ⟨people_reachable, ⟨_, _, rfl, rfl, rfl⟩, _, _, rfl, rfl, rfl⟩

end RecordModel
