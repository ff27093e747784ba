import RecordModel.Proofs.Query.Reading

/-!
# Operations

What can be done with the records of a query, and the statement of each operation. A
statement is made in two steps: the paths and columns are looked up, which gives a plan, and
the plan is written as a text around a WHERE clause.

Results:
* `Compiler.run_eq`: the statement of an operation is that of its plan.
* `Compiler.plan_terms`: the terms of a plan are those of the query's condition.
* `Compiler.plan_leaves`: every leaf of a planned condition is accepted by the compiler.
* `Compiler.statement_eq`: a plan is always written, and its statement binds the values of the
  payload and behind them the operands of the leaves.
-/
namespace RecordModel

open RecordModel.Text RecordModel.Number RecordModel.Sql

/-- What is done with the records of a query; the writing ones carry a payload. -/
inductive Operation where
  | select
  | count
  | insert (payload : FieldMap)
  | update (payload : FieldMap)
  | delete

namespace Operation

/-- The values of the payload, in its order. -/
def values : Operation → List Value
  | insert payload | update payload => payload.entries.map Prod.snd
  | select | count | delete => []

/-- The nodes of a condition that the operation has regard to; an insertion has regard to none. -/
def nodes (cond : Condition) : Operation → List Node
  | insert _ => []
  | select | count | update _ | delete => cond.nodes

end Operation

/-- The statement of an operation. -/
def Compiler.run (k : Compiler) : Operation → Result Statement
  | .select => k.select
  | .count => k.count
  | .insert payload => k.insert payload
  | .update payload => k.update payload
  | .delete => k.delete

/-! ## Plans -/

/-- What an operation is compiled to, before it is written as a text. -/
inductive Plan where
  | select (s : Selection)
  | count (s : Selection)
  | insert (i : Insertion)
  | update (t : Target) (assignments : List Assignment)
  | delete (t : Target)

def Compiler.plan (k : Compiler) : Operation → Result Plan
  | .select => do return .select (← k.selection k.projection)
  | .count => do return .count (← k.selection [.ofText idField])
  | .insert payload => do return .insert ⟨k.model.table, ← k.assignments .insert payload⟩
  | .update payload => do
    let assignments ← k.assignments .update payload
    return .update (← k.target) assignments
  | .delete => do return .delete (← k.target)

/-- The SELECT statement with a given clause. -/
def Selection.text (s : Selection) (d : Dialect) (clause : String) : String :=
  join " "
    (["SELECT"] ++ (if s.distinct then ["DISTINCT"] else [])
      ++ [join ", " (s.columns.map Projection.text), "FROM", joinsText s.joins]
      ++ part clause
      ++ listPart "GROUP BY" (s.groups.map ColumnRef.text)
      ++ listPart "ORDER BY" (s.orders.map OrderItem.text)
      ++ part (d.limitOffsetSql s.limit s.offset))

/-- The statement that counts the rows of a SELECT statement with a given clause. -/
def Selection.countText (s : Selection) (d : Dialect) (clause : String) : String :=
  "SELECT COUNT(*) FROM (" ++ s.text d clause ++ ") foo"

/-- The INSERT statement with a given text for each value. -/
def Insertion.text (i : Insertion) (mark : Value → String) : String :=
  "INSERT INTO " ++ quoteName i.table ++ " (" ++ join ", " (i.assignments.map Assignment.column)
    ++ ") VALUES (" ++ join ", " (i.assignments.map fun a => mark a.value) ++ ") RETURNING "
    ++ idField

/-- The condition of a target with a given clause for its terms. -/
def Target.condition (t : Target) (clause : String) : String :=
  if hasJoins t.joins then
    "WHERE " ++ (ColumnRef.mk t.table idField).text ++ " IN (SELECT "
      ++ (ColumnRef.mk t.table idField).text ++ " FROM " ++ joinsText t.joins ++ " " ++ clause
      ++ ")"
  else clause

/-- The UPDATE statement with given settings. -/
def Target.updateText (t : Target) (settings : List String) (clause : String) : String :=
  withClause ("UPDATE " ++ quoteName t.table ++ " SET " ++ join ", " settings) (t.condition clause)

def Target.deleteText (t : Target) (clause : String) : String :=
  withClause ("DELETE FROM " ++ quoteName t.table) (t.condition clause)

def Assignment.text (mark : Value → String) (a : Assignment) : String :=
  a.column ++ " = " ++ mark a.value

namespace Plan

/-- The terms of the condition. -/
def terms : Plan → List Term
  | select s | count s => s.terms
  | insert _ => []
  | update t _ | delete t => t.terms

def assignments : Plan → List Assignment
  | insert i => i.assignments
  | update _ assignments => assignments
  | select _ | count _ | delete _ => []

/-- The statement with a given text for each value of the payload and a given clause. -/
def text (d : Dialect) (mark : Value → String) (clause : String) : Plan → String
  | select s => s.text d clause
  | count s => s.countText d clause
  | insert i => i.text mark
  | update t assignments => t.updateText (assignments.map (Assignment.text mark)) clause
  | delete t => t.deleteText clause

/-- The statement of a plan, with a placeholder for each value. -/
def statement (d : Dialect) (p : Plan) : Result Statement := do
  let (clause, args) ← whereClause p.terms
  return ⟨p.text d (fun _ => "?") clause, p.assignments.map Assignment.value ++ args⟩

end Plan

theorem join_append_part {ss : List String} (hne : ss ≠ []) (s : String) :
    join " " (ss ++ part s) = withClause (join " " ss) s := by
  unfold part withClause
  split
  · rw [List.append_nil]
  · induction ss with
    | nil => exact absurd rfl hne
    | cons t ss ih =>
      cases ss with
      | nil => rfl
      | cons u ss =>
        have hrest := ih (by simp)
        simp only [List.cons_append, join, String.append_assoc] at hrest ⊢
        rw [hrest]

theorem Selection.statement_eq (s : Selection) (d : Dialect) :
    s.statement d = (Plan.select s).statement d := by
  unfold Selection.statement Plan.statement
  simp only [Plan.terms]
  cases whereClause s.terms <;> rfl

theorem Selection.countStatement_eq (s : Selection) (d : Dialect) :
    s.countStatement d = (Plan.count s).statement d := by
  unfold Selection.countStatement Selection.statement Plan.statement
  simp only [Plan.terms]
  cases whereClause s.terms <;> rfl

theorem Insertion.statement_eq (i : Insertion) (d : Dialect) :
    (Plan.insert i).statement d = .ok i.statement := by
  have hclause : whereClause [] = .ok ("", []) := rfl
  simp only [Plan.statement, Plan.terms, hclause, bind, Except.bind, List.append_nil]
  rfl

theorem Target.clause_eq (t : Target) :
    t.clause = (whereClause t.terms).map fun (clause, args) => (t.condition clause, args) := by
  unfold Target.clause Target.condition
  cases whereClause t.terms with
  | error e => rfl
  | ok ca =>
    simp only [bind, Except.bind, Except.map]
    split <;> rfl

theorem Assignment.text_placeholder :
    Assignment.text (fun _ => "?") = fun a => a.column ++ " = ?" := by
  have hmark : " = " ++ "?" = " = ?" := by decide
  funext a
  simp only [Assignment.text, String.append_assoc, hmark]

theorem Target.updateStatement_eq (t : Target) (assignments : List Assignment) (d : Dialect) :
    t.updateStatement assignments = (Plan.update t assignments).statement d := by
  unfold Target.updateStatement Plan.statement
  rw [Target.clause_eq]
  simp only [Plan.terms, Plan.text, Assignment.text_placeholder]
  cases whereClause t.terms <;> rfl

theorem Target.deleteStatement_eq (t : Target) (d : Dialect) :
    t.deleteStatement = (Plan.delete t).statement d := by
  unfold Target.deleteStatement Plan.statement
  rw [Target.clause_eq]
  simp only [Plan.terms]
  cases whereClause t.terms <;> rfl

/-- The tail of a limited query in parts. -/
theorem limitOffsetSql_eq (d : Dialect) (limit offset : Nat) :
    ∃ ss, d.limitOffsetSql limit offset = join " " ss ∧ ∀ s ∈ ss,
      s = "LIMIT -1" ∨ s = "LIMIT " ++ natText limit ∨ s = "OFFSET " ++ natText offset := by
  have hlimit : "LIMIT -1 OFFSET " ++ natText offset =
      join " " ["LIMIT -1", "OFFSET " ++ natText offset] := by
    have hwords : "LIMIT -1 OFFSET " = "LIMIT -1" ++ " " ++ "OFFSET " := by decide
    rw [hwords, String.append_assoc]
    rfl
  have hboth : "LIMIT " ++ natText limit ++ " OFFSET " ++ natText offset =
      join " " ["LIMIT " ++ natText limit, "OFFSET " ++ natText offset] := by
    have hword : " OFFSET " = " " ++ "OFFSET " := by decide
    rw [hword, ← String.append_assoc, String.append_assoc]
    rfl
  cases d with
  | postgres =>
    refine ⟨_, rfl, fun s hs => ?_⟩
    have hpart {n : Nat} {t : String} (hs : s ∈ if n = 0 then [] else [t]) : s = t := by
      split at hs
      · cases hs
      · exact List.mem_singleton.1 hs
    exact .inr ((List.mem_append.1 hs).imp hpart hpart)
  | sqlite =>
    unfold Dialect.limitOffsetSql
    dsimp only
    split
    · split
      · exact ⟨[], rfl, by simp⟩
      · exact ⟨_, hlimit, by simp⟩
    · split
      · exact ⟨["LIMIT " ++ natText limit], rfl, by simp⟩
      · exact ⟨_, hboth, by simp⟩

namespace Compiler

variable {k : Compiler} {op : Operation}

/-- The statement of an operation is that of its plan. -/
theorem run_eq (k : Compiler) (op : Operation) :
    k.run op = k.plan op >>= Plan.statement k.dialect := by
  cases op with
  | select =>
    simp only [run, select, plan, bind_assoc, pure_bind]
    rfl
  | count =>
    simp only [run, count, plan, bind_assoc, pure_bind, Selection.countStatement_eq]
  | insert payload =>
    simp only [run, insert, plan, bind_assoc, pure_bind, Insertion.statement_eq]
    rfl
  | update payload =>
    simp only [run, update, plan, bind_assoc, pure_bind, Target.updateStatement_eq _ _ k.dialect]
  | delete =>
    simp only [run, delete, plan, bind_assoc, pure_bind, Target.deleteStatement_eq _ k.dialect]

/-! ## Terms of plans -/

theorem plan_terms {p : Plan} (h : k.plan op = .ok p) :
    compileNodes k.catalog k.dialect k.model (op.nodes k.query.condition) = .ok p.terms := by
  cases op with
  | select | count =>
    obtain ⟨s, hs, h⟩ := bind_eq_ok.1 h
    cases h
    exact selection_terms hs
  | insert payload =>
    obtain ⟨assignments, -, h⟩ := bind_eq_ok.1 h
    cases h
    rfl
  | update payload =>
    obtain ⟨assignments, -, h⟩ := bind_eq_ok.1 h
    obtain ⟨t, ht, h⟩ := bind_eq_ok.1 h
    cases h
    exact (target_ok ht).2.2
  | delete =>
    obtain ⟨t, ht, h⟩ := bind_eq_ok.1 h
    cases h
    exact (target_ok ht).2.2

/-- The payload's values are assigned to columns of the model, in its order. -/
theorem assignments_ok {kind : WriteKind} {payload : FieldMap} {assignments : List Assignment}
    (h : k.assignments kind payload = .ok assignments) :
    assignments.map Assignment.value = payload.entries.map Prod.snd ∧
      ∀ a ∈ assignments, ∃ f ∈ k.model.fields, a.column = f.column := by
  unfold Compiler.assignments at h
  split at h
  · cases h
  generalize payload.entries = entries at h
  induction entries generalizing assignments with
  | nil => cases h; simp
  | cons e entries ih =>
    rw [List.mapM_cons] at h
    obtain ⟨a, ha, h⟩ := bind_eq_ok.1 h
    obtain ⟨f, hf, ha⟩ := bind_eq_ok.1 ha
    obtain ⟨rest, hrest, h⟩ := bind_eq_ok.1 h
    cases ha
    cases h
    obtain ⟨hvalues, hcolumns⟩ := ih hrest
    refine ⟨by rw [List.map_cons, List.map_cons, hvalues], fun a ha => ?_⟩
    rcases List.mem_cons.1 ha with rfl | ha
    · exact ⟨f, Model.getField_mem hf, rfl⟩
    · exact hcolumns a ha

theorem plan_assignments {p : Plan} (h : k.plan op = .ok p) :
    p.assignments.map Assignment.value = op.values ∧
      ∀ a ∈ p.assignments, ∃ f ∈ k.model.fields, a.column = f.column := by
  cases op with
  | select | count | delete =>
    obtain ⟨s, -, h⟩ := bind_eq_ok.1 h
    cases h
    exact ⟨rfl, fun a ha => absurd ha (List.not_mem_nil)⟩
  | insert payload =>
    obtain ⟨assignments, ha, h⟩ := bind_eq_ok.1 h
    cases h
    exact assignments_ok ha
  | update payload =>
    obtain ⟨assignments, ha, h⟩ := bind_eq_ok.1 h
    obtain ⟨t, -, h⟩ := bind_eq_ok.1 h
    cases h
    exact assignments_ok ha

/-! ## Leaves that are compiled -/

mutual
theorem accepts_of_compileNode : ∀ (node : Node) {terms : List Term},
    compileNode k.catalog k.dialect k.model node = .ok terms → ∀ l ∈ node.leaves, k.Accepts l
  | .leaf link path operator argument, terms, h, l, hl => by
    rw [compileNode] at h
    obtain ⟨r, hr, h⟩ := bind_eq_ok.1 h
    obtain ⟨f, hf, -⟩ := bind_eq_ok.1 h
    rw [List.mem_singleton.1 hl]
    exact ⟨⟨r, hr⟩, f, hf⟩
  | .group link nodes, terms, h, l, hl => by
    rw [compileNode] at h
    obtain ⟨inner, hinner, -⟩ := bind_eq_ok.1 h
    exact accepts_of_compileNodes nodes hinner l hl

theorem accepts_of_compileNodes : ∀ (nodes : List Node) {terms : List Term},
    compileNodes k.catalog k.dialect k.model nodes = .ok terms → ∀ l ∈ leavesAll nodes, k.Accepts l
  | [], _, _, l, hl => absurd hl List.not_mem_nil
  | node :: rest, terms, h, l, hl => by
    rw [compileNodes] at h
    obtain ⟨first, hfirst, h⟩ := bind_eq_ok.1 h
    obtain ⟨others, hothers, -⟩ := bind_eq_ok.1 h
    rcases List.mem_append.1 hl with hl | hl
    · exact accepts_of_compileNode node hfirst l hl
    · exact accepts_of_compileNodes rest hothers l hl
end

/-- Leaves that are compiled are accepted, and their terms are those of the pruned nodes. -/
theorem leaves_of_compileNodes {nodes : List Node} {terms : List Term}
    (h : compileNodes k.catalog k.dialect k.model nodes = .ok terms) :
    (∀ l ∈ leavesAll nodes, k.Accepts l) ∧ terms = termsOf k.test (pruneAll nodes) := by
  have haccepts := accepts_of_compileNodes nodes h
  refine ⟨haccepts, ?_⟩
  have hcompile := compileNodes_eq nodes fun l hl => (haccepts l hl).compile_eq
  exact Except.ok.inj (h.symm.trans hcompile)

/-- The leaves of a plan's condition are accepted, and its terms are those of the pruned nodes. -/
theorem plan_leaves {p : Plan} (h : k.plan op = .ok p) :
    (∀ l ∈ leavesAll (op.nodes k.query.condition), k.Accepts l) ∧
      p.terms = termsOf k.test (pruneAll (op.nodes k.query.condition)) :=
  leaves_of_compileNodes (plan_terms h)

end Compiler

/-! ## Operands -/

def Comparison.operands (l : Comparison) : List Value := l.operator.operands l.argument

/-- What a statement compares and writes: the values of the payload, and behind them the operands
of the leaves from left to right. -/
def Operation.operands (cond : Condition) (op : Operation) : List Value :=
  op.values ++ (leavesAll (op.nodes cond)).flatMap Comparison.operands

namespace Compiler

variable {k : Compiler} {op : Operation}

theorem Accepts.spread_eq {l : Comparison} (h : k.Accepts l) :
    (k.test l).spread = ⟨(k.test l).column,
      k.dialect.written (fun _ => "?") l.operator l.argument, l.operands⟩ := by
  obtain ⟨r, f, -, hf, ht⟩ := h.test_eq
  rw [ht, Test.spread, operatorSql_spread hf]
  rfl

theorem operands_eq {nodes : List Node} (h : ∀ l ∈ leavesAll nodes, k.Accepts l) :
    ((leavesAll nodes).flatMap fun l => (k.test l).spread.fragment.args) =
      (leavesAll nodes).flatMap Comparison.operands := by
  refine List.flatMap_congr fun l hl => ?_
  rw [(h l hl).spread_eq]

/-- A plan is always written, and its statement binds the operands of the operation. -/
theorem statement_eq {p : Plan} (hc : k.catalog.WellFormed) (hm : k.model ∈ k.catalog.models)
    (h : k.plan op = .ok p) :
    p.statement k.dialect = .ok
      ⟨p.text k.dialect (fun _ => "?")
          (clauseText (fun l => (k.test l).spread) (pruneAll (op.nodes k.query.condition))),
        op.operands k.query.condition⟩ := by
  obtain ⟨haccepts, hterms⟩ := plan_leaves h
  have hclause := whereClause_eq hc hm haccepts
  rw [operands_eq haccepts] at hclause
  rw [Plan.statement, hterms, hclause, (plan_assignments h).1]
  rfl

theorem run_of_plan {p : Plan} (hc : k.catalog.WellFormed) (hm : k.model ∈ k.catalog.models)
    (h : k.plan op = .ok p) :
    k.run op = .ok
      ⟨p.text k.dialect (fun _ => "?")
          (clauseText (fun l => (k.test l).spread) (pruneAll (op.nodes k.query.condition))),
        op.operands k.query.condition⟩ := by
  rw [run_eq, h]
  exact statement_eq hc hm h

end Compiler

end RecordModel
