import RecordModel.Proofs.Query.Tables
import RecordModel.Proofs.Query.Terms
import RecordModel.Proofs.Sql.Lexemes
import RecordModel.Proofs.Sql.Operands

/-!
# The clause of a query

The WHERE clause of a query is read as SQL reads it, each leaf being one atom of the text.
In a catalog that was built step by step names are identifiers, so that a column holds no
quote and no placeholder, and the clause of a condition whose leaves can be compiled has one
value: that of the pruned condition.

Results:
* `Compiler.exists_selection`: what it takes for a SELECT statement to be compiled.
* `Compiler.whereClause_eq`: the terms of accepted leaves have a clause, in which each leaf stands
  with its arguments spread, and which binds these arguments from left to right.
* `clause_value`: the clause of the statements of a query has the value of the pruned condition,
  for all values of the leaves, and is missing exactly if nothing is left of the condition.
-/
namespace RecordModel

open RecordModel.Sql

/-- The WHERE clause of a query, and the arguments it binds. -/
def Compiler.clause (k : Compiler) : Result (String × List Value) := do
  whereClause (← compileNodes k.catalog k.dialect k.model k.query.condition.nodes)

/-- The text of a leaf in the clause, with its list argument spread. -/
def Compiler.leafText (k : Compiler) (l : Comparison) : Result String := do
  let r ← k.resolve l.path
  let f ← k.dialect.operatorSql l.operator l.argument
  let (sql, _) ← expand f.sql f.args
  return r.column.text ++ " " ++ sql

/-- The path of the leaf is resolved, and its operator takes its argument. -/
def Compiler.Accepts (k : Compiler) (l : Comparison) : Prop :=
  (∃ r, k.resolve l.path = .ok r) ∧ ∃ f, k.dialect.operatorSql l.operator l.argument = .ok f

theorem Compiler.selection_terms {k : Compiler} {paths : List Path} {s : Selection}
    (h : k.selection paths = .ok s) :
    compileNodes k.catalog k.dialect k.model k.query.condition.nodes = .ok s.terms := by
  obtain ⟨_, _, _, _, _, _, _, -, -, -, -, -, -, hterms, -⟩ := selection_ok h
  exact hterms

/-- What an update and a deletion reach: the joins of the condition's paths, and its terms. -/
theorem Compiler.target_ok {k : Compiler} {t : Target} (h : k.target = .ok t) :
    t.table = k.model.table ∧
      (∃ columns, k.resolveAll [] k.query.condition.paths = .ok (t.joins, columns)) ∧
        compileNodes k.catalog k.dialect k.model k.query.condition.nodes = .ok t.terms := by
  unfold Compiler.target at h
  obtain ⟨⟨joins, columns⟩, hjoins, h⟩ := bind_eq_ok.1 h
  obtain ⟨terms, hterms, h⟩ := bind_eq_ok.1 h
  cases h
  exact ⟨rfl, ⟨columns, hjoins⟩, hterms⟩

/-- The clause is that of a SELECT statement for any paths. -/
theorem Compiler.selection_clause {k : Compiler} {paths : List Path} {s : Selection}
    (h : k.selection paths = .ok s) : whereClause s.terms = k.clause := by
  rw [Compiler.clause, selection_terms h]
  rfl

/-- The clause is that of an update and of a deletion. -/
theorem Compiler.target_clause {k : Compiler} {t : Target} (h : k.target = .ok t) :
    whereClause t.terms = k.clause := by
  rw [Compiler.clause, (target_ok h).2.2]
  rfl

/-! ## Columns -/

/-- A qualified column holds no placeholder, and ends outside of quotes. -/
theorem inert_columnRef (aliasName : String) {column : String} (h : isIdentifier column = true) :
    Inert (ColumnRef.mk aliasName column).text :=
  ((inert_quoteName aliasName).append (by decide)).append (inert_of_isIdentifier h)

theorem inert_column {c : Catalog} (hc : c.WellFormed) {root : Model} (hroot : root ∈ c.models)
    {path : Path} {r : Resolution} (hr : resolve c root path = .ok r) : Inert r.column.text := by
  obtain ⟨last, hw, -, hf⟩ := resolve_ok hr
  exact inert_columnRef _ ((hc.models last (hw.last_mem hroot)).identifiers _ hf).2

theorem quoted_column (r : ColumnRef) (s : String) : Quoted (r.text ++ s) := by
  simp [Quoted, ColumnRef.text, quoteName]

/-! ## Leaves -/

/-- A test whose list arguments are spread. -/
def Test.spread (t : Test) : Test := ⟨t.column, t.fragment.spread⟩

/-- What a leaf is compiled to, if it is accepted. -/
def Compiler.test (k : Compiler) (l : Comparison) : Test :=
  match l.compile k.catalog k.dialect k.model with
  | .ok t => t
  | .error _ => ⟨⟨"", ""⟩, ⟨"", []⟩⟩

namespace Compiler.Accepts

variable {k : Compiler} {l : Comparison}

theorem test_eq (h : k.Accepts l) : ∃ r f, k.resolve l.path = .ok r ∧
    k.dialect.operatorSql l.operator l.argument = .ok f ∧ k.test l = ⟨r.column, f⟩ := by
  obtain ⟨⟨r, hr⟩, f, hf⟩ := h
  refine ⟨r, f, hr, hf, ?_⟩
  unfold Compiler.resolve at hr
  rw [Compiler.test, Comparison.compile, hr, hf]
  rfl

theorem compile_eq (h : k.Accepts l) :
    l.compile k.catalog k.dialect k.model = .ok (k.test l) := by
  obtain ⟨r, f, hr, hf, ht⟩ := h.test_eq
  unfold Compiler.resolve at hr
  rw [ht, Comparison.compile, hr, hf]
  rfl

theorem composable (h : k.Accepts l) : (k.test l).fragment.Composable := by
  obtain ⟨r, f, -, hf, ht⟩ := h.test_eq
  rw [ht]
  exact operatorSql_composable hf

theorem leafText_eq (h : k.Accepts l) : k.leafText l = .ok (k.test l).spread.text := by
  have hexpand := h.composable.expand_eq
  obtain ⟨r, f, hr, hf, ht⟩ := h.test_eq
  rw [ht] at hexpand ⊢
  simp only [Compiler.leafText, hr, hf, bind, Except.bind, hexpand]
  rfl

theorem spreads_text (h : k.Accepts l) (hc : k.catalog.WellFormed)
    (hm : k.model ∈ k.catalog.models) :
    Spreads (k.test l).text (k.test l).fragment.args (k.test l).spread.text := by
  have hfragment := h.composable.spreads_spread
  obtain ⟨r, f, hr, hf, ht⟩ := h.test_eq
  have htext := hfragment.behind ((inert_column hc hm hr).append (by decide : Inert " "))
  rw [ht] at htext ⊢
  exact htext

end Compiler.Accepts

/-- A SELECT statement is compiled if it selects something, its paths are resolved, its orders can
be read and its operators take their arguments. -/
theorem Compiler.exists_selection {k : Compiler} {paths : List Path} {orders : List SortKey}
    (horders : k.query.orders.mapM SortKey.read = .ok orders) (hne : paths ≠ [])
    (hpaths : ∀ path ∈ k.used paths orders, ∃ r, k.resolve path = .ok r)
    (hoperators : ∀ l ∈ leavesAll k.query.condition.nodes,
      ∃ f, k.dialect.operatorSql l.operator l.argument = .ok f) :
    ∃ s, k.selection paths = .ok s := by
  have hpart (ps : List Path) (hps : ps ⊆ k.used paths orders) (set : List Join) :=
    exists_resolveAll (fun p hp => hpaths p (hps hp)) set
  have hcondition : k.query.condition.paths ⊆ k.used paths orders := fun p hp => by
    simp [used, hp]
  obtain ⟨set1, columns1, h1⟩ := hpart paths (fun p hp => by simp [used, hp]) []
  obtain ⟨set2, columns2, h2⟩ := hpart k.query.condition.paths hcondition set1
  obtain ⟨set3, columns3, h3⟩ := hpart k.query.groups (fun p hp => by simp [used, hp]) set2
  obtain ⟨set4, columns4, h4⟩ :=
    hpart (orders.map SortKey.path) (fun p hp => List.mem_append_right _ hp) set3
  have hcolumns : columns1.isEmpty = false := by
    obtain ⟨path, rest, rfl⟩ := List.exists_cons_of_ne_nil hne
    obtain ⟨r, columns', -, -, rfl⟩ := resolveAll_cons h1
    rfl
  have hterms : compileNodes k.catalog k.dialect k.model k.query.condition.nodes =
      .ok (termsOf k.test (pruneAll k.query.condition.nodes)) :=
    compileNodes_eq k.query.condition.nodes fun l hl =>
      Accepts.compile_eq ⟨hpaths _ (hcondition (Condition.path_mem_paths hl)), hoperators l hl⟩
  simp only [selection, horders, h1, h2, h3, h4, hterms, hcolumns, bind, Except.bind]
  exact ⟨_, rfl⟩

/-! ## Clauses -/

/-- The text of the clause of a condition whose leaves are written as `tests`. -/
def clauseText (tests : Comparison → Test) (nodes : List Node) : String :=
  if nodes.isEmpty then "" else "WHERE " ++ tokensText (termTokens true (termsOf tests nodes))

theorem test_text_ne_empty (t : Test) : t.text ≠ "" := by
  obtain ⟨cs, hcs⟩ := quoted_column t.column (" " ++ t.fragment.sql)
  intro h
  rw [Test.text, String.append_assoc] at h
  rw [h] at hcs
  cases hcs

theorem clauseText_eq_empty_iff (tests : Comparison → Test) (nodes : List Node) :
    clauseText tests nodes = "" ↔ nodes = [] := by
  unfold clauseText
  cases nodes with
  | nil => simp
  | cons node rest => simp

theorem tokensText_terms_ne_empty {tests : Comparison → Test} {nodes : List Node}
    (h : leavesAll nodes ≠ []) : tokensText (termTokens true (termsOf tests nodes)) ≠ "" := by
  intro he
  obtain ⟨l, hl⟩ := List.exists_mem_of_ne_nil _ h
  have hatom : (tests l).text ∈ atomsOf (termTokens true (termsOf tests nodes)) := by
    rw [atomsOf_terms]
    exact List.mem_map_of_mem hl
  exact test_text_ne_empty _ (atoms_of_tokensText_empty he _ hatom)

/-- The placeholders of a clause are filled leaf by leaf. -/
theorem fills_clauseText {mark : Value → String} {tests tests' : Comparison → Test}
    {nodes : List Node} (h : ∀ l ∈ leavesAll nodes,
      Fills mark (tests l).text (tests l).fragment.args (tests' l).text) :
    Fills mark (clauseText tests nodes) ((leavesAll nodes).flatMap fun l => (tests l).fragment.args)
      (clauseText tests' nodes) := by
  cases nodes with
  | nil => exact Inert.fills (by decide : Inert "")
  | cons node rest =>
    have htokens := (tokensFill_terms (node :: rest) true h).text
    rw [args_terms] at htokens
    exact htokens.behind (by decide : Inert "WHERE ")

/-- The terms of accepted leaves: each leaf stands in their clause with its own arguments spread,
and the clause binds the arguments of the leaves from left to right. -/
theorem Compiler.whereClause_eq {k : Compiler} (hc : k.catalog.WellFormed)
    (hm : k.model ∈ k.catalog.models) {nodes : List Node}
    (hleaves : ∀ l ∈ leavesAll nodes, k.Accepts l) :
    whereClause (termsOf k.test (pruneAll nodes)) =
      .ok (clauseText (fun l => (k.test l).spread) (pruneAll nodes),
        (leavesAll nodes).flatMap fun l => (k.test l).spread.fragment.args) := by
  have hpruned := leavesAll_pruneAll nodes
  have hnil := pruneAll_eq_nil_iff nodes
  rw [← hpruned] at hleaves hnil ⊢
  generalize pruneAll nodes = nodes at hleaves hnil
  have hspread : Spreads (clauseText k.test nodes) _
      (clauseText (fun l => (k.test l).spread) nodes) :=
    fills_clauseText fun l hl => (hleaves l hl).spreads_text hc hm
  have hargs : ∀ v ∈ (leavesAll nodes).flatMap fun l => (k.test l).fragment.args,
      itemsOf v ≠ [] := by
    intro v hv
    obtain ⟨l, hl, hv⟩ := List.mem_flatMap.1 hv
    exact (hleaves l hl).composable.items v hv
  have hexpand := hspread.expand_eq hargs
  rw [List.flatMap_assoc] at hexpand
  cases nodes with
  | nil => rfl
  | cons node rest =>
    have hne : leavesAll (node :: rest) ≠ [] := fun h => List.cons_ne_nil _ _ (hnil.2 h)
    have hempty :
        (tokensText (termTokens true (termsOf k.test (node :: rest)))).isEmpty = false := by
      simpa using tokensText_terms_ne_empty hne
    simp only [whereClause, hempty, args_terms]
    exact hexpand

theorem Compiler.clause_eq {k : Compiler} (hc : k.catalog.WellFormed)
    (hm : k.model ∈ k.catalog.models)
    (hleaves : ∀ l ∈ leavesAll k.query.condition.nodes, k.Accepts l) :
    ∃ args, k.clause =
      .ok (clauseText (fun l => (k.test l).spread) (pruneAll k.query.condition.nodes), args) := by
  have hcompile := compileNodes_eq k.query.condition.nodes fun l hl => (hleaves l hl).compile_eq
  rw [Compiler.clause, hcompile]
  exact ⟨_, whereClause_eq hc hm hleaves⟩

theorem clauseReads_clauseText (tests : Comparison → Test) {nodes : List Node}
    (hsolid : SolidAll nodes) {vs : List Truth} (hlen : vs.length = (leavesAll nodes).length) :
    ClauseReads (((leavesAll nodes).map fun l => (tests l).text).zip vs) (clauseText tests nodes)
      (conditionValue nodes vs) := by
  unfold ClauseReads
  cases nodes with
  | nil => rfl
  | cons node rest =>
    have hscan := scans_tokensText (termTokens true (termsOf tests (node :: rest))) vs
      (by rw [atomsOf_terms, List.length_map, hlen])
    rw [atomsOf_terms] at hscan
    have hread : Reads .disjunction (symbolsOf (termTokens true (termsOf tests (node :: rest))) vs)
        (linkedValue (bodies (node :: rest) vs)) :=
      reads_terms (node :: rest) hsolid (by simp) vs
    rw [if_neg (by rw [clauseText_eq_empty_iff]; simp)]
    exact ⟨_, _, by simp [clauseText], hscan, hread⟩

/-- With the values `vs` of the leaves, from left to right, the clause is read as `b`. -/
def Compiler.ClauseValue (k : Compiler) (vs : List Truth) (b : Truth) : Prop :=
  ∃ clause args texts, k.clause = .ok (clause, args) ∧
    (leavesAll k.query.condition.nodes).mapM k.leafText = .ok texts ∧
      vs.length = texts.length ∧ ClauseReads (texts.zip vs) clause b

theorem Compiler.ClauseValue.length_eq {k : Compiler} {vs : List Truth} {b : Truth}
    (hleaves : ∀ l ∈ leavesAll k.query.condition.nodes, k.Accepts l) (h : k.ClauseValue vs b) :
    vs.length = (leavesAll k.query.condition.nodes).length := by
  obtain ⟨-, -, texts, -, htexts, hlen, -⟩ := h
  rw [mapM_eq_ok fun l hl => (hleaves l hl).leafText_eq] at htexts
  cases htexts
  rw [hlen, List.length_map]

theorem Compiler.clauseValue_iff {k : Compiler} (hc : k.catalog.WellFormed)
    (hm : k.model ∈ k.catalog.models)
    (hleaves : ∀ l ∈ leavesAll k.query.condition.nodes, k.Accepts l) {vs : List Truth}
    (hlen : vs.length = (leavesAll k.query.condition.nodes).length) (b : Truth) :
    k.ClauseValue vs b ↔ b = conditionValue (pruneAll k.query.condition.nodes) vs := by
  obtain ⟨args, hclause⟩ := clause_eq hc hm hleaves
  have htexts := mapM_eq_ok fun l hl => (hleaves l hl).leafText_eq
  have hreads := clauseReads_clauseText (fun l => (k.test l).spread)
    (pruneAll_solid k.query.condition.nodes) (by rw [leavesAll_pruneAll]; exact hlen)
  rw [leavesAll_pruneAll] at hreads
  constructor
  · rintro ⟨clause, args', texts, h1, h2, -, h4⟩
    cases hclause.symm.trans h1
    cases htexts.symm.trans h2
    refine ClauseReads.unique (fun a ha => ?_) h4 hreads
    obtain ⟨l, -, hl⟩ := List.mem_map.1 (List.of_mem_zip ha).1
    rw [← hl, Test.text, String.append_assoc]
    exact quoted_column _ _
  · rintro rfl
    exact ⟨_, args, _, hclause, htexts, by rw [List.length_map, hlen], hreads⟩

/-- The clause of a query refines its condition: it is the clause of its SELECT statements and of
its updates and deletions, it has the value of the pruned condition, for all values of the leaves,
and there is none exactly if nothing is left over. -/
theorem clause_value {c : Catalog} (hc : c.Reachable) {d : Dialect} {q : Query} {k : Compiler}
    (hk : Compiler.new c d q = .ok k) (hleaves : ∀ l ∈ leavesAll q.condition.nodes, k.Accepts l) :
    (∀ {paths s}, k.selection paths = .ok s → whereClause s.terms = k.clause) ∧
    (∀ {t}, k.target = .ok t → whereClause t.terms = k.clause) ∧
    (∃ clause args, k.clause = .ok (clause, args) ∧
      (clause = "" ↔ pruneAll q.condition.nodes = [])) ∧
    ∀ vs : List Truth, vs.length = (leavesAll q.condition.nodes).length →
      ∀ b, k.ClauseValue vs b ↔ b = conditionValue (pruneAll q.condition.nodes) vs := by
  obtain ⟨root, hm, -, rfl⟩ := Compiler.new_ok hk
  refine ⟨Compiler.selection_clause, Compiler.target_clause, ?_,
    fun vs hlen b => Compiler.clauseValue_iff hc.wellFormed hm hleaves hlen b⟩
  obtain ⟨args, hclause⟩ := Compiler.clause_eq (k := ⟨c, d, q, root⟩) hc.wellFormed hm hleaves
  exact ⟨_, args, hclause, clauseText_eq_empty_iff _ _⟩

/-! ## A condition with an empty group -/

def person : Model :=
  ((Model.new "Person").withField (.scalar "name" .text)).withField (.scalar "age" .integer)

def people : Catalog := ⟨[person]⟩

theorem people_reachable : people.Reachable := .declare .empty (m := person) rfl

def peopleCompiler (q : Query) : Compiler := ⟨people, .sqlite, q, person⟩

theorem peopleCompiler_value_iff {q : Query}
    (hleaves : ∀ l ∈ leavesAll q.condition.nodes, (peopleCompiler q).Accepts l) {vs : List Truth}
    (hlen : vs.length = (leavesAll q.condition.nodes).length) (b : Truth) :
    (peopleCompiler q).ClauseValue vs b ↔ b = conditionValue (pruneAll q.condition.nodes) vs :=
  Compiler.clauseValue_iff people_reachable.wellFormed (List.mem_singleton.2 rfl) hleaves hlen b

/-- Persons called Ann, or not one of two ages; the group in between says nothing. -/
def annOrOthers : Query :=
  (Query.new "Person").filter
    (((Condition.empty.addLeaf .and (.ofText "name") .equals (.text "Ann")).addGroup .andNot
      .empty).addGroup .orNot
        (Condition.empty.addLeaf .or (.ofText "age") .isIn (.list [.integer 40, .integer 41])))

/-- With an unknown name and another age the clause holds, in a deletion too. -/
theorem annOrOthers_value : people.Reachable ∧
    Compiler.new people .sqlite annOrOthers = .ok (peopleCompiler annOrOthers) ∧
      (peopleCompiler annOrOthers).ClauseValue [.unknown, .fails] .holds ∧
        ∃ t, (peopleCompiler annOrOthers).target = .ok t ∧
          whereClause t.terms = (peopleCompiler annOrOthers).clause := by
  have hnew : Compiler.new people .sqlite annOrOthers = .ok (peopleCompiler annOrOthers) := rfl
  have hleaves : ∀ l ∈ leavesAll annOrOthers.condition.nodes,
      (peopleCompiler annOrOthers).Accepts l :=
    List.forall_mem_cons.2 ⟨⟨⟨_, rfl⟩, _, rfl⟩, List.forall_mem_singleton.2 ⟨⟨_, rfl⟩, _, rfl⟩⟩
  obtain ⟨-, htarget, -, hvalue⟩ := clause_value people_reachable hnew hleaves
  exact ⟨people_reachable, hnew, (hvalue [.unknown, .fails] rfl .holds).2 rfl, _, rfl, htarget rfl⟩

end RecordModel
