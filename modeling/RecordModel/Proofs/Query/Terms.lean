import RecordModel.Proofs.Filter.Meaning
import RecordModel.Proofs.Query.Tokens

/-!
# Terms of conditions

A condition all of whose leaves have a column and a piece of SQL is compiled to the terms of
its pruned tree. The tokens of these terms have the leaves as atoms, and read with SQL
precedence they have the value of the pruned tree, whatever the leaves are written as.

Results:
* `compileNodes_eq`: compiling gives the terms of the pruned nodes.
* `reads_terms`: the symbols of the terms of solid nodes have the value of the nodes.
* `tokensFill_terms`: filling the placeholders of terms fills those of each leaf by itself.
-/
namespace RecordModel

open RecordModel.Sql

/-- The column of a leaf and the SQL of its operator. -/
structure Test where
  column : ColumnRef
  fragment : Fragment

/-- The text of a leaf in a clause. -/
def Test.text (t : Test) : String := t.column.text ++ " " ++ t.fragment.sql

/-- What a leaf is compiled to. -/
def Comparison.compile (c : Catalog) (d : Dialect) (root : Model) (l : Comparison) :
    Result Test := do
  return ⟨(← resolve c root l.path).column, ← d.operatorSql l.operator l.argument⟩

mutual
/-- The term of a node whose leaves are written as `tests`. -/
def Node.term (tests : Comparison → Test) : Node → Term
  | .leaf link path operator argument =>
    .test link (tests ⟨path, operator, argument⟩).column (tests ⟨path, operator, argument⟩).fragment
  | .group link nodes => .group link (termsOf tests nodes)

def termsOf (tests : Comparison → Test) : List Node → List Term
  | [] => []
  | node :: rest => node.term tests :: termsOf tests rest
end

mutual
/-- The tests of terms, from left to right. -/
def Term.tests : Term → List Test
  | .test _ column fragment => [⟨column, fragment⟩]
  | .group _ terms => termTests terms

def termTests : List Term → List Test
  | [] => []
  | t :: rest => t.tests ++ termTests rest
end

variable {c : Catalog} {d : Dialect} {root : Model} {tests : Comparison → Test}
  {mark : Value → String}

theorem termsOf_append (ms ns : List Node) :
    termsOf tests (ms ++ ns) = termsOf tests ms ++ termsOf tests ns := by
  induction ms with
  | nil => rfl
  | cons m ms ih => simp [termsOf, ih]

theorem termsOf_eq_nil_iff (nodes : List Node) : termsOf tests nodes = [] ↔ nodes = [] := by
  cases nodes <;> simp [termsOf]

/-! ## Compiling -/

mutual
theorem compileNode_eq : ∀ node : Node,
    (∀ l ∈ node.leaves, l.compile c d root = .ok (tests l)) →
      compileNode c d root node = .ok (termsOf tests node.prune)
  | .leaf link path operator argument, h => by
    have hleaf := h ⟨path, operator, argument⟩ (by simp [Node.leaves])
    unfold Comparison.compile at hleaf
    rw [compileNode]
    cases hr : resolve c root path with
    | error e => simp only [hr] at hleaf; cases hleaf
    | ok r =>
      cases hf : d.operatorSql operator argument with
      | error e => simp only [hr, hf] at hleaf; cases hleaf
      | ok f =>
        simp only [hr, hf] at hleaf
        have htest := Except.ok.inj hleaf
        rw [Node.prune, termsOf, Node.term, ← htest]
        rfl
  | .group link nodes, h => by
    have hnodes := compileNodes_eq nodes h
    have hempty : (termsOf tests (pruneAll nodes)).isEmpty = (leavesAll nodes).isEmpty := by
      rw [Bool.eq_iff_iff, List.isEmpty_iff, List.isEmpty_iff, termsOf_eq_nil_iff,
        pruneAll_eq_nil_iff]
    rw [compileNode, hnodes, Node.prune]
    simp only [bind, Except.bind, pure, Except.pure, hempty]
    split <;> rfl

theorem compileNodes_eq : ∀ nodes : List Node,
    (∀ l ∈ leavesAll nodes, l.compile c d root = .ok (tests l)) →
      compileNodes c d root nodes = .ok (termsOf tests (pruneAll nodes))
  | [], _ => rfl
  | node :: rest, h => by
    have hnode := compileNode_eq node fun l hl => h l (by simp [leavesAll, hl])
    have hrest := compileNodes_eq rest fun l hl => h l (by simp [leavesAll, hl])
    rw [compileNodes_cons hnode hrest, pruneAll, termsOf_append]
end

/-! ## Atoms and arguments -/

theorem atomsOf_linkTokens (first : Bool) (link : Link) (ts : List WhereToken) :
    atomsOf (linkTokens first link ++ ts) = atomsOf ts := by
  obtain ⟨isOr, isNot⟩ := link
  cases first <;> cases isOr <;> cases isNot <;> rfl

mutual
theorem atomsOf_term : ∀ (node : Node) (first : Bool),
    atomsOf ((node.term tests).tokens first) = node.leaves.map fun l => (tests l).text
  | .leaf .., first => by
    rw [Node.term, Term.tokens, atomsOf_linkTokens]; rfl
  | .group link nodes, first => by
    rw [Node.term, Term.tokens, List.append_assoc, atomsOf_linkTokens, List.cons_append, atomsOf,
      atomsOf_append, atomsOf_terms nodes true]
    · simp [atomsOf, Node.leaves]
    · simp

theorem atomsOf_terms : ∀ (nodes : List Node) (first : Bool),
    atomsOf (termTokens first (termsOf tests nodes)) = (leavesAll nodes).map fun l => (tests l).text
  | [], _ => rfl
  | node :: rest, first => by
    rw [termsOf, termTokens, atomsOf_append, atomsOf_term node, atomsOf_terms rest, leavesAll,
      List.map_append]
end

mutual
theorem args_term : ∀ node : Node,
    (node.term tests).args = node.leaves.flatMap fun l => (tests l).fragment.args
  | .leaf .. => by simp [Node.term, Term.args, Node.leaves]
  | .group _ nodes => by rw [Node.term, Term.args, args_terms nodes, Node.leaves]

theorem args_terms : ∀ nodes : List Node,
    termArgs (termsOf tests nodes) = (leavesAll nodes).flatMap fun l => (tests l).fragment.args
  | [] => rfl
  | node :: rest => by
    rw [termsOf, termArgs, args_term node, args_terms rest, leavesAll, List.flatMap_append]
end

mutual
theorem tests_term : ∀ node : Node,
    (node.term tests).tests = node.leaves.map tests
  | .leaf .. => rfl
  | .group _ nodes => by rw [Node.term, Term.tests, tests_terms nodes, Node.leaves]

theorem tests_terms : ∀ nodes : List Node,
    termTests (termsOf tests nodes) = (leavesAll nodes).map tests
  | [] => rfl
  | node :: rest => by
    rw [termsOf, termTests, tests_term node, tests_terms rest, leavesAll, List.map_append]
end

/-! ## Filling -/

theorem tokensFill_link (first : Bool) (link : Link) :
    TokensFill mark (linkTokens first link) [] (linkTokens first link) := by
  obtain ⟨isOr, isNot⟩ := link
  cases first <;> cases isOr <;> cases isNot <;> exact .marks (by simp [linkTokens])

mutual
theorem tokensFill_term {tests' : Comparison → Test} : ∀ (node : Node) (first : Bool),
    (∀ l ∈ node.leaves,
      Fills mark (tests l).text (tests l).fragment.args (tests' l).text) →
        TokensFill mark ((node.term tests).tokens first) (node.term tests).args
          ((node.term tests').tokens first)
  | .leaf link path operator argument, first, h => by
    have hleaf := h ⟨path, operator, argument⟩ (by simp [Node.leaves])
    have hatom := (tokensFill_link first link).append (.atom hleaf .nil)
    rw [List.nil_append, List.append_nil] at hatom
    exact hatom
  | .group link nodes, first, h => by
    have hinner := tokensFill_terms nodes true h
    have hclosing : TokensFill mark [.closing] [] [.closing] := .marks (by simp)
    have hgroup := (tokensFill_link first link).append
      (.mark (t := .opening) (by simp) (hinner.append hclosing))
    rw [List.nil_append, List.append_nil] at hgroup
    simp only [Node.term, Term.tokens, Term.args, List.append_assoc, List.cons_append]
    exact hgroup

theorem tokensFill_terms {tests' : Comparison → Test} : ∀ (nodes : List Node) (first : Bool),
    (∀ l ∈ leavesAll nodes,
      Fills mark (tests l).text (tests l).fragment.args (tests' l).text) →
        TokensFill mark (termTokens first (termsOf tests nodes)) (termArgs (termsOf tests nodes))
          (termTokens first (termsOf tests' nodes))
  | [], _, _ => .nil
  | node :: rest, first, h =>
    (tokensFill_term node first fun l hl => h l (by simp [leavesAll, hl])).append
      (tokensFill_terms rest false fun l hl => h l (by simp [leavesAll, hl]))
end

/-! ## Reading -/

/-- A conjunction behind the symbols `front` is tied to the value `sum` by OR. -/
def OpenSum (front : List SqlSymbol) (sum : Truth) : Prop :=
  ∀ ss b, Reads .conjunction ss b → Reads .disjunction (front ++ ss) (sum.or b)

theorem openSum_nil : OpenSum [] .fails := by
  intro ss b h
  rw [Truth.fails_or]
  exact .conjunction h

theorem OpenSum.next {front ss : List SqlSymbol} {sum a : Truth} (h : OpenSum front sum)
    (ha : Reads .conjunction ss a) : OpenSum (front ++ ss ++ [.or]) (sum.or a) := by
  intro ts b hb
  rw [List.append_assoc, List.singleton_append]
  exact .or (h ss a ha) hb

/-- Behind other terms a term has its connective in front. -/
theorem Term.tokens_false (t : Term) :
    t.tokens false = (if t.link.isOr then .or else .and) :: t.tokens true := by
  cases t with
  | test link column fragment | group link terms =>
    obtain ⟨isOr, isNot⟩ := link
    cases isOr <;> rfl

theorem Node.link_term (node : Node) : (node.term tests).link = node.link := by
  cases node <;> rfl

theorem reads_not {link : Link} {ts : List WhereToken} {vs : List Truth} {b : Truth}
    (h : Reads .factor (symbolsOf ts vs) b) :
    Reads .factor (symbolsOf (linkTokens true link ++ ts) vs) (itemValue (link, b)) := by
  obtain ⟨isOr, isNot⟩ := link
  cases isNot with
  | false => exact h
  | true => exact .not h

mutual
theorem reads_term : ∀ node : Node, node.Solid → ∀ vs : List Truth,
    Reads .factor (symbolsOf ((node.term tests).tokens true) vs)
      (itemValue (node.link, node.body vs))
  | .leaf link path operator argument, _, vs => reads_not (.value (vs.headD .unknown))
  | .group link nodes, h, vs => by
    have hgroup := Reads.group (reads_terms nodes h.2 h.1 vs)
    rw [Node.term, Term.tokens, List.append_assoc]
    refine reads_not ?_
    rw [List.cons_append, symbolsOf, symbolsOf_append]
    exact hgroup

/-- What the terms behind a run add: they are read from left to right, with the disjunction
so far in front of the run at hand. -/
theorem reads_rest : ∀ nodes : List Node, SolidAll nodes → ∀ (vs : List Truth)
    {front ss : List SqlSymbol} {sum run : Truth}, OpenSum front sum → Reads .conjunction ss run →
      Reads .disjunction (front ++ ss ++ symbolsOf (termTokens false (termsOf tests nodes)) vs)
        (sum.or (continued run (bodies nodes vs)))
  | [], _, vs, front, ss, sum, run, hfront, hrun => by
    rw [termsOf, termTokens, symbolsOf, List.append_nil]
    exact hfront ss run hrun
  | node :: rest, h, vs, front, ss, sum, run, hfront, hrun => by
    have hnode := reads_term node h.1 vs
    rw [termsOf, termTokens, symbolsOf_append, atomsOf_term, List.length_map, Term.tokens_false,
      node.link_term, bodies, continued]
    by_cases hor : node.link.isOr = true
    · have hrest := reads_rest rest h.2 (vs.drop node.leaves.length) (hfront.next hrun)
        (.factor hnode)
      rw [Truth.or_assoc] at hrest
      simp only [hor, if_true, symbolsOf, List.append_assoc, List.cons_append, List.nil_append]
        at hrest ⊢
      exact hrest
    · have hrest := reads_rest rest h.2 (vs.drop node.leaves.length) hfront (.and hrun hnode)
      simp only [hor, List.append_assoc, List.cons_append] at hrest ⊢
      exact hrest

theorem reads_terms : ∀ nodes : List Node, SolidAll nodes → nodes ≠ [] → ∀ vs : List Truth,
    Reads .disjunction (symbolsOf (termTokens true (termsOf tests nodes)) vs)
      (linkedValue (bodies nodes vs))
  | [], _, hne, _ => absurd rfl hne
  | node :: rest, h, _, vs => by
    have hnode := reads_term node h.1 vs
    have hrest := reads_rest rest h.2 (vs.drop node.leaves.length) openSum_nil (.factor hnode)
    rw [Truth.fails_or, List.nil_append] at hrest
    rw [termsOf, termTokens, symbolsOf_append, atomsOf_term, List.length_map, bodies,
      linkedValue_cons]
    exact hrest
end

end RecordModel
