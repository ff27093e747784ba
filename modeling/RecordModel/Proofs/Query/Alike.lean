import Mathlib.Data.List.Forall2
import RecordModel.Proofs.Query.Operation

/-!
# Statements without values

Two queries that differ only in the values that their leaves compare with, and two payloads
that differ only in their values, are compiled to the same text. All that a text depends
on in a value is whether it is a list, and of how many items.

The two compilations are followed side by side: `Agree R x y` says that both fail with the
same error, or that both succeed with results related by `R`, and it is kept by putting steps
one behind the other. Terms are related if they differ only in arguments, so that their
tokens are the same, and spreading related arguments gives the same text.

Results:
* `compileNodes_agree`: the terms of like conditions differ only in arguments.
* `whereClause_agree`: the clauses of such terms have the same text.
* `run_alike`: like operations on like queries have statements of the same text, or fail with
  the same error.
-/
namespace RecordModel

open RecordModel.Text RecordModel.Sql

/-! ## Two runs -/

/-- Both fail with the same error, or both succeed with related results. -/
inductive Agree {α β : Type} (R : α → β → Prop) : Result α → Result β → Prop where
  | error (e : Error) : Agree R (.error e) (.error e)
  | ok {a : α} {b : β} : R a b → Agree R (.ok a) (.ok b)

namespace Agree

variable {α β γ δ : Type} {R : α → β → Prop} {S : γ → δ → Prop}

/-- What is behind two steps may use that they succeeded. -/
theorem bind_of_eq {x : Result α} {y : Result β} {f : α → Result γ} {g : β → Result δ}
    (h : Agree R x y)
    (hfg : ∀ a b, x = .ok a → y = .ok b → R a b → Agree S (f a) (g b)) :
    Agree S (x >>= f) (y >>= g) := by
  cases h with
  | error e => exact .error e
  | ok hab => exact hfg _ _ rfl rfl hab

theorem bind {x : Result α} {y : Result β} {f : α → Result γ} {g : β → Result δ}
    (h : Agree R x y) (hfg : ∀ a b, R a b → Agree S (f a) (g b)) : Agree S (x >>= f) (y >>= g) :=
  h.bind_of_eq fun a b _ _ hab => hfg a b hab

/-- Two runs that begin with the same step. -/
theorem bind_same {x : Result α} {f : α → Result γ} {g : α → Result δ}
    (hfg : ∀ a, Agree S (f a) (g a)) : Agree S (x >>= f) (x >>= g) := by
  cases x with
  | error e => exact .error e
  | ok a => exact hfg a

theorem mono {R' : α → β → Prop} {x : Result α} {y : Result β} (h : Agree R x y)
    (hR : ∀ a b, R a b → R' a b) : Agree R' x y := by
  cases h with
  | error e => exact .error e
  | ok hab => exact .ok (hR _ _ hab)

theorem mapM {f : α → Result γ} {g : β → Result δ} {xs : List α} {ys : List β}
    (hfg : ∀ a b, R a b → Agree S (f a) (g b)) (h : List.Forall₂ R xs ys) :
    Agree (List.Forall₂ S) (xs.mapM f) (ys.mapM g) := by
  induction h with
  | nil => exact .ok .nil
  | cons hab _ ih =>
    rw [List.mapM_cons, List.mapM_cons]
    exact (hfg _ _ hab).bind fun c d hcd => ih.bind fun cs ds hcds => .ok (.cons hcd hcds)

theorem map_eq {f : α → γ} {g : β → γ} {x : Result α} {y : Result β}
    (h : Agree (fun a b => f a = g b) x y) : Except.map f x = Except.map g y := by
  cases h with
  | error e => rfl
  | ok hab => exact congrArg Except.ok hab

end Agree

/-! ## Likeness -/

/-- Both values are lists, of the same length, or neither is one. -/
inductive Value.Alike : Value → Value → Prop where
  | scalars {v w : Value} : v.isList = false → w.isList = false → Alike v w
  | lists {items items' : List Value} : items.length = items'.length →
    Alike (.list items) (.list items')

mutual
/-- The nodes differ at most in the values that their leaves compare with. -/
inductive Node.Alike : Node → Node → Prop where
  | leaf {v w : Value} (link : Link) (path : Path) (op : Operator) : v.Alike w →
    Node.Alike (.leaf link path op v) (.leaf link path op w)
  | group {ms ns : List Node} (link : Link) : NodesAlike ms ns →
    Node.Alike (.group link ms) (.group link ns)

inductive NodesAlike : List Node → List Node → Prop where
  | nil : NodesAlike [] []
  | cons {m n : Node} {ms ns : List Node} : Node.Alike m n → NodesAlike ms ns →
    NodesAlike (m :: ms) (n :: ns)
end

/-- The queries differ at most in the values that the leaves of their conditions compare with. -/
structure Query.Alike (q q' : Query) : Prop where
  nodes : NodesAlike q.condition.nodes q'.condition.nodes
  rest : q' = { q with condition := q'.condition }

/-- The operations are the same, on payloads with the same keys. -/
inductive Operation.Alike : Operation → Operation → Prop where
  | select : Alike .select .select
  | count : Alike .count .count
  | insert {m m' : FieldMap} : m.keys = m'.keys → Alike (.insert m) (.insert m')
  | update {m m' : FieldMap} : m.keys = m'.keys → Alike (.update m) (.update m')
  | delete : Alike .delete .delete

namespace Value.Alike

variable {v w : Value}

theorem isList_eq (h : v.Alike w) : v.isList = w.isList := by
  cases h with
  | scalars hv hw => rw [hv, hw]
  | lists => rfl

theorem length_itemsOf (h : v.Alike w) : (itemsOf v).length = (itemsOf w).length := by
  cases h with
  | scalars hv hw => rw [itemsOf_eq hv, itemsOf_eq hw]; rfl
  | lists hlength => exact hlength

theorem marksOf_eq (h : v.Alike w) : marksOf (itemsOf v) = marksOf (itemsOf w) := by
  simp only [marksOf, List.map_const', h.length_itemsOf]

theorem isEmpty_itemsOf (h : v.Alike w) : (itemsOf v).isEmpty = (itemsOf w).isEmpty := by
  rw [Bool.eq_iff_iff, List.isEmpty_iff_length_eq_zero, List.isEmpty_iff_length_eq_zero,
    h.length_itemsOf]

end Value.Alike

/-! ## Operators -/

/-- The pieces of SQL have the same text and like arguments. -/
structure Sql.Fragment.Alike (f g : Fragment) : Prop where
  sql : f.sql = g.sql
  args : List.Forall₂ Value.Alike f.args g.args

theorem operatorSql_agree (d : Dialect) (op : Operator) {v w : Value} (h : v.Alike w) :
    Agree Fragment.Alike (d.operatorSql op v) (d.operatorSql op w) := by
  have hone {a b : Value} (sql : String) (hab : a.Alike b) :
      Agree Fragment.Alike (.ok ⟨sql, [a]⟩) (.ok ⟨sql, [b]⟩) := .ok ⟨rfl, .cons hab .nil⟩
  have hnone (sql : String) : Agree Fragment.Alike (.ok ⟨sql, []⟩) (.ok ⟨sql, []⟩) :=
    .ok ⟨rfl, .nil⟩
  have hitems : Value.Alike (.list (itemsOf v)) (.list (itemsOf w)) := .lists h.length_itemsOf
  unfold Dialect.operatorSql
  rw [h.isList_eq, h.isEmpty_itemsOf]
  split
  · exact .error _
  · cases op with
    | isIn | notIn =>
      dsimp only
      split
      · exact .error _
      · exact hone _ hitems
    | isNull | isNotNull => exact hnone _
    | like | notLike | ilike | notIlike => exact hone _ (.scalars rfl rfl)
    | equals | notEquals | lower | lowerOrEqual | greater | greaterOrEqual | likePattern
    | ilikePattern => exact hone _ h

/-! ## Terms -/

mutual
/-- The terms differ at most in the arguments of their tests. -/
inductive Term.Alike : Term → Term → Prop where
  | test {f g : Fragment} (link : Link) (column : ColumnRef) : f.Alike g →
    Term.Alike (.test link column f) (.test link column g)
  | group {ts us : List Term} (link : Link) : TermsAlike ts us →
    Term.Alike (.group link ts) (.group link us)

inductive TermsAlike : List Term → List Term → Prop where
  | nil : TermsAlike [] []
  | cons {t u : Term} {ts us : List Term} : Term.Alike t u → TermsAlike ts us →
    TermsAlike (t :: ts) (u :: us)
end

theorem TermsAlike.append {ts us ts' us' : List Term} (h : TermsAlike ts us)
    (h' : TermsAlike ts' us') : TermsAlike (ts ++ ts') (us ++ us') := by
  induction ts generalizing us with
  | nil => cases h; exact h'
  | cons t ts ih =>
    cases h with
    | cons ht hts => exact .cons ht (ih hts)

mutual
theorem compileNode_agree (c : Catalog) (d : Dialect) (root : Model) : ∀ {m n : Node},
    m.Alike n → Agree TermsAlike (compileNode c d root m) (compileNode c d root n)
  | _, _, .leaf link path op h => by
    rw [compileNode, compileNode]
    exact .bind_same fun r => (operatorSql_agree d op h).bind fun f g hfg =>
      .ok (.cons (.test link r.column hfg) .nil)
  | _, _, .group link h => by
    rw [compileNode, compileNode]
    refine (compileNodes_agree c d root h).bind fun ts us htu => .ok ?_
    cases htu with
    | nil => exact .nil
    | cons ht hts => exact .cons (.group link (.cons ht hts)) .nil

theorem compileNodes_agree (c : Catalog) (d : Dialect) (root : Model) : ∀ {ms ns : List Node},
    NodesAlike ms ns → Agree TermsAlike (compileNodes c d root ms) (compileNodes c d root ns)
  | _, _, .nil => .ok .nil
  | _, _, .cons hm hms => by
    rw [compileNodes, compileNodes]
    exact (compileNode_agree c d root hm).bind fun ts us htu =>
      (compileNodes_agree c d root hms).bind fun ts' us' htu' => .ok (htu.append htu')
end

mutual
theorem Term.Alike.tokens_eq : ∀ {t u : Term}, t.Alike u → ∀ first, t.tokens first = u.tokens first
  | _, _, .test link column h, first => by rw [Term.tokens, Term.tokens, h.sql]
  | _, _, .group link h, first => by rw [Term.tokens, Term.tokens, h.tokens_eq]

theorem TermsAlike.tokens_eq : ∀ {ts us : List Term}, TermsAlike ts us →
    ∀ first, termTokens first ts = termTokens first us
  | _, _, .nil, _ => rfl
  | _, _, .cons h hs, first => by rw [termTokens, termTokens, h.tokens_eq, hs.tokens_eq]
end

mutual
theorem Term.Alike.args : ∀ {t u : Term}, t.Alike u → List.Forall₂ Value.Alike t.args u.args
  | _, _, .test _ _ h => h.args
  | _, _, .group _ h => h.args

theorem TermsAlike.args : ∀ {ts us : List Term}, TermsAlike ts us →
    List.Forall₂ Value.Alike (termArgs ts) (termArgs us)
  | _, _, .nil => .nil
  | _, _, .cons h hs => List.rel_append h.args hs.args
end

/-! ## Clauses -/

theorem expandArguments_agree {vs ws : List Value} (h : List.Forall₂ Value.Alike vs ws) :
    Agree (fun l l' => l.map Prod.fst = l'.map Prod.fst) (expandArguments vs)
      (expandArguments ws) := by
  induction h with
  | nil => exact .ok rfl
  | cons hvw _ ih =>
    rw [expandArguments, expandArguments, hvw.isEmpty_itemsOf, hvw.marksOf_eq]
    split
    · exact .error _
    · exact ih.bind fun l l' hl => .ok (by rw [List.map_cons, List.map_cons, hl])

theorem expand_agree (sql : String) {vs ws : List Value} (h : List.Forall₂ Value.Alike vs ws) :
    Agree (fun p p' => p.1 = p'.1) (expand sql vs) (expand sql ws) := by
  have hlists : vs.any Value.isList = ws.any Value.isList := by
    induction h with
    | nil => rfl
    | cons hvw _ ih => rw [List.any_cons, List.any_cons, hvw.isList_eq, ih]
  unfold expand
  simp only [h.length_eq, hlists]
  split
  · exact .error _
  · split
    · exact .ok rfl
    · exact (expandArguments_agree h).bind fun l l' hl => .ok (by rw [hl])

theorem whereClause_agree {ts us : List Term} (h : TermsAlike ts us) :
    Agree (fun p p' => p.1 = p'.1) (whereClause ts) (whereClause us) := by
  unfold whereClause
  rw [h.tokens_eq]
  dsimp only
  split
  · exact .ok rfl
  · exact expand_agree _ h.args

/-! ## Plans -/

mutual
theorem Node.Alike.leafPaths_eq : ∀ {m n : Node}, m.Alike n → m.leafPaths = n.leafPaths
  | _, _, .leaf .. => rfl
  | _, _, .group _ h => h.leafPaths_eq

theorem NodesAlike.leafPaths_eq : ∀ {ms ns : List Node}, NodesAlike ms ns →
    leafPathsAll ms = leafPathsAll ns
  | _, _, .nil => rfl
  | _, _, .cons h hs => by rw [leafPathsAll, leafPathsAll, h.leafPaths_eq, hs.leafPaths_eq]
end

/-- The plans have the same text around a clause, and terms that differ at most in arguments. -/
structure Plan.Alike (p p' : Plan) : Prop where
  terms : TermsAlike p.terms p'.terms
  text : ∀ d clause, p.text d (fun _ => "?") clause = p'.text d (fun _ => "?") clause

/-- The text of an insertion depends on the columns that it writes to only. -/
theorem Insertion.text_congr {i i' : Insertion} (htable : i.table = i'.table)
    (hcolumns : i.assignments.map Assignment.column = i'.assignments.map Assignment.column) :
    (i.text fun _ => "?") = i'.text fun _ => "?" := by
  have hmarks : (i.assignments.map fun _ => "?") = i'.assignments.map fun _ => "?" := by
    simpa [Function.comp_def] using congrArg (List.map fun _ => "?") hcolumns
  unfold Insertion.text
  rw [htable, hcolumns, hmarks]

theorem Plan.Alike.statement_agree {p p' : Plan} (h : p.Alike p') (d : Dialect) :
    Agree (fun st st' => st.sql = st'.sql) (p.statement d) (p'.statement d) :=
  (whereClause_agree h.terms).bind fun (clause, args) (clause', args') hclause => by
    dsimp only at hclause
    subst hclause
    exact .ok (h.text d clause)

namespace Compiler

variable {c : Catalog} {d : Dialect} {q q' : Query} {m : Model}

theorem selection_agree (h : q.Alike q') (paths : List Path) :
    Agree (fun s s' => TermsAlike s.terms s'.terms ∧ s' = { s with terms := s'.terms })
      ((Compiler.mk c d q m).selection paths) ((Compiler.mk c d q' m).selection paths) := by
  obtain ⟨hnodes, hrest⟩ := h
  have hpaths : q.condition.paths = q'.condition.paths := by
    rw [Condition.paths, Condition.paths, hnodes.leafPaths_eq]
  unfold selection
  simp only [resolveAll_query q q', hpaths]
  generalize q'.condition = cond at hnodes hrest
  subst hrest
  refine .bind_same fun orders => .bind_same ?_
  rintro ⟨joins, columns⟩
  dsimp only
  split
  · exact .error _
  · refine .bind_same ?_
    rintro ⟨joins, -⟩
    refine .bind_same ?_
    rintro ⟨joins, groups⟩
    refine .bind_same ?_
    rintro ⟨joins, orderColumns⟩
    exact (compileNodes_agree c d m hnodes).bind fun ts us htu => .ok ⟨htu, rfl⟩

theorem target_agree (h : q.Alike q') :
    Agree (fun t t' => TermsAlike t.terms t'.terms ∧ t' = { t with terms := t'.terms })
      (Compiler.mk c d q m).target (Compiler.mk c d q' m).target := by
  have hpaths : q.condition.paths = q'.condition.paths := by
    rw [Condition.paths, Condition.paths, h.nodes.leafPaths_eq]
  unfold target
  simp only [resolveAll_query q q', hpaths]
  refine .bind_same ?_
  rintro ⟨joins, -⟩
  exact (compileNodes_agree c d m h.nodes).bind fun ts us htu => .ok ⟨htu, rfl⟩

theorem assignments_agree (kind : WriteKind) {data data' : FieldMap} (h : data.keys = data'.keys) :
    Agree (fun as as' => as.map Assignment.column = as'.map Assignment.column)
      ((Compiler.mk c d q m).assignments kind data)
      ((Compiler.mk c d q' m).assignments kind data') := by
  have hentries : List.Forall₂ Eq (data.entries.map Prod.fst) (data'.entries.map Prod.fst) := by
    rw [List.forall₂_eq_eq_eq]
    exact h
  rw [List.forall₂_map_left_iff, List.forall₂_map_right_iff] at hentries
  have hempty : data.isEmpty = data'.isEmpty := by
    rw [FieldMap.isEmpty, FieldMap.isEmpty, Bool.eq_iff_iff, List.isEmpty_iff_length_eq_zero,
      List.isEmpty_iff_length_eq_zero, hentries.length_eq]
  have hassign : ∀ e e' : String × Value, e.1 = e'.1 →
      Agree (fun a a' : Assignment => a.column = a'.column)
        (do return ⟨(← m.getField e.1).column, e.2⟩)
        (do return ⟨(← m.getField e'.1).column, e'.2⟩) := by
    intro e e' he
    rw [he]
    exact .bind_same fun f => .ok rfl
  unfold assignments
  rw [hempty]
  split
  · exact .error _
  · refine (Agree.mapM hassign hentries).mono fun as as' has => ?_
    rw [← List.forall₂_eq_eq_eq, List.forall₂_map_left_iff, List.forall₂_map_right_iff]
    exact has

theorem plan_agree (hq : q.Alike q') {op op' : Operation} (hop : op.Alike op') :
    Agree Plan.Alike ((Compiler.mk c d q m).plan op) ((Compiler.mk c d q' m).plan op') := by
  have hfields : (Compiler.mk c d q m).projection = (Compiler.mk c d q' m).projection := by
    rw [hq.rest]
    rfl
  cases hop with
  | select =>
    rw [plan, plan, hfields]
    refine (selection_agree hq _).bind fun s s' hs => .ok ⟨hs.1, fun d clause => ?_⟩
    rw [hs.2]
    rfl
  | count =>
    refine (selection_agree hq _).bind fun s s' hs => .ok ⟨hs.1, fun d clause => ?_⟩
    rw [hs.2]
    rfl
  | insert hkeys =>
    exact (assignments_agree .insert hkeys).bind fun as as' has =>
      .ok ⟨.nil, fun d clause => Insertion.text_congr rfl has⟩
  | update hkeys =>
    refine (assignments_agree .update hkeys).bind fun as as' has =>
      (target_agree hq).bind fun t t' ht => .ok ⟨ht.1, fun d clause => ?_⟩
    have hsettings : as.map (Assignment.text fun _ => "?") =
        as'.map (Assignment.text fun _ => "?") := by
      rw [Assignment.text_placeholder]
      simpa [Function.comp_def] using congrArg (List.map fun column => column ++ " = ?") has
    rw [ht.2, Plan.text, Plan.text, hsettings]
    rfl
  | delete =>
    refine (target_agree hq).bind fun t t' ht => .ok ⟨ht.1, fun d clause => ?_⟩
    rw [ht.2]
    rfl

end Compiler

/-- Like operations on like queries have statements of the same text, or fail with the same
error: neither text nor error depends on a value beyond the length of a list. -/
theorem run_alike (c : Catalog) (d : Dialect) {q q' : Query} (hq : q.Alike q')
    {op op' : Operation} (hop : op.Alike op') :
    Except.map Statement.sql (Compiler.new c d q >>= fun k => k.run op) =
      Except.map Statement.sql (Compiler.new c d q' >>= fun k => k.run op') := by
  have hmodel : q.model = q'.model := by rw [hq.rest]
  have hnew : Agree (fun k k' : Compiler => k = ⟨c, d, q, k.model⟩ ∧ k' = ⟨c, d, q', k.model⟩)
      (Compiler.new c d q) (Compiler.new c d q') := by
    unfold Compiler.new
    rw [hmodel]
    exact .bind_same fun root => .ok ⟨rfl, rfl⟩
  refine Agree.map_eq (hnew.bind fun k k' ⟨hk, hk'⟩ => ?_)
  rw [hk, hk', Compiler.run_eq, Compiler.run_eq]
  exact (Compiler.plan_agree hq hop).bind fun p p' hp => hp.statement_agree d

/-- Persons of a name and of none of two ages. -/
def namesakes (name age age' : Value) : Query :=
  (Query.new "Person").filter
    ((Condition.empty.addLeaf .and (.ofText "name") .equals name).addLeaf .andNot (.ofText "age")
      .isIn (.list [age, age']))

/-- A name that looks like SQL is compiled to the text that every name is compiled to. -/
theorem namesakes_text :
    (namesakes (.text "' OR 1 = 1 --?") .null (.text "?")).Alike
        (namesakes (.text "Ann") (.integer 40) (.integer 41)) ∧
      Operation.Alike (.update ⟨[("name", .text "', age = '1")]⟩)
        (.update ⟨[("name", .text "Bob")]⟩) ∧
      Except.map Statement.sql (Compiler.new people .postgres
          (namesakes (.text "' OR 1 = 1 --?") .null (.text "?")) >>= fun k =>
            k.run (.update ⟨[("name", .text "', age = '1")]⟩)) =
        .ok ("UPDATE \"person\" SET name = ? "
          ++ "WHERE \"person\".name = ? AND NOT \"person\".age IN (?, ?)") := by
  have hqueries : (namesakes (.text "' OR 1 = 1 --?") .null (.text "?")).Alike
      (namesakes (.text "Ann") (.integer 40) (.integer 41)) :=
    ⟨.cons (.leaf _ _ _ (.scalars rfl rfl)) (.cons (.leaf _ _ _ (.lists rfl)) .nil), rfl⟩
  have hpayloads : Operation.Alike (.update ⟨[("name", .text "', age = '1")]⟩)
      (.update ⟨[("name", .text "Bob")]⟩) := .update rfl
  exact ⟨hqueries, hpayloads, (run_alike people .postgres hqueries hpayloads).trans rfl⟩

end RecordModel
