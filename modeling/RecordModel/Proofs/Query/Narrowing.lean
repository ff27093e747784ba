import RecordModel.Proofs.Query.Reading

/-!
# Narrowing queries

A query is narrowed down by a further condition, which goes to the end of its nodes as a
group tied by AND. AND binds tighter than OR, so the group narrows only the last run of
the nodes before it: the clause is the conjunction of both clauses exactly if there is only
one run, or if the further condition says nothing.

Results:
* `conditionValue_andFilter`: the value of the narrowed condition.
* `andFilter_conjunction_iff`: the clause of the narrowed query is the conjunction of the two
  clauses, for all values of the leaves, exactly if no node left of the query's condition is
  tied by OR behind the first, or nothing is left of the further condition.
-/
namespace RecordModel

open RecordModel.Sql

theorem andFilter_model (q : Query) (cond : Condition) : (q.andFilter cond).model = q.model := by
  unfold Query.andFilter
  split <;> rfl

theorem leavesAll_andFilter (q : Query) (cond : Condition) :
    leavesAll (q.andFilter cond).condition.nodes =
      leavesAll q.condition.nodes ++ leavesAll cond.nodes := by
  by_cases h : q.condition.isEmpty = true
  · have hnil : q.condition.nodes = [] := List.isEmpty_iff.1 h
    rw [Query.andFilter, if_pos h, hnil]
    rfl
  · rw [Query.andFilter_nodes (by simpa using h), leavesAll_append]
    simp [leavesAll, Node.leaves]

theorem pruneAll_addGroup (nodes inner : List Node) :
    pruneAll (nodes ++ [.group .and inner]) =
      pruneAll nodes ++ if pruneAll inner = [] then [] else [.group .and (pruneAll inner)] := by
  rw [pruneAll_append]
  simp only [pruneAll, Node.prune, List.append_nil, List.isEmpty_iff, pruneAll_eq_nil_iff]

theorem conditionValue_addGroup {nodes inner : List Node} (h : inner ≠ []) {us : List Truth}
    (hus : us.length = (leavesAll nodes).length) (ws : List Truth) :
    conditionValue (nodes ++ [.group .and inner]) (us ++ ws) =
      linkedValue (bodies nodes us ++ [(.and, conditionValue inner ws)]) := by
  rw [conditionValue_of_ne_nil (by simp), conditionValue_of_ne_nil h, bodies_append,
    bodies_append_values nodes us ws hus, List.drop_left' hus]
  rfl

/-- The value of the narrowed condition: the further condition is one more item, if
anything is left of it. -/
theorem conditionValue_andFilter (q : Query) (cond : Condition) {us ws : List Truth}
    (hus : us.length = (leavesAll q.condition.nodes).length)
    (hws : ws.length = (leavesAll cond.nodes).length) :
    conditionValue (pruneAll (q.andFilter cond).condition.nodes) (us ++ ws) =
      if pruneAll cond.nodes = [] then conditionValue (pruneAll q.condition.nodes) us
      else linkedValue (bodies (pruneAll q.condition.nodes) us ++
        [(.and, conditionValue (pruneAll cond.nodes) ws)]) := by
  by_cases hq : q.condition.isEmpty = true
  · have hnil : q.condition.nodes = [] := List.isEmpty_iff.1 hq
    have hnodes : (q.andFilter cond).condition.nodes = cond.nodes := by
      rw [Query.andFilter, if_pos hq]
    rw [hnil] at hus
    rw [hnodes, hnil, List.length_eq_zero_iff.1 hus, List.nil_append]
    split
    · rename_i hc; rw [hc]; rfl
    · exact (linkedValue_singleton (.and, _)).symm
  · rw [Query.andFilter_nodes (by simpa using hq), pruneAll_addGroup]
    by_cases hc : pruneAll cond.nodes = []
    · rw [(pruneAll_eq_nil_iff _).1 hc] at hws
      rw [if_pos hc, if_pos hc, List.length_eq_zero_iff.1 hws, List.append_nil, List.append_nil]
    · rw [← leavesAll_pruneAll] at hus
      rw [if_neg hc, if_neg hc, conditionValue_addGroup hc hus]

/-! ## Conjunctions -/

/-- What is left of the nodes is one run: behind the first, no node is tied by OR. -/
def OneRun (nodes : List Node) : Prop := ∀ node ∈ (pruneAll nodes).tail, node.link.isOr = false

instance (nodes : List Node) : Decidable (OneRun nodes) :=
  inferInstanceAs (Decidable (∀ node ∈ (pruneAll nodes).tail, node.link.isOr = false))

/-- A condition of one run is narrowed down to the conjunction. -/
theorem conditionValue_andFilter_of_oneRun {q : Query} {cond : Condition} {us ws : List Truth}
    (hus : us.length = (leavesAll q.condition.nodes).length)
    (hws : ws.length = (leavesAll cond.nodes).length)
    (h : OneRun q.condition.nodes ∨ pruneAll cond.nodes = []) :
    conditionValue (pruneAll (q.andFilter cond).condition.nodes) (us ++ ws) =
      (conditionValue (pruneAll q.condition.nodes) us).and
        (conditionValue (pruneAll cond.nodes) ws) := by
  rw [conditionValue_andFilter q cond hus hws]
  by_cases hc : pruneAll cond.nodes = []
  · rw [if_pos hc, hc]
    exact (Truth.and_holds _).symm
  rw [if_neg hc]
  by_cases hp : pruneAll q.condition.nodes = []
  · rw [hp]
    exact (linkedValue_singleton (.and, _)).trans (Truth.holds_and _).symm
  rw [linkedValue_snoc, conditionValue_of_ne_nil hp]
  · exact fun hb => hp (bodies_eq_nil_iff.1 hb)
  · intro i hi
    have hlink := List.mem_map_of_mem (f := Prod.fst) hi
    rw [map_fst_tail_bodies] at hlink
    obtain ⟨node, hnode, he⟩ := List.mem_map.1 hlink
    rw [← he]
    exact h.resolve_right hc node hnode

/-- Otherwise there are values of the leaves for which the query's condition holds and the
further one fails, but the narrowed condition holds. -/
theorem exists_not_narrowed {q : Query} {cond : Condition} (hq : ¬ OneRun q.condition.nodes)
    (hc : pruneAll cond.nodes ≠ []) :
    ∃ us ws : List Truth, us.length = (leavesAll q.condition.nodes).length ∧
      ws.length = (leavesAll cond.nodes).length ∧
      conditionValue (pruneAll q.condition.nodes) us = .holds ∧
      conditionValue (pruneAll cond.nodes) ws = .fails ∧
      conditionValue (pruneAll (q.andFilter cond).condition.nodes) (us ++ ws) = .holds := by
  have hor : ∃ node ∈ (pruneAll q.condition.nodes).tail, node.link.isOr = true := by
    simpa [OneRun] using hq
  have hp : pruneAll q.condition.nodes ≠ [] := by
    rintro hp
    simp [hp] at hor
  have hus : (forcingAll (pruneAll q.condition.nodes) .holds).length =
      (leavesAll q.condition.nodes).length := by rw [length_forcingAll, leavesAll_pruneAll]
  have hws : (forcingAll (pruneAll cond.nodes) .fails).length = (leavesAll cond.nodes).length := by
    rw [length_forcingAll, leavesAll_pruneAll]
  refine ⟨_, _, hus, hws, conditionValue_forcing hp (pruneAll_solid _) (by simp),
    conditionValue_forcing hc (pruneAll_solid _) (by simp), ?_⟩
  rw [conditionValue_andFilter q cond hus hws, if_neg hc]
  refine linkedValue_snoc_of_or ?_ (itemValue_forcing _ (pruneAll_solid _) .holds (by simp)) _
  obtain ⟨node, hnode, hisOr⟩ := hor
  have hlink := List.mem_map_of_mem (f := Node.link) hnode
  rw [← map_fst_tail_bodies _ (forcingAll (pruneAll q.condition.nodes) .holds)] at hlink
  obtain ⟨i, hi, he⟩ := List.mem_map.1 hlink
  exact ⟨i, hi, by rw [he, hisOr]⟩

/-! ## Clauses -/

/-- Reading the clause of a narrowed query as the conjunction of two clauses is right exactly
if the query's condition is one run, or if the further condition says nothing. -/
theorem andFilter_conjunction_iff {c : Catalog} (hc : c.Reachable) {d : Dialect} {q : Query}
    {cond : Condition} {k kc kn : Compiler} (hk : Compiler.new c d q = .ok k)
    (hkc : Compiler.new c d (q.filter cond) = .ok kc)
    (hkn : Compiler.new c d (q.andFilter cond) = .ok kn)
    (hq : ∀ l ∈ leavesAll q.condition.nodes, k.Accepts l)
    (hcond : ∀ l ∈ leavesAll cond.nodes, kc.Accepts l) :
    (∀ us ws a b, k.ClauseValue us a → kc.ClauseValue ws b →
      kn.ClauseValue (us ++ ws) (a.and b)) ↔
        OneRun q.condition.nodes ∨ pruneAll cond.nodes = [] := by
  obtain ⟨root, hm, hroot, rfl⟩ := Compiler.new_ok hk
  obtain ⟨rootc, -, hrootc, rfl⟩ := Compiler.new_ok hkc
  obtain ⟨rootn, -, hrootn, rfl⟩ := Compiler.new_ok hkn
  rw [andFilter_model] at hrootn
  cases hroot.symm.trans hrootc
  cases hroot.symm.trans hrootn
  have hn : ∀ l ∈ leavesAll (q.andFilter cond).condition.nodes,
      (Compiler.mk c d (q.andFilter cond) root).Accepts l := by
    rw [leavesAll_andFilter]
    intro l hl
    exact (List.mem_append.1 hl).elim (hq l) (hcond l)
  have hvalue {us : List Truth} (hus : us.length = (leavesAll q.condition.nodes).length)
      (a : Truth) : (Compiler.mk c d q root).ClauseValue us a ↔
        a = conditionValue (pruneAll q.condition.nodes) us :=
    Compiler.clauseValue_iff hc.wellFormed hm hq hus a
  have hvaluec {ws : List Truth} (hws : ws.length = (leavesAll cond.nodes).length) (b : Truth) :
      (Compiler.mk c d (q.filter cond) root).ClauseValue ws b ↔
        b = conditionValue (pruneAll cond.nodes) ws :=
    Compiler.clauseValue_iff hc.wellFormed hm hcond hws b
  have hvaluen {us ws : List Truth} (hus : us.length = (leavesAll q.condition.nodes).length)
      (hws : ws.length = (leavesAll cond.nodes).length) (e : Truth) :
      (Compiler.mk c d (q.andFilter cond) root).ClauseValue (us ++ ws) e ↔
        e = conditionValue (pruneAll (q.andFilter cond).condition.nodes) (us ++ ws) :=
    Compiler.clauseValue_iff hc.wellFormed hm hn
      (by rw [leavesAll_andFilter, List.length_append, List.length_append, hus, hws]) e
  constructor
  · intro hall
    by_contra hno
    obtain ⟨hrun, hne⟩ := not_or.1 hno
    obtain ⟨us, ws, hus, hws, ha, hb, he⟩ := exists_not_narrowed hrun hne
    have hnarrow := hall us ws _ _ ((hvalue hus _).2 rfl) ((hvaluec hws _).2 rfl)
    rw [hvaluen hus hws, ha, hb, he] at hnarrow
    cases hnarrow
  · intro h us ws a b ha hb
    have hus := ha.length_eq hq
    have hws := hb.length_eq hcond
    rw [hvaluen hus hws, (hvalue hus a).1 ha, (hvaluec hws b).1 hb]
    exact (conditionValue_andFilter_of_oneRun hus hws h).symm

/-! ## Two queries for persons -/

def annNotThirty : Query :=
  (Query.new "Person").filter
    ((Condition.empty.addLeaf .and (.ofText "name") .equals (.text "Ann")).addLeaf .andNot
      (.ofText "age") .equals (.integer 30))

def annOrBob : Query :=
  (Query.new "Person").filter
    ((Condition.empty.addLeaf .and (.ofText "name") .equals (.text "Ann")).addLeaf .or
      (.ofText "name") .equals (.text "Bob"))

def overForty : Condition := Condition.empty.addLeaf .and (.ofText "age") .greater (.integer 40)

theorem overForty_accepts (q : Query) :
    ∀ l ∈ leavesAll overForty.nodes, (peopleCompiler (q.filter overForty)).Accepts l :=
  List.forall_mem_singleton.2 ⟨⟨_, rfl⟩, _, rfl⟩

/-- A query of one run: an unknown age leaves it open whether it is narrowed down. -/
theorem annNotThirty_narrowed : people.Reachable ∧
    (peopleCompiler (annNotThirty.andFilter overForty)).ClauseValue [.holds, .fails, .unknown]
      .unknown := by
  have hleaves : ∀ l ∈ leavesAll annNotThirty.condition.nodes,
      (peopleCompiler annNotThirty).Accepts l :=
    List.forall_mem_cons.2 ⟨⟨⟨_, rfl⟩, _, rfl⟩, List.forall_mem_singleton.2 ⟨⟨_, rfl⟩, _, rfl⟩⟩
  have hcond := overForty_accepts annNotThirty
  have hall := (andFilter_conjunction_iff people_reachable (d := .sqlite) (q := annNotThirty)
    (k := peopleCompiler annNotThirty) rfl rfl rfl hleaves hcond).2 (.inl (by decide))
  exact ⟨people_reachable, hall [.holds, .fails] [.unknown] .holds .unknown
    ((peopleCompiler_value_iff hleaves rfl _).2 rfl) ((peopleCompiler_value_iff hcond rfl _).2 rfl)⟩

/-- Ann is found at any age: for an Ann who is not over forty the query's clause holds and the
further clause fails, but the clause of the narrowed query holds. -/
theorem annOrBob_not_narrowed :
    (peopleCompiler annOrBob).ClauseValue [.holds, .fails] .holds ∧
      (peopleCompiler (annOrBob.filter overForty)).ClauseValue [.fails] .fails ∧
        (peopleCompiler (annOrBob.andFilter overForty)).ClauseValue [.holds, .fails, .fails] .holds ∧
          ¬ (peopleCompiler (annOrBob.andFilter overForty)).ClauseValue [.holds, .fails, .fails]
            (Truth.holds.and .fails) := by
  have hleaves : ∀ l ∈ leavesAll annOrBob.condition.nodes, (peopleCompiler annOrBob).Accepts l :=
    List.forall_mem_cons.2 ⟨⟨⟨_, rfl⟩, _, rfl⟩, List.forall_mem_singleton.2 ⟨⟨_, rfl⟩, _, rfl⟩⟩
  have hcond := overForty_accepts annOrBob
  have hboth : ∀ l ∈ leavesAll (annOrBob.andFilter overForty).condition.nodes,
      (peopleCompiler (annOrBob.andFilter overForty)).Accepts l := by
    rw [leavesAll_andFilter]
    exact fun l hl => (List.mem_append.1 hl).elim (hleaves l) (hcond l)
  have hvalue (b : Truth) : (peopleCompiler (annOrBob.andFilter overForty)).ClauseValue
      [.holds, .fails, .fails] b ↔ b = .holds := peopleCompiler_value_iff hboth rfl b
  refine ⟨(peopleCompiler_value_iff hleaves rfl _).2 rfl, (peopleCompiler_value_iff hcond rfl _).2 rfl,
    (hvalue _).2 rfl, fun h => ?_⟩
  rw [hvalue] at h
  exact absurd h (by decide)

end RecordModel
