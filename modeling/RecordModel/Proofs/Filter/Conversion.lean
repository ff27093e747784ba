import RecordModel.Filter.Reading
import RecordModel.Proofs.Catalog.Reachable
import RecordModel.Proofs.Filter.Collation
import RecordModel.Proofs.Filter.Meaning

/-!
# Filter expressions and their conditions

What a filter expression says of a row is told by the expression itself: fields have the
values of the row, literals their own, a comparison asks for their order, and NOT, AND, OR
and parentheses work on truth values as they are nested in the tree. The condition made of it
is flat, its nodes tied by AND and OR in a row.

A flat list is read by precedence, so the tree must have been built by precedence too: an OR
never stands directly under an AND or a NOT, but in parentheses there (`isLayered`). That a
NOT never stands directly over an AND, nor an AND to the right of an AND, is true of parsed
expressions as well, but plays no part.

Results:
* `leafOf_truth`: a leaf answers for every row what its expression says.
* `nodesOf_stands`: the nodes of an expression, put in a list behind any link, have its value;
  without an OR at the top of the expression they are one run.
* `Condition.ofExpression_answer`: a condition answers what its expression says.
-/
namespace RecordModel.Filter

/-! ## What expressions say -/

section

variable (s : Collation) (row : Path → Value)

/-- The value that an expression denotes, if it denotes one. -/
def Expression.value? : Expression → Option Value
  | .name n => some (row ⟨[n.value]⟩)
  | .path names => some (row ⟨names.map Name.value⟩)
  | .literal l => l.value.toOption
  | .unary .minus e => e.value?.bind fun v => (negate v).toOption
  | .nested e => e.value?
  | _ => none

/-- What a comparison asks of the order of its sides. -/
def BinaryOperator.test? : BinaryOperator → Option (Ordering → Bool)
  | .eq => some (· == .eq)
  | .notEq => some (· != .eq)
  | .lt => some (· == .lt)
  | .ltEq => some (· != .gt)
  | .gt => some (· == .gt)
  | .gtEq => some (· != .lt)
  | _ => none

/-- What an expression says, if it says something. -/
def Expression.truth? : Expression → Option Truth
  | .binary left .and right => do return (← left.truth?).and (← right.truth?)
  | .binary left .or right => do return (← left.truth?).or (← right.truth?)
  | .binary left op right => do
    return s.compare (← op.test?) (← left.value? row) (← right.value? row)
  | .unary .not e => e.truth?.map Truth.not
  | .nested e => e.truth?
  | .between e negated low high => do
    let v ← e.value? row
    let reaches := s.compare (· != .lt) v (← low.value? row)
    let keeps := s.compare (· != .gt) v (← high.value? row)
    return (reaches.and keeps).notIf negated
  | .like e negated caseless _ pattern none => do
    return (s.like caseless (← e.value? row) (← pattern.value? row)).notIf negated
  | .inList e negated items => do
    return (s.among (← e.value? row) (← items.mapM fun item => item.value? row)).notIf negated
  | .isNull e => do return .ofBool (← e.value? row).isNull
  | .isNotNull e => do return .ofBool !(← e.value? row).isNull
  | _ => none

end

/-! ## Precedence -/

def Expression.isDisjunction : Expression → Bool
  | .binary _ .or _ => true
  | _ => false

/-- An OR never stands directly under an AND or a NOT. -/
def Expression.isLayered : Expression → Bool
  | .binary left .and right =>
    !left.isDisjunction && !right.isDisjunction && left.isLayered && right.isLayered
  | .binary left .or right => left.isLayered && right.isLayered
  | .unary .not e => !e.isDisjunction && e.isLayered
  | .nested e => e.isLayered
  | _ => true

end RecordModel.Filter

namespace RecordModel

open RecordModel.Filter

/-! ## What conditions answer -/

/-- What a leaf answers for a row. -/
def Comparison.answer (s : Collation) (row : Path → Value) (l : Comparison) : Truth :=
  l.operator.answer s (row l.path) l.argument

/-- What a condition answers for a row. -/
def Condition.answer (s : Collation) (row : Path → Value) (cond : Condition) : Truth :=
  conditionValue cond.nodes ((leavesAll cond.nodes).map (Comparison.answer s row))

variable {s : Collation} {row : Path → Value}

/-- The nodes of a list with their links, and what they answer without their negation. -/
def answers (s : Collation) (row : Path → Value) (nodes : List Node) : List (Link × Truth) :=
  bodies nodes ((leavesAll nodes).map (Comparison.answer s row))

theorem answers_append (ms ns : List Node) :
    answers s row (ms ++ ns) = answers s row ms ++ answers s row ns := by
  unfold answers
  rw [leavesAll_append, List.map_append, bodies_append, bodies_append_values ms _ _ (by simp),
    List.drop_left' (by simp)]

@[simp] theorem answers_leaf (link : Link) (path : Path) (op : Operator) (arg : Value) :
    answers s row [.leaf link path op arg] = [(link, op.answer s (row path) arg)] := rfl

@[simp] theorem answers_group (link : Link) (nodes : List Node) :
    answers s row [.group link nodes] = [(link, linkedValue (answers s row nodes))] := by
  simp only [answers, bodies, leavesAll, Node.leaves, List.append_nil, Node.link, Node.body]

/-! ## Leaves -/

theorem fieldOf_value {e : Expression} {path : Path} (h : fieldOf e = .ok path) :
    e.value? row = some (row path) := by
  unfold fieldOf at h
  split at h
  · cases h; rfl
  · cases h; rfl
  · cases h

theorem valueOf_value {e : Expression} {v : Value} (h : valueOf e = .ok v) :
    e.value? row = some v := by
  induction e using valueOf.induct generalizing v with
  | case1 l =>
    rw [valueOf] at h
    rw [Expression.value?, h]
    rfl
  | case2 e ih =>
    rw [valueOf] at h
    obtain ⟨w, hw, hv⟩ := bind_eq_ok.1 h
    rw [Expression.value?, ih hw, Option.bind_some, hv]
    rfl
  | case3 e ih =>
    rw [valueOf] at h
    rw [Expression.value?, ih h]
  | case4 e h1 h2 h3 =>
    rw [valueOf] at h
    · cases h
    all_goals assumption

theorem mapM_valueOf {items : List Expression} {vs : List Value}
    (h : items.mapM valueOf = .ok vs) : (items.mapM fun e => e.value? row) = some vs := by
  induction items generalizing vs with
  | nil => cases h; rfl
  | cons e items ih =>
    rw [List.mapM_cons] at h
    obtain ⟨v, hv, h⟩ := bind_eq_ok.1 h
    obtain ⟨ws, hws, h⟩ := bind_eq_ok.1 h
    cases h
    rw [List.mapM_cons, valueOf_value hv, ih hws]
    rfl

/-- The operator of a comparison asks for an order, and asks what the comparison asks. -/
theorem comparisonOf_test {symbol : BinaryOperator} {op : Operator}
    (h : comparisonOf symbol = .ok op) : op.isOrdering = true ∧ ∃ test, symbol.test? = some test ∧
      ∀ v w, op.answer s v w = s.compare test v w := by
  cases symbol with
  | eq | notEq | lt | ltEq | gt | gtEq => cases h; exact ⟨rfl, _, rfl, fun v w => rfl⟩
  | and | or | other => cases h

theorem comparison_truth {left right : Expression} {symbol : BinaryOperator} {op : Operator}
    {l : Leaf} (hop : comparisonOf symbol = .ok op) (h : comparison left right op = .ok l) :
    (Expression.binary left symbol right).truth? s row =
      some ((l.operator.answer s (row l.path) l.argument).notIf l.negated) := by
  obtain ⟨hordering, test, htest, hanswer⟩ := comparisonOf_test (s := s) hop
  have htruth : (Expression.binary left symbol right).truth? s row = do
      return s.compare (← symbol.test?) (← left.value? row) (← right.value? row) := by
    cases symbol with
    | and | or => cases hop
    | _ => rfl
  unfold comparison at h
  cases hleft : fieldOf left with
  | ok path =>
    rw [hleft] at h
    obtain ⟨v, hv, h⟩ := bind_eq_ok.1 h
    cases h
    rw [htruth, htest, fieldOf_value hleft, valueOf_value hv, hanswer]
    rfl
  | error e =>
    -- a literal on the left: the operator is turned round
    rw [hleft] at h
    obtain ⟨path, hpath, h⟩ := bind_eq_ok.1 h
    obtain ⟨v, hv, h⟩ := bind_eq_ok.1 h
    cases h
    rw [htruth, htest, valueOf_value hv, fieldOf_value hpath,
      Operator.answer_converse s hordering, hanswer]
    rfl

theorem leafOf_truth {e : Expression} {l : Leaf} (h : leafOf e = .ok l) :
    e.truth? s row = some ((l.operator.answer s (row l.path) l.argument).notIf l.negated) := by
  unfold leafOf at h
  split at h
  · rename_i left symbol right
    obtain ⟨op, hop, h⟩ := bind_eq_ok.1 h
    exact comparison_truth hop h
  · rename_i operand negated caseless any pattern escape
    cases escape with
    | some l => cases h
    | none =>
      obtain ⟨path, hpath, h⟩ := bind_eq_ok.1 h
      obtain ⟨v, hv, h⟩ := bind_eq_ok.1 h
      cases h
      rw [Expression.truth?, fieldOf_value hpath, valueOf_value hv]
      cases caseless <;> rfl
  · rename_i operand negated items
    obtain ⟨path, hpath, h⟩ := bind_eq_ok.1 h
    obtain ⟨vs, hvs, h⟩ := bind_eq_ok.1 h
    cases h
    rw [Expression.truth?, fieldOf_value hpath, mapM_valueOf hvs]
    cases negated <;> rfl
  · obtain ⟨path, hpath, h⟩ := bind_eq_ok.1 h
    cases h
    rw [Expression.truth?, fieldOf_value hpath]
    rfl
  · obtain ⟨path, hpath, h⟩ := bind_eq_ok.1 h
    cases h
    rw [Expression.truth?, fieldOf_value hpath]
    rfl
  · cases h

theorem betweenNodes_truth {operand low high : Expression} {nodes : List Node}
    (h : betweenNodes operand low high = .ok nodes) (negated : Bool) :
    (Expression.between operand negated low high).truth? s row =
      some ((linkedValue (answers s row nodes)).notIf negated) := by
  obtain ⟨path, hpath, h⟩ := bind_eq_ok.1 h
  obtain ⟨v, hv, h⟩ := bind_eq_ok.1 h
  obtain ⟨w, hw, h⟩ := bind_eq_ok.1 h
  cases h
  have hnodes : answers s row [.leaf .and path .greaterOrEqual v, .leaf .and path .lowerOrEqual w] =
      [(.and, s.compare (· != .lt) (row path) v), (.and, s.compare (· != .gt) (row path) w)] := rfl
  rw [Expression.truth?, fieldOf_value hpath, valueOf_value hv, valueOf_value hw, hnodes,
    linkedValue_cons]
  rfl

/-! ## Nodes -/

/-- Items that have the value `b` when they are put behind a link. -/
structure Stands (items : List (Link × Truth)) (link : Link) (b : Truth) : Prop where
  first : ∃ i rest, items = i :: rest ∧ i.1.isOr = link.isOr
  value : linkedValue items = b.notIf link.isNot

/-- None but perhaps the first of the items is tied by OR. -/
def Unbroken (items : List (Link × Truth)) : Prop := ∀ i ∈ items.tail, i.1.isOr = false

theorem Stands.ne_nil {items : List (Link × Truth)} {link : Link} {b : Truth}
    (h : Stands items link b) : items ≠ [] := by
  obtain ⟨i, rest, rfl, -⟩ := h.first
  exact List.cons_ne_nil i rest

theorem Stands.single {link link' : Link} (hlink : link'.isOr = link.isOr) {b b' : Truth}
    (hb : b'.notIf link'.isNot = b.notIf link.isNot) :
    Stands [(link', b')] link b ∧ Unbroken [(link', b')] :=
  ⟨⟨⟨_, [], rfl, hlink⟩, by rw [linkedValue_singleton, itemValue_eq, hb]⟩,
    fun i hi => (List.not_mem_nil hi).elim⟩

theorem Stands.group {nodes : List Node} {b : Truth} (h : Stands (answers s row nodes) .and b)
    (link : Link) : Stands (answers s row [.group link nodes]) link b ∧
      Unbroken (answers s row [.group link nodes]) := by
  rw [answers_group, h.value]
  exact Stands.single rfl rfl

theorem Stands.and {xs ys : List (Link × Truth)} {link : Link} {a b : Truth}
    (hx : Stands xs link a) (hy : Stands ys .and b) (hnot : link.isNot = false)
    (hxs : Unbroken xs) (hys : Unbroken ys) :
    Stands (xs ++ ys) link (a.and b) ∧ Unbroken (xs ++ ys) := by
  obtain ⟨i, rest, rfl, hi⟩ := hx.first
  obtain ⟨j, rest', rfl, hj⟩ := hy.first
  have hall : ∀ k ∈ j :: rest', k.1.isOr = false := List.forall_mem_cons.2 ⟨hj, hys⟩
  refine ⟨⟨⟨i, _, rfl, hi⟩, ?_⟩, fun k hk => ?_⟩
  · have hvalue := linkedValue_append_and hx.ne_nil hy.ne_nil hxs hall
    rw [hvalue, hx.value, hy.value, hnot]
    rfl
  · exact (List.mem_append.1 hk).elim (hxs k) (hall k)

theorem Stands.or {xs ys : List (Link × Truth)} {link : Link} {a b : Truth}
    (hx : Stands xs link a) (hy : Stands ys .or b) (hnot : link.isNot = false) :
    Stands (xs ++ ys) link (a.or b) := by
  obtain ⟨i, rest, rfl, hi⟩ := hx.first
  obtain ⟨j, rest', rfl, hj⟩ := hy.first
  refine ⟨⟨i, _, rfl, hi⟩, ?_⟩
  have hvalue := linkedValue_append_or hx.ne_nil hj rest'
  rw [hvalue, hx.value, hy.value, hnot]
  rfl

/-- The nodes of an expression behind a link have its value, behind a NOT if the link has one.
Where the expression is no OR, or a NOT has put it into a group, they are one run. -/
theorem nodesOf_stands {e : Expression} {link : Link} {nodes : List Node}
    (he : e.isLayered = true) (h : nodesOf link e = .ok nodes) :
    ∃ b, e.truth? s row = some b ∧ Stands (answers s row nodes) link b ∧
      (e.isDisjunction = false ∨ link.isNot = true → Unbroken (answers s row nodes)) := by
  induction link, e using nodesOf.induct generalizing nodes with
  | case1 link left right hnot ihl ihr =>
    simp only [Expression.isLayered, Bool.and_eq_true, Bool.not_eq_true'] at he
    obtain ⟨⟨⟨hl, hr⟩, hel⟩, her⟩ := he
    rw [nodesOf, if_pos hnot] at h
    obtain ⟨ms, hms, h⟩ := bind_eq_ok.1 h
    obtain ⟨ns, hns, h⟩ := bind_eq_ok.1 h
    cases h
    obtain ⟨a, ha, hm, hms'⟩ := ihl hel hms
    obtain ⟨b, hb, hn, hns'⟩ := ihr her hns
    obtain ⟨hboth, -⟩ := hm.and hn rfl (hms' (.inl hl)) (hns' (.inl hr))
    rw [← answers_append] at hboth
    obtain ⟨hstands, hrun⟩ := hboth.group link
    exact ⟨a.and b, by rw [Expression.truth?, ha, hb]; rfl, hstands, fun _ => hrun⟩
  | case2 link left right hnot ihl ihr =>
    simp only [Expression.isLayered, Bool.and_eq_true, Bool.not_eq_true'] at he
    obtain ⟨⟨⟨hl, hr⟩, hel⟩, her⟩ := he
    rw [nodesOf, if_neg hnot] at h
    obtain ⟨ms, hms, h⟩ := bind_eq_ok.1 h
    obtain ⟨ns, hns, h⟩ := bind_eq_ok.1 h
    cases h
    obtain ⟨a, ha, hm, hms'⟩ := ihl hel hms
    obtain ⟨b, hb, hn, hns'⟩ := ihr her hns
    rw [answers_append]
    obtain ⟨hstands, hrun⟩ := hm.and hn (by simpa using hnot) (hms' (.inl hl)) (hns' (.inl hr))
    exact ⟨a.and b, by rw [Expression.truth?, ha, hb]; rfl, hstands, fun _ => hrun⟩
  | case3 link left right hnot ihl ihr =>
    simp only [Expression.isLayered, Bool.and_eq_true] at he
    rw [nodesOf, if_pos hnot] at h
    obtain ⟨ms, hms, h⟩ := bind_eq_ok.1 h
    obtain ⟨ns, hns, h⟩ := bind_eq_ok.1 h
    cases h
    obtain ⟨a, ha, hm, -⟩ := ihl he.1 hms
    obtain ⟨b, hb, hn, -⟩ := ihr he.2 hns
    have hboth := hm.or hn rfl
    rw [← answers_append] at hboth
    obtain ⟨hstands, hrun⟩ := hboth.group link
    exact ⟨a.or b, by rw [Expression.truth?, ha, hb]; rfl, hstands, fun _ => hrun⟩
  | case4 link left right hnot ihl ihr =>
    simp only [Expression.isLayered, Bool.and_eq_true] at he
    rw [nodesOf, if_neg hnot] at h
    obtain ⟨ms, hms, h⟩ := bind_eq_ok.1 h
    obtain ⟨ns, hns, h⟩ := bind_eq_ok.1 h
    cases h
    obtain ⟨a, ha, hm, -⟩ := ihl he.1 hms
    obtain ⟨b, hb, hn, -⟩ := ihr he.2 hns
    rw [answers_append]
    refine ⟨a.or b, by rw [Expression.truth?, ha, hb]; rfl, hm.or hn (by simpa using hnot), ?_⟩
    exact fun hor => hor.elim (fun hor => by cases hor) (fun hor => absurd hor hnot)
  | case5 link inner ih =>
    rw [nodesOf] at h
    obtain ⟨ms, hms, h⟩ := bind_eq_ok.1 h
    cases h
    obtain ⟨b, hb, hm, -⟩ := ih he hms
    obtain ⟨hstands, hrun⟩ := hm.group link
    exact ⟨b, by rw [Expression.truth?, hb], hstands, fun _ => hrun⟩
  | case6 link operand ih =>
    simp only [Expression.isLayered, Bool.and_eq_true, Bool.not_eq_true'] at he
    rw [nodesOf] at h
    obtain ⟨b, hb, hm, hms⟩ := ih he.2 h
    refine ⟨b.not, by rw [Expression.truth?, hb]; rfl, ⟨hm.first, ?_⟩, fun _ => hms (.inl he.1)⟩
    rw [hm.value, Truth.not_notIf]
  | case7 link operand negated low high =>
    rw [nodesOf] at h
    obtain ⟨ms, hms, h⟩ := bind_eq_ok.1 h
    cases h
    rw [answers_group]
    have hor : ({ link with isNot := link.isNot ^^ negated } : Link).isOr = link.isOr := rfl
    obtain ⟨hstands, hrun⟩ := Stands.single hor (Truth.notIf_xor _ _ _)
    exact ⟨_, betweenNodes_truth hms negated, hstands, fun _ => hrun⟩
  | case8 link e h1 h2 h3 h4 h5 =>
    rw [nodesOf] at h
    · obtain ⟨l, hl, h⟩ := bind_eq_ok.1 h
      cases h
      rw [answers_leaf]
      have hor : ({ link with isNot := link.isNot ^^ l.negated } : Link).isOr = link.isOr := rfl
      obtain ⟨hstands, hrun⟩ := Stands.single hor (Truth.notIf_xor _ _ _)
      exact ⟨_, leafOf_truth hl, hstands, fun _ => hrun⟩
    all_goals assumption

/-- A condition answers for every row what the expression says that it was made of. -/
theorem Condition.ofExpression_answer (s : Collation) (row : Path → Value) {e : Expression}
    (he : e.isLayered = true) {cond : Condition} (h : Condition.ofExpression e = .ok cond) :
    e.truth? s row = some (cond.answer s row) := by
  obtain ⟨nodes, hnodes, h⟩ := bind_eq_ok.1 h
  cases h
  obtain ⟨b, hb, hstands, -⟩ : ∃ b, e.truth? s row = some b ∧
      Stands (answers s row nodes) .and b ∧ _ := nodesOf_stands he hnodes
  have hne : nodes ≠ [] := fun hnil => hstands.ne_nil (bodies_eq_nil_iff.2 hnil)
  rw [hb, Condition.answer, conditionValue_of_ne_nil hne]
  exact congrArg some hstands.value.symm

/-! ## A traveller of unknown standing -/

/-- `NOT NOT (30 < age OR name NOT LIKE 'B%') AND NOT age NOT BETWEEN 18 AND 65
OR city IS NULL AND age NOT IN (1, NULL)` -/
def travellers : Expression :=
  let age : Expression := .name ⟨"age", none⟩
  let whole (spelling : String) : Expression := .literal (.number spelling false)
  let named : Expression :=
    .like (.name ⟨"name", none⟩) true false false (.literal (.text "B%")) none
  let older : Expression := .unary .not (.unary .not (.nested
    (.binary (.binary (whole "30") .lt age) .or named)))
  let working : Expression := .unary .not (.between age true (whole "18") (whole "65"))
  let homeless : Expression := .binary (.isNull (.name ⟨"city", none⟩)) .and
    (.inList age true [whole "1", .literal .null])
  .binary (.binary older .and working) .or homeless

/-- Bob is twenty, and his city is not known. -/
def bob (path : Path) : Value :=
  if path.text = "name" then .text "Bob" else if path.text = "age" then .integer 20 else .null

/-- Twenty may be the NULL that it is compared with, so it stays unknown whether Bob is meant. -/
theorem travellers_bob : travellers.isLayered = true ∧
    ∃ cond, Condition.ofExpression travellers = .ok cond ∧ cond.nodes.length = 4 ∧
      cond.answer .plain bob = .unknown := by
  refine ⟨rfl, _, rfl, rfl, ?_⟩
  have hsays : travellers.truth? .plain bob = some .unknown := rfl
  have hanswer := Condition.ofExpression_answer .plain bob (e := travellers) rfl rfl
  exact Option.some.inj (hanswer.symm.trans hsays)

end RecordModel
