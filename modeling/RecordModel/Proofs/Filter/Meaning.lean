import RecordModel.Proofs.Filter.Truth

/-!
# The meaning of conditions

A condition is a tree whose leaves are comparisons. Given a truth value for each leaf, from
left to right, a list of nodes has the value that `linkedValue` gives to the values of its
nodes, and a group has the value of its list. A sub-condition without a leaf says nothing
and is left out together with its link; what is left over is the pruned tree.

The truth values of the leaves are those of their places, so that two leaves that compare
the same may still differ; what holds for all such values holds for those of any row.

Results:
* `pruneAll_eq_nil_iff`, `leavesAll_pruneAll`: pruning keeps the leaves, and leaves nothing
  exactly if there are none.
* `conditionValue_forcing`: a pruned tree has leaf values that make all its nodes true, and
  others that make them false.
-/
namespace RecordModel

/-- A leaf without its link. -/
structure Comparison where
  path : Path
  operator : Operator
  argument : Value

mutual
/-- The leaves, from left to right. -/
def Node.leaves : Node → List Comparison
  | .leaf _ path operator argument => [⟨path, operator, argument⟩]
  | .group _ nodes => leavesAll nodes

def leavesAll : List Node → List Comparison
  | [] => []
  | node :: rest => node.leaves ++ leavesAll rest
end

theorem leavesAll_append (ms ns : List Node) :
    leavesAll (ms ++ ns) = leavesAll ms ++ leavesAll ns := by
  induction ms with
  | nil => rfl
  | cons m ms ih => simp [leavesAll, ih]

mutual
theorem Node.leafPaths_eq : ∀ node : Node, node.leafPaths = node.leaves.map Comparison.path
  | .leaf .. => rfl
  | .group _ nodes => leafPathsAll_eq nodes

theorem leafPathsAll_eq : ∀ nodes : List Node,
    leafPathsAll nodes = (leavesAll nodes).map Comparison.path
  | [] => rfl
  | node :: rest => by
    rw [leafPathsAll, node.leafPaths_eq, leafPathsAll_eq rest, leavesAll, List.map_append]
end

/-- The path of a leaf is one of the paths of its condition. -/
theorem Condition.path_mem_paths {cond : Condition} {l : Comparison}
    (hl : l ∈ leavesAll cond.nodes) : l.path ∈ cond.paths := by
  rw [Condition.paths, List.mem_eraseDups, leafPathsAll_eq]
  exact List.mem_map_of_mem hl

/-! ## Pruning -/

mutual
/-- What is left of a node: nothing, if it is a group without a leaf. -/
def Node.prune : Node → List Node
  | .leaf link path operator argument => [.leaf link path operator argument]
  | .group link nodes => if (leavesAll nodes).isEmpty then [] else [.group link (pruneAll nodes)]

def pruneAll : List Node → List Node
  | [] => []
  | node :: rest => node.prune ++ pruneAll rest
end

theorem pruneAll_append (ms ns : List Node) :
    pruneAll (ms ++ ns) = pruneAll ms ++ pruneAll ns := by
  induction ms with
  | nil => rfl
  | cons m ms ih => simp [pruneAll, ih]

mutual
theorem Node.leavesAll_prune : ∀ node : Node, leavesAll node.prune = node.leaves
  | .leaf .. => by simp [Node.prune, Node.leaves, leavesAll]
  | .group link nodes => by
    rw [Node.prune, Node.leaves]
    split
    · rename_i h; rw [List.isEmpty_iff.1 h]; rfl
    · simp [leavesAll, Node.leaves, leavesAll_pruneAll nodes]

theorem leavesAll_pruneAll : ∀ nodes : List Node, leavesAll (pruneAll nodes) = leavesAll nodes
  | [] => rfl
  | node :: rest => by
    rw [pruneAll, leavesAll_append, node.leavesAll_prune, leavesAll_pruneAll rest, leavesAll]
end

theorem Node.prune_eq_nil {node : Node} (h : node.leaves = []) : node.prune = [] := by
  cases node with
  | leaf link path operator argument => simp [Node.leaves] at h
  | group link nodes =>
    rw [Node.leaves] at h
    simp [Node.prune, h]

theorem pruneAll_eq_nil_iff (nodes : List Node) : pruneAll nodes = [] ↔ leavesAll nodes = [] := by
  constructor
  · intro h
    rw [← leavesAll_pruneAll, h]; rfl
  · intro h
    induction nodes with
    | nil => rfl
    | cons node rest ih =>
      obtain ⟨h1, h2⟩ := List.append_eq_nil_iff.1 (leavesAll.eq_2 node rest ▸ h)
      rw [pruneAll, Node.prune_eq_nil h1, ih h2]; rfl

mutual
/-- No group in the tree is empty. -/
def Node.Solid : Node → Prop
  | .leaf .. => True
  | .group _ nodes => nodes ≠ [] ∧ SolidAll nodes

def SolidAll : List Node → Prop
  | [] => True
  | node :: rest => node.Solid ∧ SolidAll rest
end

theorem SolidAll.append {ms ns : List Node} (hm : SolidAll ms) (hn : SolidAll ns) :
    SolidAll (ms ++ ns) := by
  induction ms with
  | nil => exact hn
  | cons m ms ih => exact ⟨hm.1, ih hm.2⟩

mutual
theorem Node.prune_solid : ∀ node : Node, SolidAll node.prune
  | .leaf .. => ⟨trivial, trivial⟩
  | .group link nodes => by
    rw [Node.prune]
    split
    · trivial
    · rename_i h
      have hne : pruneAll nodes ≠ [] := fun he =>
        h (List.isEmpty_iff.2 ((pruneAll_eq_nil_iff nodes).1 he))
      exact ⟨⟨hne, pruneAll_solid nodes⟩, trivial⟩

theorem pruneAll_solid : ∀ nodes : List Node, SolidAll (pruneAll nodes)
  | [] => trivial
  | node :: rest => SolidAll.append node.prune_solid (pruneAll_solid rest)
end

/-! ## Values -/

mutual
/-- The value of a node without its negation. The values of its leaves come first in the
list; the rest belongs to the nodes behind it. -/
def Node.body : Node → List Truth → Truth
  | .leaf .., vs => vs.headD .unknown
  | .group _ nodes, vs => linkedValue (bodies nodes vs)

/-- The nodes of a list with their links and values. -/
def bodies : List Node → List Truth → List (Link × Truth)
  | [], _ => []
  | node :: rest, vs => (node.link, node.body vs) :: bodies rest (vs.drop node.leaves.length)
end

/-- The value of a condition; without nodes it holds for every row. -/
def conditionValue (nodes : List Node) (vs : List Truth) : Truth :=
  if nodes.isEmpty then .holds else linkedValue (bodies nodes vs)

theorem map_fst_bodies (nodes : List Node) (vs : List Truth) :
    (bodies nodes vs).map Prod.fst = nodes.map Node.link := by
  induction nodes generalizing vs with
  | nil => rfl
  | cons node rest ih => simp [bodies, ih]

theorem map_fst_tail_bodies (nodes : List Node) (vs : List Truth) :
    (bodies nodes vs).tail.map Prod.fst = nodes.tail.map Node.link := by
  rw [List.map_tail, map_fst_bodies, ← List.map_tail]

theorem bodies_eq_nil_iff {nodes : List Node} {vs : List Truth} :
    bodies nodes vs = [] ↔ nodes = [] := by
  cases nodes <;> simp [bodies]

theorem conditionValue_of_ne_nil {nodes : List Node} (h : nodes ≠ []) (vs : List Truth) :
    conditionValue nodes vs = linkedValue (bodies nodes vs) := by
  have hempty : nodes.isEmpty = false := by simpa using h
  rw [conditionValue, hempty]
  rfl

theorem bodies_append (ms ns : List Node) (vs : List Truth) :
    bodies (ms ++ ns) vs = bodies ms vs ++ bodies ns (vs.drop (leavesAll ms).length) := by
  induction ms generalizing vs with
  | nil => rfl
  | cons m ms ih => simp [bodies, leavesAll, ih, Nat.add_comm]

mutual
/-- A node reads the values of its own leaves only. -/
theorem Node.body_append : ∀ (node : Node) (us ws : List Truth),
    us.length = node.leaves.length → node.body (us ++ ws) = node.body us
  | .leaf .., us, ws, h => by
    obtain ⟨u, rfl⟩ := List.length_eq_one_iff.1 h
    rfl
  | .group _ nodes, us, ws, h => by
    rw [Node.body, Node.body, bodies_append_values nodes us ws h]

theorem bodies_append_values : ∀ (nodes : List Node) (us ws : List Truth),
    us.length = (leavesAll nodes).length → bodies nodes (us ++ ws) = bodies nodes us
  | [], _, _, _ => rfl
  | node :: rest, us, ws, h => by
    rw [leavesAll, List.length_append] at h
    have hsplit := List.take_append_drop node.leaves.length us
    have hnode := node.body_append (us.take node.leaves.length)
    have hlen : (us.take node.leaves.length).length = node.leaves.length := by
      rw [List.length_take]; omega
    have hrest := bodies_append_values rest (us.drop node.leaves.length) ws
      (by rw [List.length_drop]; omega)
    rw [bodies, bodies, List.drop_append_of_le_length (by omega), hrest]
    congr 2
    rw [← hsplit, List.append_assoc, hnode _ hlen, hnode _ hlen]
end

/-! ## Forcing a value -/

theorem itemValue_itemValue (link : Link) (b : Truth) :
    itemValue (link, itemValue (link, b)) = b := by
  unfold itemValue
  split <;> simp_all

theorem itemValue_ne_unknown (link : Link) {b : Truth} (h : b ≠ .unknown) :
    itemValue (link, b) ≠ .unknown := by
  unfold itemValue
  split
  · cases b <;> simp_all [Truth.not]
  · exact h

mutual
/-- Values of the leaves that make a node have the value `b`, each negation undone. -/
def Node.forcing : Node → Truth → List Truth
  | .leaf link .., b => [itemValue (link, b)]
  | .group link nodes, b => forcingAll nodes (itemValue (link, b))

def forcingAll : List Node → Truth → List Truth
  | [], _ => []
  | node :: rest, b => node.forcing b ++ forcingAll rest b
end

mutual
theorem Node.length_forcing : ∀ (node : Node) (b : Truth),
    (node.forcing b).length = node.leaves.length
  | .leaf .., _ => rfl
  | .group _ nodes, _ => length_forcingAll nodes _

theorem length_forcingAll : ∀ (nodes : List Node) (b : Truth),
    (forcingAll nodes b).length = (leavesAll nodes).length
  | [], _ => rfl
  | node :: rest, b => by
    rw [forcingAll, leavesAll, List.length_append, List.length_append, node.length_forcing,
      length_forcingAll rest]
end

mutual
theorem Node.itemValue_forcing : ∀ (node : Node), node.Solid → ∀ b : Truth, b ≠ .unknown →
    itemValue (node.link, node.body (node.forcing b)) = b
  | .leaf link .., _, b, _ => itemValue_itemValue link b
  | .group link nodes, h, b, hb => by
    have hb' := itemValue_ne_unknown link hb
    have hne : bodies nodes (forcingAll nodes (itemValue (link, b))) ≠ [] := by
      cases nodes with
      | nil => exact absurd rfl h.1
      | cons node rest => simp [bodies]
    rw [Node.link, Node.forcing, Node.body,
      linkedValue_of_forall hne hb' (itemValue_forcing nodes h.2 _ hb'), itemValue_itemValue]

theorem itemValue_forcing : ∀ (nodes : List Node), SolidAll nodes → ∀ b : Truth, b ≠ .unknown →
    ∀ i ∈ bodies nodes (forcingAll nodes b), itemValue i = b
  | [], _, _, _, i, hi => (List.not_mem_nil hi).elim
  | node :: rest, h, b, hb, i, hi => by
    rw [forcingAll, bodies] at hi
    rcases List.mem_cons.1 hi with rfl | hi
    · rw [node.body_append _ _ (node.length_forcing b)]
      exact node.itemValue_forcing h.1 b hb
    · rw [List.drop_left' (node.length_forcing b)] at hi
      exact itemValue_forcing rest h.2 b hb i hi
end

/-- A condition can be made true, and can be made false, by the values of its leaves. -/
theorem conditionValue_forcing {nodes : List Node} (hne : nodes ≠ []) (h : SolidAll nodes)
    {b : Truth} (hb : b ≠ .unknown) : conditionValue nodes (forcingAll nodes b) = b := by
  rw [conditionValue_of_ne_nil hne]
  exact linkedValue_of_forall (fun hnil => hne (bodies_eq_nil_iff.1 hnil)) hb
    (itemValue_forcing nodes h b hb)

end RecordModel
