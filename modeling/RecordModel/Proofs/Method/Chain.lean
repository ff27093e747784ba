import Mathlib.Data.List.Nodup
import RecordModel.Method.Registry

/-!
# The chain of a method

A method keeps its layers apart from the links between them. `Method.Holds` says that both
together make up a list of layers, top first; a layer that is put on top comes in front of
the list and moves nothing behind it.

Results:
* `Method.Holds.push`: a further layer is on top of the ones before.
* `Method.Holds.next?_eq`: the link of a layer goes to the one that follows it in the list.
-/
namespace RecordModel.Method

/-! ## Following the links -/

theorem follow_of_none {m : Method} {id : LayerId} (h : m.below.get? id = none) :
    m.follow id = [id] := by
  rw [follow_eq, h]; rfl

theorem follow_of_some {m : Method} {id next : LayerId} (h : m.below.get? id = some next) :
    m.follow id = id :: m.follow next := by
  rw [follow_eq, h]; rfl

theorem number_le_of_mem_follow {m : Method} {id x : LayerId} (hx : x ∈ m.follow id) :
    x.number ≤ id.number := by
  induction id using follow.induct (m := m) with
  | case1 id next h ih =>
    rw [follow_of_some h] at hx
    rcases List.mem_cons.1 hx with rfl | hx
    · exact Nat.le_refl _
    · exact Nat.le_trans (ih hx) (Nat.le_of_lt (m.below_lt h))
  | case2 id h =>
    rw [follow_of_none h] at hx
    exact Nat.le_of_eq (List.mem_singleton.1 hx ▸ rfl)

/-- Numbers fall from the top to the bottom. -/
theorem follow_descending (m : Method) (id : LayerId) :
    (m.follow id).Pairwise fun upper lower => lower.number < upper.number := by
  induction id using follow.induct (m := m) with
  | case1 id next h ih =>
    rw [follow_of_some h]
    refine List.pairwise_cons.2 ⟨fun x hx => ?_, ih⟩
    exact Nat.lt_of_le_of_lt (number_le_of_mem_follow hx) (m.below_lt h)
  | case2 id h =>
    rw [follow_of_none h]
    exact List.pairwise_singleton ..

theorem chain_nodup (m : Method) : m.chain.Nodup := by
  apply (m.follow_descending m.topId).imp
  intro upper lower h he
  exact Nat.lt_irrefl _ (he ▸ h)

/-- The link of a layer on the way down goes to the one that comes next on the way. -/
theorem below_eq_getElem? {m : Method} {id x : LayerId} {i : Nat} (h : (m.follow id)[i]? = some x) :
    m.below.get? x = (m.follow id)[i + 1]? := by
  induction id using follow.induct (m := m) generalizing i with
  | case1 id next hnext ih =>
    rw [follow_of_some hnext] at h ⊢
    cases i with
    | zero =>
      cases h
      rw [hnext, List.getElem?_cons_succ, follow_eq]
      rfl
    | succ i => exact ih h
  | case2 id hnone =>
    rw [follow_of_none hnone] at h ⊢
    cases i with
    | zero => cases h; exact hnone
    | succ i => cases h

/-- A layer on top changes nothing of the ways that start below it. -/
theorem follow_push {m : Method} {layer : Layer} (hnew : m.topId.number < layer.id.number)
    {id : LayerId} (hid : id.number < layer.id.number) :
    (m.push layer hnew).follow id = m.follow id := by
  have hne : ∀ {x : LayerId}, x.number < layer.id.number →
      (m.push layer hnew).below.get? x = m.below.get? x :=
    fun hx => Dictionary.get?_insert_of_ne fun he => Nat.lt_irrefl _ (he ▸ hx)
  induction id using follow.induct (m := m) with
  | case1 id next h ih =>
    rw [follow_of_some h, follow_of_some ((hne hid).trans h), ih (Nat.lt_trans (m.below_lt h) hid)]
  | case2 id h => rw [follow_of_none h, follow_of_none ((hne hid).trans h)]

theorem chain_push {m : Method} {layer : Layer} (hnew : m.topId.number < layer.id.number) :
    (m.push layer hnew).chain = layer.id :: m.chain := by
  have hlink : (m.push layer hnew).below.get? layer.id = some m.topId :=
    Dictionary.get?_insert_self ..
  exact (follow_of_some hlink).trans (congrArg _ (follow_push hnew hnew))

/-! ## The layers of a method as a list -/

/-- The layers of a method are those of a list, top first. -/
structure Holds (m : Method) (layers : List Layer) : Prop where
  chain_eq : m.chain = layers.map Layer.id
  get?_id : ∀ l ∈ layers, m.layers.get? l.id = some l

namespace Holds

theorem new (model name : String) (signature : Signature) (layer : Layer) :
    (Method.new model name signature layer).Holds [layer] where
  chain_eq := follow_of_none rfl
  get?_id l hl := by
    rw [List.mem_singleton.1 hl]
    exact Dictionary.get?_insert_self ..

variable {m : Method} {layers : List Layer} (h : m.Holds layers)

include h in
theorem getElem?_chain (i : Nat) : m.chain[i]? = layers[i]?.map Layer.id := by
  rw [h.chain_eq, List.getElem?_map]

include h in
theorem layer_eq {i : Nat} {l : Layer} (hl : layers[i]? = some l) : m.layer l.id = .ok l := by
  rw [layer, h.get?_id l (List.mem_of_getElem? hl)]

include h in
theorem ids_nodup : (layers.map Layer.id).Nodup := h.chain_eq ▸ m.chain_nodup

include h in
theorem number_le {l : Layer} (hl : l ∈ layers) : l.id.number ≤ m.topId.number := by
  have hmem : l.id ∈ m.chain := h.chain_eq ▸ List.mem_map_of_mem hl
  exact number_le_of_mem_follow hmem

include h in
theorem push {layer : Layer} (hnew : m.topId.number < layer.id.number) :
    (m.push layer hnew).Holds (layer :: layers) where
  chain_eq := by rw [chain_push, h.chain_eq, List.map_cons]
  get?_id l hl := by
    rcases List.mem_cons.1 hl with rfl | hl
    · exact Dictionary.get?_insert_self ..
    · have hne : l.id ≠ layer.id := fun he =>
        Nat.lt_irrefl _ (Nat.lt_of_le_of_lt (he ▸ h.number_le hl) hnew)
      exact (Dictionary.get?_insert_of_ne hne).trans (h.get?_id l hl)

include h in
theorem next?_eq {i : Nat} {l : Layer} (hl : layers[i]? = some l) : m.next? l.id = layers[i + 1]? := by
  have hid : m.chain[i]? = some l.id := by rw [h.getElem?_chain, hl]; rfl
  rw [next?, below_eq_getElem? hid]
  show (m.chain[i + 1]?).bind m.layers.get? = _
  rw [h.getElem?_chain]
  cases hnext : layers[i + 1]? with
  | none => rfl
  | some below => exact h.get?_id below (List.mem_of_getElem? hnext)

include h in
theorem top_eq : layers[0]? = some m.top := by
  have hchain : m.chain[0]? = some m.topId := by rw [chain, follow_eq]; rfl
  rw [h.getElem?_chain] at hchain
  obtain ⟨l, hl, hid⟩ := Option.map_eq_some_iff.1 hchain
  have hget := h.get?_id l (List.mem_of_getElem? hl)
  rw [hl, top]
  simp [← hid, hget]

end Holds

end RecordModel.Method
