import RecordModel.Dictionary
import RecordModel.View.Basic

/-!
# Collections of views

Views are registered by their ids; the first view of an id stays. For each model they
are kept in the order of their priorities, and in the order of registration where
priorities are equal. The place of a new view is looked for by halving, so it is the right
one only as long as the list is sorted.

Results:
* `Views.add_taken`: a view whose id is taken changes nothing.
* `Views.partitionPoint_eq`: in a list that starts with the elements of a predicate the
  search ends behind them.
-/
namespace RecordModel

/-- Views by id, and those of each model by priority (`ViewsCollection`). -/
structure Views where
  byId : Dictionary String View
  /-- The views of each model, in the order of priorities. -/
  byModel : Dictionary String (List View)

namespace Views

def empty : Views := ⟨.empty, .empty⟩

def size (vs : Views) : Nat := vs.byId.size

def isEmpty (vs : Views) : Bool := vs.size == 0

/-- The view of an id (`get_view_by_id`). -/
def get? (vs : Views) (id : String) : Option View := vs.byId.get? id

/-- The views of a model by priority (`views_for_model`). -/
def ofModel (vs : Views) (model : String) : List View := (vs.byModel.get? model).getD []

/-- The length of the part of a list that the predicate holds of, if that part comes first. -/
def partitionPoint {α : Type} (p : α → Bool) (xs : List α) : Nat :=
  match _h : xs[xs.length / 2]? with
  | none => 0
  | some x =>
    if p x then xs.length / 2 + 1 + partitionPoint p (xs.drop (xs.length / 2 + 1))
    else partitionPoint p (xs.take (xs.length / 2))
termination_by xs.length
decreasing_by
  all_goals
    obtain ⟨hlt, -⟩ := List.getElem?_eq_some_iff.1 _h
    simp only [List.length_drop, List.length_take]
    omega

/-- Put a view behind all views whose priority is not lower. -/
def insertView (view : View) (views : List View) : List View :=
  views.insertIdx (partitionPoint (fun v => v.priority ≤ view.priority) views) view

/-- Register a view and tell whether it was new (`add_view`). -/
def add (vs : Views) (view : View) : Bool × Views :=
  if (vs.get? view.id).isSome then (false, vs)
  else (true, {
    byId := vs.byId.insert view.id view
    byModel := vs.byModel.insert view.model (insertView view (vs.ofModel view.model)) })

/-- Register views in order and count the new ones. -/
def addAll (vs : Views) : List View → Nat × Views
  | [] => (0, vs)
  | view :: rest =>
    let (isNew, vs) := vs.add view
    let (count, vs) := vs.addAll rest
    (if isNew then count + 1 else count, vs)

/-- Register the views of a document and count the new ones (`load_json`). -/
def load (vs : Views) (text : String) : Result (Nat × Views) := do
  return vs.addAll (← View.readAll text)

/-- The first view of a type for a model (`first_view_for_model`). -/
def first (vs : Views) (model : String) (type : ViewType) : Result View :=
  match (vs.byModel.get? model).bind fun views => views.find? fun v => v.type = type with
  | some v => .ok v
  | none => .error (.view (.noView type.name model))

/-- A reference to a registered view (`make_view_ref`). -/
def ref? (vs : Views) (id : String) : Option ViewRef := (vs.get? id).map fun v => ⟨v.id, v.name⟩

theorem add_taken {vs : Views} {view : View} (h : (vs.get? view.id).isSome = true) :
    vs.add view = (false, vs) := by
  rw [add, if_pos h]

theorem partitionPoint_eq {α : Type} {p : α → Bool} {front back : List α}
    (hf : ∀ x ∈ front, p x = true) (hb : ∀ x ∈ back, p x = false) :
    partitionPoint p (front ++ back) = front.length := by
  generalize hxs : front ++ back = xs
  induction xs using partitionPoint.induct p generalizing front back with
  | case1 xs hnone =>
    rw [partitionPoint, hnone]
    have hlen := List.getElem?_eq_none_iff.1 hnone
    rw [← hxs, List.length_append] at hlen
    show 0 = front.length
    omega
  | case2 xs x hx hp ih =>
    have hlt : xs.length / 2 < front.length := by
      apply Nat.lt_of_not_le
      intro hge
      rw [← hxs, List.getElem?_append_right (by rw [hxs]; exact hge)] at hx
      rw [hb x (List.mem_of_getElem? hx)] at hp
      cases hp
    have hrest : front.drop (xs.length / 2 + 1) ++ back = xs.drop (xs.length / 2 + 1) := by
      rw [← hxs, List.drop_append_of_le_length (by rw [hxs]; omega)]
    have hpoint := ih (fun y hy => hf y (List.mem_of_mem_drop hy)) hb hrest
    rw [partitionPoint, hx]
    simp only [hp, ↓reduceIte, hpoint, List.length_drop]
    omega
  | case3 xs x hx hp ih =>
    have hge : front.length ≤ xs.length / 2 := by
      apply Nat.le_of_not_lt
      intro hlt
      rw [← hxs, List.getElem?_append_left (by rw [hxs]; exact hlt)] at hx
      exact hp (hf x (List.mem_of_getElem? hx))
    have hrest : front ++ back.take (xs.length / 2 - front.length) = xs.take (xs.length / 2) := by
      rw [← congrArg (List.take _) hxs, List.take_append, List.take_of_length_le hge]
    have hpoint := ih hf (fun y hy => hb y (List.mem_of_mem_take hy)) hrest
    rw [partitionPoint, hx]
    simp only [hp, hpoint]
    rfl

end Views

end RecordModel
