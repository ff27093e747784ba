import RecordModel.View.Collection
import Mathlib.Data.List.Induction

/-!
# What a collection of views holds after any calls

Views are offered by calls, one by one or as the records of a text, and a text that cannot
be read offers none. Of all views that were offered the first of each id is registered
(`firsts`), and what the collection answers is determined by that list: for a model it is
the list of its views, sorted by priority with `List.mergeSort`, which is stable.

The collection never sorts. It puts each new view where a search by halving ends, and that
this is the same is an invariant (`Holds`): the lists are sorted as long as every view was
put at the right place, and the place is right as long as the list is sorted.

Results:
* `byPriority_eq_iff`: a stable sort is a sorted list that has the views of each priority in
  the order of the list.
* `insertView_byPriority`: to put a view at its place is to sort with the view behind all others.
* `Holds.add`, `Holds.addAll`: one call keeps the invariant, and its answer is the number of
  views that are new.
* `Views.answers_after`: what the collection holds and answers after any sequence of calls.
-/
namespace RecordModel

open List

namespace View

/-! ## The first view of each id -/

/-- The views of a list whose id none before them has. -/
def firsts : List View → List View
  | [] => []
  | v :: rest => v :: (firsts rest).filter fun w => w.id ≠ v.id

/-- The first view of each id that the views offered before do not have. -/
def fresh (offered views : List View) : List View :=
  (firsts views).filter fun v => ∀ w ∈ offered, w.id ≠ v.id

theorem firsts_append (offered views : List View) :
    firsts (offered ++ views) = firsts offered ++ fresh offered views := by
  induction offered with
  | nil =>
    rw [nil_append, firsts, nil_append]
    symm
    apply filter_eq_self.2
    simp
  | cons v offered ih =>
    rw [cons_append, firsts, firsts, ih, filter_append, cons_append, fresh, fresh, filter_filter]
    congr 3
    funext w
    simp [ne_comm, Bool.decide_and]

theorem fresh_cons (offered : List View) (view : View) (views : List View) :
    fresh offered (view :: views) = fresh offered [view] ++ fresh (offered ++ [view]) views := by
  have h := firsts_append offered (view :: views)
  rw [append_cons, firsts_append, firsts_append, append_assoc] at h
  exact (append_cancel_left h).symm

theorem mem_firsts {v : View} {views : List View} :
    v ∈ firsts views ↔ views.find? (fun w => w.id = v.id) = some v := by
  induction views with
  | nil => simp [firsts]
  | cons u views ih =>
    rw [firsts, mem_cons, mem_filter, find?_cons]
    by_cases hu : u.id = v.id
    · simp [hu, eq_comm]
    · have hne : v ≠ u := fun h => hu (by rw [h])
      simp [hu, hne, ih, Ne.symm hu]

/-! ## The order of priorities -/

/-- The views sorted by priority, views of one priority in the order that they have. -/
def byPriority (views : List View) : List View :=
  views.mergeSort fun v w => v.priority ≤ w.priority

/-- The views of a priority, in their order. -/
def ofPriority (p : UInt8) (views : List View) : List View := views.filter fun v => v.priority = p

def Sorted (views : List View) : Prop := views.Pairwise fun v w => v.priority ≤ w.priority

theorem priority_trans (u v w : View) : decide (u.priority ≤ v.priority) = true →
    decide (v.priority ≤ w.priority) = true → decide (u.priority ≤ w.priority) = true := by
  simpa using UInt8.le_trans

theorem priority_total (v w : View) :
    (decide (v.priority ≤ w.priority) || decide (w.priority ≤ v.priority)) = true := by
  simpa using UInt8.le_total _ _

theorem sorted_byPriority (views : List View) : Sorted (byPriority views) :=
  (pairwise_mergeSort priority_trans priority_total views).imp of_decide_eq_true

theorem ofPriority_byPriority (p : UInt8) (views : List View) :
    ofPriority p (byPriority views) = ofPriority p views := by
  -- the views of one priority are a sorted sublist, and sorting keeps it
  have hsorted : (ofPriority p views).Pairwise
      fun v w => decide (v.priority ≤ w.priority) = true := by
    apply pairwise_of_forall_mem_list
    intro v hv w hw
    have hv := of_decide_eq_true (mem_filter.1 hv).2
    have hw := of_decide_eq_true (mem_filter.1 hw).2
    simp [hv, hw]
  have hsub := sublist_mergeSort priority_trans priority_total hsorted filter_sublist
  have hsub := hsub.filter fun v => decide (v.priority = p)
  simp only [ofPriority, filter_filter, Bool.and_self] at hsub
  exact (hsub.eq_of_length ((mergeSort_perm views _).filter _).length_eq.symm).symm

theorem mem_iff_of_ofPriority {xs ys : List View} (h : ∀ p, ofPriority p xs = ofPriority p ys)
    (v : View) : v ∈ xs ↔ v ∈ ys := by
  have hv : v ∈ ofPriority v.priority xs ↔ v ∈ ofPriority v.priority ys := by rw [h]
  simpa [ofPriority] using hv

theorem eq_of_ofPriority {xs ys : List View} (hx : Sorted xs) (hy : Sorted ys)
    (h : ∀ p, ofPriority p xs = ofPriority p ys) : xs = ys := by
  induction xs generalizing ys with
  | nil =>
    symm
    apply eq_nil_iff_forall_not_mem.2
    intro v hv
    exact not_mem_nil ((mem_iff_of_ofPriority h v).2 hv)
  | cons x xs ih =>
    cases ys with
    | nil => exact absurd ((mem_iff_of_ofPriority h x).1 mem_cons_self) not_mem_nil
    | cons y ys =>
      rw [Sorted, pairwise_cons] at hx hy
      have hxy : x.priority ≤ y.priority := by
        rcases mem_cons.1 ((mem_iff_of_ofPriority h y).2 mem_cons_self) with rfl | hy'
        · exact UInt8.le_refl _
        · exact hx.1 y hy'
      have hyx : y.priority ≤ x.priority := by
        rcases mem_cons.1 ((mem_iff_of_ofPriority h x).1 mem_cons_self) with rfl | hx'
        · exact UInt8.le_refl _
        · exact hy.1 x hx'
      -- the first views have the same priority, and are the first of it in both lists
      have hhead := h x.priority
      simp only [ofPriority, filter_cons, UInt8.le_antisymm hyx hxy, decide_true, ↓reduceIte,
        cons.injEq] at hhead
      obtain ⟨rfl, -⟩ := hhead
      have hrest (p : UInt8) : ofPriority p xs = ofPriority p ys := by
        have hp := h p
        simp only [ofPriority, filter_cons] at hp ⊢
        split at hp
        · exact (cons.inj hp).2
        · exact hp
      rw [ih hx.2 hy.2 hrest]

theorem byPriority_eq_iff {views sorted : List View} :
    byPriority views = sorted ↔
      Sorted sorted ∧ ∀ p, ofPriority p sorted = ofPriority p views := by
  constructor
  · rintro rfl
    exact ⟨sorted_byPriority views, fun p => ofPriority_byPriority p views⟩
  · rintro ⟨hs, hp⟩
    apply eq_of_ofPriority (sorted_byPriority views) hs
    intro p
    rw [ofPriority_byPriority, hp]

/-- A sorted list is cut at each priority by the views that are not behind it. -/
theorem Sorted.cut {views : List View} (h : Sorted views) (p : UInt8) :
    ∃ front back, views = front ++ back ∧ (∀ v ∈ front, v.priority ≤ p) ∧
      ∀ v ∈ back, p < v.priority := by
  induction views with
  | nil => exact ⟨[], [], rfl, by simp, by simp⟩
  | cons v views ih =>
    rw [Sorted, pairwise_cons] at h
    by_cases hv : v.priority ≤ p
    · obtain ⟨front, back, rfl, hf, hb⟩ := ih h.2
      exact ⟨v :: front, back, rfl, by simpa [hv] using hf, hb⟩
    · have hlt : p < v.priority := UInt8.not_le.1 hv
      refine ⟨[], v :: views, rfl, by simp, ?_⟩
      intro w hw
      rcases mem_cons.1 hw with rfl | hw
      · exact hlt
      · exact UInt8.lt_of_lt_of_le hlt (h.1 w hw)

theorem ofPriority_eq_nil {p : UInt8} {views : List View} (h : ∀ v ∈ views, v.priority ≠ p) :
    ofPriority p views = [] :=
  filter_eq_nil_iff.2 fun v hv hp => h v hv (of_decide_eq_true hp)

section

variable {view : View} {front back : List View} (hf : ∀ v ∈ front, v.priority ≤ view.priority)
  (hb : ∀ v ∈ back, view.priority < v.priority)

include hf hb

/-- The search for the place of a view ends where the list is cut. -/
theorem insertView_append : Views.insertView view (front ++ back) = front ++ view :: back := by
  have hpoint : Views.partitionPoint (fun v => decide (v.priority ≤ view.priority))
      (front ++ back) = front.length :=
    Views.partitionPoint_eq (by simpa using hf) (by simpa [UInt8.not_le] using hb)
  rw [Views.insertView, hpoint]
  clear hf hpoint
  induction front with
  | nil => rfl
  | cons v front ih => simp [ih]

theorem Sorted.insert (h : Sorted (front ++ back)) : Sorted (front ++ view :: back) := by
  rw [Sorted, pairwise_append] at h
  obtain ⟨hfront, hback, hcross⟩ := h
  rw [Sorted, pairwise_append, pairwise_cons]
  refine ⟨hfront, ⟨fun w hw => UInt8.le_of_lt (hb w hw), hback⟩, ?_⟩
  intro v hv w hw
  rcases mem_cons.1 hw with rfl | hw
  · exact hf v hv
  · exact hcross v hv w hw

end

theorem insertView_byPriority (view : View) (views : List View) :
    Views.insertView view (byPriority views) = byPriority (views ++ [view]) := by
  symm
  obtain ⟨front, back, hcut, hf, hb⟩ := (sorted_byPriority views).cut view.priority
  rw [byPriority_eq_iff, hcut, insertView_append hf hb]
  refine ⟨(hcut ▸ sorted_byPriority views).insert hf hb, fun p => ?_⟩
  have hp := ofPriority_byPriority p views
  rw [hcut] at hp
  simp only [ofPriority, filter_append, filter_cons, filter_nil] at hp ⊢
  rw [← hp]
  split
  · rename_i hview
    -- all views behind the new one are of other priorities
    have hnone : ofPriority p back = [] :=
      ofPriority_eq_nil fun w hw => of_decide_eq_true hview ▸ (UInt8.ne_of_lt (hb w hw)).symm
    rw [ofPriority] at hnone
    rw [hnone, append_nil]
  · simp

/-- The earliest of the views of minimal priority. -/
def IsFirst (v : View) (views : List View) : Prop :=
  ∃ before behind, views = before ++ v :: behind ∧ (∀ w ∈ before, v.priority < w.priority) ∧
    ∀ w ∈ behind, v.priority ≤ w.priority

theorem exists_isFirst {views : List View} (h : views ≠ []) : ∃ v, IsFirst v views := by
  induction views with
  | nil => exact absurd rfl h
  | cons u views ih =>
    by_cases hnil : views = []
    · exact ⟨u, [], [], by rw [hnil]; rfl, by simp, by simp⟩
    · obtain ⟨v, before, behind, rfl, hbefore, hbehind⟩ := ih hnil
      by_cases huv : u.priority ≤ v.priority
      · refine ⟨u, [], before ++ v :: behind, rfl, by simp, ?_⟩
        intro w hw
        rcases mem_append.1 hw with hw | hw
        · exact UInt8.le_trans huv (UInt8.le_of_lt (hbefore w hw))
        · rcases mem_cons.1 hw with rfl | hw
          · exact huv
          · exact UInt8.le_trans huv (hbehind w hw)
      · refine ⟨v, u :: before, behind, rfl, ?_, hbehind⟩
        simpa [UInt8.not_le.1 huv] using hbefore

/-- Sorting puts the first view in front of the others. -/
theorem IsFirst.byPriority {v : View} {views : List View} (h : IsFirst v views) :
    (byPriority views).head? = some v := by
  obtain ⟨before, behind, rfl, hbefore, hbehind⟩ := h
  have heq : View.byPriority (before ++ v :: behind) = v :: View.byPriority (before ++ behind) := by
    rw [byPriority_eq_iff]
    constructor
    · rw [Sorted, pairwise_cons]
      refine ⟨?_, sorted_byPriority _⟩
      intro w hw
      rcases mem_append.1 (mem_mergeSort.1 hw) with hw | hw
      · exact UInt8.le_of_lt (hbefore w hw)
      · exact hbehind w hw
    · intro p
      have hp := ofPriority_byPriority p (before ++ behind)
      simp only [ofPriority, filter_append, filter_cons] at hp ⊢
      rw [hp]
      split
      · rename_i hv
        have hnone : ofPriority p before = [] :=
          ofPriority_eq_nil fun w hw => of_decide_eq_true hv ▸ (UInt8.ne_of_lt (hbefore w hw)).symm
        rw [ofPriority] at hnone
        rw [hnone, nil_append, nil_append]
      · rfl
  rw [heq, head?_cons]

theorem head?_byPriority {v : View} {views : List View} :
    (byPriority views).head? = some v ↔ IsFirst v views := by
  constructor
  · intro h
    have hne : views ≠ [] := by
      rintro rfl
      simp [byPriority] at h
    obtain ⟨u, hu⟩ := exists_isFirst hne
    rw [hu.byPriority] at h
    cases h
    exact hu
  · exact IsFirst.byPriority

theorem byPriority_eq_nil (views : List View) : byPriority views = [] ↔ views = [] := by
  rw [byPriority, ← length_eq_zero_iff, length_mergeSort, length_eq_zero_iff]

theorem byPriority_filter (q : View → Bool) (views : List View) :
    (byPriority views).filter q = byPriority (views.filter q) := by
  symm
  rw [byPriority_eq_iff]
  constructor
  · exact (sorted_byPriority views).filter q
  · intro p
    have hp := congrArg (filter q) (ofPriority_byPriority p views)
    simpa only [ofPriority, filter_filter, Bool.and_comm] using hp

end View

namespace Views

open View

/-! ## The invariant -/

/-- A collection holds the first view of each id among the views that were offered. -/
structure Holds (vs : Views) (offered : List View) : Prop where
  get? (id : String) : vs.get? id = offered.find? fun v => v.id = id
  size : vs.size = (firsts offered).length
  ofModel (model : String) :
    vs.ofModel model = byPriority ((firsts offered).filter fun v => v.model = model)

variable {vs : Views} {offered : List View}

theorem holds_empty : Holds empty [] where
  get? _ := rfl
  size := rfl
  ofModel _ := by simp [ofModel, empty, firsts, byPriority]

theorem fresh_singleton (offered : List View) (view : View) :
    fresh offered [view] = if ∃ w ∈ offered, w.id = view.id then [] else [view] := by
  by_cases h : ∃ w ∈ offered, w.id = view.id
  · rw [if_pos h]
    simpa [fresh, firsts] using h
  · rw [if_neg h]
    simpa [fresh, firsts] using h

/-- One view: it is new if its id is, and the invariant holds of the views with it. -/
theorem Holds.add (h : Holds vs offered) (view : View) :
    (vs.add view).1.toNat = (fresh offered [view]).length ∧
      Holds (vs.add view).2 (offered ++ [view]) := by
  have hfirsts := firsts_append offered [view]
  rw [fresh_singleton] at hfirsts ⊢
  by_cases hid : ∃ w ∈ offered, w.id = view.id
  · have htaken : (vs.get? view.id).isSome = true := by
      rw [h.get?, find?_isSome]
      simpa using hid
    rw [if_pos hid, append_nil] at hfirsts
    rw [add_taken htaken, if_pos hid]
    refine ⟨rfl, ?_, by rw [h.size, hfirsts], fun model => by rw [h.ofModel, hfirsts]⟩
    intro id
    rw [h.get?, find?_append]
    by_cases hv : view.id = id
    · subst hv
      rw [← h.get?, Option.or_of_isSome htaken]
    · simp [hv]
  · have hnone : vs.get? view.id = none := by
      rw [h.get?, find?_eq_none]
      simpa using hid
    have hadd : vs.add view = (true, {
        byId := vs.byId.insert view.id view
        byModel := vs.byModel.insert view.model (insertView view (vs.ofModel view.model)) }) := by
      rw [Views.add, hnone]
      rfl
    rw [if_neg hid] at hfirsts
    rw [hadd, if_neg hid]
    refine ⟨rfl, ?_, ?_, ?_⟩
    · intro id
      rw [find?_append, ← h.get?, Views.get?, Dictionary.get?_insert]
      by_cases hv : id = view.id
      · rw [if_pos hv, hv, hnone]
        simp
      · rw [if_neg hv, ← Views.get?]
        simp [Ne.symm hv]
    · rw [hfirsts, length_append, ← h.size]
      exact Dictionary.size_insert_of_none view hnone
    · intro model
      rw [hfirsts, filter_append]
      simp only [Views.ofModel, Dictionary.get?_insert]
      by_cases hmodel : model = view.model
      · subst hmodel
        rw [if_pos rfl, Option.getD_some, ← Views.ofModel, h.ofModel, insertView_byPriority]
        simp
      · rw [if_neg hmodel, ← Views.ofModel, h.ofModel]
        simp [Ne.symm hmodel]

/-- Several views, one after the other. -/
theorem Holds.addAll (h : Holds vs offered) (views : List View) :
    (vs.addAll views).1 = (fresh offered views).length ∧
      Holds (vs.addAll views).2 (offered ++ views) := by
  induction views generalizing vs offered with
  | nil => exact ⟨rfl, by rwa [append_nil]⟩
  | cons view views ih =>
    obtain ⟨hnew, hadd⟩ := h.add view
    obtain ⟨hcount, hall⟩ := ih hadd
    rw [append_cons, fresh_cons, length_append, ← hnew, ← hcount]
    refine ⟨?_, hall⟩
    show (if (vs.add view).1 then _ else _) = _
    cases (vs.add view).1
    · exact (Nat.zero_add _).symm
    · exact Nat.add_comm _ _

/-! ## Sequences of calls -/

/-- A call that offers views: one view, or the records of a text. -/
inductive Call where
  | add (view : View)
  | load (text : String)

/-- What a call answers: whether the view was new, or how many views were. -/
inductive Answer where
  | isNew (new : Bool)
  | count (n : Nat)

/-- The number of views that an answer tells to be registered. -/
def Answer.number : Answer → Nat
  | isNew new => new.toNat
  | count n => n

/-- The views that a call offers, if it can be read. -/
def Call.read : Call → Result (List View)
  | add view => .ok [view]
  | load text => View.readAll text

/-- A call that fails offers no views. -/
def Call.views (call : Call) : List View := call.read.toOption.getD []

/-- The answer to a call, and the collection behind it. -/
def Call.run (vs : Views) : Call → Result Answer × Views
  | add view => (.ok (.isNew (vs.add view).1), (vs.add view).2)
  | load text =>
    match vs.load text with
    | .ok (n, vs) => (.ok (.count n), vs)
    | .error e => (.error e, vs)

/-- The collection after calls. -/
def after (calls : List Call) : Views := calls.foldl (fun vs call => (call.run vs).2) empty

/-- The views that calls have offered, in their order. -/
def offeredBy (calls : List Call) : List View := calls.flatMap Call.views

/-- The views that calls have registered, in the order of their registration. -/
def registered (calls : List Call) : List View := firsts (offeredBy calls)

theorem Holds.run (h : Holds vs offered) (call : Call) :
    (call.run vs).1.map Answer.number = call.read.map (fun views => (fresh offered views).length) ∧
      Holds (call.run vs).2 (offered ++ call.views) := by
  cases call with
  | add view =>
    obtain ⟨hnew, hadd⟩ := h.add view
    exact ⟨congrArg Except.ok hnew, hadd⟩
  | load text =>
    cases hread : View.readAll text with
    | error e =>
      have hload : vs.load text = .error e := by rw [load, hread]; rfl
      simp only [Call.run, Call.read, Call.views, hload, hread]
      exact ⟨rfl, by simpa [Except.toOption] using h⟩
    | ok views =>
      have hload : vs.load text = .ok (vs.addAll views) := by rw [load, hread]; rfl
      obtain ⟨hcount, hall⟩ := h.addAll views
      simp only [Call.run, Call.read, Call.views, hload, hread]
      exact ⟨congrArg Except.ok hcount, hall⟩

theorem holds_after (calls : List Call) : Holds (after calls) (offeredBy calls) := by
  induction calls using List.reverseRecOn with
  | nil => exact holds_empty
  | append_singleton calls call ih =>
    have hrun := (ih.run call).2
    rwa [after, foldl_append, offeredBy, flatMap_append, flatMap_singleton]

theorem Holds.first (h : Holds vs offered) (model : String) (type : ViewType) :
    vs.first model type =
      match (byPriority
        ((firsts offered).filter fun v => v.model = model ∧ v.type = type)).head? with
      | some v => .ok v
      | none => .error (.view (.noView type.name model)) := by
  have hlist : (vs.byModel.get? model).bind (fun views => views.find? fun v => v.type = type) =
      (vs.ofModel model).find? fun v => v.type = type := by
    rw [Views.ofModel]
    cases vs.byModel.get? model <;> rfl
  have hfilter : ((firsts offered).filter fun v =>
        decide (v.type = type) && decide (v.model = model)) =
      (firsts offered).filter fun v => v.model = model ∧ v.type = type := by
    simp only [Bool.decide_and, Bool.and_comm]
  rw [Views.first, hlist, h.ofModel, ← head?_filter, byPriority_filter, filter_filter]
  exact hfilter ▸ rfl

theorem Holds.first_eq_ok (h : Holds vs offered) {model : String} {type : ViewType} {v : View} :
    vs.first model type = .ok v ↔
      IsFirst v ((firsts offered).filter fun w => w.model = model ∧ w.type = type) := by
  rw [h.first, ← head?_byPriority]
  cases (byPriority _).head? <;> simp

theorem Holds.first_eq_error (h : Holds vs offered) {model : String} {type : ViewType}
    {e : Error} :
    vs.first model type = .error e ↔
      e = .view (.noView type.name model) ∧
        ∀ w ∈ firsts offered, ¬(w.model = model ∧ w.type = type) := by
  have hnone := byPriority_eq_nil
    ((firsts offered).filter fun v => v.model = model ∧ v.type = type)
  rw [filter_eq_nil_iff, ← head?_eq_none_iff] at hnone
  simp only [decide_eq_true_eq] at hnone
  rw [h.first, ← hnone]
  cases (byPriority _).head? <;> simp [eq_comm]

/-- After any calls the collection answers as the list of the first views of each id does, and
the next call tells how many views it adds to that list. -/
theorem answers_after (calls : List Call) (call : Call) :
    (∀ id, (after calls).get? id = (offeredBy calls).find? fun v => v.id = id) ∧
    (∀ v, v ∈ registered calls ↔ (offeredBy calls).find? (fun w => w.id = v.id) = some v) ∧
    (after calls).size = (registered calls).length ∧
    (call.run (after calls)).1.map Answer.number =
      call.read.map (fun views => (fresh (offeredBy calls) views).length) ∧
    registered (calls ++ [call]) = registered calls ++ fresh (offeredBy calls) call.views ∧
    (∀ model, (after calls).ofModel model =
      ((registered calls).filter fun v => v.model = model).mergeSort
        fun v w => v.priority ≤ w.priority) ∧
    (∀ model type v, (after calls).first model type = .ok v ↔
      IsFirst v ((registered calls).filter fun w => w.model = model ∧ w.type = type)) ∧
    ∀ model type e, (after calls).first model type = .error e ↔
      e = .view (.noView type.name model) ∧
        ∀ w ∈ registered calls, ¬(w.model = model ∧ w.type = type) := by
  have h := holds_after calls
  refine ⟨h.get?, fun v => mem_firsts, h.size, (h.run call).1, ?_, h.ofModel, ?_, ?_⟩
  · rw [registered, offeredBy, flatMap_append, flatMap_singleton, firsts_append]
    rfl
  · intro model type v
    exact h.first_eq_ok
  · intro model type e
    exact h.first_eq_error

end Views

end RecordModel
