import Mathlib.Data.List.SplitBy
import RecordModel.Filter.Condition

/-!
# Truth values and linked lists

A comparison in SQL holds, fails, or is unknown when a side of it is NULL. NOT, AND and OR
follow Kleene's tables.

Items in a row, each with a `Link`, are read as the disjunction of their maximal runs tied
by AND (`linkedValue`): the list is cut in front of every item tied by OR, except that the
connective of the first item has no meaning, and an item is negated where its link says so.

Results:
* `linkedValue_cons`: the same value read from left to right, with the value of the run at
  hand carried along (`continued`).
* `linkedValue_append_and`, `linkedValue_append_or`: one list behind another is their
  conjunction if both are one run, and their disjunction if the second begins with an OR.
* `linkedValue_snoc`: a further item tied by AND narrows the whole list down if no item
  behind the first is tied by OR.
* `linkedValue_snoc_of_or`: if one is, and all items hold, the further item does not count.
-/
namespace RecordModel

inductive Truth where
  | holds
  | fails
  | unknown
  deriving DecidableEq

namespace Truth

def not : Truth → Truth
  | holds => fails
  | fails => holds
  | unknown => unknown

def and : Truth → Truth → Truth
  | fails, _ => fails
  | _, fails => fails
  | holds, holds => holds
  | _, _ => unknown

def or : Truth → Truth → Truth
  | holds, _ => holds
  | _, holds => holds
  | fails, fails => fails
  | _, _ => unknown

/-- The conjunction of a list. -/
def all : List Truth → Truth
  | [] => holds
  | b :: bs => b.and (all bs)

/-- The disjunction of a list. -/
def any : List Truth → Truth
  | [] => fails
  | b :: bs => b.or (any bs)

@[simp] theorem not_not (a : Truth) : a.not.not = a := by cases a <;> rfl

@[simp] theorem holds_and (a : Truth) : holds.and a = a := by cases a <;> rfl

@[simp] theorem and_holds (a : Truth) : a.and holds = a := by cases a <;> rfl

@[simp] theorem and_fails (a : Truth) : a.and fails = fails := by cases a <;> rfl

@[simp] theorem fails_or (a : Truth) : fails.or a = a := by cases a <;> rfl

@[simp] theorem or_fails (a : Truth) : a.or fails = a := by cases a <;> rfl

theorem and_assoc (a b c : Truth) : (a.and b).and c = a.and (b.and c) := by
  cases a <;> cases b <;> cases c <;> rfl

theorem or_assoc (a b c : Truth) : (a.or b).or c = a.or (b.or c) := by
  cases a <;> cases b <;> cases c <;> rfl

theorem all_append (as bs : List Truth) : all (as ++ bs) = (all as).and (all bs) := by
  induction as with
  | nil => simp [all]
  | cons a as ih => simp [all, ih, and_assoc]

theorem any_append (as bs : List Truth) : any (as ++ bs) = (any as).or (any bs) := by
  induction as with
  | nil => simp [any]
  | cons a as ih => simp [any, ih, or_assoc]

end Truth

/-! ## Linked lists -/

/-- The value of an item, behind its negation if it has one. -/
def itemValue (item : Link × Truth) : Truth := if item.1.isNot then item.2.not else item.2

/-- Is the second item in the same run as the one before it? -/
def tiedByAnd {α : Type} (_ next : Link × α) : Bool := !next.1.isOr

def runValue (run : List (Link × Truth)) : Truth := .all (run.map itemValue)

/-- The disjunction of the maximal runs of items tied by AND. -/
def linkedValue (items : List (Link × Truth)) : Truth :=
  .any ((items.splitBy tiedByAnd).map runValue)

/-- The value of items behind a run that has the value `run` so far. -/
def continued (run : Truth) : List (Link × Truth) → Truth
  | [] => run
  | item :: rest =>
    if item.1.isOr then run.or (continued (itemValue item) rest)
    else continued (run.and (itemValue item)) rest

theorem runValue_append (xs ys : List (Link × Truth)) :
    runValue (xs ++ ys) = (runValue xs).and (runValue ys) := by
  rw [runValue, List.map_append, Truth.all_append]; rfl

theorem runValue_singleton (item : Link × Truth) : runValue [item] = itemValue item := by
  simp [runValue, Truth.all]

/-- What `List.splitBy` has in hand in the middle of a list: `done` are the runs behind it,
`run` and `item` the run it is in, both in reverse. -/
theorem any_splitByLoop (items : List (Link × Truth)) (item : Link × Truth)
    (run : List (Link × Truth)) (done : List (List (Link × Truth))) :
    Truth.any ((List.splitBy.loop tiedByAnd items item run done).map runValue) =
      (Truth.any (done.reverse.map runValue)).or
        (continued (runValue (run.reverse ++ [item])) items) := by
  induction items generalizing item run done with
  | nil =>
    rw [List.splitBy.loop, List.reverse_cons, List.map_append, Truth.any_append]
    simp only [List.map_cons, List.map_nil, Truth.any, Truth.or_fails, continued, List.reverse_cons]
  | cons next rest ih =>
    rw [List.splitBy.loop]
    by_cases h : next.1.isOr = true
    · have ht : tiedByAnd item next = false := by simp [tiedByAnd, h]
      simp only [ht, ih, List.reverse_cons, List.map_append, Truth.any_append]
      simp only [List.map_cons, List.map_nil, Truth.any, Truth.or_fails, Truth.or_assoc, continued, h,
        if_true, List.reverse_nil, List.nil_append, runValue_singleton]
    · have ht : tiedByAnd item next = true := by simp [tiedByAnd, h]
      simp only [ht, ih, List.reverse_cons]
      rw [continued, if_neg h, runValue_append _ [next], runValue_singleton]

theorem linkedValue_cons (item : Link × Truth) (rest : List (Link × Truth)) :
    linkedValue (item :: rest) = continued (itemValue item) rest := by
  rw [linkedValue, List.splitBy, any_splitByLoop]
  simp [Truth.any, runValue_singleton]

/-! ## Further items -/

/-- Behind a run, items of which none is tied by OR go on with it. -/
theorem continued_run {items : List (Link × Truth)} (h : ∀ i ∈ items, i.1.isOr = false)
    (run : Truth) : continued run items = run.and (runValue items) := by
  induction items generalizing run with
  | nil => exact (Truth.and_holds run).symm
  | cons i items ih =>
    have hi : i.1.isOr = false := h i (by simp)
    simp only [continued, hi, Bool.false_eq_true, if_false]
    rw [ih fun j hj => h j (by simp [hj]), Truth.and_assoc]
    rfl

/-- Items of which none but perhaps the first is tied by OR are one run. -/
theorem linkedValue_run {items : List (Link × Truth)} (hne : items ≠ [])
    (h : ∀ i ∈ items.tail, i.1.isOr = false) : linkedValue items = runValue items := by
  cases items with
  | nil => exact absurd rfl hne
  | cons i items =>
    have hrest : ∀ j ∈ items, j.1.isOr = false := h
    rw [linkedValue_cons, continued_run hrest]
    rfl

/-- One run behind the other, tied by AND, is their conjunction. -/
theorem linkedValue_append_and {xs ys : List (Link × Truth)} (hx : xs ≠ []) (hy : ys ≠ [])
    (hxs : ∀ i ∈ xs.tail, i.1.isOr = false) (hys : ∀ i ∈ ys, i.1.isOr = false) :
    linkedValue (xs ++ ys) = (linkedValue xs).and (linkedValue ys) := by
  have htail : ∀ i ∈ (xs ++ ys).tail, i.1.isOr = false := by
    rw [List.tail_append_of_ne_nil hx]
    exact fun i hi => (List.mem_append.1 hi).elim (hxs i) (hys i)
  rw [linkedValue_run (List.append_ne_nil_of_left_ne_nil hx ys) htail, linkedValue_run hx hxs,
    linkedValue_run hy fun i hi => hys i (List.mem_of_mem_tail hi), runValue_append]

theorem continued_append_or (items : List (Link × Truth)) {next : Link × Truth}
    (hnext : next.1.isOr = true) (rest : List (Link × Truth)) (run : Truth) :
    continued run (items ++ next :: rest) =
      (continued run items).or (continued (itemValue next) rest) := by
  induction items generalizing run with
  | nil => simp only [List.nil_append, continued, hnext, if_true]
  | cons i items ih =>
    simp only [List.cons_append, continued, ih]
    split
    · exact (Truth.or_assoc _ _ _).symm
    · rfl

/-- Items behind others, the first of them tied by OR, are a disjunction. -/
theorem linkedValue_append_or {xs : List (Link × Truth)} (hx : xs ≠ []) {next : Link × Truth}
    (hnext : next.1.isOr = true) (rest : List (Link × Truth)) :
    linkedValue (xs ++ next :: rest) = (linkedValue xs).or (linkedValue (next :: rest)) := by
  cases xs with
  | nil => exact absurd rfl hx
  | cons i xs =>
    rw [List.cons_append, linkedValue_cons, linkedValue_cons, linkedValue_cons]
    exact continued_append_or xs hnext rest _

theorem linkedValue_singleton (item : Link × Truth) : linkedValue [item] = itemValue item := by
  rw [linkedValue_cons]
  rfl

theorem linkedValue_snoc {items : List (Link × Truth)} (hne : items ≠ [])
    (h : ∀ i ∈ items.tail, i.1.isOr = false) (b : Truth) :
    linkedValue (items ++ [(.and, b)]) = (linkedValue items).and b := by
  have hlast : ∀ i ∈ [(Link.and, b)], i.1.isOr = false := List.forall_mem_singleton.2 rfl
  rw [linkedValue_append_and hne (List.cons_ne_nil _ _) h hlast, linkedValue_singleton]
  rfl

theorem continued_snoc_of_or {items : List (Link × Truth)} (h : ∃ i ∈ items, i.1.isOr = true)
    (hall : ∀ i ∈ items, itemValue i = .holds) (b : Truth) :
    continued .holds (items ++ [(.and, b)]) = .holds := by
  induction items with
  | nil => simp at h
  | cons i items ih =>
    have hi : itemValue i = .holds := hall i (by simp)
    simp only [List.cons_append, continued]
    by_cases ho : i.1.isOr = true
    · rw [if_pos ho]; rfl
    · rw [if_neg ho, hi, Truth.and_holds]
      obtain ⟨j, hj, hjo⟩ := h
      rcases List.mem_cons.1 hj with rfl | hj
      · exact absurd hjo ho
      · exact ih ⟨j, hj, hjo⟩ fun k hk => hall k (by simp [hk])

/-- With an item tied by OR behind the first, and all items true, the run at the end does
not count. -/
theorem linkedValue_snoc_of_or {items : List (Link × Truth)}
    (h : ∃ i ∈ items.tail, i.1.isOr = true) (hall : ∀ i ∈ items, itemValue i = .holds)
    (b : Truth) : linkedValue (items ++ [(.and, b)]) = .holds := by
  cases items with
  | nil => simp at h
  | cons i items =>
    rw [List.cons_append, linkedValue_cons, hall i (by simp)]
    exact continued_snoc_of_or h (fun j hj => hall j (List.mem_cons_of_mem _ hj)) b

/-- Items that all have the same certain value give it to the list. -/
theorem linkedValue_of_forall {items : List (Link × Truth)} (hne : items ≠ []) {b : Truth}
    (hb : b ≠ .unknown) (h : ∀ i ∈ items, itemValue i = b) : linkedValue items = b := by
  cases items with
  | nil => exact absurd rfl hne
  | cons i items =>
    have hcontinued : ∀ js : List (Link × Truth), (∀ j ∈ js, itemValue j = b) →
        continued b js = b := by
      intro js hjs
      induction js with
      | nil => rfl
      | cons j js ih =>
        have hih := ih fun k hk => hjs k (by simp [hk])
        rw [continued, hjs j (by simp)]
        cases b with
        | holds => split <;> simp_all [Truth.or]
        | fails => split <;> simp_all [Truth.and]
        | unknown => exact absurd rfl hb
    rw [linkedValue_cons, h i (by simp)]
    exact hcontinued items fun j hj => h j (by simp [hj])

end RecordModel
