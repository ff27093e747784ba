import Mathlib.Data.List.Induction
import RecordModel.Value.Equality

/-!
# Equal values and what they feed to a hasher

Equality of values is written by cases on two values, with a rule of its own between an integer
and a float; what a value feeds to a hasher is written by cases on one value. The two say the
same: values are equal exactly if their imprints are. An imprint tells where it ends, so the
imprints of a list's items can be read apart again. Equality of values is therefore an
equivalence, and a set that looks for a value by its hash never holds two equal ones, whatever
the hash makes of an imprint.

Results:
* `Number.Binary64.same_iff`: floats are equal if they are identical or denote one integer.
* `Value.imprint_append_inj`: a value and what follows it are read off its imprint.
* `Value.same_iff_imprint_eq`: values are equal exactly if they feed the same data.
* `Value.same_equivalence`: equality is an equivalence, and hash sets hold no equal values.
-/
namespace RecordModel

open RecordModel.Number

/-! ## Floats -/

namespace Number.Binary64

/-- A float that denotes an integer counts that many ones, and a sign of its own only at zero. -/
theorem toInt?_eq_some {f : Binary64} {i : Int} (h : f.toInt? = some i) :
    (-integerLimit ≤ i ∧ i < integerLimit) ∧ ∃ negative magnitude,
      f = .finite negative magnitude ∧ magnitude.units = i.natAbs * unitsPerOne ∧
        if negative then i ≤ 0 else 0 ≤ i := by
  cases f with
  | nan => cases h
  | infinity => cases h
  | finite negative magnitude =>
    simp only [toInt?, Option.ite_none_right_eq_some, Option.some.injEq] at h
    obtain ⟨hwhole, hrange, rfl⟩ := h
    have hunits := Nat.div_mul_cancel (Nat.dvd_of_mod_eq_zero hwhole)
    rw [← Int.natCast_ediv] at hrange ⊢
    generalize magnitude.units / unitsPerOne = whole at hrange hunits ⊢
    refine ⟨hrange, negative, magnitude, rfl, ?_, ?_⟩
    · cases negative <;> simp [hunits]
    · cases negative <;> simp

theorem toInt?_zero {negative : Bool} {magnitude : Magnitude} (h : magnitude.units = 0) :
    (finite negative magnitude).toInt? = some 0 := by
  have hrange : -integerLimit ≤ 0 ∧ 0 < integerLimit := by decide
  simp only [toInt?, h, Nat.zero_mod, Int.ofNat_zero, Int.zero_ediv, Int.neg_zero, ite_self, hrange,
    and_self, if_true]

theorem same_of_toInt? {f g : Binary64} {i : Int} (hf : f.toInt? = some i)
    (hg : g.toInt? = some i) : f.same g = true := by
  obtain ⟨-, s, a, rfl, ha, hs⟩ := toInt?_eq_some hf
  obtain ⟨-, t, b, rfl, hb, ht⟩ := toInt?_eq_some hg
  have hsign : s = t ∨ i = 0 := by
    cases s <;> cases t <;> simp at hs ht ⊢ <;> omega
  rcases hsign with rfl | rfl
  · simp [same, ha, hb]
  · simp [same, ha, hb]

/-- Floats are equal if they are the same float, or if both denote the same integer. -/
theorem same_iff {f g : Binary64} :
    f.same g = true ↔ f = g ∨ ∃ i, f.toInt? = some i ∧ g.toInt? = some i := by
  constructor
  · intro h
    cases f with
    | nan => cases g <;> simp [same] at h ⊢
    | infinity s => cases g <;> simp_all [same]
    | finite s a =>
      cases g with
      | nan => simp [same] at h
      | infinity => simp [same] at h
      | finite t b =>
        simp only [same, Bool.and_eq_true, Bool.or_eq_true, beq_iff_eq] at h
        obtain ⟨hunits, rfl | hzero⟩ := h
        · exact .inl (by rw [show a = b from by cases a; cases b; cases hunits; rfl])
        · exact .inr ⟨0, toInt?_zero hzero, toInt?_zero (hunits ▸ hzero)⟩
  · rintro (rfl | ⟨i, hf, hg⟩)
    · cases f <;> simp [same]
    · exact same_of_toInt? hf hg

end Number.Binary64

namespace Value

/-- The range of the integers that floats denote is that of 64 bits, so none is lost. -/
theorem toInt64?_float {f : Binary64} {i : Int64} :
    (float f).toInt64? = some i ↔ f.toInt? = some i.toInt := by
  simp only [toInt64?, Option.map_eq_some_iff]
  constructor
  · rintro ⟨j, hj, rfl⟩
    obtain ⟨⟨hlow, hhigh⟩, -⟩ := Binary64.toInt?_eq_some hj
    rw [hj, Int64.toInt_ofInt_of_le]
    all_goals simp_all [Binary64.integerLimit]
  · exact fun h => ⟨_, h, Int64.ofInt_toInt i⟩

/-! ## Numbers -/

theorem imprint_of_toInt64? {v : Value} {i : Int64} (h : v.toInt64? = some i) :
    v.imprint = [.tag 1, .integer i] := by
  cases v with
  | integer j => cases h; rfl
  | float f => exact imprint_integer_float h
  | _ => cases h

/-- Only numbers that denote a 64-bit integer are marked as such. -/
theorem imprint_of_none {v : Value} (h : v.toInt64? = none) :
    ∃ n rest, v.imprint = .tag n :: rest ∧ n ≠ 1 := by
  cases v with
  | integer j => cases h
  | float f => exact ⟨2, [.float f], by simp [imprint, h], by decide⟩
  | _ => exact ⟨_, _, rfl, by decide⟩

theorem imprint_append_ne {v w : Value} {i : Int64} (hv : v.toInt64? = some i)
    (hw : w.toInt64? = none) (xs ys : List Imprint) : v.imprint ++ xs ≠ w.imprint ++ ys := by
  obtain ⟨n, rest, himprint, hn⟩ := imprint_of_none hw
  rw [imprint_of_toInt64? hv, himprint]
  intro h
  injection h with htag
  cases htag
  exact hn rfl

theorem same_of_toInt64? {v w : Value} {i : Int64} (hv : v.toInt64? = some i)
    (hw : w.toInt64? = some i) : v.same w = true := by
  cases v with
  | integer j =>
    cases w with
    | integer k => cases hv; cases hw; simp [same]
    | float g => simp [same, hv, hw]
    | _ => cases hw
  | float f =>
    cases w with
    | integer k => simp [same, hv, hw]
    | float g => exact Binary64.same_of_toInt? (toInt64?_float.1 hv) (toInt64?_float.1 hw)
    | _ => cases hw
  | _ => cases hv

/-- Equal values both denote an integer, the same one, or neither does. -/
theorem toInt64?_eq_of_same {v w : Value} (h : v.same w = true) : v.toInt64? = w.toInt64? := by
  cases v with
  | integer j =>
    cases w with
    | integer k => rw [beq_iff_eq.1 h]
    | float g => exact of_decide_eq_true h
    | _ => cases h
  | float f =>
    cases w with
    | integer k => exact of_decide_eq_true h
    | float g =>
      obtain rfl | ⟨i, hf, hg⟩ := Binary64.same_iff.1 h
      · rfl
      · rw [toInt64?, toInt64?, hf, hg]
    | _ => cases h
  | _ => cases w <;> simp_all [same, toInt64?]

/-! ## Imprints -/

/-- A single value that is no integer has a mark of its kind and what it holds. -/
theorem imprint_append_inj_of_none {v w : Value} (hv : v.toInt64? = none) (hlist : v.isList = false)
    {xs ys : List Imprint} (h : v.imprint ++ xs = w.imprint ++ ys) :
    v.same w = true ∧ xs = ys := by
  cases hw : w.toInt64? with
  | some j => exact absurd h.symm (imprint_append_ne hw hv ys xs)
  | none => cases v <;> cases w <;> simp_all [imprint, same, isList, Binary64.same_iff]

mutual
/-- A value and what follows it are read off its imprint. -/
theorem imprint_append_inj {v w : Value} {xs ys : List Imprint}
    (h : v.imprint ++ xs = w.imprint ++ ys) : v.same w = true ∧ xs = ys := by
  cases hv : v.toInt64? with
  | some i =>
    cases hw : w.toInt64? with
    | none => exact absurd h (imprint_append_ne hv hw xs ys)
    | some j =>
      rw [imprint_of_toInt64? hv, imprint_of_toInt64? hw] at h
      simp only [List.cons_append, List.nil_append, List.cons.injEq, true_and,
        Imprint.integer.injEq] at h
      obtain ⟨rfl, rfl⟩ := h
      exact ⟨same_of_toInt64? hv hw, rfl⟩
  | none =>
    cases v with
    | list as =>
      cases w with
      | list bs =>
        simp only [imprint, List.cons_append, List.cons.injEq, true_and, Imprint.length.injEq] at h
        rw [same]
        exact imprintAll_append_inj h.1 h.2
      | float g =>
        cases hw : (float g).toInt64? with
        | some j => exact absurd h.symm (imprint_append_ne hw hv ys xs)
        | none => simp [imprint, hw] at h
      | _ => simp [imprint] at h
    | _ => exact imprint_append_inj_of_none hv rfl h

theorem imprintAll_append_inj {as bs : List Value} {xs ys : List Imprint}
    (hlength : as.length = bs.length) (h : imprintAll as ++ xs = imprintAll bs ++ ys) :
    sameAll as bs = true ∧ xs = ys := by
  cases as with
  | nil =>
    cases bs with
    | nil => exact ⟨rfl, h⟩
    | cons b bs => cases hlength
  | cons a as =>
    cases bs with
    | nil => cases hlength
    | cons b bs =>
      rw [imprintAll, imprintAll, List.append_assoc, List.append_assoc] at h
      obtain ⟨hitem, h⟩ := imprint_append_inj h
      obtain ⟨hitems, hrest⟩ := imprintAll_append_inj (Nat.succ.inj hlength) h
      exact ⟨by rw [sameAll, hitem, hitems]; rfl, hrest⟩
end

mutual
theorem imprint_eq_of_same {v w : Value} (h : v.same w = true) : v.imprint = w.imprint := by
  have hnumber := toInt64?_eq_of_same h
  cases hv : v.toInt64? with
  | some i => rw [imprint_of_toInt64? hv, imprint_of_toInt64? (hnumber ▸ hv)]
  | none =>
    cases v with
    | list as =>
      cases w with
      | list bs =>
        rw [same] at h
        obtain ⟨hlength, himprint⟩ := imprintAll_eq_of_sameAll h
        simp only [imprint, hlength, himprint]
      | _ => cases h
    | _ => cases w <;> simp_all [same, imprint, Binary64.same_iff, toInt64?]

theorem imprintAll_eq_of_sameAll {as bs : List Value} (h : sameAll as bs = true) :
    as.length = bs.length ∧ imprintAll as = imprintAll bs := by
  cases as with
  | nil =>
    cases bs with
    | nil => exact ⟨rfl, rfl⟩
    | cons b bs => cases h
  | cons a as =>
    cases bs with
    | nil => cases h
    | cons b bs =>
      simp only [sameAll, Bool.and_eq_true] at h
      obtain ⟨hlength, hitems⟩ := imprintAll_eq_of_sameAll h.2
      refine ⟨congrArg Nat.succ hlength, ?_⟩
      rw [imprintAll, imprintAll, imprint_eq_of_same h.1, hitems]
end

/-- Values are equal exactly if they feed the same data to a hasher. -/
theorem same_iff_imprint_eq {v w : Value} : v.same w = true ↔ v.imprint = w.imprint :=
  ⟨imprint_eq_of_same, fun h => (imprint_append_inj (congrArg (· ++ []) h)).1⟩

theorem same_comm (v w : Value) : v.same w = w.same v := by
  rw [Bool.eq_iff_iff, same_iff_imprint_eq, same_iff_imprint_eq, eq_comm]

/-! ## Sets by hash -/

section Sets

variable {κ : Type} [DecidableEq κ] (hash : List Imprint → κ)

/-- Is a held value found, looked for by what `hash` makes of its imprint? -/
def finds (v w : Value) : Bool := decide (hash v.imprint = hash w.imprint) && v.same w

/-- Put a value into a set that finds values by their hash. -/
def insertHashed (held : List Value) (v : Value) : List Value :=
  if held.any (finds hash v) then held else held ++ [v]

/-- Take a value out of such a set. -/
def removeHashed (held : List Value) (v : Value) : List Value :=
  held.filter fun w => !finds hash v w

/-- The sets that putting values in and taking them out lead to. -/
inductive Held : List Value → Prop where
  | empty : Held []
  | insert {held : List Value} (v : Value) : Held held → Held (insertHashed hash held v)
  | remove {held : List Value} (v : Value) : Held held → Held (removeHashed hash held v)

/-- No two values are equal. -/
def Unequal (held : List Value) : Prop := held.Pairwise fun v w => v.same w = false

/-- Equal values have one hash, so that the hash never hides an equal value. -/
theorem finds_eq (v w : Value) : finds hash v w = v.same w := by
  cases h : v.same w with
  | false => simp [finds, h]
  | true => simp [finds, h, imprint_eq_of_same h]

theorem Unequal.insert {held : List Value} (h : Unequal held) (v : Value) :
    Unequal (insertHashed hash held v) := by
  unfold insertHashed
  split
  · exact h
  · rename_i hnone
    refine List.pairwise_append.2 ⟨h, List.pairwise_singleton _ _, ?_⟩
    intro w hw u hu
    rw [List.mem_singleton.1 hu, same_comm, ← finds_eq hash]
    simpa using fun hfound => hnone (List.any_eq_true.2 ⟨w, hw, hfound⟩)

theorem Held.unequal {held : List Value} (h : Held hash held) : Unequal held := by
  induction h with
  | empty => exact List.Pairwise.nil
  | insert v _ ih => exact ih.insert hash v
  | remove v _ ih => exact ih.sublist List.filter_sublist

/-- Any hash gives the same set, the one that tells values apart by their whole imprints. -/
theorem foldl_insertHashed (vs : List Value) : vs.foldl (insertHashed hash) [] = distinct vs := by
  have hinsert : insertHashed hash = fun held v => if v.isIn held then held else held ++ [v] := by
    funext held v
    have hfinds : finds hash v = finds id v := funext fun w => by rw [finds_eq, finds_eq]
    rw [insertHashed, hfinds]
    rfl
  rw [hinsert, distinct]

end Sets

theorem exists_same_insertHashed {κ : Type} [DecidableEq κ] (hash : List Imprint → κ)
    (held : List Value) (v : Value) : ∃ w ∈ insertHashed hash held v, v.same w = true := by
  unfold insertHashed
  split
  · rename_i hany
    obtain ⟨w, hw, hfound⟩ := List.any_eq_true.1 hany
    exact ⟨w, hw, by rwa [finds_eq] at hfound⟩
  · exact ⟨v, by simp, same_iff_imprint_eq.2 rfl⟩

/-- A collection without repetitions has an equal of each value of the whole. -/
theorem exists_same_distinct {vs : List Value} {v : Value} (hv : v ∈ vs) :
    ∃ w ∈ distinct vs, v.same w = true := by
  rw [← foldl_insertHashed id]
  induction vs using List.reverseRecOn with
  | nil => cases hv
  | append_singleton vs u ih =>
    rw [List.foldl_append, List.foldl_cons, List.foldl_nil]
    rcases List.mem_append.1 hv with hv | hv
    · obtain ⟨w, hw, hsame⟩ := ih hv
      refine ⟨w, ?_, hsame⟩
      unfold insertHashed
      split
      · exact hw
      · exact List.mem_append_left _ hw
    · rw [List.mem_singleton.1 hv]
      exact exists_same_insertHashed id _ u

/-- Equality of values is an equivalence, `not a number` and lists of any depth included. Values
are equal exactly if they feed the same data to a hasher, so a set that finds its values by any
hash of that data never holds two equal ones, and holds an equal of each value put into it. -/
theorem same_equivalence :
    Equivalence (fun v w : Value => v.same w = true) ∧
      (∀ v w : Value, v.same w = true ↔ v.imprint = w.imprint) ∧
      ∀ (κ : Type) [DecidableEq κ] (hash : List Imprint → κ),
        (∀ held, Held hash held → held.Pairwise fun v w => v.same w = false) ∧
          ∀ vs : List Value, vs.foldl (insertHashed hash) [] = distinct vs ∧
            ∀ v ∈ vs, ∃ w ∈ distinct vs, v.same w = true := by
  refine ⟨⟨fun v => same_iff_imprint_eq.2 rfl, fun h => ?_, fun h h' => ?_⟩,
    fun v w => same_iff_imprint_eq, fun κ _ hash => ⟨fun held h => h.unequal hash, fun vs => ?_⟩⟩
  · rw [same_comm]; exact h
  · rw [same_iff_imprint_eq] at h h' ⊢
    exact h.trans h'
  · exact ⟨foldl_insertHashed hash vs, fun v hv => exists_same_distinct hv⟩

/-- The float nearest to the greatest integer lies above it, and the zeros are one number. -/
example : (float (.ofInt 9223372036854775807)).same (integer 9223372036854775807) = false ∧
    (float (.ofInt 9007199254740993)).same (integer 9007199254740992) = true ∧
    (float (.zero true)).same (float (.zero false)) = true := by decide +kernel

end Value

end RecordModel
