import Mathlib.Data.List.Nodup
import RecordModel.FieldMap

/-!
# Entries of a field map

A map whose keys are all different stays so, whatever is put in and taken out. Its entries are then
what is found under the keys, and another map with the same keys in the same order, and the same
found under each, is the same map.

Results:
* `FieldMap.mem_entries_iff`: the entries of a map are what is found in it.
* `FieldMap.keys_insertAll`, `FieldMap.get?_insertAll`: what a map is after it was filled.
* `FieldMap.keys_remove`, `FieldMap.get?_remove`: what a map is after a key was taken out.
* `FieldMap.eq_of_get?`: what a map is known by.
-/
namespace RecordModel.FieldMap

/-! ## Maps that are filled -/

/-- Put entries into a map, one after the other. -/
def insertAll (m : FieldMap) (es : List (String × Value)) : FieldMap :=
  es.foldl (fun m e => m.insert e.1 e.2) m

theorem nodup_keys_insert {m : FieldMap} (h : m.keys.Nodup) (key : String) (value : Value) :
    (m.insert key value).keys.Nodup := by
  rw [keys_insert]
  split
  · exact h
  · rename_i hnew
    rw [← List.concat_eq_append]
    exact h.concat hnew

theorem nodup_keys_insertAll {m : FieldMap} (h : m.keys.Nodup) (es : List (String × Value)) :
    (m.insertAll es).keys.Nodup := by
  induction es generalizing m with
  | nil => exact h
  | cons e es ih => exact ih (nodup_keys_insert h e.1 e.2)

/-- New keys go to the end, each once. -/
theorem keys_insertAll (m : FieldMap) (es : List (String × Value)) :
    (m.insertAll es).keys = m.keys ++ ((es.map Prod.fst).removeAll m.keys).eraseDups := by
  induction es generalizing m with
  | nil => simp [insertAll, List.removeAll]
  | cons e es ih =>
    have hstep : m.insertAll (e :: es) = (m.insert e.1 e.2).insertAll es := rfl
    rw [hstep, ih, keys_insert]
    by_cases h : e.1 ∈ m.keys
    · simp [h, List.removeAll]
    · have hrest : (es.map Prod.fst).removeAll (m.keys ++ [e.1]) =
          ((es.map Prod.fst).removeAll m.keys).filter fun key => !key == e.1 := by
        unfold List.removeAll
        rw [List.filter_filter]
        refine List.filter_congr fun key _ => ?_
        by_cases hkey : key = e.1 <;> simp [hkey]
      have hfirst : (e.1 :: es.map Prod.fst).removeAll m.keys =
          e.1 :: (es.map Prod.fst).removeAll m.keys := by
        simp [List.removeAll, h]
      rw [if_neg h, hrest, List.map_cons, hfirst, List.eraseDups_cons, List.append_assoc,
        List.singleton_append]

theorem get?_insertAll_of_not_mem (m : FieldMap) {es : List (String × Value)} {key : String}
    (h : ∀ e ∈ es, e.1 ≠ key) : (m.insertAll es).get? key = m.get? key := by
  induction es generalizing m with
  | nil => rfl
  | cons e es ih =>
    obtain ⟨he, hes⟩ := List.forall_mem_cons.1 h
    have hstep : m.insertAll (e :: es) = (m.insert e.1 e.2).insertAll es := rfl
    rw [hstep, ih _ hes, get_insert_of_ne m e.2 he.symm]

/-- The last value under a key is the one that is found. -/
theorem get?_insertAll (m : FieldMap) (before : List (String × Value)) (key : String) (value : Value)
    {behind : List (String × Value)} (h : ∀ e ∈ behind, e.1 ≠ key) :
    (m.insertAll (before ++ (key, value) :: behind)).get? key = some value := by
  have hsplit : m.insertAll (before ++ (key, value) :: behind) =
      ((m.insertAll before).insert key value).insertAll behind := by
    simp [insertAll]
  rw [hsplit, get?_insertAll_of_not_mem _ h, get_insert_self]

/-- A map is known by its keys and what is found under each. -/
theorem eq_of_get? {a b : FieldMap} (hnodup : a.keys.Nodup) (hkeys : a.keys = b.keys)
    (h : ∀ key ∈ a.keys, a.get? key = b.get? key) : a = b := by
  obtain ⟨es⟩ := a
  obtain ⟨fs⟩ := b
  induction es generalizing fs with
  | nil =>
    have hnil : fs = [] := by simpa [keys] using hkeys.symm
    rw [hnil]
  | cons e es ih =>
    cases fs with
    | nil => simp [keys] at hkeys
    | cons f fs =>
      obtain ⟨hkey, hrest⟩ := List.cons.inj (hkeys : e.1 :: es.map Prod.fst = f.1 :: fs.map Prod.fst)
      obtain ⟨hnew, hnodup⟩ := List.nodup_cons.1 (hnodup : (e.1 :: es.map Prod.fst).Nodup)
      have hvalue := h e.1 List.mem_cons_self
      have hsame : es = fs := by
        refine congrArg entries (ih hnodup fs hrest fun key hmem => ?_)
        have hne : e.1 ≠ key := fun he => hnew (he ▸ hmem)
        have hfound := h key (List.mem_cons_of_mem _ hmem)
        simpa [get?, hne, ← hkey] using hfound
      have hfirst : e = f := Prod.ext hkey (by simpa [get?, ← hkey] using hvalue)
      rw [hsame, hfirst]

/-! ## What is there and what is taken out -/

theorem mem_keys_iff {m : FieldMap} {key : String} :
    key ∈ m.keys ↔ ∃ value, (key, value) ∈ m.entries := by
  simp [keys]

/-- With each key there once, the entries are what is found. -/
theorem mem_entries_iff {m : FieldMap} (h : m.keys.Nodup) {key : String} {value : Value} :
    (key, value) ∈ m.entries ↔ m.get? key = some value := by
  unfold get?
  constructor
  · intro hmem
    cases hfound : m.entries.find? fun e => e.1 = key with
    | none => simpa using List.find?_eq_none.1 hfound _ hmem
    | some e =>
      have hkey : e.1 = key := by simpa using List.find?_some hfound
      have hsame := List.inj_on_of_nodup_map h (List.mem_of_find?_eq_some hfound) hmem hkey
      rw [hsame]
      rfl
  · intro hfound
    obtain ⟨e, he, rfl⟩ := Option.map_eq_some_iff.1 hfound
    have hkey : e.1 = key := by simpa using List.find?_some he
    exact hkey ▸ List.mem_of_find?_eq_some he

theorem keys_remove (m : FieldMap) (key : String) : (m.remove key).keys = m.keys.erase key := by
  obtain ⟨es⟩ := m
  simp only [remove, keys]
  induction es with
  | nil => rfl
  | cons e es ih => by_cases h : e.1 = key <;> simp [h, ih]

theorem get?_remove {m : FieldMap} (h : m.keys.Nodup) (key other : String) :
    (m.remove key).get? other = if other = key then none else m.get? other := by
  obtain ⟨es⟩ := m
  simp only [remove, get?]
  induction es with
  | nil => simp
  | cons e es ih =>
    obtain ⟨hnew, hnodup⟩ := List.nodup_cons.1 (h : (e.1 :: es.map Prod.fst).Nodup)
    by_cases hkey : e.1 = key
    · by_cases hother : other = key
      · have hnone : ∀ f ∈ es, f.1 ≠ key := fun f hf he =>
          hnew (List.mem_map.2 ⟨f, hf, he.trans hkey.symm⟩)
        simpa [hkey, hother] using hnone
      · simp [hkey, hother, Ne.symm hother]
    · by_cases hother : e.1 = other
      · simp [hother, hother ▸ hkey]
      · simpa [hkey, hother] using ih hnodup

end RecordModel.FieldMap
