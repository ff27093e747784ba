/-!
# Dictionaries

Values under keys, each key once, in the order in which the keys came first.

Results:
* `Dictionary.get?_insert`: what was put last under a key is found there, and other keys
  keep what they have.
* `Dictionary.size_insert_of_none`: a new key makes a dictionary larger by one.
-/
namespace RecordModel

structure Dictionary (κ ν : Type) where
  entries : List (κ × ν)

namespace Dictionary

variable {κ ν : Type} [DecidableEq κ]

def empty : Dictionary κ ν := ⟨[]⟩

/-- The value under a key. -/
def get? (d : Dictionary κ ν) (key : κ) : Option ν :=
  (d.entries.find? fun e => e.1 = key).map Prod.snd

def putEntry (key : κ) (value : ν) : List (κ × ν) → List (κ × ν)
  | [] => [(key, value)]
  | e :: rest => if e.1 = key then (key, value) :: rest else e :: putEntry key value rest

/-- Put a value under a key. -/
def insert (d : Dictionary κ ν) (key : κ) (value : ν) : Dictionary κ ν :=
  ⟨putEntry key value d.entries⟩

def keys (d : Dictionary κ ν) : List κ := d.entries.map Prod.fst

def size (d : Dictionary κ ν) : Nat := d.entries.length

@[simp]
theorem get?_empty (key : κ) : (empty : Dictionary κ ν).get? key = none := rfl

theorem get?_insert (d : Dictionary κ ν) (key other : κ) (value : ν) :
    (d.insert key value).get? other = if other = key then some value else d.get? other := by
  obtain ⟨es⟩ := d
  simp only [insert, get?]
  induction es with
  | nil => by_cases h : other = key <;> simp [putEntry, h, Ne.symm]
  | cons e es ih =>
    rw [putEntry]
    split
    · rename_i he
      by_cases h : other = key <;> simp [he, h, Ne.symm]
    · rename_i he
      by_cases h : e.1 = other
      · have hne : other ≠ key := fun ho => he (h.trans ho)
        simp [h, hne]
      · simp only [List.find?_cons, h, decide_false]
        exact ih

@[simp]
theorem get?_insert_self (d : Dictionary κ ν) (key : κ) (value : ν) :
    (d.insert key value).get? key = some value := by
  simp [get?_insert]

theorem get?_insert_of_ne {d : Dictionary κ ν} {key other : κ} {value : ν} (h : other ≠ key) :
    (d.insert key value).get? other = d.get? other := by
  simp [get?_insert, h]

theorem size_insert_of_none {d : Dictionary κ ν} {key : κ} (value : ν) (h : d.get? key = none) :
    (d.insert key value).size = d.size + 1 := by
  obtain ⟨es⟩ := d
  simp only [get?, Option.map_eq_none_iff, List.find?_eq_none, decide_eq_true_eq] at h
  simp only [insert, size]
  induction es with
  | nil => rfl
  | cons e es ih =>
    rw [putEntry, if_neg (h e List.mem_cons_self), List.length_cons, List.length_cons,
      ih fun e he => h e (List.mem_cons_of_mem _ he)]

end Dictionary

end RecordModel
