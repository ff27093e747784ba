import RecordModel.Value.Equality

/-!
# Field maps

Values under the names of fields, in the order in which the names came first. Putting a
value under a name again keeps the name's place.

Results:
* `FieldMap.get_insert_self`, `FieldMap.get_insert_of_ne`: what was put last under a name is
  found there, and other names keep what they have.
* `FieldMap.keys_insert`: a new name goes to the end, a known one keeps its place.
* `FieldMap.getThenInsert_eq`, `FieldMap.getThenRemove_eq`: with one search of the entries, the
  value before and the map after.
-/
namespace RecordModel

/-- Values under names, in the order in which the names came in. -/
structure FieldMap where
  entries : List (String × Value)

namespace FieldMap

def empty : FieldMap := ⟨[]⟩

/-- The value under a name (`get`). -/
def get? (m : FieldMap) (key : String) : Option Value :=
  (m.entries.find? fun e => e.1 = key).map Prod.snd

def putEntry (key : String) (value : Value) : List (String × Value) → List (String × Value)
  | [] => [(key, value)]
  | e :: rest => if e.1 = key then (key, value) :: rest else e :: putEntry key value rest

/-- Put a value under a name (`with`). -/
def insert (m : FieldMap) (key : String) (value : Value) : FieldMap :=
  ⟨putEntry key value m.entries⟩

/-- Take a name out; the others move up. -/
def remove (m : FieldMap) (key : String) : FieldMap := ⟨m.entries.eraseP fun e => e.1 = key⟩

/-- The entries with a value in the place of the one under a name, or at the end, and the value
that was there. -/
def replaceEntry (key : String) (value : Value) :
    List (String × Value) → Option Value × List (String × Value)
  | [] => (none, [(key, value)])
  | e :: rest =>
    if e.1 = key then (some e.2, (key, value) :: rest)
    else
      let (old, rest) := replaceEntry key value rest
      (old, e :: rest)

/-- Put a value under a name; the answer is the value that was there (`insert`). -/
def getThenInsert (m : FieldMap) (key : String) (value : Value) : Option Value × FieldMap :=
  let (old, entries) := replaceEntry key value m.entries
  (old, ⟨entries⟩)

/-- Take a name out; the answer is the value that was there (`remove`). -/
def getThenRemove (m : FieldMap) (key : String) : Option Value × FieldMap :=
  match m.entries.findIdx? fun e => e.1 = key with
  | none => (none, m)
  | some i => ((m.entries[i]?).map Prod.snd, ⟨m.entries.eraseIdx i⟩)

def contains (m : FieldMap) (key : String) : Bool := (m.get? key).isSome

def keys (m : FieldMap) : List String := m.entries.map Prod.fst

def size (m : FieldMap) : Nat := m.entries.length

def isEmpty (m : FieldMap) : Bool := m.entries.isEmpty

/-- The map of a list of names and values, put in one after the other. -/
def ofList (entries : List (String × Value)) : FieldMap :=
  entries.foldl (fun m e => m.insert e.1 e.2) empty

/-- Equality of two maps: the same names in the same order, with equal values. -/
def same (a b : FieldMap) : Bool :=
  a.keys == b.keys && Value.sameAll (a.entries.map Prod.snd) (b.entries.map Prod.snd)

theorem find?_putEntry_self (key : String) (value : Value) (es : List (String × Value)) :
    (putEntry key value es).find? (fun e => e.1 = key) = some (key, value) := by
  induction es with
  | nil => simp [putEntry]
  | cons e es ih =>
    rw [putEntry]
    split
    · simp
    · rename_i h; simp [h, ih]

theorem find?_putEntry_of_ne {key other : String} (value : Value) (es : List (String × Value))
    (h : other ≠ key) :
    (putEntry key value es).find? (fun e => e.1 = other) = es.find? fun e => e.1 = other := by
  induction es with
  | nil => simp [putEntry, h.symm]
  | cons e es ih =>
    rw [putEntry]
    split
    · rename_i he; simp [he, h.symm]
    · simp only [List.find?_cons, ih]

theorem get_insert_self (m : FieldMap) (key : String) (value : Value) :
    (m.insert key value).get? key = some value := by
  simp [insert, get?, find?_putEntry_self]

theorem get_insert_of_ne (m : FieldMap) {key other : String} (value : Value) (h : other ≠ key) :
    (m.insert key value).get? other = m.get? other := by
  simp only [insert, get?, find?_putEntry_of_ne value m.entries h]

theorem replaceEntry_eq (key : String) (value : Value) (es : List (String × Value)) :
    replaceEntry key value es =
      ((es.find? fun e => e.1 = key).map Prod.snd, putEntry key value es) := by
  induction es with
  | nil => rfl
  | cons e es ih =>
    rw [replaceEntry, putEntry, ih]
    by_cases h : e.1 = key <;> simp [h]

theorem getThenInsert_eq (m : FieldMap) (key : String) (value : Value) :
    m.getThenInsert key value = (m.get? key, m.insert key value) := by
  rw [getThenInsert, replaceEntry_eq, get?, insert]

theorem getThenRemove_eq (m : FieldMap) (key : String) :
    m.getThenRemove key = (m.get? key, m.remove key) := by
  unfold getThenRemove get? remove
  rw [List.eraseP_eq_eraseIdx, List.find?_eq_bind_findIdx?_getElem?]
  cases m.entries.findIdx? fun e => e.1 = key <;> rfl

theorem keys_insert (m : FieldMap) (key : String) (value : Value) :
    (m.insert key value).keys = if key ∈ m.keys then m.keys else m.keys ++ [key] := by
  obtain ⟨es⟩ := m
  simp only [insert, keys]
  induction es with
  | nil => simp [putEntry]
  | cons e es ih =>
    rw [putEntry]
    by_cases h : e.1 = key
    · simp [h]
    · have hne : key ≠ e.1 := fun he => h he.symm
      rw [if_neg h, List.map_cons, ih]
      by_cases hm : key ∈ es.map Prod.fst <;> simp_all

end FieldMap

end RecordModel
