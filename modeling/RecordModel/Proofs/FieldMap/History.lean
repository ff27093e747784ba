import RecordModel.Proofs.FieldMap.Entries

/-!
# Histories of a field map

A map is worked on by calls. A value is put under a key, with the value before it as the answer or
with no answer; a key is taken out, which answers the value that it had; or pairs are collected into
a new map. The entries of a map give the columns of an insertion or an update and their order, and
so the order of its arguments.

`history` is what has happened to the keys of a map since it was made. Which value stands under a
key (`Stands`), and when a key came into the map (`Enters`), is said of the history alone.

Results:
* `stands_snoc`, `enters_snoc`: what one more event changes.
* `Tells.answer`: a call keeps map and history in step.
* `run_tells`: after any calls, a map and its answers are what the history says.
-/
namespace RecordModel.FieldMap

/-! ## Calls -/

inductive Call where
  | insert (key : String) (value : Value)
  /-- An insertion whose answer is dropped. -/
  | extend (key : String) (value : Value)
  | remove (key : String)
  /-- A new map takes the place of the old one. -/
  | collect (pairs : List (String × Value))

/-- The value that a call answers, if it answers one, and the map after it. -/
def answer (m : FieldMap) : Call → Option Value × FieldMap
  | .insert key value => m.getThenInsert key value
  | .extend key value => (none, m.insert key value)
  | .remove key => m.getThenRemove key
  | .collect pairs => (none, ofList pairs)

/-- The map after calls, from an empty one on. -/
def run (calls : List Call) : FieldMap := calls.foldl (fun m call => (m.answer call).2) empty

/-! ## What has happened -/

inductive Event where
  | put (key : String) (value : Value)
  | taken (key : String)

def Event.key : Event → String
  | .put key _ => key
  | .taken key => key

/-- The events of a map after a call; those of a new map begin with its pairs. -/
def record (events : List Event) : Call → List Event
  | .insert key value => events ++ [.put key value]
  | .extend key value => events ++ [.put key value]
  | .remove key => events ++ [.taken key]
  | .collect pairs => pairs.map fun e => .put e.1 e.2

def history (calls : List Call) : List Event := calls.foldl record []

/-- The value was the last one put under the key, and the key was not taken out since. -/
def Stands (events : List Event) (key : String) (value : Value) : Prop :=
  ∃ before later, events = before ++ .put key value :: later ∧ ∀ e ∈ later, e.key ≠ key

/-- A value was put under the key by event number `i`, when none stood there, and the key was not
taken out since. -/
def Enters (events : List Event) (key : String) (i : Nat) : Prop :=
  ∃ before value later, events = before ++ .put key value :: later ∧ before.length = i ∧
    (∀ old, ¬ Stands before key old) ∧ .taken key ∉ later

theorem snoc_eq_append_cons {α : Type} {xs before later : List α} {x a : α} :
    xs ++ [x] = before ++ a :: later ↔
      xs = before ∧ x = a ∧ later = [] ∨
        ∃ rest, xs = before ++ a :: rest ∧ later = rest ++ [x] := by
  constructor
  · intro h
    obtain rfl | ⟨rest, last, rfl⟩ := later.eq_nil_or_concat
    · obtain ⟨hxs, hx⟩ := List.append_inj' h rfl
      exact .inl ⟨hxs, List.singleton_inj.1 hx, rfl⟩
    · rw [List.concat_eq_append, ← List.cons_append, ← List.append_assoc] at h
      obtain ⟨hxs, hx⟩ := List.append_inj' h rfl
      exact .inr ⟨rest, hxs, by rw [List.concat_eq_append, List.singleton_inj.1 hx]⟩
  · rintro (⟨rfl, rfl, rfl⟩ | ⟨rest, rfl, rfl⟩)
    · rfl
    · simp

/-- A value stands under a key after an event if the event puts it there, or if it stood there and
the event is about another key. -/
theorem stands_snoc {events : List Event} {e : Event} {key : String} {value : Value} :
    Stands (events ++ [e]) key value ↔
      e = .put key value ∨ e.key ≠ key ∧ Stands events key value := by
  constructor
  · rintro ⟨before, later, h, hlater⟩
    obtain ⟨-, rfl, -⟩ | ⟨rest, rfl, rfl⟩ := snoc_eq_append_cons.1 h
    · exact .inl rfl
    · obtain ⟨hrest, he⟩ := List.forall_mem_append.1 hlater
      exact .inr ⟨he e List.mem_cons_self, before, rest, rfl, hrest⟩
  · rintro (rfl | ⟨he, before, later, rfl, hlater⟩)
    · exact ⟨events, [], rfl, by simp⟩
    · exact ⟨before, later ++ [e], by simp,
        List.forall_mem_append.2 ⟨hlater, List.forall_mem_singleton.2 he⟩⟩

/-- A key that has entered stays so until it is taken out, and a key enters with a value that is
put under it when none stands there. -/
theorem enters_snoc {events : List Event} {e : Event} {key : String} {i : Nat} :
    Enters (events ++ [e]) key i ↔
      e ≠ .taken key ∧ Enters events key i ∨
        (∃ value, e = .put key value) ∧ i = events.length ∧ ∀ old, ¬ Stands events key old := by
  constructor
  · rintro ⟨before, value, later, h, rfl, hnone, hlater⟩
    obtain ⟨rfl, rfl, -⟩ | ⟨rest, rfl, rfl⟩ := snoc_eq_append_cons.1 h
    · exact .inr ⟨⟨value, rfl⟩, rfl, hnone⟩
    · rw [List.mem_append, not_or, List.mem_singleton] at hlater
      exact .inl ⟨Ne.symm hlater.2, before, value, rest, rfl, rfl, hnone, hlater.1⟩
  · rintro (⟨he, before, value, later, rfl, rfl, hnone, hlater⟩ | ⟨⟨value, rfl⟩, rfl, hnone⟩)
    · refine ⟨before, value, later ++ [e], by simp, rfl, hnone, ?_⟩
      rw [List.mem_append, not_or, List.mem_singleton]
      exact ⟨hlater, Ne.symm he⟩
    · exact ⟨events, value, [], rfl, rfl, hnone, List.not_mem_nil⟩

theorem Enters.lt_length {events : List Event} {key : String} {i : Nat}
    (h : Enters events key i) : i < events.length := by
  obtain ⟨before, value, later, rfl, rfl, -⟩ := h
  simp

/-! ## Map and history -/

/-- A map says the same as its history. -/
structure Tells (m : FieldMap) (events : List Event) : Prop where
  /-- No key is there twice. -/
  keys_nodup : m.keys.Nodup
  /-- What is found under a key is what stands there. -/
  get?_eq_some : ∀ {key value}, m.get? key = some value ↔ Stands events key value
  /-- The keys are those that have entered. -/
  mem_keys : ∀ {key}, key ∈ m.keys ↔ ∃ i, Enters events key i
  /-- They come in the order in which they entered. -/
  ordered : m.keys.Pairwise fun a b => ∀ i j, Enters events a i → Enters events b j → i < j

namespace Tells

theorem empty : FieldMap.empty.Tells [] where
  keys_nodup := List.nodup_nil
  get?_eq_some := by simp [FieldMap.empty, get?, Stands]
  mem_keys := by simp [FieldMap.empty, keys, Enters]
  ordered := List.Pairwise.nil

variable {m : FieldMap} {events : List Event} (h : m.Tells events)

include h

theorem mem_keys_iff_stands {key : String} : key ∈ m.keys ↔ ∃ value, Stands events key value := by
  simp only [mem_keys_iff, mem_entries_iff h.keys_nodup, h.get?_eq_some]

/-- With a value, only its own key may enter. -/
theorem enters_put {key other : String} {value : Value} {i : Nat} :
    Enters (events ++ [.put key value]) other i ↔
      Enters events other i ∨ other = key ∧ i = events.length ∧ key ∉ m.keys := by
  rw [enters_snoc, h.mem_keys_iff_stands, not_exists]
  refine or_congr ⟨And.right, fun hi => ⟨by simp, hi⟩⟩ ?_
  constructor
  · rintro ⟨⟨v, hv⟩, hi, hnone⟩
    cases hv
    exact ⟨rfl, hi, hnone⟩
  · rintro ⟨rfl, hi, hnone⟩
    exact ⟨⟨value, rfl⟩, hi, hnone⟩

theorem insert (key : String) (value : Value) :
    (m.insert key value).Tells (events ++ [.put key value]) where
  keys_nodup := nodup_keys_insert h.keys_nodup key value
  get?_eq_some := by
    intro other v
    rw [stands_snoc, ← h.get?_eq_some]
    by_cases hother : other = key
    · simp [hother, get_insert_self, Event.key]
    · simp [get_insert_of_ne m value hother, Event.key, Ne.symm hother]
  mem_keys := by
    intro other
    simp only [h.enters_put, exists_or, ← h.mem_keys, keys_insert]
    by_cases hkey : key ∈ m.keys <;> simp [hkey]
  ordered := by
    have hold : ∀ {other i}, other ∈ m.keys → Enters (events ++ [.put key value]) other i →
        Enters events other i := by
      intro other i hother hi
      obtain hi | ⟨rfl, -, hnew⟩ := h.enters_put.1 hi
      · exact hi
      · exact absurd hother hnew
    have hkept : m.keys.Pairwise fun a b => ∀ i j, Enters (events ++ [.put key value]) a i →
        Enters (events ++ [.put key value]) b j → i < j :=
      h.ordered.imp_of_mem fun ha hb hab i j hi hj => hab i j (hold ha hi) (hold hb hj)
    rw [keys_insert]
    split
    · exact hkept
    · rename_i hnew
      refine List.pairwise_append.2 ⟨hkept, List.pairwise_singleton _ _, ?_⟩
      intro a ha b hb i j hi hj
      rw [List.mem_singleton.1 hb] at hj
      -- The key of the new value enters with this very event, after all that were there.
      obtain hj | ⟨-, rfl, -⟩ := h.enters_put.1 hj
      · exact absurd (h.mem_keys.2 ⟨j, hj⟩) hnew
      · exact (hold ha hi).lt_length

theorem remove (key : String) : (m.remove key).Tells (events ++ [.taken key]) where
  keys_nodup := by
    rw [keys_remove]
    exact h.keys_nodup.erase key
  get?_eq_some := by
    intro other v
    rw [stands_snoc, get?_remove h.keys_nodup, ← h.get?_eq_some]
    by_cases hother : other = key <;> simp [hother, Event.key, Ne.symm]
  mem_keys := by
    intro other
    rw [keys_remove, h.keys_nodup.mem_erase_iff, h.mem_keys]
    simp [enters_snoc, eq_comm]
  ordered := by
    rw [keys_remove]
    refine (h.ordered.sublist (List.erase_sublist ..)).imp fun hab i j hi hj => ?_
    have hold : ∀ {other i}, Enters (events ++ [.taken key]) other i → Enters events other i := by
      intro other i hi
      simpa [enters_snoc] using (enters_snoc.1 hi).imp_left And.right
    exact hab i j (hold hi) (hold hj)

theorem insertAll (pairs : List (String × Value)) :
    (m.insertAll pairs).Tells (events ++ pairs.map fun e => .put e.1 e.2) := by
  induction pairs generalizing m events with
  | nil =>
    rw [List.map_nil, List.append_nil]
    exact h
  | cons e pairs ih =>
    rw [List.map_cons, List.append_cons]
    exact ih (h.insert e.1 e.2)

theorem answer (call : Call) : (m.answer call).2.Tells (record events call) := by
  cases call with
  | insert key value =>
    rw [FieldMap.answer, getThenInsert_eq]
    exact h.insert key value
  | extend key value => exact h.insert key value
  | remove key =>
    rw [FieldMap.answer, getThenRemove_eq]
    exact h.remove key
  | collect pairs => exact Tells.empty.insertAll pairs

theorem run (calls : List Call) :
    (calls.foldl (fun m call => (m.answer call).2) m).Tells (calls.foldl record events) := by
  induction calls generalizing m events with
  | nil => exact h
  | cons call calls ih => exact ih (h.answer call)

end Tells

/-- After any calls a map holds each key once. Under a key the last value is found that was put
there since the key was last taken out, and the keys come in the order in which they were first
put in since then. An insertion and a removal answer the value that is found before them, and a
value in the place of another one moves no key. -/
theorem run_tells (calls : List Call) :
    (run calls).Tells (history calls) ∧
    (∀ key value, (key, value) ∈ (run calls).entries ↔ Stands (history calls) key value) ∧
    ∀ key,
      ((run calls).answer (.remove key)).1 = (run calls).get? key ∧
      ∀ value,
        ((run calls).answer (.insert key value)).1 = (run calls).get? key ∧
        ((run calls).answer (.insert key value)).2.keys =
          if key ∈ (run calls).keys then (run calls).keys else (run calls).keys ++ [key] := by
  have htells : (run calls).Tells (history calls) := Tells.empty.run calls
  refine ⟨htells, fun key value => ?_, fun key => ⟨?_, fun value => ⟨?_, ?_⟩⟩⟩
  · rw [mem_entries_iff htells.keys_nodup, htells.get?_eq_some]
  · rw [answer, getThenRemove_eq]
  · rw [answer, getThenInsert_eq]
  · rw [answer, getThenInsert_eq, keys_insert]

-- A name in its old place after a second value, and at the end after it was taken out.
example :
    let calls : List Call :=
      [.extend "name" (.text "Bob"), .extend "age" (.integer 30), .insert "name" (.text "Alice")]
    (run calls).keys = ["name", "age"] ∧
      (run (calls ++ [.remove "name", .insert "name" .null])).keys = ["age", "name"] := by
  decide

end RecordModel.FieldMap
