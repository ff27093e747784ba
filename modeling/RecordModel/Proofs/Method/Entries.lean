import RecordModel.Proofs.Method.Dispatch

/-!
# The signature of a layer

A layer is declared under a signature, which the registry keeps with the method of the
layer. `Registry.taken?` finds a layer that the registry has taken by its number, with that
signature. Such an entry is there for good, and the layers of one chain have the same
signature.

Results:
* `Registry.Tells.taken?_iff`: a registry has an entry for each layer that it was told of.
* `Registry.Reachable.taken?_after`: no call changes an entry.
* `Registry.Reachable.taken?_top`, `Registry.Reachable.taken?_below`: the layers that a call
  starts at and goes on to have the signature of its method.
-/
namespace RecordModel.Registry

/-- The layer of a number, with the signature of its method. -/
def taken? (r : Registry) (id : LayerId) : Option (Signature × Layer) := do
  let key ← r.owners.get? id
  let m ← r.methods.get? key
  let layer ← m.layers.get? id
  return (m.signature, layer)

/-! ## Entries and events -/

theorem event_of_mem_declared {events : List Event} {key : String × String} {l : Layer}
    (h : l ∈ declared events key) :
    (l.model, l.method) = key ∧
      ∃ signature, ⟨.declare l.model l.method signature l.body, .ok (.layer l.id)⟩ ∈ events := by
  rw [declared, List.mem_reverse, List.mem_filter, List.mem_filterMap] at h
  obtain ⟨⟨e, he, hl⟩, hkey⟩ := h
  refine ⟨by simpa using hkey, ?_⟩
  unfold Event.layer? at hl
  split at hl
  · cases hl
    exact ⟨_, he⟩
  · cases hl

namespace Tells

variable {r : Registry} {events : List Event} (h : r.Tells events)

include h in
/-- The layers of a method have entries under its signature. -/
theorem taken?_of_mem {key : String × String} {m : Method} (hm : r.methods.get? key = some m)
    {l : Layer} (hl : l ∈ declared events key) : r.taken? l.id = some (m.signature, l) := by
  have howner : r.owners.get? l.id = some key := h.owner.2 (List.mem_map_of_mem hl)
  have hlayer : m.layers.get? l.id = some l := (h.method hm).holds.get?_id l hl
  simp only [taken?, howner, hm, hlayer, Option.bind_eq_bind, Option.bind_some, Option.pure_def]

include h in
theorem exists_of_taken? {id : LayerId} {s : Signature} {l : Layer}
    (he : r.taken? id = some (s, l)) :
    ∃ key m, r.methods.get? key = some m ∧ m.signature = s ∧ l ∈ declared events key ∧
      l.id = id := by
  obtain ⟨key, howner, he⟩ := Option.bind_eq_some_iff.1 he
  obtain ⟨m, hm, he⟩ := Option.bind_eq_some_iff.1 he
  obtain ⟨layer, hlayer, he⟩ := Option.bind_eq_some_iff.1 he
  cases he
  obtain ⟨l', hl', rfl⟩ := List.mem_map.1 (h.owner.1 howner)
  have hsame : m.layers.get? l'.id = some l' := (h.method hm).holds.get?_id l' hl'
  cases hlayer.symm.trans hsame
  exact ⟨key, m, hm, rfl, hl', rfl⟩

include h in
/-- A registry has an entry for every layer that it has taken, under the signature that the
layer was declared with. -/
theorem taken?_iff {id : LayerId} {s : Signature} {l : Layer} :
    r.taken? id = some (s, l) ↔
      l.id = id ∧ ⟨.declare l.model l.method s l.body, .ok (.layer id)⟩ ∈ events := by
  constructor
  · intro he
    obtain ⟨key, m, hm, rfl, hl, rfl⟩ := h.exists_of_taken? he
    obtain ⟨rfl, s, hs⟩ := event_of_mem_declared hl
    exact ⟨rfl, (h.method hm).signature_eq hs ▸ hs⟩
  · rintro ⟨rfl, hs⟩
    have hl : l ∈ declared events (l.model, l.method) := mem_declared (l.model, l.method) hs
    cases hm : r.methods.get? (l.model, l.method) with
    | none => rw [h.unknown hm] at hl; cases hl
    | some m => rw [h.taken?_of_mem hm hl, (h.method hm).signature_eq hs]

end Tells

/-! ## Entries that stay, and entries of a chain -/

namespace Reachable

variable {r : Registry} (h : r.Reachable)

include h in
theorem taken?_after {id : LayerId} {e : Signature × Layer} (he : r.taken? id = some e)
    (later : List Call) : (r.after later).taken? id = some e := by
  obtain ⟨first, calls, rfl⟩ := h
  have htells := tells_history first calls
  obtain ⟨hid, hevent⟩ := htells.taken?_iff.1 he
  exact (htells.run later).taken?_iff.2 ⟨hid, List.mem_append_left _ hevent⟩

include h in
theorem taken?_top {model method : String} {m : Method} (hm : r.lookup model method = .ok m) :
    r.taken? m.top.id = some (m.signature, m.top) := by
  obtain ⟨first, calls, rfl⟩ := h
  have htells := tells_history first calls
  have hm := lookup_eq_ok.1 hm
  exact htells.taken?_of_mem hm (List.mem_of_getElem? (htells.method hm).holds.top_eq)

include h in
/-- The layer below has the signature of the one above. -/
theorem taken?_below {id : LayerId} {s : Signature} {l below : Layer}
    (he : r.taken? id = some (s, l)) (hnext : r.resolveNext id = .ok (some below)) :
    r.taken? below.id = some (s, below) := by
  obtain ⟨first, calls, rfl⟩ := h
  have htells := tells_history first calls
  obtain ⟨key, m, hm, rfl, hl, rfl⟩ := htells.exists_of_taken? he
  obtain ⟨i, hi⟩ := List.mem_iff_getElem?.1 hl
  rw [htells.next hi] at hnext
  exact htells.taken?_of_mem hm (List.mem_of_getElem? (Except.ok.inj hnext))

end Reachable

end RecordModel.Registry
