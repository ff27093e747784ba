import RecordModel.Method.Typed
import RecordModel.Proofs.Method.Chain

/-!
# What a registry has been told

A registry starts out empty and is called any number of times: layers are declared, with a
signature of their own or with that of their type, and it is bootstrapped. `history` keeps
every call with its answer, `declared` the layers that were taken for one method. The
registry itself keeps its methods, their links and the method of each layer; all of that
always says the same as the history.

Results:
* `Registry.Tells.step`: a call keeps registry and history in step.
* `Registry.chain_declared`: chains, links and owners after any calls, and what no call
  changes.
-/
namespace RecordModel.Registry

/-! ## Calls -/

inductive Call where
  | declare (model method : String) (signature : Signature) (body : Body)
  | bootstrap
  /-- Layers are declared in another registry, which uses up the numbers before `n`. -/
  | reserve (n : Nat)

/-- Declaring a typed layer is declaring its body under the signature of its type. -/
def Call.declareTyped {φ : Type} [LayerFunction φ] (model method : String)
    (f : Frame → RecordSet → φ) : Call :=
  .declare model method (LayerFunction.signature φ) (.typed f)

inductive Reply where
  | layer (id : LayerId)
  /-- Whether the registry was not frozen before. -/
  | frozen (now : Bool)
  | reserved

structure Event where
  call : Call
  reply : Result Reply

def answer (r : Registry) : Call → Result Reply × Registry
  | .declare model method signature body =>
    let (result, r) := r.declare model method signature body
    (result.map .layer, r)
  | .bootstrap =>
    let (now, r) := r.bootstrap
    (.ok (.frozen now), r)
  | .reserve n => (.ok .reserved, r.reserve n)

/-- The registry after calls. -/
def after (r : Registry) (calls : List Call) : Registry :=
  calls.foldl (fun r call => (r.answer call).2) r

/-- Calls and how they are answered, one after the other. -/
def history (r : Registry) : List Call → List Event
  | [] => []
  | call :: calls => ⟨call, (r.answer call).1⟩ :: (r.answer call).2.history calls

/-- The layer that an event has put on top of a method. -/
def Event.layer? : Event → Option Layer
  | ⟨.declare model method _ body, .ok (.layer id)⟩ => some ⟨id, model, method, body⟩
  | _ => none

/-- The layers that were declared for a method, newest first. -/
def declared (events : List Event) (key : String × String) : List Layer :=
  ((events.filterMap Event.layer?).filter fun l => (l.model, l.method) = key).reverse

theorem after_append (r : Registry) (calls later : List Call) :
    r.after (calls ++ later) = (r.after calls).after later := by
  rw [after, List.foldl_append]; rfl

theorem declared_append (events later : List Event) (key : String × String) :
    declared (events ++ later) key = declared later key ++ declared events key := by
  simp only [declared, List.filterMap_append, List.filter_append, List.reverse_append]

theorem declared_single (e : Event) (key : String × String) :
    declared [e] key = match e.layer? with
      | some l => if (l.model, l.method) = key then [l] else []
      | none => [] := by
  unfold declared
  cases h : e.layer? with
  | none => simp [h]
  | some l => by_cases hk : (l.model, l.method) = key <;> simp [h, hk]

/-! ## One declaration -/

/-- A declaration is refused and changes nothing, or puts the next layer on top of a method,
which exists or starts with it. -/
theorem declare_cases (r : Registry) (model method : String) (signature : Signature) (body : Body) :
    (∃ cause, r.declare model method signature body = (.error cause, r)) ∨
    r.frozen = false ∧ ∃ m hm, r.declare model method signature body =
        (.ok ⟨r.next⟩, r.store (model, method) m hm) ∧ m.signature = signature ∧
      ((∃ old hnew, r.methods.get? (model, method) = some old ∧ old.signature = signature ∧
          m = old.push (r.freshLayer model method body) hnew) ∨
        r.methods.get? (model, method) = none ∧ signature.checkShape = .ok () ∧
          m = .new model method signature (r.freshLayer model method body)) := by
  cases hf : r.frozen with
  | true => exact .inl ⟨_, declare_frozen _ _ _ _ hf⟩
  | false =>
    rw [declare, if_neg (by simp [hf])]
    dsimp only
    split
    · rename_i old hold
      by_cases hs : old.signature = signature
      · rw [if_pos hs]
        exact .inr ⟨rfl, _, rfl, rfl, hs, .inl ⟨old, r.topId_lt hold, hold, hs, rfl⟩⟩
      · rw [if_neg hs]
        exact .inl ⟨_, rfl⟩
    · rename_i hnone
      split
      · rename_i u hshape
        exact .inr ⟨rfl, _, rfl, rfl, rfl, .inr ⟨hnone, hshape, rfl⟩⟩
      · exact .inl ⟨_, rfl⟩

/-! ## Registry and history -/

/-- What a registry keeps of one method says the same as the history. -/
structure TellsOf (r : Registry) (events : List Event) (key : String × String) (m : Method) : Prop where
  holds : m.Holds (declared events key)
  shape : m.signature.checkShape = .ok ()
  /-- All layers were declared under the signature of the method. -/
  signature_eq : ∀ {signature body id},
    ⟨.declare key.1 key.2 signature body, .ok (.layer id)⟩ ∈ events → signature = m.signature

/-- A registry says the same as its history. -/
structure Tells (r : Registry) (events : List Event) : Prop where
  method : ∀ {key m}, r.methods.get? key = some m → r.TellsOf events key m
  unknown : ∀ {key}, r.methods.get? key = none → declared events key = []
  owner : ∀ {id key}, r.owners.get? id = some key ↔ id ∈ (declared events key).map Layer.id

theorem tells_empty (first : Nat) : (empty first).Tells [] where
  method h := by cases h
  unknown _ := rfl
  owner := by simp [empty, declared]

theorem declared_declare (events : List Event) (key other : String × String) (signature : Signature)
    (body : Body) (id : LayerId) :
    declared (events ++ [⟨.declare key.1 key.2 signature body, .ok (.layer id)⟩]) other =
      if other = key then ⟨id, key.1, key.2, body⟩ :: declared events other
      else declared events other := by
  rw [declared_append, declared_single]
  by_cases hk : other = key <;> simp [Event.layer?, hk, Ne.symm]

theorem mem_declared {events : List Event} (key : String × String) {signature : Signature}
    {body : Body} {id : LayerId}
    (h : ⟨.declare key.1 key.2 signature body, .ok (.layer id)⟩ ∈ events) :
    ⟨id, key.1, key.2, body⟩ ∈ declared events key := by
  rw [declared, List.mem_reverse, List.mem_filter, List.mem_filterMap]
  exact ⟨⟨_, h, rfl⟩, by simp⟩

/-- A method stays in step with an event that puts no layer on it. -/
theorem TellsOf.snoc {r r' : Registry} {events : List Event} {e : Event} {key : String × String}
    {m : Method} (h : r.TellsOf events key m)
    (hdeclared : declared (events ++ [e]) key = declared events key)
    (hother : ∀ {signature body id}, e ≠ ⟨.declare key.1 key.2 signature body, .ok (.layer id)⟩) :
    r'.TellsOf (events ++ [e]) key m where
  holds := hdeclared.symm ▸ h.holds
  shape := h.shape
  signature_eq hmem := by
    rcases List.mem_append.1 hmem with hmem | hmem
    · exact h.signature_eq hmem
    · exact absurd (List.mem_singleton.1 hmem).symm hother

namespace Tells

variable {r : Registry} {events : List Event} (h : r.Tells events)

include h in
theorem number_lt {id : LayerId} {key : String × String}
    (hid : id ∈ (declared events key).map Layer.id) : id.number < r.next := by
  obtain ⟨l, hl, rfl⟩ := List.mem_map.1 hid
  cases hm : r.methods.get? key with
  | none => rw [h.unknown hm] at hl; cases hl
  | some m => exact Nat.lt_of_le_of_lt ((h.method hm).holds.number_le hl) (r.topId_lt hm)

include h in
/-- An event that puts no layer on a method leaves the registry in step. -/
theorem snoc_of_none {r' : Registry} {e : Event} (hmethods : r'.methods = r.methods)
    (howners : r'.owners = r.owners) (he : e.layer? = none) : r'.Tells (events ++ [e]) := by
  have hdeclared : ∀ key, declared (events ++ [e]) key = declared events key := by
    intro key
    rw [declared_append, declared_single, he]; rfl
  refine ⟨?_, ?_, ?_⟩
  · intro key m hm
    refine (h.method (hmethods ▸ hm)).snoc (hdeclared key) ?_
    rintro signature body id rfl
    cases he
  · intro key hm
    rw [hdeclared, h.unknown (hmethods ▸ hm)]
  · intro id key
    rw [hdeclared, howners, h.owner]

include h in
/-- Owners stay in step when the next layer goes on top of the method of a key. -/
theorem owner_insert {key : String × String} {id : LayerId} {other : String × String} :
    (r.owners.insert ⟨r.next⟩ key).get? id = some other ↔
      other = key ∧ id = ⟨r.next⟩ ∨ id ∈ (declared events other).map Layer.id := by
  rw [Dictionary.get?_insert, ← h.owner]
  by_cases hid : id = ⟨r.next⟩
  · -- The next number is taken by no layer so far.
    have hnone : r.owners.get? id ≠ some other := fun ho =>
      absurd (h.number_lt (h.owner.1 ho)) (by simp [hid])
    rw [if_pos hid]
    constructor
    · intro he
      cases he
      exact .inl ⟨rfl, hid⟩
    · rintro (⟨rfl, -⟩ | ho)
      · rfl
      · exact absurd ho hnone
  · simp [hid]

include h in
/-- A method whose layers are those of the history under the next one goes in its place. -/
theorem snoc_store (key : String × String) {signature : Signature} {body : Body} {m : Method}
    {hm : m.topId.number = r.next}
    (hholds : m.Holds (r.freshLayer key.1 key.2 body :: declared events key))
    (hshape : m.signature.checkShape = .ok ()) (hsignature : m.signature = signature)
    (hearlier : ∀ {signature body id},
      ⟨.declare key.1 key.2 signature body, .ok (.layer id)⟩ ∈ events → signature = m.signature) :
    (r.store key m hm).Tells
      (events ++ [⟨.declare key.1 key.2 signature body, .ok (.layer ⟨r.next⟩)⟩]) := by
  refine ⟨?_, ?_, ?_⟩
  · intro other n hn
    rw [store, Dictionary.get?_insert] at hn
    by_cases hk : other = key
    · subst hk
      rw [if_pos rfl] at hn
      cases hn
      refine ⟨by rw [declared_declare, if_pos rfl]; exact hholds, hshape, ?_⟩
      intro signature' body' id hmem
      rcases List.mem_append.1 hmem with hmem | hmem
      · exact hearlier hmem
      · cases List.mem_singleton.1 hmem
        exact hsignature.symm
    · rw [if_neg hk] at hn
      refine (h.method hn).snoc (by rw [declared_declare, if_neg hk]) ?_
      intro signature' body' id he
      simp only [Event.mk.injEq, Call.declare.injEq] at he
      exact hk (Prod.ext he.1.1.symm he.1.2.1.symm)
  · intro other hn
    rw [store, Dictionary.get?_insert] at hn
    split at hn
    · cases hn
    · rename_i hk
      rw [declared_declare, if_neg hk, h.unknown hn]
  · intro id other
    have htop : m.topId = ⟨r.next⟩ := by rw [← hm]
    rw [store, htop, h.owner_insert, declared_declare]
    by_cases hk : other = key <;> simp [hk]

include h in
/-- A call keeps registry and history in step. -/
theorem step (call : Call) :
    (r.answer call).2.Tells (events ++ [⟨call, (r.answer call).1⟩]) := by
  cases call with
  | bootstrap => exact h.snoc_of_none rfl rfl rfl
  | reserve n => exact h.snoc_of_none rfl rfl rfl
  | declare model method signature body =>
    obtain ⟨cause, hd⟩ | ⟨-, m, hm, hd, hs, hcase⟩ := r.declare_cases model method signature body
    · simp only [answer, hd]
      exact h.snoc_of_none rfl rfl rfl
    · simp only [answer, hd]
      obtain ⟨old, hnew, hold, hsold, rfl⟩ | ⟨hnone, hshape, rfl⟩ := hcase
      · obtain ⟨hholds, hshape, hsignature⟩ := h.method hold
        exact h.snoc_store (model, method) (hholds.push hnew) hshape hs hsignature
      · have hnil : declared events (model, method) = [] := h.unknown hnone
        refine h.snoc_store (model, method) (hnil.symm ▸ .new ..) hshape rfl ?_
        intro signature' body' id hmem
        have := mem_declared (model, method) hmem
        rw [hnil] at this
        cases this

include h in
/-- Calls keep registry and history in step. -/
theorem run (calls : List Call) : (r.after calls).Tells (events ++ r.history calls) := by
  induction calls generalizing r events with
  | nil => rwa [history, List.append_nil]
  | cons call calls ih =>
    rw [history, List.append_cons]
    exact ih (h.step call)

end Tells

/-- After any calls, registry and history are in step. -/
theorem tells_history (first : Nat) (calls : List Call) :
    ((empty first).after calls).Tells ((empty first).history calls) :=
  (tells_empty first).run calls

/-! ## Calls that change nothing -/

theorem lookup_eq_ok {r : Registry} {model method : String} {m : Method} :
    r.lookup model method = .ok m ↔ r.methods.get? (model, method) = some m := by
  unfold lookup method?
  split <;> rename_i h <;> simp [h]

theorem lookup_eq_error {r : Registry} {model method : String} :
    r.lookup model method = .error (.unknownMethod model method) ↔
      r.methods.get? (model, method) = none := by
  unfold lookup method?
  split <;> rename_i h <;> simp [h]

/-- A layer is refused after a bootstrap, under a signature that its method does not have,
and as the first one of a method under a signature of bad shape. -/
theorem declare_error_iff {r : Registry} {model method : String} {signature : Signature}
    {body : Body} :
    (∃ cause, (r.declare model method signature body).1 = .error cause) ↔
      r.frozen = true ∨ (∃ m, r.lookup model method = .ok m ∧ m.signature ≠ signature) ∨
        r.lookup model method = .error (.unknownMethod model method) ∧
          signature.checkShape ≠ .ok () := by
  rw [lookup_eq_error]
  simp only [lookup_eq_ok]
  cases hf : r.frozen with
  | true => rw [declare_frozen _ _ _ _ hf]; simp
  | false =>
    rw [declare, if_neg (by simp [hf])]
    dsimp only
    split
    · rename_i old hold
      have hold : r.methods.get? (model, method) = some old := hold
      by_cases hs : old.signature = signature <;> simp [hs, hold]
    · rename_i hnone
      have hnone : r.methods.get? (model, method) = none := hnone
      split <;> rename_i hshape <;> simp [hshape, hnone]

/-- A call that fails leaves the registry as it was. -/
theorem answer_error {r : Registry} {call : Call} {cause : Error}
    (h : (r.answer call).1 = .error cause) : (r.answer call).2 = r := by
  cases call with
  | bootstrap => cases h
  | reserve n => cases h
  | declare model method signature body =>
    obtain ⟨cause', hd⟩ | ⟨-, m, hm, hd, -⟩ := r.declare_cases model method signature body
    · simp only [answer, hd]
    · simp only [answer, hd] at h
      cases h

theorem answer_frozen {r : Registry} (h : r.frozen = true) (call : Call) :
    (r.answer call).2.frozen = true ∧ (r.answer call).2.methods = r.methods ∧
      (r.answer call).2.owners = r.owners := by
  cases call with
  | bootstrap => simp [answer, bootstrap]
  | reserve n => exact ⟨h, rfl, rfl⟩
  | declare model method signature body =>
    simp [answer, declare_frozen _ _ _ _ h, h]

theorem after_frozen {r : Registry} (h : r.frozen = true) (later : List Call) :
    (r.after later).frozen = true ∧ (r.after later).methods = r.methods ∧
      (r.after later).owners = r.owners := by
  induction later generalizing r with
  | nil => exact ⟨h, rfl, rfl⟩
  | cons call later ih =>
    obtain ⟨h1, h2, h3⟩ := answer_frozen h call
    obtain ⟨i1, i2, i3⟩ := ih h1
    exact ⟨i1, i2.trans h2, i3.trans h3⟩

theorem frozen_of_bootstrap {r : Registry} {calls : List Call} (h : .bootstrap ∈ calls) :
    (r.after calls).frozen = true := by
  obtain ⟨before, later, rfl⟩ := List.append_of_mem h
  rw [after_append]
  exact (after_frozen (r := ((r.after before).answer .bootstrap).2) rfl later).1

/-! ## The chain of a method -/

/-- The chain of a method in a registry is made of the layers that were declared for it. -/
structure Chains (r : Registry) (events : List Event) (model method : String) : Prop where
  /-- No layer is there twice. -/
  ids_nodup : ((declared events (model, method)).map Layer.id).Nodup
  /-- Without a layer there is no method. -/
  lookup_nil : declared events (model, method) = [] →
    r.lookup model method = .error (.unknownMethod model method)
  /-- The chain lists the layers, newest first, and they share a signature of good shape. -/
  lookup : declared events (model, method) ≠ [] → ∃ m, r.lookup model method = .ok m ∧
    m.chain = (declared events (model, method)).map Layer.id ∧ m.signature.checkShape = .ok () ∧
      ∀ {signature body id}, ⟨.declare model method signature body, .ok (.layer id)⟩ ∈ events →
        signature = m.signature
  /-- Below a layer is the one before it, and nothing below the first. -/
  next : ∀ {i l}, (declared events (model, method))[i]? = some l →
    r.resolveNext l.id = .ok (declared events (model, method))[i + 1]?
  owners : ∀ {id}, r.owners.get? id = some (model, method) ↔
    id ∈ (declared events (model, method)).map Layer.id

theorem Tells.next {r : Registry} {events : List Event} (h : r.Tells events)
    {key : String × String} {i : Nat} {l : Layer} (hl : (declared events key)[i]? = some l) :
    r.resolveNext l.id = .ok (declared events key)[i + 1]? := by
  have hmem := List.mem_of_getElem? hl
  have howner : r.owners.get? l.id = some key := h.owner.2 (List.mem_map_of_mem hmem)
  cases hm : r.methods.get? key with
  | none => rw [h.unknown hm] at hmem; cases hmem
  | some m =>
    rw [resolveNext, howner]
    simp only [hm, Option.bind_some, (h.method hm).holds.next?_eq hl]

theorem Tells.chains {r : Registry} {events : List Event} (h : r.Tells events)
    (model method : String) : r.Chains events model method := by
  refine ⟨?_, ?_, ?_, h.next, h.owner⟩
  · cases hm : r.methods.get? (model, method) with
    | none => rw [h.unknown hm]; exact List.nodup_nil
    | some m => exact (h.method hm).holds.ids_nodup
  · intro hnil
    rw [lookup_eq_error]
    cases hm : r.methods.get? (model, method) with
    | none => rfl
    | some m =>
      have htop := (h.method hm).holds.top_eq
      rw [hnil] at htop
      cases htop
  · intro hne
    cases hm : r.methods.get? (model, method) with
    | none => exact absurd (h.unknown hm) hne
    | some m =>
      obtain ⟨hholds, hshape, hsignature⟩ := h.method hm
      exact ⟨m, lookup_eq_ok.2 hm, hholds.chain_eq, hshape, hsignature⟩

/-- After any calls of a registry, every chain is made of the layers that were declared for
its method. A call that fails changes nothing, and after a bootstrap none changes a chain,
a link or an owner; what fails is a layer after a bootstrap, under another signature than
that of its method, or under one of bad shape. -/
theorem chain_declared (first : Nat) (calls : List Call) (model method : String) :
    ((empty first).after calls).Chains ((empty first).history calls) model method ∧
    (∀ signature body,
      (∃ cause, (((empty first).after calls).declare model method signature body).1 = .error cause) ↔
        ((empty first).after calls).frozen = true ∨
        (∃ m, ((empty first).after calls).lookup model method = .ok m ∧ m.signature ≠ signature) ∨
        ((empty first).after calls).lookup model method = .error (.unknownMethod model method) ∧
          signature.checkShape ≠ .ok ()) ∧
    (∀ call cause, (((empty first).after calls).answer call).1 = .error cause →
      (((empty first).after calls).answer call).2 = (empty first).after calls) ∧
    (.bootstrap ∈ calls → ∀ later,
      ((empty first).after (calls ++ later)).methods = ((empty first).after calls).methods ∧
        ((empty first).after (calls ++ later)).owners = ((empty first).after calls).owners) := by
  refine ⟨(tells_history first calls).chains model method, fun signature body => declare_error_iff,
    fun call cause => answer_error, ?_⟩
  intro hb later
  rw [after_append]
  exact (after_frozen (frozen_of_bootstrap hb) later).2

/-- Three layers are taken and three refused. -/
def partnerCalls : List Call := [
  .declareTyped "Partner" "touch" (fun _ _ => (return () : Program Body Unit)),
  .declare "Partner" "touch" (.method [.integer] .unit) (.ofRun fun _ _ _ => return .null),
  .declare "Partner" "size" (.method [] .integer) (.ofRun fun _ _ _ => return .integer 1),
  .declare "Invoice" "touch" ⟨[.integer], .unit⟩ (.ofRun fun _ _ _ => return .null),
  .declare "Partner" "touch" (.method [] .unit) (.ofRun fun _ rs _ => Program.callNext rs []),
  .bootstrap,
  .declare "Partner" "touch" (.method [] .unit) (.ofRun fun _ _ _ => return .null)]

theorem partner_chain :
    .bootstrap ∈ partnerCalls ∧
    declared ((empty 1).history partnerCalls) ("Partner", "touch") ≠ [] ∧
    (∃ m, ((empty 1).after partnerCalls).lookup "Partner" "touch" = .ok m ∧ m.chain = [⟨3⟩, ⟨1⟩] ∧
      m.signature = .method [] .unit) ∧
    (∃ l, ((empty 1).after partnerCalls).resolveNext ⟨3⟩ = .ok (some l) ∧ l.id = ⟨1⟩) ∧
    ((empty 1).after partnerCalls).resolveNext ⟨1⟩ = .ok none ∧
    ((empty 1).after (partnerCalls ++ partnerCalls)).owners =
      ((empty 1).after partnerCalls).owners := by
  obtain ⟨hchains, -, -, hfrozen⟩ := chain_declared 1 partnerCalls "Partner" "touch"
  have hboot : Call.bootstrap ∈ partnerCalls := by simp [partnerCalls]
  have hne : declared ((empty 1).history partnerCalls) ("Partner", "touch") ≠ [] := List.cons_ne_nil _ _
  obtain ⟨m, hm, hchain, -, hsignature⟩ := hchains.lookup hne
  refine ⟨hboot, hne, ⟨m, hm, hchain, ?_⟩, ?_, ?_, (hfrozen hboot partnerCalls).2⟩
  · exact (hsignature (List.mem_of_getElem? (i := 4) rfl)).symm
  · exact ⟨_, hchains.next (i := 0) rfl, rfl⟩
  · exact hchains.next (i := 1) rfl

end RecordModel.Registry
