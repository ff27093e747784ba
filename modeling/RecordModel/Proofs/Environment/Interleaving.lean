import Mathlib.Logic.Function.Basic
import RecordModel.Proofs.Environment.Operations

/-!
# Operations of several callers

Any number of callers use one environment at the same time. Its catalog and its registry
are locked one by one, so an operation is made of one or two sections, and those of
different callers come in any order:

* models are declared, one or many, in one section that holds the catalog;
* declaring a method checks its model in one section, which reads the catalog, and puts the
  layer into the registry in another;
* a bootstrap freezes the catalog and, while it still holds it, the registry.

A `Step` is one section of one caller. No section that needs the catalog starts while a
bootstrap holds it; a registration may.

Results:
* `Environment.perform_eq`: the sections of an operation, one right after the other, are
  the operation.
* `Environment.Sound.step`: the invariant, kept by every section.
* `Environment.run_consistent`: what holds after any sections of any callers.
-/
namespace RecordModel.Environment

/-! ## Operations and their sections -/

/-- A layer to be put on top of a method. -/
structure Registration where
  model : String
  method : String
  signature : Signature
  body : Body

inductive Operation where
  | declareModel (m : Model)
  | declareModels (d : Definition)
  | declareMethod (r : Registration)
  | bootstrap

/-- How far an operation is after a section; the number is that of a declared layer. -/
inductive Progress where
  | returned (result : Result (Option LayerId))
  /-- The model of a method is checked, and the layer is still to be registered. -/
  | checked (r : Registration)
  /-- The catalog is frozen and held, and the registry is still to be frozen. -/
  | holding

def Progress.isPaused : Progress → Bool
  | returned _ => false
  | checked _ => true
  | holding => true

/-- The outcome of a change, which leaves the environment as it is if it fails. -/
def settle {α : Type} (e : Environment) : Result (α × Environment) → Result α × Environment
  | .ok (a, e') => (.ok a, e')
  | .error cause => (.error cause, e)

/-- The first section of an operation. -/
def enter (e : Environment) : Operation → Progress × Environment
  | .declareModel m => (e.settle ((e.declareModel m).map (none, ·))).map .returned id
  | .declareModels d => (e.settle ((e.declareModels d).map (none, ·))).map .returned id
  | .declareMethod r =>
    match e.checkModel r.model with
    | .ok () => (.checked r, e)
    | .error cause => (.returned (.error cause), e)
  | .bootstrap =>
    if e.frozen then (.returned (.ok none), e)
    else
      match e.freezeCatalog with
      | .ok e' => (.holding, e')
      | .error cause => (.returned (.error cause), e)

/-- The second section of a method declaration. -/
def enroll (e : Environment) (r : Registration) : Result (Option LayerId) × Environment :=
  e.settle ((e.register r.model r.method r.signature r.body).map (Prod.map some id))

/-- All sections of an operation, one right after the other. -/
def perform (e : Environment) (op : Operation) : Result (Option LayerId) × Environment :=
  match e.enter op with
  | (.returned result, e') => (result, e')
  | (.checked r, e') => e'.enroll r
  | (.holding, e') => (.ok none, e'.freezeRegistry)

theorem perform_eq (e : Environment) (op : Operation) :
    e.perform op = e.settle (match op with
      | .declareModel m => (e.declareModel m).map (none, ·)
      | .declareModels d => (e.declareModels d).map (none, ·)
      | .declareMethod r =>
        (e.declareMethod r.model r.method r.signature r.body).map (Prod.map some id)
      | .bootstrap => e.bootstrap.map (none, ·)) := by
  cases op with
  | declareModel m => rfl
  | declareModels d => rfl
  | declareMethod r =>
    simp only [perform, enter, declareMethod]
    cases e.checkModel r.model <;> rfl
  | bootstrap =>
    rw [perform, enter, bootstrap]
    cases e.frozen with
    | true => rfl
    | false => cases e.freezeCatalog <;> rfl

/-! ## What a section can do -/

/-- What holds of a catalog's models and their names stays true. -/
structure Grows (c c' : Catalog) : Prop where
  wellFormed : c.WellFormed → c'.WellFormed
  has : ∀ {name}, c.has name = true → c'.has name = true

theorem enter_cases (e : Environment) (op : Operation) :
    (∃ result, e.enter op = (.returned result, e)) ∨
    (∃ c, e.frozen = false ∧ Grows e.catalog c ∧
      e.enter op = (.returned (.ok none), { e with catalog := c })) ∨
    (∃ r, e.catalog.has r.model = true ∧ e.enter op = (.checked r, e)) ∨
    e.frozen = false ∧ e.catalog.validate = .ok () ∧
      e.enter op = (.holding, { e with frozen := true }) := by
  cases op with
  | declareModel m =>
    rw [enter]
    cases h : e.declareModel m with
    | error cause => exact .inl ⟨_, rfl⟩
    | ok e' =>
      obtain ⟨hf, c, hc, rfl⟩ := declareModel_ok h
      exact .inr (.inl ⟨c, hf, ⟨fun hw => hw.declare hc, Catalog.has_of_declare hc⟩, rfl⟩)
  | declareModels d =>
    rw [enter]
    cases h : e.declareModels d with
    | error cause => exact .inl ⟨_, rfl⟩
    | ok e' =>
      obtain ⟨hf, c, hc, rfl⟩ := declareModels_ok h
      exact .inr (.inl ⟨c, hf, ⟨fun hw => hw.register hc, Catalog.has_of_register hc⟩, rfl⟩)
  | declareMethod r =>
    rw [enter]
    cases h : e.checkModel r.model with
    | error cause => exact .inl ⟨_, rfl⟩
    | ok u => exact .inr (.inr (.inl ⟨r, checkModel_ok h, rfl⟩))
  | bootstrap =>
    rw [enter]
    cases hf : e.frozen with
    | true => exact .inl ⟨_, rfl⟩
    | false =>
      cases h : e.freezeCatalog with
      | error cause => exact .inl ⟨_, rfl⟩
      | ok e' =>
        obtain ⟨hv, rfl⟩ := freezeCatalog_ok h
        exact .inr (.inr (.inr ⟨rfl, hv, rfl⟩))

theorem enroll_cases (e : Environment) (r : Registration) :
    (∃ cause, e.enroll r = (.error cause, e)) ∨
    e.registry.frozen = false ∧ ∃ id registry, e.enroll r = (.ok (some id), { e with registry }) ∧
      registry.frozen = false ∧
      ∀ {key m}, registry.methods.get? key = some m →
        key = (r.model, r.method) ∨ ∃ m, e.registry.methods.get? key = some m := by
  rw [enroll]
  cases h : e.register r.model r.method r.signature r.body with
  | error cause => exact .inl ⟨_, rfl⟩
  | ok result =>
    obtain ⟨id, e'⟩ := result
    obtain ⟨registry, hd, rfl⟩ := register_ok h
    right
    obtain ⟨cause, hd'⟩ | ⟨hf, m, hm, hd', -⟩ :=
      e.registry.declare_cases r.model r.method r.signature r.body
    · cases hd.symm.trans hd'
    · cases hd.symm.trans hd'
      refine ⟨hf, _, _, rfl, hf, ?_⟩
      intro key n hn
      rw [Registry.store, Dictionary.get?_insert] at hn
      split at hn
      · exact .inl ‹_›
      · exact .inr ⟨n, hn⟩

/-! ## Any number of callers -/

variable {ι : Type}

/-- An environment and its callers. -/
structure State (ι : Type) where
  environment : Environment
  /-- Who holds the catalog, in the middle of a bootstrap. -/
  holder : Option ι
  /-- What each caller has still to register. -/
  registering : ι → Option Registration

/-- A section that a caller has run. -/
structure Section (ι : Type) where
  caller : ι
  before : Environment
  progress : Progress
  after : Environment

namespace State

def initial (ι : Type) (first : Nat) : State ι := ⟨.empty first, none, fun _ => none⟩

/-- Layers of another registry use up the numbers before `n`. -/
def reserve (s : State ι) (n : Nat) : State ι :=
  { s with environment := { s.environment with registry := s.environment.registry.reserve n } }

variable [DecidableEq ι]

/-- A caller has run the first section of an operation. -/
def entered (s : State ι) (i : ι) : Progress × Environment → State ι
  | (.returned _, environment) => { s with environment }
  | (.checked r, environment) =>
    { s with environment, registering := Function.update s.registering i (some r) }
  | (.holding, environment) => { s with environment, holder := some i }

end State

variable [DecidableEq ι]

/-- One section of one caller. -/
inductive Step (s : State ι) : Section ι → State ι → Prop where
  /-- A caller that is between two operations begins one, if nobody holds the catalog. -/
  | enter {i : ι} (op : Operation) : s.registering i = none → s.holder = none →
    Step s ⟨i, s.environment, (s.environment.enter op).1, (s.environment.enter op).2⟩
      (s.entered i (s.environment.enter op))
  | enroll {i : ι} {r : Registration} : s.registering i = some r →
    Step s ⟨i, s.environment, .returned (s.environment.enroll r).1, (s.environment.enroll r).2⟩
      { s with
        environment := (s.environment.enroll r).2
        registering := Function.update s.registering i none }
  | freeze {i : ι} : s.holder = some i →
    Step s ⟨i, s.environment, .returned (.ok none), s.environment.freezeRegistry⟩
      { s with environment := s.environment.freezeRegistry, holder := none }

/-- What the callers have done, the newest section first. -/
inductive Run (s : State ι) : List (Section ι) → State ι → Prop where
  | refl : Run s [] s
  | step {history t sec u} : Run s history t → Step t sec u → Run s (sec :: history) u
  | reserve {history t} (n : Nat) : Run s history t → Run s history (t.reserve n)

/-- The sections of the operation that a caller has begun and not ended. -/
def unfinished (history : List (Section ι)) (i : ι) : List (Section ι) :=
  (history.filter fun sec => sec.caller = i).takeWhile fun sec => sec.progress.isPaused

theorem unfinished_self (sec : Section ι) (history : List (Section ι)) :
    unfinished (sec :: history) sec.caller =
      if sec.progress.isPaused then sec :: unfinished history sec.caller else [] := by
  simp [unfinished, List.takeWhile_cons]

theorem unfinished_of_ne {sec : Section ι} {i : ι} (h : sec.caller ≠ i) (history : List (Section ι)) :
    unfinished (sec :: history) i = unfinished history i := by
  simp [unfinished, h]

/-! ## The invariant -/

/-- What holds between any two sections. -/
structure Sound (s : State ι) : Prop where
  wellFormed : s.environment.catalog.WellFormed
  /-- A method belongs to a declared model, and so does a layer that is to be registered. -/
  known : ∀ {key m}, s.environment.registry.methods.get? key = some m →
    s.environment.catalog.has key.1 = true
  checked : ∀ i r, s.registering i = some r → s.environment.catalog.has r.model = true
  /-- The catalog is frozen before the registry, by who holds it. -/
  frozen_eq : s.environment.frozen = (s.environment.registry.frozen || s.holder.isSome)
  closed : s.environment.frozen = true → s.environment.catalog.Closed

omit [DecidableEq ι] in
theorem Sound.initial (first : Nat) : Sound (State.initial ι first) where
  wellFormed := .empty
  known h := by cases h
  checked i r h := by cases h
  frozen_eq := rfl
  closed h := by cases h

/-- What is still to be registered stays checked when one caller's part changes. -/
theorem Sound.checked_update {s : State ι} (h : Sound s) (i : ι) {next : Option Registration}
    (hnext : ∀ r, next = some r → s.environment.catalog.has r.model = true) :
    ∀ j r, Function.update s.registering i next j = some r →
      s.environment.catalog.has r.model = true :=
  (Function.forall_update_iff s.registering fun _ o =>
    ∀ r, o = some r → s.environment.catalog.has r.model = true).2 ⟨hnext, fun j _ => h.checked j⟩

theorem Sound.step {s t : State ι} {sec : Section ι} (h : Sound s) (hs : Step s sec t) : Sound t := by
  cases hs with
  | @enter i op hidle hfree =>
    obtain ⟨result, he⟩ | ⟨c, hf, hgrows, he⟩ | ⟨r, hr, he⟩ | ⟨hf, hv, he⟩ :=
      s.environment.enter_cases op <;> rw [he]
    · exact h
    · refine ⟨hgrows.wellFormed h.wellFormed, fun hm => hgrows.has (h.known hm),
        fun i r hr => hgrows.has (h.checked i r hr), h.frozen_eq, fun hc => ?_⟩
      exact absurd (hf.symm.trans hc) Bool.false_ne_true
    · refine ⟨h.wellFormed, h.known, h.checked_update i ?_, h.frozen_eq, h.closed⟩
      rintro _ ⟨⟩
      exact hr
    · refine ⟨h.wellFormed, h.known, h.checked, (Bool.or_true _).symm, fun _ => ?_⟩
      exact (Catalog.validate_iff_closed h.wellFormed.names_nodup).1 hv
  | @enroll i r hr =>
    have hchecked := h.checked_update i (fun r' hr' => nomatch (hr' : none = some r'))
    obtain ⟨cause, he⟩ | ⟨hf, id, registry, he, hf', hmethods⟩ := s.environment.enroll_cases r <;>
      rw [he]
    · exact ⟨h.wellFormed, h.known, hchecked, h.frozen_eq, h.closed⟩
    · refine ⟨h.wellFormed, ?_, hchecked, ?_, h.closed⟩
      · intro key m hm
        obtain rfl | ⟨m, hm⟩ := hmethods hm
        · exact h.checked i r hr
        · exact h.known hm
      · show s.environment.frozen = (registry.frozen || s.holder.isSome)
        rw [h.frozen_eq, hf, hf']
  | @freeze i hi =>
    refine ⟨h.wellFormed, h.known, h.checked, ?_, h.closed⟩
    show s.environment.frozen = true
    rw [h.frozen_eq, hi]
    exact Bool.or_true _

/-- After any sections the invariant holds. -/
theorem Sound.run {s t : State ι} {history : List (Section ι)} (h : Sound s) (hr : Run s history t) :
    Sound t := by
  induction hr with
  | refl => exact h
  | step _ hs ih => exact ih.step hs
  | reserve n _ ih => exact ⟨ih.wellFormed, ih.known, ih.checked, ih.frozen_eq, ih.closed⟩

/-! ## After a bootstrap -/

/-- Both parts of an environment are frozen, as they are in another one. -/
structure FrozenAs (e e' : Environment) : Prop where
  frozen : e'.frozen = true
  registry_frozen : e'.registry.frozen = true
  catalog_eq : e'.catalog = e.catalog
  methods_eq : e'.registry.methods = e.registry.methods
  owners_eq : e'.registry.owners = e.registry.owners

theorem FrozenAs.step {e : Environment} {s t : State ι} {sec : Section ι}
    (h : FrozenAs e s.environment) (hs : Step s sec t) : FrozenAs e t.environment := by
  have hopen : ¬ s.environment.frozen = false := by simp [h.frozen]
  cases hs with
  | @enter i op hidle hfree =>
    obtain ⟨result, he⟩ | ⟨c, hf, -, -⟩ | ⟨r, hr, he⟩ | ⟨hf, -, -⟩ := s.environment.enter_cases op
    · rw [he]; exact h
    · exact absurd hf hopen
    · rw [he]; exact h
    · exact absurd hf hopen
  | @enroll i r hr =>
    obtain ⟨cause, he⟩ | ⟨hf, -⟩ := s.environment.enroll_cases r
    · rw [he]; exact h
    · exact absurd (hf.symm.trans h.registry_frozen) Bool.false_ne_true
  | @freeze i hi => exact ⟨h.frozen, rfl, h.catalog_eq, h.methods_eq, h.owners_eq⟩

theorem FrozenAs.run {e : Environment} {s t : State ι} {history : List (Section ι)}
    (h : FrozenAs e s.environment) (hr : Run s history t) : FrozenAs e t.environment := by
  induction hr with
  | refl => exact h
  | step _ hs ih => exact ih.step hs
  | reserve n _ ih =>
    exact ⟨ih.frozen, ih.registry_frozen, ih.catalog_eq, ih.methods_eq, ih.owners_eq⟩

/-! ## Operations that fail -/

/-- A section that ends no operation begins one. Either it has frozen the catalog and holds it
from then on, or it has changed nothing, and a layer is to be registered. -/
theorem Step.paused {s t : State ι} {sec : Section ι} (hs : Step s sec t)
    (hp : sec.progress.isPaused = true) :
    s.registering sec.caller = none ∧ s.holder = none ∧
      (t.holder = some sec.caller ∧ t.registering sec.caller = none ∨
        (∃ r, t.registering sec.caller = some r) ∧ sec.after = sec.before) := by
  cases hs with
  | @enter i op hidle hfree =>
    refine ⟨hidle, hfree, ?_⟩
    obtain ⟨result, he⟩ | ⟨c, hf, -, he⟩ | ⟨r, hr, he⟩ | ⟨hf, -, he⟩ :=
      s.environment.enter_cases op <;> rw [he] at hp ⊢
    · cases hp
    · cases hp
    · exact .inr ⟨⟨r, Function.update_self ..⟩, rfl⟩
    · exact .inl ⟨rfl, hidle⟩
  | enroll => cases hp
  | freeze => cases hp

/-- A section that ends an operation with an error has changed nothing; it is the only one, or
the one that registers a layer. -/
theorem Step.error {s t : State ι} {sec : Section ι} (hs : Step s sec t) {cause : Error}
    (he : sec.progress = .returned (.error cause)) :
    sec.after = sec.before ∧ (s.registering sec.caller = none ∧ s.holder = none ∨
      ∃ r, s.registering sec.caller = some r) := by
  cases hs with
  | @enter i op hidle hfree =>
    refine ⟨?_, .inl ⟨hidle, hfree⟩⟩
    obtain ⟨result, h⟩ | ⟨c, -, -, h⟩ | ⟨r, -, h⟩ | ⟨-, -, h⟩ := s.environment.enter_cases op <;>
      rw [h] at he ⊢ <;> cases he
  | @enroll i r hr =>
    refine ⟨?_, .inr ⟨r, hr⟩⟩
    obtain ⟨cause', h⟩ | ⟨-, id, registry, h, -⟩ := s.environment.enroll_cases r <;>
      rw [h] at he ⊢
    cases he
  | freeze => cases he

/-- A section leaves the other callers where they are. -/
theorem Step.other {s t : State ι} {sec : Section ι} (hs : Step s sec t) {j : ι}
    (hj : sec.caller ≠ j) :
    t.registering j = s.registering j ∧ (t.holder = some j ↔ s.holder = some j) := by
  cases hs with
  | @enter i op hidle hfree =>
    have hij : i ≠ j := hj
    obtain ⟨result, he⟩ | ⟨c, -, -, he⟩ | ⟨r, -, he⟩ | ⟨-, -, he⟩ :=
      s.environment.enter_cases op <;> rw [he]
    · exact ⟨rfl, .rfl⟩
    · exact ⟨rfl, .rfl⟩
    · exact ⟨Function.update_of_ne hij.symm .., .rfl⟩
    · exact ⟨rfl, by simp [State.entered, hfree, hij]⟩
  | enroll => exact ⟨Function.update_of_ne hj.symm .., .rfl⟩
  | @freeze i hi =>
    have hij : i ≠ j := hj
    exact ⟨rfl, by simp [hi, hij]⟩

/-- Where a caller stands: if it is idle there is no section of an unfinished operation, and if
it is to register a layer those that there are have changed nothing. -/
structure Begun (s : State ι) (history : List (Section ι)) (i : ι) : Prop where
  idle : s.registering i = none → s.holder ≠ some i → unfinished history i = []
  checked : ∀ {r}, s.registering i = some r → ∀ sec ∈ unfinished history i, sec.after = sec.before

theorem Begun.of_nil {s : State ι} {history : List (Section ι)} {i : ι}
    (h : unfinished history i = []) : Begun s history i :=
  ⟨fun _ _ => h, fun _ => by simp [h]⟩

theorem Begun.step {s t : State ι} {sec : Section ι} {history : List (Section ι)}
    (h : ∀ i, Begun s history i) (hs : Step s sec t) (i : ι) : Begun t (sec :: history) i := by
  by_cases hi : sec.caller = i
  · subst hi
    by_cases hp : sec.progress.isPaused = true
    · obtain ⟨hidle, hfree, hcase⟩ := hs.paused hp
      have hself : unfinished (sec :: history) sec.caller = [sec] := by
        rw [unfinished_self, if_pos hp, (h sec.caller).idle hidle (by simp [hfree])]
      obtain ⟨hholder, hnone⟩ | ⟨⟨r, hr⟩, hsame⟩ := hcase
      · exact ⟨fun _ hn => absurd hholder hn, fun hr => by simp [hnone] at hr⟩
      · exact ⟨fun hn => by simp [hr] at hn, fun _ => by simpa [hself] using hsame⟩
    · exact .of_nil (by rw [unfinished_self, if_neg hp])
  · obtain ⟨hregistering, hholder⟩ := hs.other hi
    obtain ⟨hidle, hchecked⟩ := h i
    refine ⟨?_, ?_⟩ <;> rw [unfinished_of_ne hi, hregistering]
    · exact fun hn hne => hidle hn (fun he => hne (hholder.2 he))
    · exact hchecked

theorem Begun.run {s t : State ι} {history : List (Section ι)} (hs : ∀ i, Begun s [] i)
    (hr : Run s history t) : ∀ i, Begun t history i := by
  induction hr with
  | refl => exact hs
  | step _ hs ih => exact Begun.step ih hs
  | reserve n _ ih => exact fun i => ⟨(ih i).idle, (ih i).checked⟩

/-- Wherever in a run an operation ends with an error, it has changed nothing by then. -/
theorem Run.error {s t : State ι} {history newer earlier : List (Section ι)} {last : Section ι}
    {cause : Error} (hs : ∀ i, Begun s [] i) (hr : Run s history t)
    (hhistory : history = newer ++ last :: earlier)
    (hcause : last.progress = .returned (.error cause)) :
    last.after = last.before ∧ ∀ sec ∈ unfinished earlier last.caller, sec.after = sec.before := by
  induction hr generalizing newer with
  | refl => simp at hhistory
  | reserve n _ ih => exact ih hhistory
  | step hrun hstep ih =>
    cases newer with
    | cons sec newer =>
      cases hhistory
      exact ih rfl
    | nil =>
      cases hhistory
      obtain ⟨hidle, hchecked⟩ := Begun.run hs hrun last.caller
      obtain ⟨hsame, ⟨hnone, hfree⟩ | ⟨r, hr⟩⟩ := hstep.error hcause
      · exact ⟨hsame, by simp [hidle hnone (by simp [hfree])]⟩
      · exact ⟨hsame, hchecked hr⟩

/-! ## Any sections of any callers -/

/-- Whatever the callers of an environment have done so far, its methods belong to declared
models. Both parts are frozen or none is, unless a bootstrap holds the catalog. Once both are
frozen, every relation has its target, and no section changes a model, a chain or an owner. An
operation that ends with an error has changed nothing in any of its sections. -/
theorem run_consistent {first : Nat} {history : List (Section ι)} {s : State ι}
    (hr : Run (.initial ι first) history s) :
    (∀ model method, s.environment.registry.has model method = true →
      s.environment.catalog.has model = true) ∧
    (s.holder = none → s.environment.frozen = s.environment.registry.frozen) ∧
    (s.environment.frozen = true → s.environment.registry.frozen = true →
      s.environment.catalog.Closed ∧
        ∀ {later t}, Run s later t → FrozenAs s.environment t.environment) ∧
    ∀ newer last earlier cause, history = newer ++ last :: earlier →
      last.progress = .returned (.error cause) →
      last.after = last.before ∧ ∀ sec ∈ unfinished earlier last.caller, sec.after = sec.before := by
  have hsound := (Sound.initial first).run hr
  refine ⟨?_, ?_, ?_, fun _ _ _ _ => hr.error fun i => .of_nil rfl⟩
  · intro model method hm
    obtain ⟨m, hm⟩ := Option.isSome_iff_exists.1 hm
    exact hsound.known hm
  · intro hfree
    rw [hsound.frozen_eq, hfree, Option.isSome_none, Bool.or_false]
  · intro hf hf'
    exact ⟨hsound.closed hf, fun hlater => FrozenAs.run ⟨hf, hf', rfl, rfl, rfl⟩ hlater⟩

def touch (method : String) : Registration :=
  ⟨"Partner", method, .method [] .unit, .ofRun fun _ _ _ => .done (.ok .null)⟩

/-- Partners are declared, and two of their methods are checked by different callers. -/
def checkedTwice : State Nat where
  environment := ⟨⟨[.new "Partner"]⟩, false, .empty 1⟩
  holder := none
  registering := Function.update (Function.update (fun _ => none) 0 (some (touch "touch"))) 1
    (some (touch "size"))

/-- Of two layers that were checked before a bootstrap one is taken in the middle of it. The
other one is refused after it, and that has changed nothing. -/
theorem late_layer_refused : ∃ history s, Run (.initial Nat 1) history s ∧ s.holder = none ∧
    s.environment.frozen = s.environment.registry.frozen ∧ s.environment.catalog.Closed ∧
    s.environment.registry.has "Partner" "touch" = true ∧
    s.environment.catalog.has "Partner" = true ∧
    ∃ last earlier cause, history = last :: earlier ∧ last.progress = .returned (.error cause) ∧
      (unfinished earlier last.caller).length = 1 ∧
      ∀ sec ∈ unfinished earlier last.caller, sec.after = sec.before := by
  have hclosed : checkedTwice.environment.catalog.Closed := by unfold Catalog.Closed; decide
  have hboot : checkedTwice.environment.enter .bootstrap =
      (.holding, { checkedTwice.environment with frozen := true }) := by
    rw [enter, if_neg (by decide), freezeCatalog,
      (Catalog.validate_iff_closed (by decide)).2 hclosed]
    rfl
  have hr : Run (.initial Nat 1) _ checkedTwice := (((Run.refl).step
    (.enter (i := 0) (.declareModel (.new "Partner")) rfl rfl)).step
    (.enter (i := 0) (.declareMethod (touch "touch")) rfl rfl)).step
    (.enter (i := 1) (.declareMethod (touch "size")) rfl rfl)
  have hr := hr.step (.enter (i := 2) .bootstrap rfl rfl)
  rw [hboot] at hr
  have hr := ((hr.step (.enroll (i := 0) (r := touch "touch") rfl)).step
    (.freeze (i := 2) rfl)).step (.enroll (i := 1) (r := touch "size") rfl)
  obtain ⟨hknown, hflags, hfrozen, herror⟩ := run_consistent hr
  exact ⟨_, _, hr, rfl, hflags rfl, (hfrozen rfl rfl).1, rfl, hknown "Partner" "touch" rfl,
    _, _, _, rfl, rfl, rfl, (herror [] _ _ _ rfl rfl).2⟩

end RecordModel.Environment
