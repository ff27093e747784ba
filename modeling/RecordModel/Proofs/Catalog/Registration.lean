import RecordModel.Proofs.Catalog.Key

/-!
# Registering definitions

A definition is registered in two stages: its models are put together, with the relation targets
checked against the whole definition and the catalog, and then declared one by one into the
growing catalog. What both stages ask for together (`Definition.Fits`) does not mention the order
of the models any more, and neither does the result: the models that the definition describes
stand behind those of the catalog.

Results:
* `ModelDefinition.model_eq_ok`, `Catalog.declareAll_eq_ok`: when each stage goes well, and what it
  gives.
* `Definition.register_eq_ok`: a definition is registered exactly if it fits the catalog.
* `Definition.Fits.closed`: a definition that fits leaves every relation with a declared target.
* `Definition.Fits.perm`: the order of the models plays no part in whether they fit.
-/
namespace RecordModel

/-! ## Fields -/

/-- Fields with new names go to the end. -/
theorem foldl_withField {m : Model} {fs : List Field}
    (hnodup : (fs.map Field.name).Nodup) (hnew : ∀ f ∈ fs, f.name ∉ m.fields.map Field.name) :
    fs.foldl Model.withField m = { m with fields := m.fields ++ fs } := by
  induction fs generalizing m with
  | nil => simp
  | cons f fs ih =>
    rw [List.map_cons, List.nodup_cons] at hnodup
    have hput : m.withField f = { m with fields := m.fields ++ [f] } := by
      rw [Model.withField, Model.putField_of_fresh]
      intro g hg he
      exact hnew f (by simp) (he ▸ List.mem_map_of_mem hg)
    rw [List.foldl_cons, hput, ih hnodup.2]
    · simp
    · intro g hg hmem
      rw [List.map_append, List.mem_append] at hmem
      rcases hmem with hmem | hmem
      · exact hnew g (by simp [hg]) hmem
      · rw [List.map_singleton, List.mem_singleton] at hmem
        exact hnodup.1 (hmem ▸ List.mem_map_of_mem hg)

/-- What the fields of a definition have to fulfil, if relations may point at the models that
`isKnown` tells. -/
structure FieldDefinition.Sound (isKnown : String → Bool) (ds : List FieldDefinition) : Prop where
  names_nodup : (ds.map FieldDefinition.name).Nodup
  not_key : ∀ d ∈ ds, d.name ≠ idField
  targets : ∀ d ∈ ds, ∀ target, d.field.target? = some target → isKnown target = true

theorem FieldDefinition.sound_cons {isKnown : String → Bool} {d : FieldDefinition}
    {ds : List FieldDefinition} :
    Sound isKnown (d :: ds) ↔
      d.name ∉ ds.map FieldDefinition.name ∧ d.name ≠ idField ∧
        (∀ target, d.field.target? = some target → isKnown target = true) ∧ Sound isKnown ds := by
  constructor
  · rintro ⟨hnames, hkey, htargets⟩
    rw [List.map_cons, List.nodup_cons] at hnames
    exact ⟨hnames.1, hkey d (by simp), htargets d (by simp), hnames.2,
      fun e he => hkey e (by simp [he]), fun e he => htargets e (by simp [he])⟩
  · rintro ⟨hname, hid, htarget, hnames, hkey, htargets⟩
    exact ⟨List.nodup_cons.2 ⟨hname, hnames⟩, List.forall_mem_cons.2 ⟨hid, hkey⟩,
      List.forall_mem_cons.2 ⟨htarget, htargets⟩⟩

theorem addFields_cons_eq_ok {isKnown : String → Bool} {seen : List String} {m m' : Model}
    {d : FieldDefinition} {ds : List FieldDefinition} :
    addFields isKnown seen m (d :: ds) = .ok m' ↔
      d.name ∉ seen ∧ d.name ≠ idField ∧
        (∀ target, d.field.target? = some target → isKnown target = true) ∧
          addFields isKnown (d.name :: seen) (m.withField d.field) ds = .ok m' := by
  rw [addFields]
  by_cases hseen : d.name ∈ seen
  · simp [hseen]
  rw [if_neg hseen]
  by_cases hid : d.name = idField
  · simp [hid]
  rw [if_neg hid]
  cases htarget : d.field.target? with
  | none => simp [hseen, hid]
  | some target => cases hknown : isKnown target <;> simp [hseen, hid, hknown]

theorem addFields_eq_ok {isKnown : String → Bool} {seen : List String} {m m' : Model}
    {ds : List FieldDefinition} :
    addFields isKnown seen m ds = .ok m' ↔
      FieldDefinition.Sound isKnown ds ∧ (∀ d ∈ ds, d.name ∉ seen) ∧
        m' = (ds.map FieldDefinition.field).foldl Model.withField m := by
  induction ds generalizing seen m with
  | nil =>
    have hsound : FieldDefinition.Sound isKnown [] := ⟨List.nodup_nil, by simp, by simp⟩
    simp [addFields, hsound, eq_comm]
  | cons d ds ih =>
    rw [addFields_cons_eq_ok, ih, FieldDefinition.sound_cons]
    rw [List.forall_mem_cons, List.map_cons, List.foldl_cons]
    constructor
    · rintro ⟨hseen, hid, htarget, hsound, hfresh, rfl⟩
      have hrest : ∀ e ∈ ds, e.name ≠ d.name ∧ e.name ∉ seen := fun e he => by
        simpa using hfresh e he
      refine ⟨⟨?_, hid, htarget, hsound⟩, ⟨hseen, fun e he => (hrest e he).2⟩, rfl⟩
      intro hmem
      obtain ⟨e, he, hname⟩ := List.mem_map.1 hmem
      exact (hrest e he).1 hname
    · rintro ⟨⟨hname, hid, htarget, hsound⟩, ⟨hseen, hfresh⟩, rfl⟩
      refine ⟨hseen, hid, htarget, hsound, fun e he => ?_, rfl⟩
      rw [List.mem_cons, not_or]
      exact ⟨fun heq => hname (heq ▸ List.mem_map_of_mem he), hfresh e he⟩

/-! ## Models -/

/-- The model that a definition describes: the key, and behind it the fields as they are
written. -/
def ModelDefinition.described (d : ModelDefinition) : Model :=
  ⟨d.name, d.table.getD (snakeCase d.name), Field.id :: d.fields.map FieldDefinition.field⟩

theorem map_field_name (ds : List FieldDefinition) :
    (ds.map FieldDefinition.field).map Field.name = ds.map FieldDefinition.name := by
  rw [List.map_map]
  exact List.map_congr_left fun d _ => d.field_name

theorem ModelDefinition.model_eq_ok {isKnown : String → Bool} {d : ModelDefinition} {m : Model} :
    d.model isKnown = .ok m ↔ FieldDefinition.Sound isKnown d.fields ∧ d.described = m := by
  unfold ModelDefinition.model
  dsimp only
  rw [addFields_eq_ok]
  have hdescribed (hsound : FieldDefinition.Sound isKnown d.fields) :
      (d.fields.map FieldDefinition.field).foldl Model.withField
        ((Model.new d.name).withTable (d.table.getD (Model.new d.name).table)) = d.described := by
    rw [foldl_withField]
    · rfl
    · rw [map_field_name]
      exact hsound.names_nodup
    · intro f hf hmem
      obtain ⟨e, he, rfl⟩ := List.mem_map.1 hf
      rw [e.field_name] at hmem
      exact hsound.not_key e he (List.mem_singleton.1 hmem)
  constructor
  · rintro ⟨hsound, -, rfl⟩
    exact ⟨hsound, (hdescribed hsound).symm⟩
  · rintro ⟨hsound, rfl⟩
    exact ⟨hsound, by simp, (hdescribed hsound).symm⟩

theorem mapM_eq_ok_iff {α β : Type} {f : α → Result β} {g : α → β} {P : α → Prop} {xs : List α}
    {ys : List β} (h : ∀ x y, f x = .ok y ↔ P x ∧ g x = y) :
    xs.mapM f = .ok ys ↔ (∀ x ∈ xs, P x) ∧ xs.map g = ys := by
  constructor
  · intro hrun
    have hall : ∀ x ∈ xs, P x := by
      induction xs generalizing ys with
      | nil => simp
      | cons x xs ih =>
        rw [List.mapM_cons] at hrun
        obtain ⟨y, hy, hrun⟩ := bind_eq_ok.1 hrun
        obtain ⟨rest, hrest, -⟩ := bind_eq_ok.1 hrun
        exact List.forall_mem_cons.2 ⟨((h x y).1 hy).1, ih hrest⟩
    have hmap := mapM_eq_ok fun x hx => (h x (g x)).2 ⟨hall x hx, rfl⟩
    rw [hmap] at hrun
    exact ⟨hall, Except.ok.inj hrun⟩
  · rintro ⟨hall, rfl⟩
    exact mapM_eq_ok fun x hx => (h x (g x)).2 ⟨hall x hx, rfl⟩

/-! ## Definitions -/

namespace Definition

/-- The models that a relation of the definition may point at. -/
def knows (d : Definition) (c : Catalog) (name : String) : Bool :=
  decide (name ∈ d.models.map ModelDefinition.name) || c.has name

/-- The models that a definition describes, in order. -/
def described (d : Definition) : List Model := d.models.map ModelDefinition.described

theorem repeated?_eq_none {seen names : List String} :
    repeated? seen names = none ↔ names.Nodup ∧ ∀ name ∈ names, name ∉ seen := by
  induction names generalizing seen with
  | nil => simp [repeated?]
  | cons name names ih =>
    rw [repeated?]
    split
    · rename_i hseen
      simp [hseen]
    · rename_i hseen
      rw [ih, List.nodup_cons, List.forall_mem_cons]
      constructor
      · rintro ⟨hnodup, hnew⟩
        have hnew : ∀ n ∈ names, n ≠ name ∧ n ∉ seen := fun n hn => by simpa using hnew n hn
        exact ⟨⟨fun hmem => (hnew name hmem).1 rfl, hnodup⟩, hseen, fun n hn => (hnew n hn).2⟩
      · rintro ⟨⟨hmem, hnodup⟩, -, hnew⟩
        refine ⟨hnodup, fun n hn => ?_⟩
        rw [List.mem_cons, not_or]
        exact ⟨fun heq => hmem (heq ▸ hn), hnew n hn⟩

theorem build_eq_ok {d : Definition} {c : Catalog} {models : List Model} :
    d.build c = .ok models ↔ (d.models.map ModelDefinition.name).Nodup ∧
      (∀ m ∈ d.models, FieldDefinition.Sound (d.knows c) m.fields) ∧ d.described = models := by
  have hrun : d.models.mapM (ModelDefinition.model (d.knows c)) = .ok models ↔
      (∀ m ∈ d.models, FieldDefinition.Sound (d.knows c) m.fields) ∧ d.described = models :=
    mapM_eq_ok_iff fun m model => m.model_eq_ok
  unfold build
  dsimp only
  split
  · rename_i name hname
    constructor
    · intro h; cases h
    · rintro ⟨hnodup, -⟩
      rw [repeated?_eq_none.2 ⟨hnodup, by simp⟩] at hname
      cases hname
  · rename_i hnone
    have hnodup := (repeated?_eq_none.1 hnone).1
    exact ⟨fun h => ⟨hnodup, hrun.1 h⟩, fun h => hrun.2 h.2⟩

end Definition

namespace Catalog

/-- No two of the models `ms` share a key, and none has one that an old model has. -/
structure Fresh (key : Model → String) (old ms : List Model) : Prop where
  nodup : (ms.map key).Nodup
  new : ∀ m ∈ ms, key m ∉ old.map key

section Fresh

variable {key : Model → String} {old ms : List Model}

theorem fresh_nil : Fresh key old [] := ⟨List.nodup_nil, by simp⟩

/-- The first of the models counts as an old one for those behind it. -/
theorem fresh_cons {m : Model} :
    Fresh key old (m :: ms) ↔ key m ∉ old.map key ∧ Fresh key (old ++ [m]) ms := by
  constructor
  · rintro ⟨hnodup, hnew⟩
    rw [List.map_cons, List.nodup_cons] at hnodup
    rw [List.forall_mem_cons] at hnew
    refine ⟨hnew.1, hnodup.2, fun o ho hmem => ?_⟩
    rw [List.map_append, List.mem_append, List.map_singleton, List.mem_singleton] at hmem
    rcases hmem with hmem | hmem
    · exact hnew.2 o ho hmem
    · exact hnodup.1 (hmem ▸ List.mem_map_of_mem ho)
  · rintro ⟨hm, hnodup, hnew⟩
    have hrest : ∀ o ∈ ms, key o ∉ old.map key ∧ key o ≠ key m := fun o ho => by
      have ho := hnew o ho
      rwa [List.map_append, List.mem_append, List.map_singleton, List.mem_singleton, not_or] at ho
    refine ⟨List.nodup_cons.2 ⟨fun hmem => ?_, hnodup⟩,
      List.forall_mem_cons.2 ⟨hm, fun o ho => (hrest o ho).1⟩⟩
    obtain ⟨o, ho, he⟩ := List.mem_map.1 hmem
    exact (hrest o ho).2 he

theorem Fresh.nodup_append (h : Fresh key old ms) (hold : (old.map key).Nodup) :
    ((old ++ ms).map key).Nodup := by
  rw [List.map_append, List.nodup_append']
  refine ⟨hold, h.nodup, fun k hk hmem => ?_⟩
  obtain ⟨m, hm, rfl⟩ := List.mem_map.1 hmem
  exact h.new m hm hk

theorem Fresh.perm (h : Fresh key old ms) {ns : List Model} (hperm : ns.Perm ms) :
    Fresh key old ns :=
  ⟨(hperm.map key).nodup_iff.2 h.nodup, fun m hm => h.new m (hperm.mem_iff.1 hm)⟩

end Fresh

/-- What models have to fulfil to be declared one after the other. -/
structure Admits (c : Catalog) (ms : List Model) : Prop where
  checked : ∀ m ∈ ms, m.check = .ok ()
  names : Fresh Model.name c.models ms
  tables : Fresh Model.table c.models ms

theorem declare_eq_ok {c c' : Catalog} {m : Model} :
    c.declare m = .ok c' ↔ m.check = .ok () ∧ m.name ∉ c.models.map Model.name ∧
      m.table ∉ c.models.map Model.table ∧ c' = ⟨c.models ++ [m]⟩ := by
  constructor
  · intro h
    obtain ⟨hcheck, hname, htable, hmodels⟩ := declare_ok h
    refine ⟨hcheck, fun hmem => ?_, fun hmem => ?_, by cases c'; cases hmodels; rfl⟩
    · rw [has_iff.2 hmem] at hname
      cases hname
    · obtain ⟨o, ho, he⟩ := List.mem_map.1 hmem
      exact htable o ho he
  · rintro ⟨hcheck, hname, htable, rfl⟩
    have hnew : c.has m.name = false := by rwa [← Bool.not_eq_true, has_iff]
    have howner : c.owner? m.table = none := by
      refine List.find?_eq_none.2 fun o ho he => htable ?_
      exact List.mem_map.2 ⟨o, ho, by simpa using he⟩
    simp [declare, hcheck, hnew, howner]

theorem admits_nil {c : Catalog} : c.Admits [] := ⟨by simp, fresh_nil, fresh_nil⟩

theorem admits_cons {c : Catalog} {m : Model} {ms : List Model} :
    c.Admits (m :: ms) ↔ (m.check = .ok () ∧ m.name ∉ c.models.map Model.name ∧
      m.table ∉ c.models.map Model.table) ∧ (Catalog.mk (c.models ++ [m])).Admits ms := by
  constructor
  · rintro ⟨hchecked, hnames, htables⟩
    rw [List.forall_mem_cons] at hchecked
    obtain ⟨hname, hnames⟩ := fresh_cons.1 hnames
    obtain ⟨htable, htables⟩ := fresh_cons.1 htables
    exact ⟨⟨hchecked.1, hname, htable⟩, hchecked.2, hnames, htables⟩
  · rintro ⟨⟨hcheck, hname, htable⟩, hchecked, hnames, htables⟩
    exact ⟨List.forall_mem_cons.2 ⟨hcheck, hchecked⟩, fresh_cons.2 ⟨hname, hnames⟩,
      fresh_cons.2 ⟨htable, htables⟩⟩

theorem declareAll_eq_ok {ms : List Model} {c c' : Catalog} :
    ms.foldlM Catalog.declare c = .ok c' ↔ c.Admits ms ∧ c' = ⟨c.models ++ ms⟩ := by
  induction ms generalizing c with
  | nil =>
    simp only [admits_nil, true_and, List.append_nil]
    exact ⟨fun h => (Except.ok.inj h).symm, fun h => congrArg Except.ok h.symm⟩
  | cons m ms ih =>
    rw [List.foldlM_cons, bind_eq_ok, admits_cons]
    constructor
    · rintro ⟨c1, hm, hrun⟩
      obtain ⟨hcheck, hname, htable, rfl⟩ := declare_eq_ok.1 hm
      obtain ⟨hadmits, rfl⟩ := ih.1 hrun
      exact ⟨⟨⟨hcheck, hname, htable⟩, hadmits⟩, by simp⟩
    · rintro ⟨⟨⟨hcheck, hname, htable⟩, hadmits⟩, rfl⟩
      exact ⟨_, declare_eq_ok.2 ⟨hcheck, hname, htable, rfl⟩, ih.2 ⟨hadmits, by simp⟩⟩

theorem Admits.perm {c : Catalog} {ms ns : List Model} (h : c.Admits ms) (hperm : ns.Perm ms) :
    c.Admits ns :=
  ⟨fun m hm => h.checked m (hperm.mem_iff.1 hm), h.names.perm hperm, h.tables.perm hperm⟩

end Catalog

/-! ## Registering -/

namespace Definition

/-- What a definition has to fulfil to be registered in a catalog: its fields are sound, and the
catalog admits the models that it describes. -/
structure Fits (d : Definition) (c : Catalog) : Prop where
  sound : ∀ m ∈ d.models, FieldDefinition.Sound (d.knows c) m.fields
  admits : c.Admits d.described

theorem map_described_name (d : Definition) :
    d.described.map Model.name = d.models.map ModelDefinition.name := by
  rw [described, List.map_map]
  rfl

theorem register_eq_ok {d : Definition} {c c' : Catalog} :
    d.register c = .ok c' ↔ d.Fits c ∧ c' = ⟨c.models ++ d.described⟩ := by
  rw [register, bind_eq_ok]
  constructor
  · rintro ⟨models, hbuild, hdeclare⟩
    obtain ⟨-, hsound, rfl⟩ := build_eq_ok.1 hbuild
    obtain ⟨hadmits, hc'⟩ := Catalog.declareAll_eq_ok.1 hdeclare
    exact ⟨⟨hsound, hadmits⟩, hc'⟩
  · rintro ⟨hfits, hc'⟩
    have hnodup : (d.models.map ModelDefinition.name).Nodup :=
      d.map_described_name ▸ hfits.admits.names.nodup
    exact ⟨d.described, build_eq_ok.2 ⟨hnodup, hfits.sound, rfl⟩,
      Catalog.declareAll_eq_ok.2 ⟨hfits.admits, hc'⟩⟩

/-- A relation may point at what the catalog holds once the definition is registered. -/
theorem knows_iff {d : Definition} {c : Catalog} {name : String} :
    d.knows c name = true ↔ Catalog.has ⟨c.models ++ d.described⟩ name = true := by
  rw [knows, Bool.or_eq_true, decide_eq_true_iff, Catalog.has_iff, Catalog.has_iff,
    List.map_append, List.mem_append, map_described_name]
  exact or_comm

/-- The key points nowhere, so that the targets of a model are those of its written fields. -/
theorem mem_described_targets {m : ModelDefinition} {target : String} :
    target ∈ m.described.targets ↔ ∃ d ∈ m.fields, d.field.target? = some target := by
  rw [Catalog.mem_targets]
  constructor
  · rintro ⟨f, hf, ht⟩
    rcases List.mem_cons.1 hf with rfl | hf
    · cases ht
    · obtain ⟨d, hd, rfl⟩ := List.mem_map.1 hf
      exact ⟨d, hd, ht⟩
  · rintro ⟨d, hd, ht⟩
    exact ⟨d.field, List.mem_cons_of_mem _ (List.mem_map_of_mem hd), ht⟩

theorem Fits.closed {d : Definition} {c : Catalog} (h : d.Fits c) (hclosed : c.Closed) :
    Catalog.Closed ⟨c.models ++ d.described⟩ := by
  intro m hm target ht
  rcases List.mem_append.1 hm with hm | hm
  · have hold := hclosed m hm target ht
    rw [Catalog.has_iff, List.map_append, List.mem_append]
    exact .inl (Catalog.has_iff.1 hold)
  · obtain ⟨md, hmd, rfl⟩ := List.mem_map.1 hm
    obtain ⟨f, hf, ht⟩ := mem_described_targets.1 ht
    exact knows_iff.1 ((h.sound md hmd).targets f hf target ht)

theorem Fits.perm {d e : Definition} {c : Catalog} (h : d.Fits c)
    (hperm : e.models.Perm d.models) : e.Fits c := by
  have hknows : e.knows c = d.knows c := by
    funext name
    rw [knows, knows, decide_eq_decide.2 (hperm.map ModelDefinition.name).mem_iff]
  refine ⟨fun m hm => ?_, h.admits.perm (hperm.map _)⟩
  rw [hknows]
  exact h.sound m (hperm.mem_iff.1 hm)

end Definition

end RecordModel
