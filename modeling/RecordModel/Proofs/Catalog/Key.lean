import Mathlib.Data.List.Induction
import RecordModel.Proofs.Catalog.Reachable
import RecordModel.Schema.Definition

/-!
# The key of a model

A new model has the key `id`, and fields are only ever added to it one by one. A field that is
declared under the name of an earlier one takes its place, the key not excepted; the check of a
model then asks for a plain field in the column `id`, but neither for its type nor for its mark
as the key. A definition cannot declare the key again.

Results:
* `find?_assemble`: the field of a name is the one that was declared last under it.
* `Catalog.Assembled.models`: the models of a catalog are put together field by field.
* `Definition.build_hasKey`: the models of a definition keep their key.
* `Catalog.key_kept_iff`: a model has lost its key exactly if the last field that was declared
  as `id` is no integer or not marked as the key; no model of a definition has.
-/
namespace RecordModel

open RecordModel.Sql

/-! ## Fields that are declared again -/

/-- A new model with further fields, declared one after the other. -/
def Model.assemble (name table : String) (declared : List Field) : Model :=
  declared.foldl Model.withField ((Model.new name).withTable table)

/-- The last field of a name. -/
def lastNamed? (name : String) (fields : List Field) : Option Field :=
  fields.reverse.find? fun f => f.name = name

/-- An integer key, stored in the column `id`. -/
def Model.HasKey (m : Model) : Prop :=
  ∃ f ∈ m.fields, f.name = idField ∧ f.type = .scalar .integer ∧ f.column = idField ∧
    f.primaryKey = true

theorem find?_putField (field : Field) (fs : List Field) (name : String) :
    (Model.putField field fs).find? (fun f => f.name = name) =
      if field.name = name then some field else fs.find? fun f => f.name = name := by
  induction fs with
  | nil => by_cases hname : field.name = name <;> simp [Model.putField, hname]
  | cons f fs ih =>
    rw [Model.putField]
    by_cases hf : f.name = field.name
    · by_cases hname : field.name = name <;> simp [hf, hname]
    · rw [if_neg hf]
      by_cases hname : f.name = name
      · have hfield : field.name ≠ name := fun he => hf (hname.trans he.symm)
        simp [hname, hfield]
      · simp [hname, ih]

theorem find?_assemble (modelName table : String) (declared : List Field) (name : String) :
    (Model.assemble modelName table declared).fields.find? (fun f => f.name = name) =
      (lastNamed? name declared).or ([Field.id].find? fun f => f.name = name) := by
  induction declared using List.reverseRecOn with
  | nil => rfl
  | append_singleton declared f ih =>
    have hlast : (Model.assemble modelName table (declared ++ [f])).fields =
        Model.putField f (Model.assemble modelName table declared).fields := by
      simp [Model.assemble, Model.withField]
    rw [hlast, find?_putField, ih]
    by_cases hname : f.name = name <;> simp [lastNamed?, hname]

/-- The field `id` is the one that was declared last, or else the key that the model had at
first. -/
theorem field?_id (name table : String) (declared : List Field) :
    (Model.assemble name table declared).field? idField =
      some ((lastNamed? idField declared).getD .id) := by
  have hfirst : [Field.id].find? (fun f => f.name = idField) = some .id := rfl
  have hfind := find?_assemble name table declared idField
  rw [hfirst] at hfind
  unfold Model.field?
  rw [hfind]
  cases lastNamed? idField declared <;> rfl

/-! ## Models of definitions -/

theorem FieldDefinition.field_name (d : FieldDefinition) : d.field.name = d.name := by
  unfold FieldDefinition.field Field.ofType
  cases d.type <;> rfl

theorem FieldDefinition.field_type (d : FieldDefinition) : d.field.type = d.type := by
  unfold FieldDefinition.field Field.ofType
  cases d.type <;> rfl

theorem addFields_ok {isKnown : String → Bool} {seen : List String} {m m' : Model}
    {ds : List FieldDefinition} (h : addFields isKnown seen m ds = .ok m') :
    ∃ declared : List Field, m' = declared.foldl Model.withField m ∧
      ∀ f ∈ declared, f.name ≠ idField := by
  induction ds generalizing seen m with
  | nil => cases h; exact ⟨[], rfl, by simp⟩
  | cons d ds ih =>
    rw [addFields] at h
    split at h
    · cases h
    split at h
    · cases h
    rename_i hid
    have hname : d.field.name ≠ idField := d.field_name ▸ hid
    have hrest : addFields isKnown (d.name :: seen) (m.withField d.field) ds = .ok m' := by
      split at h
      · split at h
        · exact h
        · cases h
      · exact h
    obtain ⟨declared, hm', hnames⟩ := ih hrest
    exact ⟨d.field :: declared, hm', List.forall_mem_cons.2 ⟨hname, hnames⟩⟩

theorem ModelDefinition.model_ok {isKnown : String → Bool} {d : ModelDefinition} {m : Model}
    (h : d.model isKnown = .ok m) :
    ∃ name table declared, m = .assemble name table declared ∧
      ∀ f ∈ declared, f.name ≠ idField := by
  obtain ⟨declared, hm, hnames⟩ := addFields_ok h
  exact ⟨_, _, declared, hm, hnames⟩

theorem mapM_ok_mem {α β : Type} {f : α → Result β} {xs : List α} {ys : List β}
    (h : xs.mapM f = .ok ys) : ∀ y ∈ ys, ∃ x ∈ xs, f x = .ok y := by
  induction xs generalizing ys with
  | nil => cases h; simp
  | cons x xs ih =>
    rw [List.mapM_cons] at h
    obtain ⟨z, hz, h⟩ := bind_eq_ok.1 h
    obtain ⟨zs, hzs, h⟩ := bind_eq_ok.1 h
    cases h
    intro y hy
    rcases List.mem_cons.1 hy with rfl | hy
    · exact ⟨x, by simp, hz⟩
    · obtain ⟨w, hw, hfw⟩ := ih hzs y hy
      exact ⟨w, by simp [hw], hfw⟩

theorem Definition.build_models {d : Definition} {known : Catalog} {models : List Model}
    (h : d.build known = .ok models) : ∀ m ∈ models, ∃ name table declared,
      m = .assemble name table declared ∧ ∀ f ∈ declared, f.name ≠ idField := by
  intro m hm
  unfold Definition.build at h
  dsimp only at h
  split at h
  · cases h
  · obtain ⟨md, -, hmd⟩ := mapM_ok_mem h m hm
    exact ModelDefinition.model_ok hmd

theorem lastNamed?_eq_none {name : String} {fields : List Field}
    (h : ∀ f ∈ fields, f.name ≠ name) : lastNamed? name fields = none :=
  List.find?_eq_none.2 fun f hf => by simpa using h f (List.mem_reverse.1 hf)

/-- A definition does not touch the keys of its models. -/
theorem Definition.build_hasKey {d : Definition} {known : Catalog} {models : List Model}
    (h : d.build known = .ok models) : ∀ m ∈ models, m.HasKey := by
  intro m hm
  obtain ⟨name, table, declared, rfl, hnames⟩ := build_models h m hm
  have hid := field?_id name table declared
  rw [lastNamed?_eq_none hnames] at hid
  exact ⟨.id, Model.field?_mem hid, by decide, by decide, by decide, by decide⟩

/-! ## Catalogs -/

namespace Catalog

/-- The catalogs that come about from models which are put together field by field, and from
definitions. -/
inductive Assembled : Catalog → Prop where
  | empty : Assembled .empty
  | declare {c c' : Catalog} {name table : String} {declared : List Field} : Assembled c →
    c.declare (.assemble name table declared) = .ok c' → Assembled c'
  | register {c c' : Catalog} {d : Definition} : Assembled c → d.register c = .ok c' → Assembled c'

theorem Assembled.reachable {c : Catalog} (h : c.Assembled) : c.Reachable := by
  induction h with
  | empty => exact .empty
  | declare _ hd ih => exact .declare ih hd
  | register _ hd ih => exact .register ih hd

theorem declareAll_models {ms : List Model} {c c' : Catalog}
    (h : ms.foldlM Catalog.declare c = .ok c') : c'.models = c.models ++ ms := by
  induction ms generalizing c with
  | nil => cases h; simp
  | cons m ms ih =>
    rw [List.foldlM_cons] at h
    obtain ⟨c1, hm, h⟩ := bind_eq_ok.1 h
    obtain ⟨-, -, -, hmodels⟩ := declare_ok hm
    rw [ih h, hmodels, List.append_assoc]
    rfl

theorem Assembled.models {c : Catalog} (h : c.Assembled) :
    ∀ m ∈ c.models, ∃ name table declared, m = .assemble name table declared := by
  induction h with
  | empty => exact fun m hm => absurd hm List.not_mem_nil
  | @declare c c' name table declared _ hd ih =>
    obtain ⟨-, -, -, hmodels⟩ := declare_ok hd
    intro m hm
    rw [hmodels] at hm
    rcases List.mem_append.1 hm with hm | hm
    · exact ih m hm
    · exact ⟨name, table, declared, List.mem_singleton.1 hm⟩
  | @register c c' d _ hd ih =>
    obtain ⟨models, hbuild, hd⟩ := bind_eq_ok.1 hd
    intro m hm
    rw [declareAll_models hd] at hm
    rcases List.mem_append.1 hm with hm | hm
    · exact ih m hm
    · obtain ⟨name, table, declared, hassembled, -⟩ := Definition.build_models hbuild m hm
      exact ⟨name, table, declared, hassembled⟩

end Catalog

/-! ## The exact condition -/

/-- The type of a key column, with which a table gets an integer primary key. -/
def Sql.Dialect.keyClause : Dialect → String
  | .postgres => "serial NOT NULL PRIMARY KEY"
  | .sqlite => "INTEGER PRIMARY KEY AUTOINCREMENT"

theorem typeSql_eq_keyClause_iff (d : Dialect) (f : Field) :
    d.typeSql f = d.keyClause ↔ f.isKey = true := by
  cases hkey : f.isKey with
  | true => cases d <;> simp [Dialect.typeSql, Dialect.keyClause, hkey]
  | false =>
    cases d <;> cases htype : f.dataType <;>
      simp [Dialect.typeSql, Dialect.keyClause, hkey, htype]

namespace Catalog

/-- Every model of a catalog has a single field `id`, a plain one in the column `id`: the one
that was declared last under this name, or else the key that the model had at first. The model
has an integer key exactly if this field is an integer and marked as the key, and its table gets
a primary key exactly if the field is marked so. The models that a definition adds to the catalog
have an integer key in any case. -/
theorem key_kept_iff {c : Catalog} (hc : c.Assembled) :
    (∀ m ∈ c.models, ∃ name table declared, m = .assemble name table declared ∧
      ∃ f ∈ m.fields, f = (lastNamed? idField declared).getD .id ∧
        f.name = idField ∧ f.column = idField ∧ f.isRelation = false ∧
        (∀ g ∈ m.fields, g.name = idField → g = f) ∧
        (m.HasKey ↔ f.type = .scalar .integer ∧ f.primaryKey = true) ∧
        ∀ d : Dialect, (∃ g ∈ m.fields, d.typeSql g = d.keyClause) ↔ f.primaryKey = true) ∧
    ∀ {d : Definition} {c' : Catalog}, d.register c = .ok c' →
      ∃ models, c'.models = c.models ++ models ∧ ∀ m ∈ models, m.HasKey := by
  refine ⟨fun m hm => ?_, fun h => ?_⟩
  swap
  · obtain ⟨models, hbuild, hdeclared⟩ := bind_eq_ok.1 h
    exact ⟨models, declareAll_models hdeclared, Definition.build_hasKey hbuild⟩
  obtain ⟨name, table, declared, rfl⟩ := hc.models m hm
  have hwf := hc.reachable.wellFormed.models _ hm
  have hid := field?_id name table declared
  have hname : ((lastNamed? idField declared).getD .id).name = idField := by
    cases hlast : lastNamed? idField declared with
    | none => rfl
    | some g => simpa using List.find?_some hlast
  generalize hlast : (lastNamed? idField declared).getD .id = f at hid hname
  have hmem := Model.field?_mem hid
  have hsole : ∀ g ∈ (Model.assemble name table declared).fields, g.name = idField → g = f :=
    fun g hg hgname =>
      List.inj_on_of_nodup_map hwf.names_nodup hg hmem (hgname.trans hname.symm)
  have hkeeps := hwf.keepsId
  simp only [Model.keepsId, hid, Bool.and_eq_true, beq_iff_eq, Bool.not_eq_true'] at hkeeps
  obtain ⟨hcolumn, hplain⟩ := hkeeps
  refine ⟨name, table, declared, rfl, f, hmem, hlast.symm, hname, hcolumn, hplain, hsole, ?_,
    fun d => ?_⟩
  · constructor
    · rintro ⟨g, hg, hgname, htype, -, hprimary⟩
      exact hsole g hg hgname ▸ ⟨htype, hprimary⟩
    · rintro ⟨htype, hprimary⟩
      exact ⟨f, hmem, hname, htype, hcolumn, hprimary⟩
  · simp only [typeSql_eq_keyClause_iff, Field.isKey, Bool.and_eq_true, beq_iff_eq]
    constructor
    · rintro ⟨g, hg, hprimary, hgname⟩
      exact hsole g hg hgname ▸ hprimary
    · exact fun hprimary => ⟨f, hmem, hprimary, hname⟩

/-- A key with a default. -/
def numberedKey : Field := { Field.id with default := some (.integer 100) }

/-- A counter whose key is declared again twice, the second time as a key. -/
def counter : Model :=
  .assemble "Counter" "counter" [.scalar "id" .text, .scalar "label" .text, numberedKey]

theorem counter_hasKey : Assembled ⟨[counter]⟩ ∧ counter ∈ (Catalog.mk [counter]).models ∧
    counter.HasKey := by
  have hc : Assembled ⟨[counter]⟩ := .declare .empty (rfl : Catalog.declare .empty counter = _)
  have hm : counter ∈ (Catalog.mk [counter]).models := List.mem_singleton.2 rfl
  obtain ⟨-, -, -, -, f, -, -, -, -, -, hsole, hkey, -⟩ := (key_kept_iff hc).1 counter hm
  have hmem : numberedKey ∈ counter.fields := List.mem_cons_self
  have hf : numberedKey = f := hsole numberedKey hmem rfl
  exact ⟨hc, hm, hkey.2 (hf ▸ ⟨rfl, rfl⟩)⟩

/-- A ticket whose key is declared again as a text. -/
def textTicket : Model := .assemble "Ticket" "ticket" [.scalar "id" .text]

/-- The catalog takes it, and its table has no primary key. -/
theorem textTicket_loses_key : Assembled ⟨[textTicket]⟩ ∧ ¬ textTicket.HasKey ∧
    (Change.createTable textTicket).text .sqlite = "CREATE TABLE \"ticket\" (id TEXT)" := by
  refine ⟨.declare .empty (rfl : Catalog.declare .empty textTicket = _), ?_, by decide +kernel⟩
  rintro ⟨f, hf, -, htype, -⟩
  rw [List.mem_singleton.1 (show f ∈ [Field.scalar "id" .text] from hf)] at htype
  cases htype

end Catalog

end RecordModel
