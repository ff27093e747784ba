import Mathlib.Computability.Language
import RecordModel.Proofs.Catalog.Reachable

/-!
# Names in a catalog

Tables, fields and columns are written into SQL without quotes or are looked up by their names,
so all of them have to be identifiers, and no two of a kind may be the same. Here this is followed
through a history of calls: a declaration or a definition either gives a new catalog, or it fails
and the caller goes on with the catalog that it had.

A field is looked up by its name, and if no field has this name, by its column. Within a model
names are different and so are columns, but a name may be the column of another field; it then
stands for the field of that name.

Results:
* `mem_identifiers`: the identifiers are the texts `[A-Za-z_][A-Za-z0-9_]*`.
* `Catalog.calls_orderly`: in every catalog that calls lead to, names are in order.
* `Model.WellFormed.field?_eq_some`: what a lookup finds.
* `Catalog.field_found_iff`: a field is found by its name, and by its column exactly if no other
  field has this as its name.
-/
namespace RecordModel

open Computability

/-! ## Identifiers -/

def IsAsciiLetter (c : Char) : Prop := 'A' ≤ c ∧ c ≤ 'Z' ∨ 'a' ≤ c ∧ c ≤ 'z'

def IsAsciiDigit (c : Char) : Prop := '0' ≤ c ∧ c ≤ '9'

/-- The texts that are one character of a class. -/
def oneOf (p : Char → Prop) : Language Char := {w | ∃ c, p c ∧ w = [c]}

/-- The texts `[A-Za-z_][A-Za-z0-9_]*`. -/
def identifiers : Language Char :=
  oneOf (fun c => IsAsciiLetter c ∨ c = '_') *
    (oneOf fun c => IsAsciiLetter c ∨ IsAsciiDigit c ∨ c = '_')∗

theorem mem_kstar_oneOf {p : Char → Prop} {w : List Char} : w ∈ (oneOf p)∗ ↔ ∀ c ∈ w, p c := by
  rw [Language.mem_kstar]
  constructor
  · rintro ⟨pieces, rfl, hpieces⟩ c hc
    obtain ⟨piece, hpiece, hc⟩ := List.mem_flatten.1 hc
    obtain ⟨d, hd, rfl⟩ := hpieces piece hpiece
    rw [List.mem_singleton.1 hc]
    exact hd
  · intro h
    refine ⟨w.map fun c => [c], by simp [← List.flatMap_def], fun piece hpiece => ?_⟩
    obtain ⟨c, hc, rfl⟩ := List.mem_map.1 hpiece
    exact ⟨c, h c hc, rfl⟩

theorem isAlpha_iff {c : Char} : c.isAlpha = true ↔ IsAsciiLetter c := by
  have hupper : c.isUpper = true ↔ 'A' ≤ c ∧ c ≤ 'Z' := decide_eq_true_iff
  have hlower : c.isLower = true ↔ 'a' ≤ c ∧ c ≤ 'z' :=
    Bool.and_eq_true_iff.trans (and_congr decide_eq_true_iff decide_eq_true_iff)
  exact Bool.or_eq_true_iff.trans (or_congr hupper hlower)

theorem isDigit_iff {c : Char} : c.isDigit = true ↔ IsAsciiDigit c :=
  Bool.and_eq_true_iff.trans (and_congr decide_eq_true_iff decide_eq_true_iff)

theorem isNameStart_iff {c : Char} : isNameStart c = true ↔ IsAsciiLetter c ∨ c = '_' := by
  rw [isNameStart, Bool.or_eq_true, isAlpha_iff, beq_iff_eq]

theorem isNameChar_iff {c : Char} :
    isNameChar c = true ↔ IsAsciiLetter c ∨ IsAsciiDigit c ∨ c = '_' := by
  rw [isNameChar, Char.isAlphanum, Bool.or_eq_true, Bool.or_eq_true, isAlpha_iff, isDigit_iff,
    beq_iff_eq, or_assoc]

/-- The identifiers are the texts `[A-Za-z_][A-Za-z0-9_]*`. -/
theorem mem_identifiers {name : String} :
    name.toList ∈ identifiers ↔ isIdentifier name = true := by
  rw [identifiers, Language.mem_mul, isIdentifier]
  constructor
  · rintro ⟨first, ⟨c, hc, rfl⟩, rest, hrest, hname⟩
    rw [← hname, List.singleton_append, isIdentifier_cons, isNameStart_iff]
    exact ⟨hc, fun d hd => isNameChar_iff.2 (mem_kstar_oneOf.1 hrest d hd)⟩
  · intro h
    cases hname : name.toList with
    | nil => rw [hname] at h; cases h
    | cons c rest =>
      rw [hname, isIdentifier_cons, isNameStart_iff] at h
      have hrest : ∀ d ∈ rest, IsAsciiLetter d ∨ IsAsciiDigit d ∨ d = '_' :=
        fun d hd => isNameChar_iff.1 (h.2 d hd)
      exact ⟨[c], ⟨c, h.1, rfl⟩, rest, mem_kstar_oneOf.2 hrest, rfl⟩

/-! ## Histories of calls -/

namespace Catalog

/-- A call that may change a catalog. -/
inductive Call where
  | declare (m : Model)
  | register (d : Definition)

/-- The catalog that a call gives. -/
def answer (c : Catalog) : Call → Result Catalog
  | .declare m => c.declare m
  | .register d => d.register c

/-- The catalog that a caller has after a call: the old one, if the call fails. -/
def after (c : Catalog) (call : Call) : Catalog :=
  match c.answer call with
  | .ok c' => c'
  | .error _ => c

/-- Models are stored under their names, no two share a table, and in each model the names of
the table, of the fields and of the columns are identifiers, and fields and columns are told
apart by their names. -/
structure Orderly (c : Catalog) : Prop where
  stored : ∀ name m, c.model? name = some m ↔ m ∈ c.models ∧ m.name = name
  tables : c.models.Pairwise fun m n => m.table ≠ n.table
  table : ∀ m ∈ c.models, m.table.toList ∈ identifiers
  spelled : ∀ m ∈ c.models, ∀ f ∈ m.fields,
    f.name.toList ∈ identifiers ∧ f.column.toList ∈ identifiers
  names : ∀ m ∈ c.models, m.fields.Pairwise fun f g => f.name ≠ g.name
  columns : ∀ m ∈ c.models, m.fields.Pairwise fun f g => f.column ≠ g.column

theorem model?_eq_some {c : Catalog} (hnames : (c.models.map Model.name).Nodup) {name : String}
    {m : Model} : c.model? name = some m ↔ m ∈ c.models ∧ m.name = name := by
  constructor
  · intro h
    exact (model?_name h).symm
  · rintro ⟨hm, rfl⟩
    exact model?_eq_some_of_mem hnames hm

theorem WellFormed.orderly {c : Catalog} (h : c.WellFormed) : c.Orderly where
  stored _ _ := model?_eq_some h.names_nodup
  tables := List.pairwise_map.1 h.tables_nodup
  table m hm := mem_identifiers.2 (h.models m hm).table
  spelled m hm f hf := ((h.models m hm).identifiers f hf).imp mem_identifiers.2 mem_identifiers.2
  names m hm := List.pairwise_map.1 (h.models m hm).names_nodup
  columns m hm := List.pairwise_map.1 (h.models m hm).columns_nodup

theorem Reachable.after {c : Catalog} (h : c.Reachable) (call : Call) :
    (c.after call).Reachable := by
  unfold Catalog.after
  split
  · rename_i c' hanswer
    cases call with
    | declare m => exact .declare h hanswer
    | register d => exact .register h hanswer
  · exact h

theorem reachable_calls (calls : List Call) : (calls.foldl after .empty).Reachable :=
  List.foldlRecOn calls after .empty fun _ h call _ => h.after call

/-- After any calls, successful or not, the names in the catalog are in order. -/
theorem calls_orderly (calls : List Call) : (calls.foldl after .empty).Orderly :=
  (reachable_calls calls).wellFormed.orderly

end Catalog

/-! ## Looking fields up -/

/-- A lookup finds the field of a name, or else the field of a column that no field has as its
name. -/
theorem Model.WellFormed.field?_eq_some {m : Model} (h : m.WellFormed) {key : String} {f : Field} :
    m.field? key = some f ↔
      f ∈ m.fields ∧ (f.name = key ∨ f.column = key ∧ ∀ g ∈ m.fields, g.name ≠ key) := by
  unfold Model.field?
  cases hname : m.fields.find? fun g => g.name = key with
  | some g =>
    have hg := List.mem_of_find?_eq_some hname
    have hkey : g.name = key := by simpa using List.find?_some hname
    constructor
    · rintro hfound
      cases hfound
      exact ⟨hg, .inl hkey⟩
    · rintro ⟨hf, hf' | ⟨-, hnone⟩⟩
      · exact congrArg some (List.inj_on_of_nodup_map h.names_nodup hg hf (hkey.trans hf'.symm))
      · exact absurd hkey (hnone g hg)
  | none =>
    have hnone : ∀ g ∈ m.fields, g.name ≠ key := by simpa using List.find?_eq_none.1 hname
    constructor
    · intro hfound
      exact ⟨List.mem_of_find?_eq_some hfound,
        .inr ⟨by simpa using List.find?_some hfound, hnone⟩⟩
    · rintro ⟨hf, hf' | ⟨hcolumn, -⟩⟩
      · exact absurd hf' (hnone f hf)
      · obtain ⟨g, hg⟩ : ∃ g, m.fields.find? (fun g => g.column = key) = some g :=
          Option.isSome_iff_exists.1 (List.find?_isSome.2 ⟨f, hf, by simpa using hcolumn⟩)
        have hkey : g.column = key := by simpa using List.find?_some hg
        dsimp only
        rw [hg, List.inj_on_of_nodup_map h.columns_nodup (List.mem_of_find?_eq_some hg) hf
          (hkey.trans hcolumn.symm)]

theorem Field.target?_eq_some {f : Field} {name : String} :
    f.target? = some name ↔ f.type = .relation name := by
  unfold Field.target?
  cases f.type <;> simp

namespace Catalog

/-- The target of a relation is the model of its name. -/
theorem WellFormed.related_eq_ok {c : Catalog} (hc : c.WellFormed) {f : Field} {target : Model} :
    c.related f = .ok target ↔ f.type = .relation target.name ∧ target ∈ c.models := by
  rw [← Field.target?_eq_some, related]
  constructor
  · intro h
    split at h
    · rename_i name hname
      rw [getModel_eq_ok, model?_eq_some hc.names_nodup] at h
      exact ⟨hname.trans (congrArg some h.2.symm), h.1⟩
    · cases h
  · rintro ⟨hname, hmem⟩
    rw [hname]
    exact getModel_eq_ok.2 (model?_eq_some_of_mem hc.names_nodup hmem)

/-- A field of a reachable catalog is found by its name. It is found by its column exactly if no
other field has this as its name; otherwise that field is found. -/
theorem field_found_iff {c : Catalog} (hc : c.Reachable) {m : Model} (hm : m ∈ c.models)
    {f : Field} (hf : f ∈ m.fields) :
    m.field? f.name = some f ∧
      (m.field? f.column = some f ↔ ∀ g ∈ m.fields, g.name = f.column → g = f) ∧
        ∀ g ∈ m.fields, g.name = f.column → m.field? f.column = some g := by
  have hwf := hc.wellFormed.models m hm
  have hnamed : ∀ g ∈ m.fields, g.name = f.column → m.field? f.column = some g :=
    fun g hg hname => hwf.field?_eq_some.2 ⟨hg, .inl hname⟩
  refine ⟨hwf.field?_eq_some.2 ⟨hf, .inl rfl⟩, ⟨fun hfound g hg hname => ?_, fun hsole => ?_⟩,
    hnamed⟩
  · exact Option.some.inj ((hnamed g hg hname).symm.trans hfound)
  · by_cases hother : ∃ g ∈ m.fields, g.name = f.column
    · obtain ⟨g, hg, hname⟩ := hother
      rw [hnamed g hg hname, hsole g hg hname]
    · exact hwf.field?_eq_some.2 ⟨hf, .inr ⟨rfl, fun g hg hname => hother ⟨g, hg, hname⟩⟩⟩

/-- An employee's manager, stored in the column `manager_id`. -/
def managerField : Field := .relation "manager" "Employee"

/-- A number that the manager is also known by, stored in the column `badge`. -/
def badgeField : Field := { Field.scalar "manager_id" .integer with column := "badge" }

/-- An employee, one of whose fields has the name of another one's column. -/
def badgedEmployee : Model :=
  ((Model.new "Employee").withField managerField).withField badgeField

theorem badgedEmployee_reachable : Reachable ⟨[badgedEmployee]⟩ :=
  .declare .empty (rfl : Catalog.declare .empty badgedEmployee = _)

/-- The number is found by its name and by its column. -/
theorem badgeField_found : Reachable ⟨[badgedEmployee]⟩ ∧ badgeField ∈ badgedEmployee.fields ∧
    badgedEmployee.field? "manager_id" = some badgeField ∧
      badgedEmployee.field? "badge" = some badgeField := by
  have hm : badgedEmployee ∈ (Catalog.mk [badgedEmployee]).models := List.mem_singleton.2 rfl
  have hf : badgeField ∈ badgedEmployee.fields :=
    List.mem_cons_of_mem _ (List.mem_cons_of_mem _ List.mem_cons_self)
  obtain ⟨hname, hcolumn, -⟩ := field_found_iff badgedEmployee_reachable hm hf
  have hsole : ∀ g ∈ badgedEmployee.fields, g.name = badgeField.column → g = badgeField := by
    have hnone : ∀ g ∈ badgedEmployee.fields, g.name ≠ badgeField.column := by decide
    exact fun g hg hg' => absurd hg' (hnone g hg)
  exact ⟨badgedEmployee_reachable, hf, hname, hcolumn.2 hsole⟩

/-- The manager is not found by its column: the number bears this name. -/
theorem managerField_shadowed : Reachable ⟨[badgedEmployee]⟩ ∧
    managerField ∈ badgedEmployee.fields ∧ managerField.column = "manager_id" ∧
      badgedEmployee.field? "manager_id" = some badgeField ∧
        badgedEmployee.field? managerField.column ≠ some managerField := by
  have hfound : badgedEmployee.field? "manager_id" = some badgeField := rfl
  refine ⟨badgedEmployee_reachable, List.mem_cons_of_mem _ List.mem_cons_self, by decide, hfound,
    fun h => ?_⟩
  have hcolumn := congrArg (Option.map Field.name) h
  exact absurd hcolumn (by decide)

end Catalog

end RecordModel
