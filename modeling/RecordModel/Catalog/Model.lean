import RecordModel.Catalog.Field

/-!
# Models

A model is a table and its fields, the key `id` first. Fields are found by name and, if
no field has that name, by column.

Results:
* `Model.putField_of_fresh`: a field with a new name goes to the end.
* `Model.checkFields_ok`: names and columns that pass are identifiers, each used once.
-/
namespace RecordModel

/-- A model and its table (`ModelInfo`). -/
structure Model where
  name : String
  table : String
  fields : List Field

namespace Model

/-- A model with the key alone, stored under its derived name. -/
def new (name : String) : Model := ⟨name, snakeCase name, [Field.id]⟩

def withTable (m : Model) (table : String) : Model := { m with table := table }

/-- Put a field in the place of the first one of its name, or at the end (`add_field`). -/
def putField (field : Field) : List Field → List Field
  | [] => [field]
  | f :: rest => if f.name = field.name then field :: rest else f :: putField field rest

def withField (m : Model) (field : Field) : Model := { m with fields := putField field m.fields }

/-- The field of a name, or else of a column (`field`). -/
def field? (m : Model) (name : String) : Option Field :=
  match m.fields.find? fun f => f.name = name with
  | some f => some f
  | none => m.fields.find? fun f => f.column = name

def getField (m : Model) (name : String) : Result Field :=
  match m.field? name with
  | some f => .ok f
  | none => .error (.unknownField m.name name)

def relations (m : Model) : List Field := m.fields.filter Field.isRelation

/-- The models that relations point at, in field order. -/
def targets (m : Model) : List String := m.fields.filterMap Field.target?

/-! ## The check -/

/-- Names and columns are identifiers and told apart; `names` and `columns` are those of
the fields before. -/
def checkFields (model : String) (names columns : List String) : List Field → Result Unit
  | [] => .ok ()
  | f :: rest =>
    if !(isIdentifier f.name && isIdentifier f.column) then
      .error (.invalidModel (.badField model f.name f.column))
    else if f.name ∈ names then .error (.invalidModel (.duplicateField model f.name))
    else if f.column ∈ columns then .error (.invalidModel (.duplicateColumn model f.column))
    else checkFields model (f.name :: names) (f.column :: columns) rest

/-- The model still has a plain field in the column `id`. -/
def keepsId (m : Model) : Bool :=
  match m.field? idField with
  | some f => f.column == idField && !f.isRelation
  | none => false

/-- What a model must fulfil before it enters a catalog (`check`). -/
def check (m : Model) : Result Unit := do
  if !isIdentifier m.table then .error (.invalidModel (.badTable m.name m.table))
  checkFields m.name [] [] m.fields
  if !m.keepsId then .error (.invalidModel (.noIdColumn m.name))

/-! ## What the check ensures -/

theorem putField_of_fresh {field : Field} {fs : List Field}
    (h : ∀ f ∈ fs, f.name ≠ field.name) : putField field fs = fs ++ [field] := by
  induction fs with
  | nil => rfl
  | cons f fs ih =>
    rw [putField, if_neg (h f (by simp)), ih fun g hg => h g (by simp [hg])]
    rfl

theorem checkFields_ok {model : String} {names columns : List String} {fs : List Field}
    (h : checkFields model names columns fs = .ok ()) :
    (∀ f ∈ fs, isIdentifier f.name = true ∧ isIdentifier f.column = true) ∧
      (fs.map Field.name).Nodup ∧ (fs.map Field.column).Nodup ∧
      (∀ f ∈ fs, f.name ∉ names ∧ f.column ∉ columns) := by
  induction fs generalizing names columns with
  | nil => simp
  | cons f fs ih =>
    rw [checkFields] at h
    split at h
    · cases h
    · rename_i hid
      split at h
      · cases h
      · rename_i hname
        split at h
        · cases h
        · rename_i hcol
          obtain ⟨h1, h2, h3, h4⟩ := ih h
          simp only [Bool.not_eq_true', Bool.not_eq_false, Bool.and_eq_true] at hid
          refine ⟨?_, ?_, ?_, ?_⟩
          · intro g hg
            rcases List.mem_cons.1 hg with rfl | hg
            · exact hid
            · exact h1 g hg
          · rw [List.map_cons, List.nodup_cons]
            refine ⟨fun hm => ?_, h2⟩
            obtain ⟨g, hg, he⟩ := List.mem_map.1 hm
            exact (h4 g hg).1 (by simp [he])
          · rw [List.map_cons, List.nodup_cons]
            refine ⟨fun hm => ?_, h3⟩
            obtain ⟨g, hg, he⟩ := List.mem_map.1 hm
            exact (h4 g hg).2 (by simp [he])
          · intro g hg
            rcases List.mem_cons.1 hg with rfl | hg
            · exact ⟨hname, hcol⟩
            · exact ⟨fun hm => (h4 g hg).1 (by simp [hm]), fun hm => (h4 g hg).2 (by simp [hm])⟩

end Model

end RecordModel
