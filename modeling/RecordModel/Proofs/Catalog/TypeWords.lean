import RecordModel.Proofs.Catalog.FieldLines
import RecordModel.Proofs.Catalog.Names
import RecordModel.Proofs.Catalog.Registration

/-!
# Words for types and names of models

The word for the type of a field is first looked up among the words for scalar types, whatever
the case of its letters, and taken for the name of a model only if it is none of them. A model
may have such a word as its name, though, and then no field can point at it: a field that names
it as its type becomes a plain one.

Results:
* `readType_eq_ok`: what a word stands for.
* `Definition.field_registered`: where a field of a definition is found once it is registered.
* `Definition.relation_iff_not_keyword`: when the name of a model makes a relation to it.
-/
namespace RecordModel

open RecordModel.Text

/-- A word for a scalar type stands for that type, every other identifier for a relation. -/
theorem readType_eq_ok {word : String} {type : FieldType} (h : readType word = .ok type) :
    (∀ t : DataType, type = .scalar t ↔ lowerText word ∈ t.keywords) ∧
      (type = .relation word ↔ ∀ t : DataType, lowerText word ∉ t.keywords) := by
  rw [← scalarType?_eq_none]
  simp only [← scalarType?_eq_some]
  unfold readType at h
  split at h
  · rename_i t hscalar
    cases h
    rw [hscalar]
    simp
  · rename_i hscalar
    split at h
    · cases h
      rw [hscalar]
      simp
    · cases h

namespace Definition

variable {d : Definition} {c c' : Catalog}

/-- A field of a definition is found by its name in the model that it was written in. -/
theorem field_registered (hc : c.WellFormed) (h : d.register c = .ok c') {m : ModelDefinition}
    (hm : m ∈ d.models) {f : FieldDefinition} (hf : f ∈ m.fields) :
    ∃ o, c'.model? m.name = some o ∧ o.field? f.name = some f.field := by
  have hc' := hc.register h
  obtain ⟨-, rfl⟩ := register_eq_ok.1 h
  have ho : m.described ∈ c.models ++ d.described :=
    List.mem_append_right _ (List.mem_map_of_mem hm)
  refine ⟨m.described, Catalog.model?_eq_some_of_mem hc'.names_nodup ho, ?_⟩
  rw [(hc'.models _ ho).field?_eq_some]
  exact ⟨List.mem_cons_of_mem _ (List.mem_map_of_mem hf), .inl f.field_name⟩

/-- A field line with the name of a declared model for its type becomes a relation to this model
exactly if the name is no word for a scalar type in any case of its letters; with such a word it
becomes a field of the scalar type. -/
theorem relation_iff_not_keyword (hc : c.Reachable) {text : String}
    (hread : Definition.read text = .ok d) (hregister : d.register c = .ok c') {target : String}
    (hdeclared : target ∈ d.models.map ModelDefinition.name) {raw : List Char} {i : Nat}
    {m : ModelDefinition} (hinside : Inside text raw i m) {name : String} {modifiers : List String}
    (hline : FieldLine raw name target modifiers) :
    ∃ o f, c'.model? m.name = some o ∧ o.field? name = some f ∧
      ((∃ t, c'.related f = .ok t ∧ t.name = target) ↔
        ∀ type : DataType, lowerText target ∉ type.keywords) ∧
      ∀ type : DataType, lowerText target ∈ type.keywords → f.type = .scalar type := by
  obtain ⟨left, right, hsplit, -⟩ := id hline
  obtain ⟨f, hf, md, hmd, hmodel, hplace⟩ := hinside.readField hread (colon_mem_of_split hsplit)
  obtain ⟨rfl, htype⟩ := hline.readField_eq_ok hf
  obtain ⟨hscalar, hrelation⟩ := readType_eq_ok htype
  have hc' := hc.wellFormed.register hregister
  obtain ⟨o, ho, hfield⟩ := field_registered hc.wellFormed hregister
    (List.mem_of_getElem? hmd) (List.mem_of_getElem? hplace)
  refine ⟨o, f.field, hmodel ▸ ho, hfield, ?_, fun type h => ?_⟩
  · rw [← hrelation]
    constructor
    · rintro ⟨t, ht, rfl⟩
      exact f.field_type ▸ (hc'.related_eq_ok.1 ht).1
    · intro h
      have hhas : c'.has target = true := by
        obtain ⟨-, rfl⟩ := register_eq_ok.1 hregister
        rw [Catalog.has_iff, List.map_append, map_described_name]
        exact List.mem_append_right _ hdeclared
      obtain ⟨t, ht⟩ := Option.isSome_iff_exists.1 hhas
      obtain ⟨hname, hmem⟩ := Catalog.model?_name ht
      exact ⟨t, hc'.related_eq_ok.2 ⟨by rw [f.field_type, hname, h], hmem⟩, hname⟩
  · rw [f.field_type]
    exact (hscalar type).2 h

end Definition

/-- A model that is named like a word for a type, but for its last letter. -/
def dueLine : String := "  due :Dates required, # when"

def agenda : Definition := ⟨[
  ⟨"Task", none, [⟨"due", .relation "Dates", true, false, false, none, none⟩]⟩,
  ⟨"Dates", none, [⟨"day", .scalar .date, false, false, false, none, none⟩]⟩]⟩

def agendaLines : List String :=
  ["model Task \x7b", dueLine, "\x7d", "model Dates \x7b", "day: Date", "\x7d"]

theorem agenda_lines : splitAll '\n' ("\n".intercalate agendaLines).toList =
    agendaLines.map String.toList := by decide +kernel

theorem agenda_read : Definition.read ("\n".intercalate agendaLines) = .ok agenda := by
  have hrun : (agendaLines.map String.toList).foldlM Draft.readLine .start =
      .ok ⟨agenda.models.reverse, none⟩ := rfl
  rw [← agenda_lines] at hrun
  exact Definition.read_eq_ok.2 ⟨_, hrun, rfl⟩

theorem agenda_registers : ∃ c, agenda.register .empty = .ok c := ⟨_, rfl⟩

theorem dueLine_inside :
    Inside ("\n".intercalate agendaLines) dueLine.toList 0 ⟨"Task", none, []⟩ :=
  ⟨["model Task \x7b".toList], ["\x7d", "model Dates \x7b", "day: Date", "\x7d"].map String.toList,
    ⟨[], some ⟨"Task", none, []⟩⟩, agenda_lines, rfl, rfl, rfl⟩

theorem dueLine_field : FieldLine dueLine.toList "due" "Dates" ["required"] :=
  ⟨"due ".toList, "Dates required".toList, by decide +kernel, by decide +kernel, by decide +kernel⟩

theorem agenda_points_at_dates : Definition.read ("\n".intercalate agendaLines) = .ok agenda ∧
    "Dates" ∈ agenda.models.map ModelDefinition.name ∧
      Inside ("\n".intercalate agendaLines) dueLine.toList 0 ⟨"Task", none, []⟩ ∧
      FieldLine dueLine.toList "due" "Dates" ["required"] ∧
      ∃ c o f t, agenda.register .empty = .ok c ∧ c.model? "Task" = some o ∧
        o.field? "due" = some f ∧ c.related f = .ok t ∧ t.name = "Dates" := by
  have hdeclared : "Dates" ∈ agenda.models.map ModelDefinition.name := by decide
  have hkeyword : ∀ type : DataType, lowerText "Dates" ∉ type.keywords := by
    intro type
    cases type <;> decide
  obtain ⟨c, hregister⟩ := agenda_registers
  obtain ⟨o, f, ho, hf, hrelation, -⟩ := Definition.relation_iff_not_keyword .empty agenda_read
    hregister hdeclared dueLine_inside dueLine_field
  obtain ⟨t, ht, hname⟩ := hrelation.2 hkeyword
  exact ⟨agenda_read, hdeclared, dueLine_inside, dueLine_field, c, o, f, t, hregister, ho, hf, ht,
    hname⟩

/-- The same with the last letter left out. -/
def diary : Definition := ⟨[
  ⟨"Task", none, [⟨"due", .scalar .date, true, false, false, none, none⟩]⟩,
  ⟨"Date", none, [⟨"day", .scalar .date, false, false, false, none, none⟩]⟩]⟩

def appointmentLine : String := "  due :Date required, # when"

def diaryLines : List String :=
  ["model Task \x7b", appointmentLine, "\x7d", "model Date \x7b", "day: Date", "\x7d"]

theorem diary_lines : splitAll '\n' ("\n".intercalate diaryLines).toList =
    diaryLines.map String.toList := by decide +kernel

/-- A line that names the declared model `Date` for its type becomes a plain date. -/
theorem diary_misses_date : Definition.read ("\n".intercalate diaryLines) = .ok diary ∧
    "Date" ∈ diary.models.map ModelDefinition.name ∧
      Inside ("\n".intercalate diaryLines) appointmentLine.toList 0 ⟨"Task", none, []⟩ ∧
      FieldLine appointmentLine.toList "due" "Date" ["required"] ∧
      ∃ c o f, diary.register .empty = .ok c ∧ c.model? "Task" = some o ∧
        o.field? "due" = some f ∧ f.type = .scalar .date := by
  have hrun : (diaryLines.map String.toList).foldlM Draft.readLine .start =
      .ok ⟨diary.models.reverse, none⟩ := rfl
  have hinside : Inside ("\n".intercalate diaryLines) appointmentLine.toList 0 ⟨"Task", none, []⟩ :=
    ⟨["model Task \x7b".toList], ["\x7d", "model Date \x7b", "day: Date", "\x7d"].map String.toList,
      ⟨[], some ⟨"Task", none, []⟩⟩, diary_lines, rfl, rfl, rfl⟩
  have hline : FieldLine appointmentLine.toList "due" "Date" ["required"] :=
    ⟨"due ".toList, "Date required".toList, by decide +kernel, by decide +kernel, by decide +kernel⟩
  rw [← diary_lines] at hrun
  exact ⟨Definition.read_eq_ok.2 ⟨_, hrun, rfl⟩, by decide, hinside, hline, _, _, _, rfl, rfl, rfl,
    rfl⟩

end RecordModel
