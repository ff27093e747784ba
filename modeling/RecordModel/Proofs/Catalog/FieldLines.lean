import RecordModel.Proofs.Catalog.RoundTrip

/-!
# Lines inside of a model

While a text is read, models only grow: a line finishes a model, adds a field to the open one or
opens the next one, and nothing that was read is taken back. So a field line inside of a model
has its field at its place in the definition.

Results:
* `applyModifier_keeps`: what a modifier leaves alone.
* `Draft.Grows.readLine`: what one line keeps of a draft.
* `Inside.readField`: a line with a colon inside of a model is the line of a field of it.
-/
namespace RecordModel

open RecordModel.Text

/-! ## Field lines -/

theorem mem_of_mem_dropCommas {c : Char} {cs : List Char} (h : c ∈ dropCommas cs) : c ∈ cs := by
  rw [dropCommas, List.mem_reverse] at h
  exact List.mem_reverse.1 ((List.dropWhile_sublist _).mem h)

theorem mem_of_mem_trimChars {c : Char} {cs : List Char} (h : c ∈ trimChars cs) : c ∈ cs := by
  rw [trimChars, trimEnd, List.mem_reverse] at h
  have hstart : c ∈ trimStart cs := List.mem_reverse.1 ((List.dropWhile_sublist _).mem h)
  exact (List.dropWhile_sublist _).mem hstart

/-- The line of a field `name` with the word `type` for its type. -/
def FieldLine (raw : List Char) (name type : String) (modifiers : List String) : Prop :=
  ∃ left right, splitFirst ':' (trimChars (dropCommas (trimChars (stripComment raw)))) =
      some (left, right) ∧
    String.ofList (trimChars left) = name ∧ words (String.ofList right) = type :: modifiers

/-- A modifier leaves the name and the type of a field alone, and its default as well unless it is
a default itself. -/
theorem applyModifier_keeps {d d' : FieldDefinition} {word : String}
    (h : applyModifier d word = .ok d') : d'.name = d.name ∧ d'.type = d.type ∧
      (after "default=".toList word.toList = none → d'.default = d.default) := by
  obtain ⟨name, -, rfl⟩ | ⟨raw, v, hraw, -, rfl⟩ | ⟨required, unique, index, rfl⟩ :=
    applyModifier_cases h
  · exact ⟨rfl, rfl, fun _ => rfl⟩
  · refine ⟨rfl, rfl, fun hnone => ?_⟩
    rw [hnone] at hraw
    cases hraw
  · exact ⟨rfl, rfl, fun _ => rfl⟩

/-- What is read from a field line has its name and the type that its word stands for. -/
theorem FieldLine.readField_eq_ok {raw : List Char} {name type : String} {modifiers : List String}
    {f : FieldDefinition} (h : FieldLine raw name type modifiers)
    (hf : readField (trimChars (stripComment raw)) = .ok f) :
    f.name = name ∧ readType type = .ok f.type := by
  obtain ⟨left, right, hsplit, rfl, hwords⟩ := h
  obtain ⟨left', right', word, modifiers', read, hsplit', -, hwords', hread, hfold⟩ :=
    RecordModel.readField_eq_ok.1 hf
  cases hsplit.symm.trans hsplit'
  cases hwords.symm.trans hwords'
  have hkeeps := foldlM_keeps
    (P := fun d => d.name = String.ofList (trimChars left) ∧ d.type = read)
    (fun _ _ _ hd hone => ⟨(applyModifier_keeps hone).1.trans hd.1,
      (applyModifier_keeps hone).2.1.trans hd.2⟩) ⟨rfl, rfl⟩ hfold
  exact ⟨hkeeps.1, hread.trans (congrArg Except.ok hkeeps.2.symm)⟩

theorem colon_mem_of_split {line : List Char} {parts : List Char × List Char}
    (h : splitFirst ':' (trimChars (dropCommas line)) = some parts) : ':' ∈ line := by
  obtain ⟨hline, -⟩ := splitFirst_eq_some.1 h
  have hmem : ':' ∈ trimChars (dropCommas line) := by rw [hline]; simp
  exact mem_of_mem_dropCommas (mem_of_mem_trimChars hmem)

/-- A field has a colon behind its name. -/
theorem colon_mem_of_readField {line : List Char} {f : FieldDefinition}
    (h : readField line = .ok f) : ':' ∈ line := by
  obtain ⟨_, _, _, _, _, hsplit, -⟩ := readField_eq_ok.1 h
  exact colon_mem_of_split hsplit

/-! ## Drafts -/

namespace Draft

/-- Inside of a model, a line with a colon is a field. -/
theorem readLine_colon {d : Draft} {m : ModelDefinition} {raw : List Char}
    (hcurrent : d.current = some m) (hcolon : ':' ∈ trimChars (stripComment raw)) :
    d.readLine raw = (readField (trimChars (stripComment raw))).map fun f =>
      { d with current := some { m with fields := m.fields ++ [f] } } := by
  have hne : (trimChars (stripComment raw)).isEmpty = false := by
    rw [List.isEmpty_eq_false_iff]
    exact List.ne_nil_of_mem hcolon
  have hbrace : trimChars (stripComment raw) ≠ ['}'] := by
    intro h
    rw [h] at hcolon
    exact absurd hcolon (by decide)
  simp [readLine, hne, hcurrent, hbrace]

/-- The models of a draft, in order, the open one last. -/
def models (d : Draft) : List ModelDefinition := d.finished.reverse ++ d.current.toList

/-- The models of the first draft are those of the second one, up to more fields at their ends
and more models behind them. -/
def Grows (d d' : Draft) : Prop :=
  ∀ (i : Nat) (m : ModelDefinition), d.models[i]? = some m →
    ∃ m', d'.models[i]? = some m' ∧ m'.name = m.name ∧ m.fields <+: m'.fields

theorem Grows.of_append {d d' : Draft} {more : List ModelDefinition}
    (h : d'.models = d.models ++ more) : d.Grows d' := by
  intro i m hm
  obtain ⟨hi, -⟩ := List.getElem?_eq_some_iff.1 hm
  exact ⟨m, by rw [h, List.getElem?_append_left hi, hm], rfl, List.prefix_rfl⟩

theorem Grows.refl (d : Draft) : d.Grows d := .of_append (List.append_nil _).symm

theorem Grows.trans {d₁ d₂ d₃ : Draft} (h : d₁.Grows d₂) (h' : d₂.Grows d₃) : d₁.Grows d₃ := by
  intro i m hm
  obtain ⟨m₂, hm₂, hname₂, hfields₂⟩ := h i m hm
  obtain ⟨m₃, hm₃, hname₃, hfields₃⟩ := h' i m₂ hm₂
  exact ⟨m₃, hm₃, hname₃.trans hname₂, hfields₂.trans hfields₃⟩

/-- The open model may get another field. -/
theorem Grows.field {d : Draft} {m : ModelDefinition} (hcurrent : d.current = some m)
    (f : FieldDefinition) :
    d.Grows { d with current := some { m with fields := m.fields ++ [f] } } := by
  intro i o ho
  rw [models, hcurrent, Option.toList_some, List.getElem?_append] at ho
  rw [models, Option.toList_some, List.getElem?_append]
  split at ho
  · rename_i hi
    exact ⟨o, by rw [if_pos hi, ho], rfl, List.prefix_rfl⟩
  · rename_i hi
    obtain ⟨hplace, rfl⟩ : i - d.finished.reverse.length = 0 ∧ m = o := by
      simpa [List.getElem?_singleton] using ho
    refine ⟨{ m with fields := m.fields ++ [f] }, ?_, rfl, List.prefix_append _ _⟩
    rw [if_neg hi, hplace]
    rfl

/-- What one line does to a draft. -/
theorem Grows.readLine {d d' : Draft} {raw : List Char} (h : d.readLine raw = .ok d') :
    d.Grows d' := by
  obtain rfl | ⟨m, hcurrent, rfl⟩ | ⟨m, f, hcurrent, -, rfl⟩ | ⟨m, hcurrent, -, rfl⟩ :=
    readLine_cases h
  · exact .refl _
  · have hclosed : models ⟨m :: d.finished, none⟩ = d.models ++ [] := by
      simp [models, hcurrent]
    exact .of_append hclosed
  · exact .field hcurrent f
  · have hopened : models { d with current := some m } = d.models ++ [m] := by
      simp [models, hcurrent]
    exact .of_append hopened

/-- What all further lines do to a draft. -/
theorem Grows.readLines {d d' : Draft} {raws : List (List Char)}
    (h : raws.foldlM Draft.readLine d = .ok d') : d.Grows d' :=
  foldlM_keeps (P := d.Grows) (fun _ _ _ hd hline => hd.trans (.readLine hline))
    (.refl d) h

end Draft

/-! ## Definitions -/

/-- The line stands inside of the model at the place `i`, of which `m` has been read before. -/
def Inside (text : String) (raw : List Char) (i : Nat) (m : ModelDefinition) : Prop :=
  ∃ front back draft, splitAll '\n' text.toList = front ++ raw :: back ∧
    front.foldlM Draft.readLine .start = .ok draft ∧ draft.current = some m ∧
      i = draft.finished.length

/-- A line with a colon inside of a model is read as the next field of that model. -/
theorem Inside.readField {text : String} {raw : List Char} {i : Nat} {m : ModelDefinition}
    {d : Definition} (h : Inside text raw i m) (hread : Definition.read text = .ok d)
    (hcolon : ':' ∈ trimChars (stripComment raw)) :
    ∃ f, RecordModel.readField (trimChars (stripComment raw)) = .ok f ∧
      ∃ o, d.models[i]? = some o ∧ o.name = m.name ∧ o.fields[m.fields.length]? = some f := by
  obtain ⟨front, back, draft, hpieces, hfront, hcurrent, rfl⟩ := h
  obtain ⟨final, hrun, hfinish⟩ := Definition.read_eq_ok.1 hread
  obtain ⟨hclosed, -, rfl⟩ := Draft.finish_eq_ok.1 hfinish
  rw [hpieces, List.foldlM_append, hfront] at hrun
  replace hrun : (raw :: back).foldlM Draft.readLine draft = .ok final := hrun
  rw [List.foldlM_cons] at hrun
  obtain ⟨next, hline, hback⟩ := bind_eq_ok.1 hrun
  rw [Draft.readLine_colon hcurrent hcolon] at hline
  obtain ⟨f, hf, rfl⟩ := map_eq_ok.1 hline
  obtain ⟨o, ho, hname, more, hfields⟩ := Draft.Grows.readLines hback draft.finished.length
    { m with fields := m.fields ++ [f] } (by simp [Draft.models])
  refine ⟨f, hf, o, by simpa [Draft.models, hclosed] using ho, hname, ?_⟩
  simp [← hfields]

end RecordModel
