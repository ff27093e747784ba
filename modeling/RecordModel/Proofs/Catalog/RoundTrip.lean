import RecordModel.Proofs.Catalog.Reading

/-!
# Definitions that are written and read back

The lines of a definition, added to a draft one after the other, give the definition; a reader
that meets a written form of a line adds that line, and passes over what has no content. So a
written definition is read back whenever its names can be read. The other way round, only names
of that kind come out of the reader, whatever the text.

Results:
* `Draft.readLine_written`, `Draft.readLines_written`: one written line, and all of them.
* `Draft.add?_models`: what the lines of a definition add up to.
* `Draft.Named.readLine`: the names of a draft can be read.
* `Definition.read_written`: which written definitions are read back.
-/
namespace RecordModel

open RecordModel.Text

/-! ## Drafts -/

namespace Draft

/-- What a line adds to a draft, where it may stand. -/
def add? (d : Draft) : Line → Option Draft
  | .header name table =>
    match d.current with
    | none => some { d with current := some ⟨name, table, []⟩ }
    | some _ => none
  | .field f =>
    d.current.map fun m => { d with current := some { m with fields := m.fields ++ [f] } }
  | .closing => d.current.map fun m => ⟨m :: d.finished, none⟩

theorem add?_fields (finished : List ModelDefinition) (m : ModelDefinition)
    (fs : List FieldDefinition) : (fs.map Line.field).foldlM add? ⟨finished, some m⟩ =
      some ⟨finished, some { m with fields := m.fields ++ fs }⟩ := by
  induction fs generalizing m with
  | nil => simp
  | cons f fs ih =>
    rw [List.map_cons, List.foldlM_cons]
    refine (ih { m with fields := m.fields ++ [f] }).trans ?_
    simp

theorem add?_model (finished : List ModelDefinition) (m : ModelDefinition) :
    m.lines.foldlM add? ⟨finished, none⟩ = some ⟨m :: finished, none⟩ := by
  rw [ModelDefinition.lines, List.foldlM_cons]
  show (m.fields.map Line.field ++ [Line.closing]).foldlM add?
    ⟨finished, some ⟨m.name, m.table, []⟩⟩ = _
  rw [List.foldlM_append, add?_fields]
  rfl

/-- The lines of models add up to these models. -/
theorem add?_models (finished models : List ModelDefinition) :
    (models.flatMap ModelDefinition.lines).foldlM add? ⟨finished, none⟩ =
      some ⟨models.reverse ++ finished, none⟩ := by
  induction models generalizing finished with
  | nil => rfl
  | cons m models ih =>
    rw [List.flatMap_cons, List.foldlM_append, add?_model]
    refine (ih (m :: finished)).trans ?_
    simp

/-! ## Reading what was written -/

theorem readLine_written {d d' : Draft} {l : Line} (hadd : d.add? l = some d') (hl : l.Named)
    {front core back : List Char} (hfront : Gap front) (hcore : l.Forms core)
    (hback : LineEnd back) : d.readLine (front ++ core ++ back) = .ok d' := by
  obtain ⟨c, rest, hcons, -⟩ := (hcore.solid hl).head
  have hne : core.isEmpty = false := by rw [hcons]; rfl
  unfold readLine
  rw [trimChars_stripComment hl hfront hcore hback]
  dsimp only
  rw [hne]
  cases hcurrent : d.current with
  | none =>
    cases l with
    | header name table =>
      rw [add?, hcurrent] at hadd
      cases hadd
      simp [readHeader_forms hcore hl, Except.map]
    | field f => rw [add?, hcurrent] at hadd; cases hadd
    | closing => rw [add?, hcurrent] at hadd; cases hadd
  | some m =>
    cases l with
    | header name table => rw [add?, hcurrent] at hadd; cases hadd
    | field f =>
      -- a field holds a colon, so that it is not taken for the closing brace
      have hcolon : ':' ∈ core := by cases hcore; simp
      have hbrace : core ≠ ['}'] := by
        rintro rfl
        exact absurd hcolon (by decide)
      rw [add?, hcurrent] at hadd
      cases hadd
      simp [hbrace, readField_forms hcore hl, Except.map]
    | closing =>
      rw [add?, hcurrent] at hadd
      cases hadd
      cases hcore
      rfl

theorem readLine_blank {raw : List Char} (h : LineEnd raw) (d : Draft) :
    d.readLine raw = .ok d := by
  unfold readLine
  rw [trimChars_of_blanks h.blanks]
  rfl

/-- All lines, and whatever stands between them. -/
theorem readLines_written {ls : List Line} {raws : List (List Char)} (h : WrittenLines ls raws)
    (hls : ∀ l ∈ ls, l.Named) {d d' : Draft} (hadd : ls.foldlM add? d = some d') :
    raws.foldlM readLine d = .ok d' := by
  induction h generalizing d with
  | nil => cases hadd; rfl
  | blank hend _ ih =>
    rw [List.foldlM_cons, readLine_blank hend]
    exact ih hls hadd
  | line hfront hcore hback _ ih =>
    rw [List.forall_mem_cons] at hls
    rw [List.foldlM_cons] at hadd
    obtain ⟨d₁, hone, hrest⟩ := Option.bind_eq_some_iff.1 hadd
    rw [List.foldlM_cons, readLine_written hone hls.1 hfront hcore hback]
    exact ih hls.2 hrest

end Draft

/-! ## Names that are read -/

theorem readType_named {word : String} {type : FieldType} (h : readType word = .ok type) :
    ∀ target, type = .relation target →
      isIdentifier target = true ∧ ∀ t : DataType, lowerText target ∉ t.keywords := by
  rintro target rfl
  unfold readType at h
  split at h
  · cases h
  · rename_i hscalar
    split at h
    · rename_i hname
      cases h
      exact ⟨hname, scalarType?_eq_none.1 hscalar⟩
    · cases h

/-- What one modifier does: it gives a column or a default, or it is a flag. -/
theorem applyModifier_cases {d d' : FieldDefinition} {word : String}
    (h : applyModifier d word = .ok d') :
    (∃ name, isIdentifier name = true ∧ d' = { d with column := some name }) ∨
    (∃ raw v, after "default=".toList word.toList = some raw ∧ readDefault d raw = .ok v ∧
      d' = { d with default := some v }) ∨
    ∃ required unique index,
      d' = { d with required := required, unique := unique, index := index } := by
  unfold applyModifier at h
  split at h
  · dsimp only at h
    split at h
    · rename_i hname
      cases h
      exact .inl ⟨_, hname, rfl⟩
    · cases h
  split at h
  · rename_i raw hraw
    obtain ⟨v, hv, rfl⟩ := map_eq_ok.1 h
    exact .inr (.inl ⟨raw, v, hraw, hv, rfl⟩)
  dsimp only at h
  split at h
  · cases h; exact .inr (.inr ⟨_, _, _, rfl⟩)
  split at h
  · cases h; exact .inr (.inr ⟨_, _, _, rfl⟩)
  split at h
  · cases h; exact .inr (.inr ⟨_, _, _, rfl⟩)
  split at h
  · cases h; exact .inr (.inr ⟨_, _, _, rfl⟩)
  · cases h

theorem applyModifier_named {d d' : FieldDefinition} {word : String} (hd : d.Named)
    (h : applyModifier d word = .ok d') : d'.Named := by
  obtain ⟨hname, htarget, hcolumn⟩ := hd
  obtain ⟨name, hid, rfl⟩ | ⟨raw, v, -, -, rfl⟩ | ⟨required, unique, index, rfl⟩ :=
    applyModifier_cases h
  · exact ⟨hname, htarget, by simpa using hid⟩
  · exact ⟨hname, htarget, hcolumn⟩
  · exact ⟨hname, htarget, hcolumn⟩

theorem readField_named {line : List Char} {d : FieldDefinition} (h : readField line = .ok d) :
    d.Named := by
  obtain ⟨left, right, word, modifiers, type, -, hname, -, htype, hmodifiers⟩ := readField_eq_ok.1 h
  have hplain : FieldDefinition.Named
      ⟨String.ofList (trimChars left), type, false, false, false, none, none⟩ :=
    ⟨hname, readType_named htype, by simp⟩
  exact foldlM_keeps (P := FieldDefinition.Named) (fun _ _ _ => applyModifier_named) hplain
    hmodifiers

theorem readHeader_named {line : List Char} {m : ModelDefinition} (h : readHeader line = .ok m) :
    m.Named := by
  obtain ⟨_, _, -, -, -, -, hname, htable, hfields⟩ := readHeader_eq_ok.1 h
  exact ⟨hname, htable, by simp [hfields]⟩

namespace Draft

/-- The names of a draft can be read. -/
structure Named (d : Draft) : Prop where
  finished : ∀ m ∈ d.finished, m.Named
  current : ∀ m ∈ d.current, m.Named

/-- What one line does: nothing, or it closes the open model, adds a field to it, or opens the
next one. -/
theorem readLine_cases {d d' : Draft} {raw : List Char} (h : d.readLine raw = .ok d') :
    d' = d ∨
    (∃ m, d.current = some m ∧ d' = ⟨m :: d.finished, none⟩) ∨
    (∃ m f, d.current = some m ∧ readField (trimChars (stripComment raw)) = .ok f ∧
      d' = { d with current := some { m with fields := m.fields ++ [f] } }) ∨
    ∃ m, d.current = none ∧ readHeader (trimChars (stripComment raw)) = .ok m ∧
      d' = { d with current := some m } := by
  unfold Draft.readLine at h
  dsimp only at h
  split at h
  · cases h
    exact .inl rfl
  split at h
  · rename_i m hcurrent
    split at h
    · cases h
      exact .inr (.inl ⟨m, hcurrent, rfl⟩)
    · obtain ⟨f, hf, rfl⟩ := map_eq_ok.1 h
      exact .inr (.inr (.inl ⟨m, f, hcurrent, hf, rfl⟩))
  · rename_i hcurrent
    obtain ⟨m, hm, rfl⟩ := map_eq_ok.1 h
    exact .inr (.inr (.inr ⟨m, hcurrent, hm, rfl⟩))

theorem Named.readLine {d d' : Draft} {raw : List Char} (hd : d.Named)
    (h : d.readLine raw = .ok d') : d'.Named := by
  obtain rfl | ⟨m, hcurrent, rfl⟩ | ⟨m, f, hcurrent, hf, rfl⟩ | ⟨m, -, hm, rfl⟩ := readLine_cases h
  · exact hd
  · exact ⟨List.forall_mem_cons.2 ⟨hd.current m hcurrent, hd.finished⟩, by simp⟩
  · have hopen : m.Named := hd.current m hcurrent
    have hfields : ∀ g ∈ m.fields ++ [f], g.Named :=
      List.forall_mem_append.2 ⟨hopen.fields, List.forall_mem_singleton.2 (readField_named hf)⟩
    refine ⟨hd.finished, ?_⟩
    intro o ho
    cases ho
    exact ⟨hopen.name, hopen.table, hfields⟩
  · refine ⟨hd.finished, ?_⟩
    intro o ho
    cases ho
    exact readHeader_named hm

end Draft

/-! ## Definitions -/

theorem Draft.readLines_eq_ok {raws : List (List Char)} {d d' : Draft} {number : Nat} :
    d.readLines number raws = .ok d' ↔ raws.foldlM Draft.readLine d = .ok d' := by
  induction raws generalizing d number with
  | nil =>
    rw [Draft.readLines, List.foldlM_nil]
    constructor
    · intro h; cases h; rfl
    · intro h; cases h; rfl
  | cons raw raws ih =>
    rw [Draft.readLines, List.foldlM_cons]
    cases d.readLine raw with
    | ok d₁ => exact ih
    | error fault =>
      constructor
      · intro h; cases h
      · intro h; cases h

theorem Draft.finish_eq_ok {draft : Draft} {d : Definition} :
    draft.finish = .ok d ↔
      draft.current = none ∧ draft.finished ≠ [] ∧ d = ⟨draft.finished.reverse⟩ := by
  unfold Draft.finish
  split
  · rename_i m hcurrent
    simp [hcurrent]
  · rename_i hcurrent
    split
    · rename_i hempty
      simp [List.isEmpty_iff.1 hempty]
    · rename_i hne
      rw [List.isEmpty_iff] at hne
      simp [hcurrent, hne, eq_comm]

/-- A text is read through the pieces between its line feeds. -/
theorem Definition.read_eq_ok {text : String} {d : Definition} :
    Definition.read text = .ok d ↔
      ∃ draft, (splitAll '\n' text.toList).foldlM Draft.readLine .start = .ok draft ∧
        draft.finish = .ok d := by
  have hreturn : ∀ (d : Draft) line, d.readLine (dropReturn line) = d.readLine line := by
    intro d line
    unfold Draft.readLine
    rw [trimChars_dropReturn]
  have hlines : (lines text.toList).foldlM Draft.readLine .start =
      (splitAll '\n' text.toList).foldlM Draft.readLine .start :=
    foldlM_lines (fun _ => rfl) hreturn text.toList .start
  rw [← hlines, Definition.read_eq, Definition.readText]
  constructor
  · intro h
    split at h
    · rename_i draft hrun
      exact ⟨draft, Draft.readLines_eq_ok.1 hrun, h⟩
    · cases h
  · rintro ⟨draft, hrun, hfinish⟩
    rw [Draft.readLines_eq_ok.2 hrun]
    exact hfinish

/-- Whatever is read has proper names, and at least one model. -/
theorem Definition.read_named {text : String} {d : Definition} (h : Definition.read text = .ok d) :
    d.models ≠ [] ∧ ∀ m ∈ d.models, m.Named := by
  obtain ⟨draft, hrun, hfinish⟩ := Definition.read_eq_ok.1 h
  have hstart : Draft.start.Named := ⟨by simp [Draft.start], by simp [Draft.start]⟩
  have hdraft := foldlM_keeps (P := Draft.Named) (fun _ _ _ => Draft.Named.readLine) hstart hrun
  obtain ⟨-, hne, rfl⟩ := Draft.finish_eq_ok.1 hfinish
  refine ⟨by simpa using hne, ?_⟩
  intro m hm
  exact hdraft.finished m (List.mem_reverse.1 hm)

/-- A definition without defaults can be written, and each of its written forms is read back
exactly if there is a model and the names can be read, whatever the layout, the order of the
modifiers and the comments. -/
theorem Definition.read_written {d : Definition}
    (hdefault : ∀ m ∈ d.models, ∀ f ∈ m.fields, f.default = none) :
    (∃ text, d.Written text) ∧ ∀ text, d.Written text →
      (Definition.read text = .ok d ↔ d.models ≠ [] ∧ ∀ m ∈ d.models, m.Named) := by
  refine ⟨Definition.exists_written hdefault, ?_⟩
  intro text h
  refine ⟨Definition.read_named, ?_⟩
  rintro ⟨hne, hnamed⟩
  obtain ⟨raws, hraws, htext⟩ := h
  have hlines : ∀ l ∈ d.models.flatMap ModelDefinition.lines, l.Named := by
    intro l hl
    obtain ⟨m, hm, hl⟩ := List.mem_flatMap.1 hl
    exact (hnamed m hm).lines l hl
  have hadd : (d.models.flatMap ModelDefinition.lines).foldlM Draft.add? .start =
      some ⟨d.models.reverse ++ [], none⟩ := Draft.add?_models [] d.models
  have hrun := Draft.readLines_written hraws hlines hadd
  have hpieces : splitAll '\n' text.toList = raws := by
    rw [htext]
    refine splitAll_intercalate (hraws.ne_nil ?_) (hraws.not_mem hlines)
    obtain ⟨m, models, hmodels⟩ := List.exists_cons_of_ne_nil hne
    simp [hmodels, ModelDefinition.lines]
  rw [Definition.read_eq_ok, hpieces]
  exact ⟨_, hrun, Draft.finish_eq_ok.2 ⟨rfl, by simpa using hne, by simp⟩⟩

/-- Names that look like keywords, and a relation of a model to itself. -/
def leaflet : Definition := ⟨[
  ⟨"model", some "table", [⟨"table", .scalar .text, true, true, false, none, none⟩,
    ⟨"required", .relation "model", true, false, true, some "column", none⟩]⟩,
  ⟨"Note", none, []⟩]⟩

def leafletLines : List String :=
  ["// one # two", "", "\tmodel\tmodel  table table\x7b \r", "table :TEXT unique Required,# first",
    "  required:\tmodel column=column not_null\tindex , // last", "\x7d", "model Note \x7b",
    " \t\x7d # end"]

theorem leaflet_written : leaflet.Written ("\n".intercalate leafletLines) := by
  have hnone : Gap [] := by decide
  have hspace : Gap [' '] := by decide
  have htab : Gap ['\t'] := by decide
  have hspaces : Gap [' ', ' '] := by decide
  have hspaceTab : Gap [' ', '\t'] := by decide
  have hne (c : Char) (cs : List Char) : c :: cs ≠ [] := List.cons_ne_nil c cs
  have hmodel := @Line.Forms.header "model" (some "table") _ []
    (.cons htab (hne _ _) (.cons hspaces (hne _ _) (.cons hspace (hne _ _) .nil))) hnone
  have htable := @Line.Forms.field ⟨"table", .scalar .text, true, true, false, none, none⟩
    [' '] [] _ [','] "TEXT" [.unique, .required] ["unique", "Required"] rfl hspace hnone
    (show lowerText "TEXT" ∈ DataType.keywords .text by decide) (by decide)
    (.cons (.keyword (by decide)) (.cons (.keyword (by decide)) .nil))
    (.cons hspace (hne _ _) (.cons hspace (hne _ _) .nil)) (.inr ⟨[], hnone, rfl⟩)
  have hrequired := @Line.Forms.field
    ⟨"required", .relation "model", true, false, true, some "column", none⟩
    [] ['\t'] _ [' ', ','] "model" [.column "column", .required, .index]
    ["column=column", "not_null", "index"] rfl hnone htab rfl (by decide)
    (.cons .column (.cons (.keyword (by decide)) (.cons (.keyword (by decide)) .nil)))
    (.cons hspace (hne _ _) (.cons hspace (hne _ _) (.cons htab (hne _ _) .nil)))
    (.inr ⟨[' '], hspace, rfl⟩)
  have hnote := @Line.Forms.header "Note" none _ [' '] (.cons hspace (hne _ _) .nil) hspace
  have hone : LineEnd ([] ++ (['/', '/'] ++ " one # two".toList)) :=
    .comment hnone (by decide) (by decide)
  have hfirst : LineEnd ([] ++ (['#'] ++ " first".toList)) :=
    .comment hnone (by decide) (by decide)
  have hlast : LineEnd ([' '] ++ (['/', '/'] ++ " last".toList)) :=
    .comment hspace (by decide) (by decide)
  have hend : LineEnd ([' '] ++ (['#'] ++ " end".toList)) :=
    .comment hspace (by decide) (by decide)
  refine ⟨_, .blank hone (.blank (.blank hnone) (.line htab hmodel (.carriageReturn hspace)
    (.line hnone htable hfirst (.line hspaces hrequired hlast (.line hnone .closing (.blank hnone)
      (.line hnone hnote (.blank hnone) (.line hspaceTab .closing hend .nil))))))), ?_⟩
  refine String.toList_intercalate.trans (congrArg (['\n'].intercalate ·) ?_)
  decide +kernel

theorem leaflet_named : ∀ m ∈ leaflet.models, m.Named := by
  have htable : FieldDefinition.Named ⟨"table", .scalar .text, true, true, false, none, none⟩ :=
    ⟨by decide, by simp, by simp⟩
  have hrequired : FieldDefinition.Named
      ⟨"required", .relation "model", true, false, true, some "column", none⟩ := by
    refine ⟨by decide, ?_, ?_⟩
    · intro target htarget
      cases htarget
      refine ⟨by decide, ?_⟩
      intro type
      cases type <;> decide
    · intro column hcolumn
      cases hcolumn
      decide
  have hmodel : ∀ t ∈ some "table", isIdentifier t = true := by
    intro t ht
    cases ht
    decide
  refine List.forall_mem_cons.2 ⟨⟨by decide, hmodel, ?_⟩, ?_⟩
  · exact List.forall_mem_cons.2 ⟨htable, List.forall_mem_singleton.2 hrequired⟩
  · exact List.forall_mem_singleton.2 ⟨by decide, by simp, by simp⟩

theorem leaflet_read : (∀ m ∈ leaflet.models, ∀ f ∈ m.fields, f.default = none) ∧
    leaflet.Written ("\n".intercalate leafletLines) ∧
      Definition.read ("\n".intercalate leafletLines) = .ok leaflet := by
  have hdefault : ∀ m ∈ leaflet.models, ∀ f ∈ m.fields, f.default = none := by simp [leaflet]
  have hne : leaflet.models ≠ [] := List.cons_ne_nil _ _
  obtain ⟨-, hread⟩ := Definition.read_written hdefault
  exact ⟨hdefault, leaflet_written, (hread _ leaflet_written).2 ⟨hne, leaflet_named⟩⟩

end RecordModel
