import RecordModel.Proofs.Catalog.Names
import RecordModel.Proofs.Query.Scoping

/-!
# Columns that are written

An insertion and an update name one column for each entry of their payload. A key of a payload may
be the name of a field or its column, so two keys can stand for one field, and then the statement
names its column twice. `columnsWritten` reads the columns off the lexemes of a statement.

Results:
* `Compiler.plan_columnsWritten`: the columns in the text of a plan are those it assigns to.
* `Model.WellFormed.columns_nodup_iff`: keys stand for different columns exactly if no field is
  denoted both by its name and by its column.
* `run_columns_nodup_iff`: so a statement names no column twice exactly if its payload denotes no
  field twice.
-/
namespace RecordModel

open RecordModel.Text RecordModel.Number RecordModel.Sql

/-! ## Reading columns -/

namespace Sql

/-- Words with commas between them, up to the first that no comma follows. -/
def wordList : List Lexeme → List String
  | .word w :: .mark ',' :: rest => w :: wordList rest
  | .word w :: _ => [w]
  | _ => []

/-- The words of settings `w = ?` with commas between them. -/
def settingList : List Lexeme → List String
  | .word w :: .mark '=' :: .mark '?' :: .mark ',' :: rest => w :: settingList rest
  | .word w :: .mark '=' :: .mark '?' :: _ => [w]
  | _ => []

/-- The columns in front of the values of an INSERT statement, or in the SET list of an UPDATE
statement. -/
def columnsWritten (sql : String) : List String :=
  match lexemes sql with
  | .word v :: .word w :: .name _ :: .mark '(' :: rest =>
    if v = "INSERT" ∧ w = "INTO" then wordList rest else []
  | .word v :: .name _ :: .word w :: rest =>
    if v = "UPDATE" ∧ w = "SET" then settingList rest else []
  | _ => []

theorem wordList_intercalate {ws : List String} (hne : ws ≠ []) {tail : List Lexeme}
    (htail : ∀ rest, tail ≠ .mark ',' :: rest) :
    wordList ([.mark ','].intercalate (ws.map fun w => [.word w]) ++ tail) = ws := by
  induction ws with
  | nil => exact absurd rfl hne
  | cons w ws ih =>
    cases ws with
    | nil =>
      rw [List.map_singleton, List.intercalate_singleton, List.singleton_append, wordList]
      exact htail
    | cons v ws =>
      have hrest := ih (by simp)
      rw [List.map_cons] at hrest
      rw [List.map_cons, List.map_cons, List.intercalate_cons_cons]
      simp only [List.cons_append, List.nil_append, wordList, hrest]

theorem settingList_intercalate {ws : List String} (hne : ws ≠ []) {tail : List Lexeme}
    (htail : ∀ rest, tail ≠ .mark ',' :: rest) :
    settingList ([.mark ','].intercalate (ws.map fun w => [.word w, .mark '=', .mark '?']) ++ tail)
      = ws := by
  induction ws with
  | nil => exact absurd rfl hne
  | cons w ws ih =>
    cases ws with
    | nil =>
      rw [List.map_singleton, List.intercalate_singleton]
      simp only [List.cons_append, List.nil_append]
      rw [settingList]
      exact htail
    | cons v ws =>
      have hrest := ih (by simp)
      rw [List.map_cons] at hrest
      rw [List.map_cons, List.map_cons, List.intercalate_cons_cons]
      simp only [List.cons_append, List.nil_append, settingList, hrest]

/-- What follows a text may leave a quote open. -/
theorem Lexes.lexemes_append {a b : String} {ls : List Lexeme} (ha : Lexes a ls)
    (hb : Front b.toList) : Sql.lexemes (a ++ b) = ls ++ Sql.lexemes b := by
  rw [Sql.lexemes, String.toList_append, lexemesOf_append ha.closed (.inr hb), ← ha.lexemes]
  rfl

end Sql

theorem Insertion.columnsWritten_text {i : Insertion} (hne : i.assignments ≠ [])
    (hcolumns : ∀ a ∈ i.assignments, isIdentifier a.column = true) (mark : Value → String) :
    columnsWritten (i.text mark) = i.assignments.map Assignment.column := by
  have hwords : List.Forall₂ Lexes (i.assignments.map Assignment.column)
      ((i.assignments.map Assignment.column).map fun c => [.word c]) := by
    rw [List.forall₂_map_right_iff, List.forall₂_same]
    exact List.forall_mem_map.2 fun a ha => lexes_identifier (hcolumns a ha)
  have hlist := Lexes.join (by decide : Lexes ", " [.mark ',']) (by decide) (by decide) hwords
  have htable := (by decide : Lexes "INSERT INTO " [.word "INSERT", .word "INTO"]).behind
    (lexes_quoteName i.table) (by decide)
  have hopen := htable.before (by decide : Lexes " (" [.mark '(']) (by decide)
  have hfront := hopen.behind hlist (back_append (by decide) _)
  have hclose (rest : String) : lexemes (")" ++ rest) = .mark ')' :: lexemes rest := by
    rw [lexemes, String.toList_append, lexemesOf_append (by decide) (.inl (by decide))]
    rfl
  have htext : i.text mark = "INSERT INTO " ++ quoteName i.table ++ " (" ++
      join ", " (i.assignments.map Assignment.column) ++ (")" ++ (" VALUES (" ++
        (join ", " (i.assignments.map fun a => mark a.value) ++ (") RETURNING " ++ idField)))) := by
    have hvalues : ") VALUES (" = ")" ++ " VALUES (" := by decide
    unfold Insertion.text
    simp only [String.append_assoc, hvalues, -String.reduceAppend]
  have hmark : Front ")".toList := by decide
  rw [columnsWritten, htext, hfront.lexemes_append (front_append hmark (by decide) _), hclose]
  simp only [List.cons_append, List.nil_append, and_self, if_true]
  exact wordList_intercalate (by simpa using hne) (by simp)

theorem Target.columnsWritten_updateText {t : Target} {assignments : List Assignment}
    (hne : assignments ≠ []) (hcolumns : ∀ a ∈ assignments, isIdentifier a.column = true)
    {clause : String} (hclause : clause = "" ∨ ∃ rest, clause = "WHERE " ++ rest) :
    columnsWritten (t.updateText (assignments.map (Assignment.text fun _ => "?")) clause) =
      assignments.map Assignment.column := by
  have hfront := lexes_update hcolumns t.table
  have hnonempty : assignments.map Assignment.column ≠ [] := by simpa using hne
  have hcondition : t.condition clause = "" ∨ ∃ rest, t.condition clause = "WHERE " ++ rest := by
    unfold Target.condition
    split
    · right
      simp only [String.append_assoc]
      exact ⟨_, rfl⟩
    · exact hclause
  unfold Target.updateText withClause
  rcases hcondition with hempty | ⟨rest, hrest⟩
  · have hnone : "".isEmpty = true := by simp
    have hend : ∀ rest, ([] : List Lexeme) ≠ .mark ',' :: rest := by simp
    have hlist := settingList_intercalate hnonempty hend
    rw [List.append_nil] at hlist
    rw [hempty, hnone, if_pos rfl, columnsWritten, hfront.lexemes]
    simp only [List.cons_append, List.nil_append, and_self, if_true]
    exact hlist
  · have hword : lexemes (" WHERE " ++ rest) = .word "WHERE" :: lexemes rest := by
      rw [lexemes, String.toList_append, lexemesOf_append (by decide) (.inl (by decide))]
      rfl
    have hblank : " " ++ ("WHERE " ++ rest) = " WHERE " ++ rest := by
      rw [← String.append_assoc]
      rfl
    have hsome : ("WHERE " ++ rest).isEmpty = false := by simp
    have hfronts : Front " WHERE ".toList := by decide
    rw [hrest, hsome, if_neg (by simp), String.append_assoc, hblank, columnsWritten,
      hfront.lexemes_append (front_append hfronts (by decide) _), hword]
    simp only [List.cons_append, List.nil_append, and_self, if_true]
    exact settingList_intercalate hnonempty (by simp)

theorem clauseText_cases (tests : Comparison → Test) (nodes : List Node) :
    clauseText tests nodes = "" ∨ ∃ rest, clauseText tests nodes = "WHERE " ++ rest := by
  unfold clauseText
  split
  · exact .inl rfl
  · exact .inr ⟨_, rfl⟩

/-! ## Columns of keys -/

/-- The column that a key of a payload stands for. -/
def Model.columnOf? (m : Model) (key : String) : Option String := (m.field? key).map Field.column

/-- Two keys of one column are the same, or one is the name of its field and the other one is the
column. -/
theorem Model.WellFormed.eq_or_of_columnOf?_eq {m : Model} (h : m.WellFormed) {x y : String}
    {f g : Field} (hx : m.field? x = some f) (hy : m.field? y = some g)
    (heq : m.columnOf? x = m.columnOf? y) :
    x = y ∨ f.name = x ∧ f.column = y ∧ (∀ g ∈ m.fields, g.name ≠ y) ∨
      f.name = y ∧ f.column = x ∧ ∀ g ∈ m.fields, g.name ≠ x := by
  rw [Model.columnOf?, Model.columnOf?, hx, hy] at heq
  obtain ⟨hf, hfx⟩ := h.field?_eq_some.1 hx
  obtain ⟨hg, hgy⟩ := h.field?_eq_some.1 hy
  have hsame : f = g := List.inj_on_of_nodup_map h.columns_nodup hf hg (Option.some.inj heq)
  subst hsame
  rcases hfx with hfx | ⟨hfx, hnonex⟩
  · rcases hgy with hgy | ⟨hgy, hnoney⟩
    · exact .inl (hfx.symm.trans hgy)
    · exact .inr (.inl ⟨hfx, hgy, hnoney⟩)
  · rcases hgy with hgy | ⟨hgy, -⟩
    · exact .inr (.inr ⟨hgy, hfx, hnonex⟩)
    · exact .inl (hfx.symm.trans hgy)

/-- Keys stand for different columns exactly if they are different and no field is denoted both by
its name and by its column. -/
theorem Model.WellFormed.columns_nodup_iff {m : Model} (h : m.WellFormed) {keys : List String}
    (hfound : ∀ key ∈ keys, ∃ f, m.field? key = some f) :
    (keys.map m.columnOf?).Nodup ↔ keys.Nodup ∧ ∀ f ∈ m.fields, f.name ≠ f.column →
      f.name ∈ keys → f.column ∈ keys → ∃ g ∈ m.fields, g.name = f.column := by
  constructor
  · intro hnodup
    refine ⟨hnodup.of_map, fun f hf hne hname hcolumn => ?_⟩
    by_contra hnone
    push Not at hnone
    have hfirst : m.field? f.name = some f := h.field?_eq_some.2 ⟨hf, .inl rfl⟩
    have hsecond : m.field? f.column = some f := h.field?_eq_some.2 ⟨hf, .inr ⟨rfl, hnone⟩⟩
    have hsame : m.columnOf? f.name = m.columnOf? f.column := by
      rw [Model.columnOf?, Model.columnOf?, hfirst, hsecond]
    exact hne (List.inj_on_of_nodup_map hnodup hname hcolumn hsame)
  · rintro ⟨hkeys, hapart⟩
    refine hkeys.map_on fun x hx y hy heq => ?_
    obtain ⟨f, hf⟩ := hfound x hx
    obtain ⟨g, hg⟩ := hfound y hy
    by_contra hne
    rcases h.eq_or_of_columnOf?_eq hf hg heq with rfl | ⟨rfl, rfl, hnone⟩ | ⟨rfl, rfl, hnone⟩
    · exact hne rfl
    · obtain ⟨o, ho, hname⟩ := hapart f (Model.field?_mem hf) hne hx hy
      exact hnone o ho hname
    · obtain ⟨o, ho, hname⟩ := hapart f (Model.field?_mem hf) (Ne.symm hne) hy hx
      exact hnone o ho hname

namespace Compiler

variable {k : Compiler} {op : Operation}

/-- Each key of a payload stands for the column that its value is assigned to. -/
theorem assignments_columns {kind : WriteKind} {payload : FieldMap} {assignments : List Assignment}
    (h : k.assignments kind payload = .ok assignments) :
    (assignments.map Assignment.column).map some = payload.keys.map k.model.columnOf? := by
  unfold Compiler.assignments at h
  split at h
  · cases h
  unfold FieldMap.keys
  generalize payload.entries = entries at h
  induction entries generalizing assignments with
  | nil => cases h; rfl
  | cons e entries ih =>
    rw [List.mapM_cons] at h
    obtain ⟨a, ha, h⟩ := bind_eq_ok.1 h
    obtain ⟨f, hf, ha⟩ := bind_eq_ok.1 ha
    obtain ⟨rest, hrest, h⟩ := bind_eq_ok.1 h
    cases ha
    cases h
    have hcolumn : k.model.columnOf? e.1 = some f.column := by
      rw [Model.columnOf?, Model.getField_ok.1 hf]
      rfl
    rw [List.map_cons, List.map_cons, List.map_cons, List.map_cons, ih hrest, hcolumn]

variable (hc : k.catalog.WellFormed) (hm : k.model ∈ k.catalog.models)

include hc hm

/-- The columns in the text of a plan are those it assigns to, and they are what the keys of the
payload stand for. -/
theorem plan_columnsWritten {payload : FieldMap}
    (hop : op = .insert payload ∨ op = .update payload) {p : Plan} (h : k.plan op = .ok p) :
    (columnsWritten (p.text k.dialect (fun _ => "?")
      (clauseText (fun l => (k.test l).spread) (pruneAll (op.nodes k.query.condition))))).map some =
        payload.keys.map k.model.columnOf? := by
  have hidentifiers {kind : WriteKind} {assignments : List Assignment}
      (ha : k.assignments kind payload = .ok assignments) :
      ∀ a ∈ assignments, isIdentifier a.column = true := by
    intro a hmem
    obtain ⟨f, hf, hcolumn⟩ := (assignments_ok ha).2 a hmem
    rw [hcolumn]
    exact ((hc.models _ hm).identifiers f hf).2
  rcases hop with rfl | rfl
  · obtain ⟨assignments, ha, h⟩ := bind_eq_ok.1 h
    cases h
    rw [Plan.text, Insertion.columnsWritten_text (assignments_ne_nil ha) (hidentifiers ha)]
    exact assignments_columns ha
  · obtain ⟨assignments, ha, h⟩ := bind_eq_ok.1 h
    obtain ⟨t, -, h⟩ := bind_eq_ok.1 h
    cases h
    rw [Plan.text, Target.columnsWritten_updateText (assignments_ne_nil ha) (hidentifiers ha)
      (clauseText_cases _ _)]
    exact assignments_columns ha

end Compiler

/-- A compiled insertion or update names the columns that the keys of its payload stand for, in the
payload's order. It names no column twice exactly if the keys are different, as they are in any
map that is filled by insertion, and no field is denoted both by its name and by its column; a
column that is the name of a field denotes that field. -/
theorem run_columns_nodup_iff {c : Catalog} (hc : c.Reachable) {d : Dialect} {q : Query}
    {k : Compiler} (hk : Compiler.new c d q = .ok k) {op : Operation} {payload : FieldMap}
    (hop : op = .insert payload ∨ op = .update payload) {st : Statement}
    (hst : k.run op = .ok st) :
    (columnsWritten st.sql).map some = payload.keys.map k.model.columnOf? ∧
      ((columnsWritten st.sql).Nodup ↔ payload.keys.Nodup ∧
        ∀ f ∈ k.model.fields, f.name ≠ f.column → f.name ∈ payload.keys →
          f.column ∈ payload.keys → ∃ g ∈ k.model.fields, g.name = f.column) := by
  obtain ⟨root, hm, -, rfl⟩ := Compiler.new_ok hk
  rw [Compiler.run_eq] at hst
  obtain ⟨p, hp, hst⟩ := bind_eq_ok.1 hst
  have hcolumns := Compiler.plan_columnsWritten hc.wellFormed hm hop hp
  cases (Compiler.statement_eq hc.wellFormed hm hp).symm.trans hst
  refine ⟨hcolumns, ?_⟩
  have hfound : ∀ key ∈ payload.keys, ∃ f, root.field? key = some f := by
    intro key hkey
    have hmem := List.mem_map_of_mem (f := root.columnOf?) hkey
    rw [← hcolumns] at hmem
    obtain ⟨column, -, hcolumn⟩ := List.mem_map.1 hmem
    obtain ⟨f, hf, -⟩ := Option.map_eq_some_iff.1 hcolumn.symm
    exact ⟨f, hf⟩
  rw [← (hc.wellFormed.models root hm).columns_nodup_iff hfound, ← hcolumns,
    List.nodup_map_iff (Option.some_injective String)]

/-- The number `badge` is written under the name that is the column of the manager. -/
theorem badged_columns : ∃ k st,
    Catalog.Reachable ⟨[Catalog.badgedEmployee]⟩ ∧
      Compiler.new ⟨[Catalog.badgedEmployee]⟩ .postgres (.new "Employee") = .ok k ∧
        k.run (.insert ⟨[("manager", .integer 1), ("manager_id", .integer 7)]⟩) = .ok st ∧
          st.sql = "INSERT INTO \"employee\" (manager_id, badge) VALUES (?, ?) RETURNING id" ∧
            (columnsWritten st.sql).Nodup := by
  have hnew : Compiler.new ⟨[Catalog.badgedEmployee]⟩ .postgres (.new "Employee") =
      .ok ⟨⟨[Catalog.badgedEmployee]⟩, .postgres, .new "Employee", Catalog.badgedEmployee⟩ := rfl
  have hop : Operation.insert ⟨[("manager", .integer 1), ("manager_id", .integer 7)]⟩ =
      .insert ⟨[("manager", .integer 1), ("manager_id", .integer 7)]⟩ := rfl
  obtain ⟨-, hnodup⟩ :=
    run_columns_nodup_iff Catalog.badgedEmployee_reachable hnew (.inl hop) rfl
  have hshadowed : ∀ f ∈ Catalog.badgedEmployee.fields, f.name ≠ f.column →
      f.name ∈ ["manager", "manager_id"] → f.column ∈ ["manager", "manager_id"] →
        ∃ g ∈ Catalog.badgedEmployee.fields, g.name = f.column := by decide
  exact ⟨_, _, Catalog.badgedEmployee_reachable, hnew, rfl, by decide,
    hnodup.2 ⟨by decide, hshadowed⟩⟩

/-- An employee with a manager. -/
def managedEmployee : Model := (Model.new "Employee").withField Catalog.managerField

/-- A payload that denotes the manager by name and by column names the column twice. -/
theorem manager_written_twice : Catalog.Reachable ⟨[managedEmployee]⟩ ∧ ∃ k st,
    Compiler.new ⟨[managedEmployee]⟩ .postgres (.new "Employee") = .ok k ∧
      k.run (.insert ((FieldMap.empty.insert "manager" (.integer 1)).insert "manager_id"
        (.integer 2))) = .ok st ∧
        st.sql = "INSERT INTO \"employee\" (manager_id, manager_id) VALUES (?, ?) RETURNING id" ∧
          ¬ (columnsWritten st.sql).Nodup := by
  refine ⟨.declare .empty (rfl : Catalog.declare .empty managedEmployee = _), _, _, rfl, rfl, ?_, ?_⟩
  · decide
  · decide

end RecordModel
