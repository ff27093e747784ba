import RecordModel.Proofs.Query.Columns
import RecordModel.Proofs.Schema.Convergence

/-!
# Storage of fields

A column is written without quotes, and to a database an unquoted name is the same in any case of
its letters: it is stored in lower case, or compared without regard to case. The check of a
model tells columns apart as they are written. A field that is given no column has one without
upper-case letters, in whatever way its name was written, so that only a column of a field's
own can be an older one in other letters.

Results:
* `foldName_snakeCase`, `foldName_column_ofType`: derived columns are in lower case.
* `Model.WellFormed.apart_iff`: exactly when the fields of a model are stored apart.
* `Catalog.stored_apart_iff`: the same of the tables that are created and of all that is written.
-/
namespace RecordModel

open RecordModel.Text RecordModel.Sql

/-! ## Derived columns -/

theorem toLower_of_isUpper_eq_false {c : Char} (h : c.isUpper = false) : c.toLower = c := by
  have hrange : ¬ ('A'.val ≤ c.val ∧ c.val ≤ 'Z'.val) := of_decide_eq_false h
  unfold Char.toLower
  rw [dif_neg fun hupper => hrange hupper]

theorem map_toLower_snakeFrom (previous : Option Char) (cs : List Char) :
    (snakeFrom previous cs).map Char.toLower = snakeFrom previous cs := by
  induction cs generalizing previous with
  | nil => rfl
  | cons c cs ih =>
    have hunderscore : ('_' : Char).toLower = '_' := by decide
    unfold snakeFrom
    split
    · rw [List.map_cons, hunderscore, ih]
    · split
      · split
        · rw [List.map_cons, List.map_cons, hunderscore, toLower_toLower, ih]
        · rw [List.map_cons, toLower_toLower, ih]
      · rename_i hupper
        rw [List.map_cons, toLower_of_isUpper_eq_false (by simpa using hupper), ih]

theorem foldName_snakeCase (name : String) : foldName (snakeCase name) = snakeCase name := by
  rw [foldName, snakeCase, String.toList_ofList, map_toLower_snakeFrom]

theorem foldName_append (a b : String) : foldName (a ++ b) = foldName a ++ foldName b := by
  simp only [foldName, String.toList_append, List.map_append, String.ofList_append]

/-- The column of a field that is given none is in lower case. -/
theorem foldName_column_ofType (name : String) (type : FieldType) :
    foldName (Field.ofType name type).column = (Field.ofType name type).column := by
  cases type with
  | scalar type => exact foldName_snakeCase name
  | relation target =>
    have hsuffix : foldName "_id" = "_id" := by decide
    rw [Field.ofType, Field.relation_column, foldName_append, foldName_snakeCase, hsuffix]

/-! ## Fields of a model -/

/-- The name that the column of a field is stored under. -/
def Field.stored (f : Field) : String := foldName f.column

/-- The field has a column of its own that is not in lower case. -/
def Field.IsCased (f : Field) : Prop :=
  f.column ≠ (Field.ofType f.name f.type).column ∧ f.stored ≠ f.column

/-- No column with upper-case letters is the column of another field in other letters. -/
def Model.Apart (m : Model) : Prop :=
  ∀ f ∈ m.fields, f.IsCased → ∀ g ∈ m.fields, g.stored = f.stored → g = f

theorem Field.isCased_iff {f : Field} : f.IsCased ↔ f.stored ≠ f.column := by
  refine ⟨And.right, fun h => ⟨fun hderived => h ?_, h⟩⟩
  rw [Field.stored, hderived, foldName_column_ofType]

namespace Model.WellFormed

variable {m : Model} (h : m.WellFormed)

include h

/-- Fields that are stored under one name are the same, unless one of them is cased. -/
theorem eq_of_stored_eq {f g : Field} (hf : f ∈ m.fields) (hg : g ∈ m.fields)
    (heq : f.stored = g.stored) (hfcased : ¬ f.IsCased) (hgcased : ¬ g.IsCased) : f = g := by
  rw [Field.isCased_iff, not_not] at hfcased hgcased
  refine List.inj_on_of_nodup_map h.columns_nodup hf hg ?_
  rw [← hfcased, heq, hgcased]

/-- The fields of a model are stored under different names exactly if no cased column is another
one in other letters. -/
theorem apart_iff : (m.fields.map Field.stored).Nodup ↔ m.Apart := by
  constructor
  · exact fun hnodup f hf _ g hg heq => List.inj_on_of_nodup_map hnodup hg hf heq
  · intro hapart
    refine h.names_nodup.of_map.map_on fun f hf g hg heq => ?_
    by_cases hfcased : f.IsCased
    · exact (hapart f hf hfcased g hg heq.symm).symm
    · by_cases hgcased : g.IsCased
      · exact hapart g hg hgcased f hf heq
      · exact h.eq_of_stored_eq hf hg heq hfcased hgcased

/-- A payload with two fields of a model is written to their columns. -/
theorem exists_insert {c : Catalog} (hc : c.WellFormed) (hm : m ∈ c.models) (d : Dialect)
    {f g : Field} (hf : f ∈ m.fields) (hg : g ∈ m.fields) (v w : Value) :
    ∃ k st, Compiler.new c d (.new m.name) = .ok k ∧ k.model = m ∧
      k.run (.insert ⟨[(f.name, v), (g.name, w)]⟩) = .ok st ∧
        columnsWritten st.sql = [f.column, g.column] := by
  have hmodel : c.getModel m.name = .ok m :=
    Catalog.getModel_eq_ok.2 (Catalog.model?_eq_some_of_mem hc.names_nodup hm)
  have hnew : Compiler.new c d (.new m.name) = .ok ⟨c, d, .new m.name, m⟩ := by
    rw [Compiler.new, Query.new, hmodel]
    rfl
  have hassignments : (Compiler.mk c d (.new m.name) m).assignments .insert
      ⟨[(f.name, v), (g.name, w)]⟩ = .ok [⟨f.column, v⟩, ⟨g.column, w⟩] := by
    simp only [Compiler.assignments, FieldMap.isEmpty, List.isEmpty_cons, Bool.false_eq_true,
      if_false, List.mapM_cons, List.mapM_nil, h.getField_name hf, h.getField_name hg]
    rfl
  have hcolumns : ∀ a ∈ [(⟨f.column, v⟩ : Assignment), ⟨g.column, w⟩],
      isIdentifier a.column = true := by
    simp [(h.identifiers f hf).2, (h.identifiers g hg).2]
  have hrun : (Compiler.mk c d (.new m.name) m).run (.insert ⟨[(f.name, v), (g.name, w)]⟩) =
      .ok (Insertion.statement ⟨m.table, [⟨f.column, v⟩, ⟨g.column, w⟩]⟩) := by
    rw [Compiler.run, Compiler.insert, hassignments]
    rfl
  exact ⟨_, _, hnew, rfl, hrun,
    Insertion.columnsWritten_text (List.cons_ne_nil _ _) hcolumns fun _ => "?"⟩

end Model.WellFormed

/-! ## Tables and writing statements -/

/-- What an insertion or an update names are columns of its model. -/
theorem Compiler.exists_column_of_written {k : Compiler} (hc : k.catalog.WellFormed)
    (hm : k.model ∈ k.catalog.models) {payload : FieldMap} {op : Operation}
    (hop : op = .insert payload ∨ op = .update payload) {st : Statement} (hst : k.run op = .ok st) :
    ∀ column ∈ columnsWritten st.sql, ∃ f ∈ k.model.fields, f.column = column := by
  rw [run_eq] at hst
  obtain ⟨p, hp, hst⟩ := bind_eq_ok.1 hst
  have hcolumns := plan_columnsWritten hc hm hop hp
  cases (statement_eq hc hm hp).symm.trans hst
  intro column hcolumn
  have hsome := List.mem_map_of_mem (f := some) hcolumn
  rw [hcolumns] at hsome
  obtain ⟨key, -, hkey⟩ := List.mem_map.1 hsome
  obtain ⟨f, hf, rfl⟩ := Option.map_eq_some_iff.1 hkey
  exact ⟨f, Model.field?_mem hf, rfl⟩

/-- The table of a model is created with the columns of its fields, under the names that they are
stored by. No name stands there twice, and none among what a statement writes that names no
column twice, exactly if no column with upper-case letters of a field's own is another column of
the model in other letters. -/
theorem Catalog.stored_apart_iff {c : Catalog} (hc : c.Reachable) {m : Model} (hm : m ∈ c.models)
    (d : Dialect) :
    (∃ columns, readDdl ((Change.createTable m).text d) = some (.createTable m.table columns) ∧
      columns = m.fields.map Field.stored ∧ (columns.Nodup ↔ m.Apart)) ∧
    ((∀ q k payload op st, Compiler.new c d q = .ok k → k.model = m →
      op = .insert payload ∨ op = .update payload → k.run op = .ok st →
        (columnsWritten st.sql).Nodup → ((columnsWritten st.sql).map foldName).Nodup) ↔
      m.Apart) := by
  have hwell := hc.wellFormed.models m hm
  have hproper : (Change.createTable m).Proper := hwell
  refine ⟨⟨_, readDdl_text d hproper, rfl, hwell.apart_iff⟩, ?_, ?_⟩
  · intro hwrites
    refine hwell.apart_iff.1 (hwell.names_nodup.of_map.map_on fun f hf g hg heq => ?_)
    by_contra hne
    obtain ⟨k, st, hk, hmodel, hst, hcolumns⟩ :=
      hwell.exists_insert hc.wellFormed hm d hf hg .null .null
    have hdifferent : f.column ≠ g.column := fun h =>
      hne (List.inj_on_of_nodup_map hwell.columns_nodup hf hg h)
    have hstored := hwrites _ k _ _ st hk hmodel (.inl rfl) hst (by simp [hcolumns, hdifferent])
    rw [hcolumns] at hstored
    have hsame : foldName f.column = foldName g.column := heq
    simp [hsame] at hstored
  · rintro hapart q k payload op st hk rfl hop hst hnodup
    obtain ⟨root, hroot, -, rfl⟩ := Compiler.new_ok hk
    have hcolumns := Compiler.exists_column_of_written hc.wellFormed hroot hop hst
    refine hnodup.map_on fun x hx y hy heq => ?_
    obtain ⟨f, hf, rfl⟩ := hcolumns x hx
    obtain ⟨g, hg, rfl⟩ := hcolumns y hy
    rw [List.inj_on_of_nodup_map (hwell.apart_iff.2 hapart) hf hg heq]

/-- A badge with the name of its owner in a column of its own. -/
def badge (ownerColumn : String) : Model :=
  ((Model.new "Badge").withField (.scalar "name" .text)).withField
    { Field.scalar "owner" .text with column := ownerColumn }

theorem badge_owner_stored : Catalog.Reachable ⟨[badge "Owner"]⟩ ∧
    (∃ f ∈ (badge "Owner").fields, f.IsCased) ∧
      readDdl ((Change.createTable (badge "Owner")).text .postgres) =
        some (.createTable "badge" ["id", "name", "owner"]) ∧ (badge "Owner").Apart := by
  have hreachable : Catalog.Reachable ⟨[badge "Owner"]⟩ :=
    .declare .empty (rfl : Catalog.declare .empty (badge "Owner") = _)
  obtain ⟨⟨columns, hread, hcolumns, hiff⟩, -⟩ :=
    Catalog.stored_apart_iff hreachable (List.mem_singleton.2 rfl) .postgres
  have hnames : (badge "Owner").fields.map Field.stored = ["id", "name", "owner"] := by decide
  have hcased : ∃ f ∈ (badge "Owner").fields, f.stored ≠ f.column := by decide
  rw [hnames] at hcolumns
  subst hcolumns
  exact ⟨hreachable, by simpa only [Field.isCased_iff] using hcased, hread, hiff.1 (by decide)⟩

/-- The name and the owner of a badge share a column if one is written `name` and the other one
`Name`: the table is declared with this column twice, and an insertion writes to it twice. -/
theorem badge_name_shared : Catalog.Reachable ⟨[badge "Name"]⟩ ∧
    (Change.createTable (badge "Name")).text .sqlite =
      "CREATE TABLE \"badge\" (id INTEGER PRIMARY KEY AUTOINCREMENT, name TEXT, Name TEXT)" ∧
    readDdl ((Change.createTable (badge "Name")).text .sqlite) =
      some (.createTable "badge" ["id", "name", "name"]) ∧
    ∃ k st, Compiler.new ⟨[badge "Name"]⟩ .sqlite (.new "Badge") = .ok k ∧
      k.run (.insert ⟨[("name", .text "B1"), ("owner", .text "Ann")]⟩) = .ok st ∧
        st.sql = "INSERT INTO \"badge\" (name, Name) VALUES (?, ?) RETURNING id" ∧
          ¬ ((columnsWritten st.sql).map foldName).Nodup := by
  refine ⟨.declare .empty (rfl : Catalog.declare .empty (badge "Name") = _), by decide, ?_,
    _, _, rfl, rfl, ?_, ?_⟩
  · decide +kernel
  · decide +kernel
  · decide +kernel

end RecordModel
