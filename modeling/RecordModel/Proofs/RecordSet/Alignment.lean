import RecordModel.Database.Scripted
import RecordModel.Proofs.Catalog.FieldLines
import RecordModel.Proofs.Environment.Growth
import RecordModel.Proofs.Query.Projected
import RecordModel.Proofs.Query.Writes
import RecordModel.Proofs.RecordSet.Rows
import RecordModel.Proofs.Schema.Reports
import RecordModel.Proofs.Text.Cuts

/-!
# Records and the columns they are read from

Reading a record set walks its paths twice: once for the types, from the model that the set holds,
and once for the columns, from the model of that name in the catalog, after the paths were printed
and read again. The rows that come back are put under the printed paths.

A record set may be older than the catalog it is read with. Models are only ever added to the
catalog of an environment, so both walks start at the same model.

Results:
* `Path.ofText_text`: a path that was read from a text is read back from its own.
* `RecordSet.ResolvesTo.reading_eq`: the statement of a reading, and the types of its cells.
* `Session.read_aligned`: what reading asks and gives.
-/
namespace RecordModel

open RecordModel.Text RecordModel.Number RecordModel.Sql

/-! ## Paths -/

theorem Path.ofText_text (s : String) : ofText (ofText s).text = ofText s := by
  have hpoint : ".".toList = ['.'] := by decide
  have htext : (ofText s).text.toList =
      ['.'].intercalate ((splitAll '.' s.toList).map trimChars) := by
    rw [text, ofText, toList_join, hpoint, List.map_map]
    simp [Function.comp_def]
  have hpieces : ∀ piece ∈ (splitAll '.' s.toList).map trimChars, '.' ∉ piece := by
    rw [List.forall_mem_map]
    exact fun piece hpiece hmem => not_mem_of_mem_splitAll hpiece (mem_of_mem_trimChars hmem)
  have hcut := splitAll_intercalate (by simpa using splitAll_ne_nil '.' s.toList) hpieces
  rw [ofText, htext, hcut, List.map_map]
  simp only [Function.comp_def, trimChars_trimChars]
  rfl

/-! ## Readings -/

theorem mapM_eq_ok_iff_forall₂ {α β : Type} {f : α → Result β} {xs : List α} {ys : List β} :
    xs.mapM f = .ok ys ↔ List.Forall₂ (fun x y => f x = .ok y) xs ys := by
  induction xs generalizing ys with
  | nil =>
    constructor
    · intro h
      cases h
      exact .nil
    · rintro ⟨⟩
      rfl
  | cons x xs ih =>
    rw [List.mapM_cons, bind_eq_ok]
    constructor
    · rintro ⟨y, hy, h⟩
      obtain ⟨ys, hys, h⟩ := bind_eq_ok.1 h
      cases h
      exact .cons hy (ih.1 hys)
    · rintro (_ | ⟨hy, hys⟩)
      exact ⟨_, hy, bind_eq_ok.2 ⟨_, ih.2 hys, rfl⟩⟩

theorem ok_of_mapM {α β : Type} {f : α → Result β} {xs : List α} {ys : List β}
    (h : xs.mapM f = .ok ys) : ∀ x ∈ xs, ∃ y, f x = .ok y := by
  induction mapM_eq_ok_iff_forall₂.1 h with
  | nil => simp
  | cons hy hrest ih => exact List.forall_mem_cons.2 ⟨⟨_, hy⟩, ih (mapM_eq_ok_iff_forall₂.2 hrest)⟩

namespace RecordSet

/-- The query that reads paths. -/
def readQuery (rs : RecordSet) (paths : List Path) : Query :=
  (rs.query.select (paths.map Path.text)).orderBy idField

/-- What compiles the query of a reading. -/
def readCompiler (rs : RecordSet) (c : Catalog) (d : Dialect) (fields : List String) : Compiler :=
  ⟨c, d, rs.readQuery (rs.readPaths fields), rs.model⟩

variable {c : Catalog} {d : Dialect} {rs : RecordSet} {fields : List String}

theorem readPaths_ofText {path : Path} (h : path ∈ rs.readPaths fields) :
    ∃ s, path = Path.ofText s := by
  unfold readPaths at h
  split at h
  all_goals
    obtain ⟨x, -, rfl⟩ := List.mem_map.1 h
    exact ⟨_, rfl⟩

theorem readPaths_ne_nil (h : rs.model.WellFormed) : rs.readPaths fields ≠ [] := by
  obtain ⟨f, hf, -⟩ := h.getField_id
  have hsome := List.ne_nil_of_mem (Model.getField_mem hf)
  unfold readPaths
  split
  · simpa using hsome
  · rename_i hfields
    simpa using hfields

/-- What the paths of a reading are resolved to, one by one. -/
structure ResolvesTo (rs : RecordSet) (c : Catalog) (fields : List String)
    (resolved : List (Path × Resolution)) : Prop where
  paths : resolved.map Prod.fst = rs.readPaths fields
  resolve_eq : ∀ p ∈ resolved, resolve c rs.model p.1 = .ok p.2

/-- Printing paths and reading them again changes nothing. -/
theorem readQuery_fields : (rs.readQuery (rs.readPaths fields)).fields = rs.readPaths fields := by
  have hagain : ((rs.readPaths fields).map Path.text).map Path.ofText = rs.readPaths fields := by
    rw [List.map_map]
    refine (List.map_congr_left fun path hpath => ?_).trans (List.map_id _)
    obtain ⟨s, rfl⟩ := readPaths_ofText hpath
    exact Path.ofText_text s
  exact hagain

theorem readCompiler_projection (hm : rs.model.WellFormed) :
    (rs.readCompiler c d fields).projection = rs.readPaths fields := by
  have hfields : (rs.readCompiler c d fields).query.fields = rs.readPaths fields := readQuery_fields
  rw [Compiler.projection_of_fields (hfields ▸ readPaths_ne_nil hm), hfields]

/-- The paths of the query are those to read, and the id that it filters and orders by. -/
theorem mem_used_readCompiler {path : Path}
    (h : path ∈ (rs.readCompiler c d fields).used (rs.readPaths fields) [⟨.ofText idField, none⟩]) :
    path ∈ rs.readPaths fields ∨ path = .ofText idField := by
  have hused : (rs.readCompiler c d fields).used (rs.readPaths fields)
      [⟨.ofText idField, none⟩] =
        rs.readPaths fields ++ [.ofText idField] ++ [] ++ [.ofText idField] := rfl
  simpa [hused, or_assoc] using h

/-- The only leaf of the query looks for the ids. -/
theorem accepts_readCompiler (hne : rs.ids ≠ []) :
    ∀ l ∈ leavesAll (rs.readCompiler c d fields).query.condition.nodes,
      ∃ f, d.operatorSql l.operator l.argument = .ok f := by
  have hleaves : leavesAll (rs.readCompiler c d fields).query.condition.nodes =
      [⟨.ofText idField, .isIn, .list (rs.ids.map .integer)⟩] := rfl
  have hitems : (itemsOf (.list (rs.ids.map .integer))).isEmpty = false := by
    simpa [itemsOf] using hne
  rw [hleaves, List.forall_mem_singleton]
  refine ⟨⟨"IN (?)", [.list (rs.ids.map .integer)]⟩, ?_⟩
  simp only [Dialect.operatorSql, hitems]
  rfl

namespace ResolvesTo

variable {resolved : List (Path × Resolution)}

theorem types_eq (h : rs.ResolvesTo c fields resolved) :
    ((rs.readPaths fields).mapM fun path => do
      return (← resolve c rs.model path).field.dataType : Result (List DataType)) =
        .ok (resolved.map fun p => p.2.field.dataType) := by
  rw [mapM_eq_ok_iff_forall₂, ← h.paths, List.forall₂_map_left_iff, List.forall₂_map_right_iff,
    List.forall₂_same]
  exact fun p hp => bind_eq_ok.2 ⟨p.2, h.resolve_eq p hp, rfl⟩

/-- With paths that are resolved, and with ids to look for, there is a selection. -/
theorem exists_selection (h : rs.ResolvesTo c fields resolved) (hc : c.WellFormed)
    (hm : rs.model ∈ c.models) (hne : rs.ids ≠ []) :
    ∃ s, (rs.readCompiler c d fields).selection (rs.readPaths fields) = .ok s := by
  have horders : (rs.readCompiler c d fields).query.orders.mapM SortKey.read =
      .ok [⟨.ofText idField, none⟩] := by rfl
  refine Compiler.exists_selection horders (readPaths_ne_nil (hc.models _ hm))
    (fun path hpath => ?_) (accepts_readCompiler hne)
  obtain hpath | rfl := mem_used_readCompiler hpath
  · rw [← h.paths] at hpath
    obtain ⟨p, hp, rfl⟩ := List.mem_map.1 hpath
    exact ⟨p.2, h.resolve_eq p hp⟩
  · obtain ⟨f, hf, -⟩ := Compiler.resolve_id (k := rs.readCompiler c d fields) hc hm
    exact ⟨_, hf⟩

theorem exists_statement (h : rs.ResolvesTo c fields resolved) (hc : c.WellFormed)
    (hm : rs.model ∈ c.models) (hne : rs.ids ≠ []) :
    ∃ st, (rs.readCompiler c d fields).select = .ok st := by
  obtain ⟨s, hs⟩ := h.exists_selection (d := d) hc hm hne
  rw [← readCompiler_projection (hc.models _ hm) (c := c) (d := d)] at hs
  have hplan : (rs.readCompiler c d fields).plan .select = .ok (.select s) :=
    bind_eq_ok.2 ⟨s, hs, rfl⟩
  have hrun := (rs.readCompiler c d fields).run_eq .select
  have hstatement := Compiler.statement_eq (k := rs.readCompiler c d fields) hc hm hplan
  rw [hplan] at hrun
  exact ⟨_, hrun.trans hstatement⟩

/-- The inquiry of a reading: the columns of its statement, and how its rows are read. -/
theorem reading_eq (h : rs.ResolvesTo c fields resolved) (hc : c.WellFormed)
    (hmodel : c.getModel rs.model.name = .ok rs.model) (hne : rs.ids ≠ []) :
    ∃ st, rs.reading c d fields =
        .ok (.each st (recordOf (resolved.map fun p => (p.1, p.2.field.dataType)))) ∧
      ∀ d' : Dialect, columnsRead (d'.rebind st.sql) =
        some (resolved.map fun p => (p.2.column, p.1.text)) := by
  have hm := Catalog.getModel_mem hmodel
  obtain ⟨st, hst⟩ := h.exists_statement (d := d) hc hm hne
  have hnew : Compiler.new c d (rs.readQuery (rs.readPaths fields)) =
      .ok (rs.readCompiler c d fields) := bind_eq_ok.2 ⟨rs.model, hmodel, rfl⟩
  have hprojection : (rs.readCompiler c d fields).projection = resolved.map Prod.fst :=
    (readCompiler_projection (hc.models _ hm)).trans h.paths.symm
  have hcolumns : (rs.readPaths fields).zip (resolved.map fun p => p.2.field.dataType) =
      resolved.map fun p => (p.1, p.2.field.dataType) := by
    rw [← h.paths, List.zip_map']
  refine ⟨st, ?_, Compiler.select_columnsRead hc hm h.resolve_eq hprojection hst⟩
  refine bind_eq_ok.2 ⟨_, h.types_eq, bind_eq_ok.2 ⟨_, hnew, bind_eq_ok.2 ⟨st, hst, ?_⟩⟩⟩
  rw [hcolumns]
  rfl

end ResolvesTo

/-- A path that is not resolved makes no inquiry. -/
theorem reading_eq_error
    (h : ∃ path ∈ rs.readPaths fields, ∀ r, resolve c rs.model path ≠ .ok r) :
    ∃ cause, rs.reading c d fields = .error cause := by
  obtain ⟨path, hpath, hnone⟩ := h
  cases hreading : rs.reading c d fields with
  | error cause => exact ⟨cause, rfl⟩
  | ok i =>
    obtain ⟨types, htypes, -⟩ := bind_eq_ok.1 hreading
    obtain ⟨type, htype⟩ := ok_of_mapM htypes path hpath
    obtain ⟨r, hr, -⟩ := bind_eq_ok.1 htype
    exact absurd hr (hnone r)

/-! ### All fields -/

theorem segments_ofText_of_isIdentifier {name : String} (h : isIdentifier name = true) :
    (Path.ofText name).segments = [name] := by
  have hpoint : '.' ∉ name.toList := fun hmem => by
    have hchar := isNameChar_of_isIdentifier h '.' hmem
    cases hchar
  have htrim := (inkWord_of_isIdentifier h).isWord.toSolid.trimChars_eq
  rw [Path.ofText, splitAll_of_not_mem hpoint, List.map_singleton, htrim, String.ofList_toList]

theorem resolve_name (hm : rs.model.WellFormed) {f : Field} (hf : f ∈ rs.model.fields) :
    resolve c rs.model (.ofText f.name) = .ok ⟨[.root rs.model], f⟩ := by
  have hname := (hm.identifiers f hf).1
  have hempty : [f.name].any String.isEmpty = false := by
    simp [isEmpty_of_isIdentifier hname]
  unfold resolve
  simp only [segments_ofText_of_isIdentifier hname, hempty, walk, hm.getField_name hf]
  rfl

/-- Without a field to read, the paths are those of all fields, in their order. -/
theorem readPaths_all (hm : rs.model.WellFormed) :
    ∃ resolved, rs.ResolvesTo c [] resolved ∧
      resolved.map (fun p => p.2.field) = rs.model.fields := by
  refine ⟨rs.model.fields.map fun f => (.ofText f.name, ⟨[.root rs.model], f⟩), ⟨?_, ?_⟩, ?_⟩
  · rw [List.map_map]
    rfl
  · rw [List.forall_mem_map]
    exact fun f hf => resolve_name hm hf
  · simp [Function.comp_def]

end RecordSet

theorem Field.dataType_of_isRelation {f : Field} (h : f.isRelation = true) :
    f.dataType = .integer := by
  unfold isRelation at h
  unfold dataType
  split at h
  · rename_i target htype
    rw [htype]
  · cases h

/-! ## Sessions -/

namespace Session

open Environment

variable {σ : Type} {rs : RecordSet} {fields : List String}

/-- Nothing is asked without an inquiry. -/
theorem read_of_error (session : Session σ) (hne : rs.ids ≠ []) {cause : Error}
    (h : rs.reading session.catalog session.database.dialect fields = .error cause) (state : σ) :
    session.read rs fields state = (.error cause, state) := by
  have hsome : rs.isEmpty = false := by simpa [RecordSet.isEmpty] using hne
  rw [read, hsome, h]
  rfl

/-- An inquiry is asked once, and its rows are read if there are any. -/
theorem read_of_ok (session : Session σ) (hne : rs.ids ≠ []) {i : Inquiry (List FieldMap)}
    (h : rs.reading session.catalog session.database.dialect fields = .ok i) {state state' : σ}
    {reply : Except String (List Row)}
    (hreply : session.database.executor.query
      (session.database.dialect.rebind i.statement.sql) i.statement.args state = (reply, state')) :
    session.read rs fields state =
      (Database.report (session.database.dialect.rebind i.statement.sql) i.statement.args reply >>=
        i.read, state') := by
  have hsome : rs.isEmpty = false := by simpa [RecordSet.isEmpty] using hne
  have hfetch : session.database.fetch i.statement state =
      (Database.report (session.database.dialect.rebind i.statement.sql) i.statement.args reply,
        state') := by
    simp only [Database.fetch, Database.query, hreply]
  have hask : session.read rs fields state = session.database.ask i state := by
    rw [read, hsome, h]
    rfl
  rw [hask]
  cases reply with
  | error cause => exact Action.bind_error hfetch _
  | ok rows => exact Action.bind_ok hfetch _

section

variable {columns : List (Path × DataType)} {st : Statement} {sql : String} {args : List Value}

/-- There are records if there are rows, and each row has one. -/
theorem answer_eq_ok_iff {reply : Except String (List Row)} {records : List FieldMap} :
    (Database.report sql args reply >>= (Inquiry.each st (recordOf columns)).read) = .ok records ↔
      ∃ rows, reply = .ok rows ∧ List.Forall₂ (RecordRead columns) rows records := by
  cases reply with
  | error cause =>
    constructor
    · intro h
      cases h
    · rintro ⟨rows, hrows, -⟩
      cases hrows
  | ok rows =>
    have hread : (Database.report sql args (.ok rows) >>=
        (Inquiry.each st (recordOf columns)).read) = rows.mapM (recordOf columns) := rfl
    rw [hread, mapM_eq_ok_iff_forall₂]
    simp [recordOf_eq_ok_iff]

/-- One row that does not fit is enough for there to be none. -/
theorem answer_eq_error {rows : List Row} (h : ∃ row ∈ rows, Misfit columns row) :
    ∃ cause, (Database.report sql args (.ok rows) >>=
      (Inquiry.each st (recordOf columns)).read) = .error cause := by
  obtain ⟨row, hrow, hmisfit⟩ := h
  cases hread : Database.report sql args (.ok rows) >>=
      (Inquiry.each st (recordOf columns)).read with
  | error cause => exact ⟨cause, rfl⟩
  | ok records =>
    obtain ⟨record, hrecord⟩ := ok_of_mapM hread row hrow
    exact absurd (recordOf_eq_ok_iff.1 hrecord) (hmisfit.not_recordRead record)

end

/-- A model of an environment is that of its later catalogs, too. -/
theorem getModel_of_recordSet {ι : Type} [DecidableEq ι] {s t : State ι} {later : List (Section ι)}
    (hlater : Run s later t) {model : String} {ids : List Int64}
    (hrs : s.environment.recordSet model ids = .ok rs) :
    t.environment.catalog.getModel rs.model.name = .ok rs.model ∧ rs.ids = ids := by
  obtain ⟨m, hm, h⟩ := bind_eq_ok.1 hrs
  cases h
  obtain ⟨hname, -⟩ := Catalog.model?_name (Catalog.getModel_eq_ok.1 hm)
  exact ⟨hlater.extends.getModel (hname ▸ hm), rfl⟩

/-- Reading records of an environment, at once or later. Without a field to read, the paths are
those of all fields. If a path is not resolved, nothing is asked. Otherwise one statement goes out,
with the columns that the paths are resolved to, in their order. A record comes back for each row,
in their order, with each cell brought to the type of the field of its path, or nothing does. -/
theorem read_aligned {ι : Type} [DecidableEq ι] {first : Nat} {s t : State ι}
    {earlier later : List (Section ι)} (hearlier : Run (.initial ι first) earlier s)
    (hlater : Run s later t) {model : String} {ids : List Int64}
    (hrs : s.environment.recordSet model ids = .ok rs) (hne : ids ≠ []) (db : Database σ)
    (fields : List String) :
    (fields = [] → ∃ resolved, rs.ResolvesTo t.environment.catalog fields resolved ∧
      resolved.map (fun p => p.2.field) = rs.model.fields) ∧
    ((∃ path ∈ rs.readPaths fields, ∀ r, resolve t.environment.catalog rs.model path ≠ .ok r) →
      ∃ cause, ∀ state, (⟨t.environment.catalog, db⟩ : Session σ).read rs fields state =
        (.error cause, state)) ∧
    ∀ resolved, rs.ResolvesTo t.environment.catalog fields resolved →
      (∀ p ∈ resolved, p.2.field.isRelation = true → p.2.field.dataType = .integer) ∧
      ∃ sql args, columnsRead sql = some (resolved.map fun p => (p.2.column, p.1.text)) ∧
        ∀ state reply state', db.executor.query sql args state = (reply, state') →
          ∃ outcome,
            (⟨t.environment.catalog, db⟩ : Session σ).read rs fields state = (outcome, state') ∧
            (∀ records, outcome = .ok records ↔ ∃ rows, reply = .ok rows ∧ List.Forall₂
              (RecordRead (resolved.map fun p => (p.1, p.2.field.dataType))) rows records) ∧
            ∀ rows, reply = .ok rows →
              (∃ row ∈ rows, Misfit (resolved.map fun p => (p.1, p.2.field.dataType)) row) →
              ∃ cause, outcome = .error cause := by
  obtain ⟨hmodel, rfl⟩ := getModel_of_recordSet hlater hrs
  have hc : t.environment.catalog.WellFormed :=
    (hlater.extends.reachable (hearlier.extends.reachable .empty)).wellFormed
  refine ⟨?_, ?_, ?_⟩
  · rintro rfl
    exact RecordSet.readPaths_all (hc.models _ (Catalog.getModel_mem hmodel))
  · intro hnone
    obtain ⟨cause, hcause⟩ := RecordSet.reading_eq_error (d := db.dialect) hnone
    exact ⟨cause, read_of_error _ hne hcause⟩
  · intro resolved hresolved
    obtain ⟨st, hreading, hcolumns⟩ :=
      hresolved.reading_eq (d := db.dialect) hc hmodel hne
    refine ⟨fun p _ => Field.dataType_of_isRelation, db.dialect.rebind st.sql, st.args,
      hcolumns db.dialect, fun state reply state' hreply => ?_⟩
    have hread := read_of_ok ⟨t.environment.catalog, db⟩ hne hreading hreply
    refine ⟨_, hread, fun records => answer_eq_ok_iff, fun rows hrows => ?_⟩
    cases hrows
    exact answer_eq_error

/-- A help desk whose tickets are declared before the members that they are assigned to. -/
def openedDesk : State Nat := ⟨⟨⟨[ticket]⟩, false, .empty 1⟩, none, fun _ => none⟩

def staffedDesk : State Nat := ⟨⟨⟨[ticket, team, member]⟩, false, .empty 1⟩, none, fun _ => none⟩

/-- A ticket that is looked up before there are members is read with the name of one. Its title is
asked for twice. -/
theorem read_ticket : ∃ (earlier later : List (Section Nat)) (rs : RecordSet),
    Run (.initial Nat 1) earlier openedDesk ∧ Run openedDesk later staffedDesk ∧
      openedDesk.environment.recordSet "Ticket" [1] = .ok rs ∧ rs.ids ≠ [] ∧
      ∃ (sql : String) (args : List Value) (script : Script),
        columnsRead sql = some [(⟨"ticket", "title"⟩, "title"),
          (⟨"ticket", "assignee_id"⟩, "assignee"), (⟨"ticket", "title"⟩, "title"),
          (⟨"ticket__assignee_id", "name"⟩, "assignee.name")] ∧
        script.log = [⟨.query, sql, args⟩] ∧
        Session.read
            ⟨staffedDesk.environment.catalog, ⟨"sqlite3", .sqlite, Script.executor⟩⟩ rs
            ["title", "assignee", " title ", "assignee.name"]
            (Script.empty.extend [.ok [[.text "Old", .text "7", .text "New", .text "Ann"]]] []) =
          (.ok [⟨[("title", .text "New"), ("assignee", .integer 7),
            ("assignee.name", .text "Ann")]⟩], script) := by
  have hearlier : Run (.initial Nat 1) _ openedDesk :=
    Run.refl.step (.enter (i := 0) (.declareModel ticket) rfl rfl)
  have hlater : Run openedDesk _ staffedDesk :=
    (Run.refl.step (.enter (i := 0) (.declareModel team) rfl rfl)).step
      (.enter (i := 1) (.declareModel member) rfl rfl)
  have hrs : openedDesk.environment.recordSet "Ticket" [1] = .ok ⟨ticket, [1]⟩ := rfl
  have hne : [(1 : Int64)] ≠ [] := by simp
  obtain ⟨-, -, haligned⟩ := read_aligned hearlier hlater hrs hne
    ⟨"sqlite3", .sqlite, Script.executor⟩ ["title", "assignee", " title ", "assignee.name"]
  have hresolved : RecordSet.ResolvesTo ⟨ticket, [1]⟩ staffedDesk.environment.catalog
      ["title", "assignee", " title ", "assignee.name"]
      [(.ofText "title", _), (.ofText "assignee", _), (.ofText " title ", _),
        (.ofText "assignee.name", _)] :=
    ⟨rfl, by
      simp only [List.forall_mem_cons]
      exact ⟨rfl, rfl, rfl, rfl, by simp⟩⟩
  obtain ⟨-, sql, args, hcolumns, hread⟩ := haligned _ hresolved
  have hrecord : recordOf [(.ofText "title", .text), (.ofText "assignee", .integer),
        (.ofText " title ", .text), (.ofText "assignee.name", .text)]
      [.text "Old", .text "7", .text "New", .text "Ann"] =
        .ok ⟨[("title", .text "New"), ("assignee", .integer 7),
          ("assignee.name", .text "Ann")]⟩ := rfl
  obtain ⟨outcome, hout, hok, -⟩ := hread
    (Script.empty.extend [.ok [[.text "Old", .text "7", .text "New", .text "Ann"]]] []) _ _ rfl
  have houtcome := (hok [_]).2 ⟨_, rfl, .cons (recordOf_eq_ok_iff.1 hrecord) .nil⟩
  rw [houtcome] at hout
  exact ⟨_, _, _, hearlier, hlater, hrs, hne, sql, args, _, hcolumns, rfl, hout⟩

end Session

end RecordModel
