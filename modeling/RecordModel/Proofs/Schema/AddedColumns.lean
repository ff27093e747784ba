import RecordModel.Proofs.Schema.Constraints
import RecordModel.Proofs.Schema.Convergence

/-!
# Columns that are added

A synchronisation only looks for the columns of tables that were there when it began. It is
followed on a database of any kind, whose tables that are there have their keys and do not lose
them by the statements of a synchronisation.

Results:
* `sync_calls`: a synchronisation adds columns of its models that are not the key.
* `sync_additions_iff`: exactly when all columns that are added obey the rules.
-/
namespace RecordModel

open RecordModel.Sql

/-! ## Databases that keep their keys -/

section

variable {σ : Type}

/-- The states that queries and schema statements lead to. -/
inductive Executor.Leads (ex : Executor σ) (s : σ) : σ → Prop where
  | start : Leads ex s s
  | query {s' : σ} (sql : String) (args : List Value) :
    Leads ex s s' → Leads ex s (ex.query sql args s').2
  | execute {s' : σ} {sql : String} {ddl : Ddl} :
    readDdl sql = some ddl → Leads ex s s' → Leads ex s (ex.execute sql [] s').2

/-- The tables that are there have their keys and do not lose them by schema statements. -/
def Database.Keyed (db : Database σ) (s : σ) : Prop :=
  ∀ tables, (db.tables s).1 = .ok tables → ∀ table ∈ tables, ∀ s', db.executor.Leads s s' →
    ∀ columns, (db.columns table s').1 = .ok columns → idField ∈ columns.map ColumnInfo.name

/-- A change that a synchronisation makes in such a database. -/
def Change.Sparing (c : Catalog) : Change → Prop
  | createTable m => m ∈ c.models
  | addColumn m f => m ∈ c.models ∧ f ∈ m.fields ∧ f.column ≠ idField
  | createIndex m f => m ∈ c.models ∧ f ∈ m.fields

theorem Change.Sparing.proper {c : Catalog} (hc : c.WellFormed) {change : Change}
    (h : change.Sparing c) : change.Proper := by
  cases change with
  | createTable m => exact hc.models m h
  | addColumn m f => exact ⟨hc.models m h.1, h.2.1⟩
  | createIndex m f => exact ⟨hc.models m h.1, h.2⟩

/-! ## What a run keeps -/

/-- From states with `I` the action leads to states with `I`, and what it gives has `P`. -/
def Action.Keeps {α : Type} (I : σ → Prop) (x : Action σ α) (P : α → Prop) : Prop :=
  ∀ s, I s → I (x s).2 ∧ ∀ a, (x s).1 = .ok a → P a

namespace Action.Keeps

variable {α β : Type} {I : σ → Prop} {P : α → Prop} {Q : β → Prop}

theorem pure {a : α} (h : P a) : Keeps I (pure a : Action σ α) P := fun s hs =>
  ⟨hs, fun b hb => by cases hb; exact h⟩

theorem bind {x : Action σ α} {f : α → Action σ β} (hx : Keeps I x P)
    (hf : ∀ a, P a → Keeps I (f a) Q) : Keeps I (x >>= f) Q := by
  intro s hs
  obtain ⟨hs', ha⟩ := hx s hs
  rcases hrun : x s with ⟨_ | a, s'⟩
  · rw [hrun] at hs'
    rw [Action.bind_error hrun]
    exact ⟨hs', fun b hb => by cases hb⟩
  · rw [hrun] at hs' ha
    rw [Action.bind_ok hrun]
    exact hf a (ha a rfl) s' hs'

theorem lift (x : Result α) : Keeps I (liftM (n := Action σ) x) fun _ => True := fun s hs => by
  cases x <;> exact ⟨hs, fun _ _ => True.intro⟩

theorem foldlM {γ : Type} {step : β → γ → Action σ β} {xs : List γ}
    (h : ∀ b, ∀ x ∈ xs, Keeps I (step b x) fun _ => True) (b : β) :
    Keeps I (xs.foldlM step b) fun _ => True := by
  induction xs generalizing b with
  | nil => exact .pure True.intro
  | cons x xs ih =>
    rw [List.foldlM_cons]
    exact (h b x List.mem_cons_self).bind fun b' _ =>
      ih (fun b y hy => h b y (List.mem_cons_of_mem _ hy)) b'

end Action.Keeps

/-! ## Recorded runs -/

/-- A step that only turns the result of another one into something else. -/
theorem Action.bind_pure {α β : Type} (x : Action σ α) (f : α → β) (s : σ) :
    (x >>= fun a => pure (f a)) s = ((x s).1.map f, (x s).2) := by
  rcases hrun : x s with ⟨_ | a, s'⟩
  · exact Action.bind_error hrun _
  · exact Action.bind_ok hrun _

theorem recorded_tables (driver : String) (ex : Executor σ) (p : σ × List DatabaseCall) :
    (Database.tables ⟨driver, .sqlite, ex.recorded⟩ p).1 =
      (Database.tables ⟨driver, .sqlite, ex⟩ p.1).1 := by
  rw [Database.tables, Database.tables, Action.bind_pure, Action.bind_pure]
  rfl

theorem recorded_columns (driver : String) (ex : Executor σ) (table : String)
    (p : σ × List DatabaseCall) :
    (Database.columns ⟨driver, .sqlite, ex.recorded⟩ table p).1 =
      (Database.columns ⟨driver, .sqlite, ex⟩ table p.1).1 := by
  rw [Database.columns, Database.columns, Action.bind_pure, Action.bind_pure]
  rfl

/-- A recorded run that has sent the statements of sparing changes only. -/
structure Spared (c : Catalog) (ex : Executor σ) (s : σ) (p : σ × List DatabaseCall) : Prop where
  leads : ex.Leads s p.1
  calls : ∀ call ∈ p.2, ∃ change : Change, change.Sparing c ∧ call = change.call .sqlite

namespace Spared

variable {c : Catalog} {ex : Executor σ} {s : σ} {driver : String} {existing : List String}

theorem query (driver : String) (sql : String) (args : List Value) :
    Action.Keeps (Spared c ex s) (Database.query ⟨driver, .sqlite, ex.recorded⟩ sql args)
      fun _ => True :=
  fun _ hp => ⟨⟨.query sql args hp.leads, hp.calls⟩, fun _ _ => True.intro⟩

theorem tables (driver : String) :
    Action.Keeps (Spared c ex s) (Database.tables ⟨driver, .sqlite, ex.recorded⟩) fun _ => True :=
  (query driver _ _).bind fun _ _ => .pure True.intro

theorem indexExists (table name : String) :
    Action.Keeps (Spared c ex s) (Database.indexExists ⟨driver, .sqlite, ex.recorded⟩ table name)
      fun _ => True := by
  have hrow : Action.Keeps (Spared c ex s) (Database.queryOne ⟨driver, .sqlite, ex.recorded⟩
      (Dialect.indexQuery .sqlite) [.text table, .text name]) fun _ => True :=
    (query driver _ _).bind fun _ _ => .lift _
  exact hrow.bind fun _ _ => .pure True.intro

theorem columns {table : String} (htable : ∀ s', ex.Leads s s' → ∀ columns,
      (Database.columns ⟨driver, .sqlite, ex⟩ table s').1 = .ok columns →
        idField ∈ columns.map ColumnInfo.name) :
    Action.Keeps (Spared c ex s) (Database.columns ⟨driver, .sqlite, ex.recorded⟩ table)
      fun columns => idField ∈ columns.map ColumnInfo.name := by
  have hasked : Action.Keeps (Spared c ex s) (Database.columns ⟨driver, .sqlite, ex.recorded⟩ table)
      fun _ => True := (query driver _ _).bind fun _ _ => .pure True.intro
  intro p hp
  refine ⟨(hasked p hp).1, fun columns h => htable p.1 hp.leads columns ?_⟩
  rw [← h, recorded_columns]

variable (hc : c.WellFormed)

include hc

theorem applyChange {change : Change} (h : change.Sparing c) (acc : SyncReport) :
    Action.Keeps (Spared c ex s) (applyChange ⟨driver, .sqlite, ex.recorded⟩ acc change)
      fun _ => True := by
  refine Action.Keeps.bind (fun p hp => ⟨⟨?_, ?_⟩, fun _ _ => True.intro⟩) fun _ _ =>
    .pure True.intro
  · exact .execute (readDdl_text .sqlite (h.proper hc)) hp.leads
  · intro call hcall
    rcases List.mem_append.1 hcall with hcall | hcall
    · exact hp.calls call hcall
    · exact ⟨change, h, List.mem_singleton.1 hcall⟩

theorem applyAll {changes : List Change} (h : ∀ change ∈ changes, change.Sparing c)
    (acc : SyncReport) :
    Action.Keeps (Spared c ex s) (applyAll ⟨driver, .sqlite, ex.recorded⟩ acc changes)
      fun _ => True :=
  .foldlM (fun acc _ hchange => applyChange hc (h _ hchange) acc) acc

theorem syncIndex {m : Model} (hm : m ∈ c.models) {f : Field} (hf : f ∈ m.fields)
    (acc : SyncReport) :
    Action.Keeps (Spared c ex s) (syncIndex ⟨driver, .sqlite, ex.recorded⟩ m acc f)
      fun _ => True := by
  have hsparing : (Change.createIndex m f).Sparing c := ⟨hm, hf⟩
  refine (indexExists _ _).bind fun found _ => ?_
  split
  · exact .pure True.intro
  · exact applyChange hc hsparing acc

/-- The columns that a table with its key lacks are no key. -/
theorem syncModel {m : Model} (hm : m ∈ c.models)
    (hkeyed : ∀ table ∈ existing, ∀ s', ex.Leads s s' → ∀ columns,
      (Database.columns ⟨driver, .sqlite, ex⟩ table s').1 = .ok columns →
        idField ∈ columns.map ColumnInfo.name) (acc : SyncReport) :
    Action.Keeps (Spared c ex s) (syncModel ⟨driver, .sqlite, ex.recorded⟩ existing acc m)
      fun _ => True := by
  have hindexes (acc : SyncReport) : Action.Keeps (Spared c ex s)
      ((m.fields.filter Field.index).foldlM
        (RecordModel.syncIndex ⟨driver, .sqlite, ex.recorded⟩ m) acc) fun _ => True :=
    .foldlM (fun acc f hf => syncIndex hc hm (List.mem_of_mem_filter hf) acc) acc
  unfold RecordModel.syncModel
  split
  · rename_i htable
    refine Action.Keeps.bind (columns (hkeyed m.table htable)) fun infos hkey => ?_
    refine Action.Keeps.bind (applyAll hc (fun change hchange => ?_) acc) fun acc _ => hindexes acc
    obtain ⟨f, hf, rfl⟩ := List.mem_map.1 hchange
    obtain ⟨info, hinfo, hname⟩ := List.mem_map.1 hkey
    have hlacks := of_decide_eq_true (List.all_eq_true.1 (List.mem_filter.1 hf).2 info hinfo)
    exact ⟨hm, List.mem_of_mem_filter hf, fun heq => hlacks (hname.trans heq.symm)⟩
  · have hsparing : (Change.createTable m).Sparing c := hm
    exact Action.Keeps.bind (applyChange hc hsparing acc) fun acc _ => hindexes acc

end Spared

/-- What a synchronisation sends to a database that keeps its keys: the statements of new tables
of its models, of columns that are not the key, and of indexes. -/
theorem sync_calls {c : Catalog} (hc : c.WellFormed) (hclosed : c.Closed) {ex : Executor σ} {s : σ}
    {driver : String} (hkeyed : Database.Keyed ⟨driver, .sqlite, ex⟩ s) :
    ∀ call ∈ (sync ⟨driver, .sqlite, ex.recorded⟩ c (s, [])).2.2,
      ∃ change : Change, change.Sparing c ∧ call = change.call .sqlite := by
  have hstart : Spared c ex s (s, []) := ⟨.start, by simp⟩
  obtain ⟨order, horder, hperm, -⟩ := c.dependencyOrder_finished hc.names_nodup hclosed
  have htables := Spared.tables driver (s, []) hstart
  suffices hspared : Spared c ex s (sync ⟨driver, .sqlite, ex.recorded⟩ c (s, [])).2 from
    hspared.calls
  rcases hrun : Database.tables ⟨driver, .sqlite, ex.recorded⟩ (s, []) with ⟨_ | existing, p⟩
  · rw [hrun] at htables
    rw [sync, Action.bind_error hrun]
    exact htables.1
  · rw [hrun] at htables
    have hkept := hkeyed existing (by rw [← recorded_tables _ _ (s, []), hrun])
    have hmodels : (liftM (n := Action (σ × List DatabaseCall)) c.dependencyOrder) p =
        (.ok order, p) := by
      rw [horder]
      rfl
    rw [sync, Action.bind_ok hrun, Action.bind_ok hmodels]
    have hall : Action.Keeps (Spared c ex s) (order.foldlM
        (syncModel ⟨driver, .sqlite, ex.recorded⟩ existing) .empty) fun _ => True :=
      .foldlM (fun acc m hm => Spared.syncModel hc (hperm.mem_iff.1 hm) hkept acc) _
    exact (hall p htables.1).1

/-- Changes that are all accepted are all sent. -/
theorem applyAll_calls {ex : Executor σ}
    (hex : ∀ sql args s, ∃ n s', ex.execute sql args s = (.ok n, s')) (driver : String)
    {changes : List Change} (hchanges : ∀ change ∈ changes, change.Proper) (acc : SyncReport)
    (p : σ × List DatabaseCall) :
    (applyAll ⟨driver, .sqlite, ex.recorded⟩ acc changes p).2.2 =
      p.2 ++ changes.map (Change.call .sqlite) := by
  induction changes generalizing acc p with
  | nil => exact (List.append_nil _).symm
  | cons change changes ih =>
    have hchange := hchanges change List.mem_cons_self
    obtain ⟨n, s', hrun⟩ := hex (change.text .sqlite) [] p.1
    have hrecorded : ex.recorded.execute (change.text .sqlite) [] p =
        (.ok n, s', p.2 ++ [change.call .sqlite]) := by
      simp only [Executor.recorded, hrun]
      rfl
    rw [applyAll, List.foldlM_cons,
      Action.bind_ok (applyChange_ok driver .sqlite acc hchange hrecorded)]
    refine (ih (fun c hc => hchanges c (List.mem_cons_of_mem _ hc)) _ _).trans ?_
    rw [List.append_assoc]
    rfl

end

/-! ## Additions -/

theorem Model.WellFormed.isKey_eq_false {m : Model} (hm : m.WellFormed) {f : Field}
    (hf : f ∈ m.fields) (h : f.column ≠ idField) : f.isKey = false := by
  rw [Field.isKey, Bool.and_eq_false_iff, beq_eq_false_iff_ne]
  refine .inr fun hname => h ?_
  obtain ⟨g, hg, hcolumn, -⟩ := hm.getField_id
  have hsame := hm.getField_name hf
  rw [hname, hg] at hsame
  cases hsame
  exact hcolumn

/-- The constraints of a column that is added are those of its definition, and no other change
adds one. -/
theorem addition?_text {change : Change} (h : change.Proper) :
    addition? (change.text .sqlite) = match change with
      | .addColumn _ f => some (constraints (lexemes (Dialect.sqlite.columnDefinition f)))
      | .createTable _ | .createIndex _ _ => none := by
  unfold addition?
  rw [readDdl_text .sqlite h]
  cases change with
  | createTable m | createIndex m f => rfl
  | addColumn m f =>
    simp only [Change.ddl, (lexes_addColumn .sqlite (h.1.identifiers f h.2).2).lexemes]
    rfl

/-- A database in which a table has its key and nothing else. -/
def keyOnly (table : String) : Reported := ⟨[table], fun _ => [idField], fun _ _ => 1⟩

/-- An executor that accepts every statement and always reports the same. -/
def accepting (r : Reported) : Executor (List DatabaseCall) :=
  recorder (answering .sqlite r) fun _ => .ok 0

theorem accepting_keyed {r : Reported} (h : ∀ table ∈ r.tables, idField ∈ r.columns table)
    (driver : String) (sent : List DatabaseCall) :
    Database.Keyed ⟨driver, .sqlite, accepting r⟩ sent := by
  have hshows (sent : List DatabaseCall) : Shows ⟨driver, .sqlite, accepting r⟩ sent r :=
    ⟨fun _ _ => rfl, answering_reports .sqlite r⟩
  intro tables htables table htable sent' _ columns hcolumns
  obtain ⟨ts, hts, hmem⟩ := (hshows sent).tables
  obtain ⟨cs, hcs, hnames⟩ := (hshows sent').columns table
  rw [hts] at htables
  rw [hcs] at hcolumns
  cases htables
  cases hcolumns
  exact (hnames idField).2 (h table ((hmem table).1 htable))

/-- What a database that accepts every statement is sent. -/
theorem sync_accepting {c : Catalog} (hc : c.WellFormed) {order : List Model}
    (horder : c.dependencyOrder = .ok order) (hperm : order.Perm c.models) (driver : String)
    (r : Reported) :
    (sync ⟨driver, .sqlite, (accepting r).recorded⟩ c ([], [])).2.2 =
      (order.flatMap (lacking r)).map (Change.call .sqlite) := by
  have hshows (p : List DatabaseCall × List DatabaseCall) :
      Shows ⟨driver, .sqlite, (accepting r).recorded⟩ p r :=
    ⟨fun _ _ => rfl, answering_reports .sqlite r⟩
  have hproper : ∀ change ∈ order.flatMap (lacking r), change.Proper := by
    intro change hchange
    obtain ⟨m, hm, hchange⟩ := List.mem_flatMap.1 hchange
    exact lacking_proper (hc.models m (hperm.mem_iff.1 hm)) change hchange
  rw [sync_eq_applyAll hshows horder, applyAll_calls (fun _ _ _ => ⟨0, _, rfl⟩) driver hproper,
    List.nil_append]

/-- A synchronisation of a catalog whose relations all have a declared target, on a database of the
kind of SQLite whose tables have their keys, adds columns only for fields of its models that are
not stored in the column of the key, and such an addition obeys the rules exactly if its field is
addable. On all these databases all additions obey them exactly if all these fields are. -/
theorem sync_additions_iff {c : Catalog} (hc : c.Reachable) (hclosed : c.Closed) :
    (∀ (σ : Type) (ex : Executor σ) (driver : String) (s : σ),
      Database.Keyed ⟨driver, .sqlite, ex⟩ s →
        ∀ call ∈ (sync ⟨driver, .sqlite, ex.recorded⟩ c (s, [])).2.2,
          ∀ cs, addition? call.sql = some cs → ∃ m ∈ c.models, ∃ f ∈ m.fields,
            f.column ≠ idField ∧ call.sql = (Change.addColumn m f).text .sqlite ∧
              (Legal cs ↔ f.Addable)) ∧
    ((∀ (σ : Type) (ex : Executor σ) (driver : String) (s : σ),
      Database.Keyed ⟨driver, .sqlite, ex⟩ s →
        ∀ call ∈ (sync ⟨driver, .sqlite, ex.recorded⟩ c (s, [])).2.2,
          ∀ cs, addition? call.sql = some cs → Legal cs) ↔
      ∀ m ∈ c.models, ∀ f ∈ m.fields, f.column ≠ idField → f.Addable) := by
  have hwell := hc.wellFormed
  have hadditions (σ : Type) (ex : Executor σ) (driver : String) (s : σ)
      (hkeyed : Database.Keyed ⟨driver, .sqlite, ex⟩ s) :
      ∀ call ∈ (sync ⟨driver, .sqlite, ex.recorded⟩ c (s, [])).2.2,
        ∀ cs, addition? call.sql = some cs → ∃ m ∈ c.models, ∃ f ∈ m.fields,
          f.column ≠ idField ∧ call.sql = (Change.addColumn m f).text .sqlite ∧
            (Legal cs ↔ f.Addable) := by
    intro call hcall cs hcs
    obtain ⟨change, hchange, rfl⟩ := sync_calls hwell hclosed hkeyed call hcall
    rw [Change.call, addition?_text (hchange.proper hwell)] at hcs
    cases change with
    | createTable m | createIndex m f => cases hcs
    | addColumn m f =>
      obtain ⟨hm, hf, hcolumn⟩ := hchange
      cases hcs
      have hkey := (hwell.models m hm).isKey_eq_false hf hcolumn
      exact ⟨m, hm, f, hf, hcolumn, rfl, legal_iff_addable hkey⟩
  refine ⟨hadditions, fun hlegal m hm f hf hcolumn => ?_, ?_⟩
  · -- a database in which the table of the model has its key alone lacks the column
    obtain ⟨order, horder, hperm, -⟩ := c.dependencyOrder_finished hwell.names_nodup hclosed
    have hproper : (Change.addColumn m f).Proper := ⟨hwell.models m hm, hf⟩
    have hlacks : Change.addColumn m f ∈ order.flatMap (lacking (keyOnly m.table)) := by
      refine List.mem_flatMap.2 ⟨m, hperm.mem_iff.2 hm, List.mem_append_left _ ?_⟩
      have htable : m.table ∈ (keyOnly m.table).tables := List.mem_singleton.2 rfl
      rw [lackingColumns, if_pos htable]
      exact List.mem_map_of_mem (List.mem_filter.2 ⟨hf, by simpa [keyOnly] using hcolumn⟩)
    have hsent : (Change.addColumn m f).call .sqlite ∈
        (sync ⟨"sqlite3", .sqlite, (accepting (keyOnly m.table)).recorded⟩ c ([], [])).2.2 := by
      rw [sync_accepting hwell horder hperm]
      exact List.mem_map_of_mem hlacks
    have hobeys := hlegal _ _ _ _ (accepting_keyed (by simp [keyOnly]) "sqlite3" []) _ hsent _
      (addition?_text hproper)
    exact (legal_iff_addable ((hwell.models m hm).isKey_eq_false hf hcolumn)).1 hobeys
  · intro haddable σ ex driver s hkeyed call hcall cs hcs
    obtain ⟨m, hm, f, hf, hcolumn, -, hlegal⟩ := hadditions σ ex driver s hkeyed call hcall cs hcs
    exact hlegal.2 (haddable m hm f hf hcolumn)

def invoicePaid : Field :=
  { Field.scalar "paid" .boolean with required := true, default := some (.boolean false) }

/-- An invoice that is not paid unless it is said to be. -/
def invoice : Model := (Model.new "Invoice").withField invoicePaid

def invoicePaidText : String :=
  "ALTER TABLE \"invoice\" ADD COLUMN paid BOOLEAN NOT NULL DEFAULT FALSE"

theorem invoice_paid_added : Catalog.Reachable ⟨[invoice]⟩ ∧ Catalog.Closed ⟨[invoice]⟩ ∧
    Database.Keyed ⟨"sqlite3", .sqlite, accepting (keyOnly "invoice")⟩ [] ∧
    (sync ⟨"sqlite3", .sqlite, (accepting (keyOnly "invoice")).recorded⟩ ⟨[invoice]⟩ ([], [])).2.2 =
      [⟨.execute, invoicePaidText, []⟩] ∧
    addition? invoicePaidText = some [.notNull, .default [.word "FALSE"]] ∧
    Legal [.notNull, .default [.word "FALSE"]] := by
  have hc : Catalog.Reachable ⟨[invoice]⟩ :=
    .declare .empty (rfl : Catalog.declare .empty invoice = _)
  have hclosed : Catalog.Closed ⟨[invoice]⟩ := by unfold Catalog.Closed; decide
  have hkeyed : Database.Keyed ⟨"sqlite3", .sqlite, accepting (keyOnly "invoice")⟩ [] :=
    accepting_keyed (by simp [keyOnly]) _ _
  have hsent : (sync ⟨"sqlite3", .sqlite, (accepting (keyOnly "invoice")).recorded⟩ ⟨[invoice]⟩
      ([], [])).2.2 = [⟨.execute, invoicePaidText, []⟩] :=
    sync_accepting hc.wellFormed (Catalog.dependencyOrder_single hclosed) (.refl _) _ _
  have haddition : addition? invoicePaidText = some [.notNull, .default [.word "FALSE"]] := by
    decide +kernel
  have hmem : ⟨.execute, invoicePaidText, []⟩ ∈ (sync ⟨"sqlite3", .sqlite,
      (accepting (keyOnly "invoice")).recorded⟩ ⟨[invoice]⟩ ([], [])).2.2 := by
    rw [hsent]
    exact List.mem_singleton_self _
  refine ⟨hc, hclosed, hkeyed, hsent, haddition, ?_⟩
  refine (sync_additions_iff hc hclosed).2.2 ?_ _ _ _ _ hkeyed _ hmem _ haddition
  intro m hm f hf hcolumn
  cases List.mem_singleton.1 hm
  have hfields : invoice.fields = [Field.id, invoicePaid] := rfl
  rw [hfields] at hf
  rcases List.mem_cons.1 hf with rfl | hf
  · exact absurd rfl hcolumn
  · cases List.mem_singleton.1 hf
    exact .inr ⟨rfl, fun _ => ⟨_, rfl, fun hnull => by cases hnull⟩⟩

/-- A ticket with a code of its own. -/
def codedTicket : Model := (Model.new "Ticket").withField
  { Field.scalar "code" .text with unique := true }

/-- A unique column is added to a table with its unique clause, which the rules forbid. -/
theorem codedTicket_code_refused : Catalog.Reachable ⟨[codedTicket]⟩ ∧
    Catalog.Closed ⟨[codedTicket]⟩ ∧
    Database.Keyed ⟨"sqlite3", .sqlite, accepting (keyOnly "ticket")⟩ [] ∧
    (sync ⟨"sqlite3", .sqlite, (accepting (keyOnly "ticket")).recorded⟩ ⟨[codedTicket]⟩
      ([], [])).2.2 = [⟨.execute, "ALTER TABLE \"ticket\" ADD COLUMN code TEXT UNIQUE", []⟩] ∧
    addition? "ALTER TABLE \"ticket\" ADD COLUMN code TEXT UNIQUE" = some [.unique] ∧
    ¬ Legal [.unique] := by
  have hc : Catalog.Reachable ⟨[codedTicket]⟩ :=
    .declare .empty (rfl : Catalog.declare .empty codedTicket = _)
  have hclosed : Catalog.Closed ⟨[codedTicket]⟩ := by unfold Catalog.Closed; decide
  refine ⟨hc, hclosed, accepting_keyed (by simp [keyOnly]) _ _, ?_, by decide +kernel,
    fun hlegal => hlegal.unique List.mem_cons_self⟩
  exact sync_accepting hc.wellFormed (Catalog.dependencyOrder_single hclosed) (.refl _) _ _

end RecordModel
