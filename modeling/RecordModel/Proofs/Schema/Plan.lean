import RecordModel.Database.Scripted
import RecordModel.Proofs.Catalog.Order
import RecordModel.Proofs.Schema.Reports
import RecordModel.Proofs.Schema.Statements
import RecordModel.Schema.Sync

/-!
# The plan of a synchronisation

If a database always reports the same, its report decides which statements a synchronisation
executes: model by model in dependency order, the new table or else the missing columns, then
the missing indexes. The statements go out in this order up to the first one that fails.

Results:
* `syncModel_eq`, `syncIndex_eq`: what a step applies in a state that is reported.
* `sync_eq_applyAll`: a synchronisation applies the changes of its plan.
* `sync_runs_plan`: what is sent and what is returned, without a failure and with one.
-/
namespace RecordModel

open RecordModel.Sql

variable {σ : Type}

/-! ## The plan -/

/-- The columns that a reported table lacks, or the whole table. -/
def lackingColumns (r : Reported) (m : Model) : List Change :=
  if m.table ∈ r.tables then
    (m.fields.filter fun f => f.column ∉ r.columns m.table).map (.addColumn m)
  else [.createTable m]

/-- The indexes that are not reported. -/
def lackingIndexes (r : Reported) (m : Model) (fs : List Field) : List Change :=
  (fs.filter fun f => f.index && (r.indexCount m.table (indexName m f)).toInt ≤ 0).map
    (.createIndex m)

/-- The changes that a model needs. -/
def lacking (r : Reported) (m : Model) : List Change :=
  lackingColumns r m ++ lackingIndexes r m m.fields

/-- The report of changes: each object under its kind, in order. -/
def SyncReport.of (changes : List Change) : SyncReport where
  tables := changes.filterMap fun
    | .createTable m => some m.table
    | _ => none
  columns := changes.filterMap fun
    | .addColumn m f => some (m.table ++ "." ++ f.column)
    | _ => none
  indexes := changes.filterMap fun
    | .createIndex m f => some (indexName m f)
    | _ => none

theorem SyncReport.of_append_singleton (changes : List Change) (change : Change) :
    SyncReport.of (changes ++ [change]) = (SyncReport.of changes).note change := by
  cases change <;> simp [SyncReport.of, SyncReport.note]

theorem applyAll_singleton (db : Database σ) (acc : SyncReport) (change : Change) :
    applyAll db acc [change] = applyChange db acc change := by
  rw [applyAll, List.foldlM_cons]
  exact bind_pure _

theorem applyAll_append (db : Database σ) (acc : SyncReport) (xs ys : List Change) :
    applyAll db acc (xs ++ ys) = applyAll db acc xs >>= fun acc => applyAll db acc ys :=
  List.foldlM_append

variable {db : Database σ} {s : σ} {r : Reported}

theorem missingColumns_eq (m : Model) {existing : List ColumnInfo} {columns : List String}
    (h : ∀ name, name ∈ existing.map ColumnInfo.name ↔ name ∈ columns) :
    missingColumns m existing =
      (m.fields.filter fun f => f.column ∉ columns).map (.addColumn m) := by
  unfold missingColumns
  congr 2
  funext f
  rw [Bool.eq_iff_iff, decide_eq_true_iff, ← h f.column, List.all_eq_true, List.mem_map]
  constructor
  · rintro hall ⟨c, hc, hname⟩
    exact of_decide_eq_true (hall c hc) hname
  · exact fun hnone c hc => decide_eq_true fun hname => hnone ⟨c, hc, hname⟩

/-- The step of one model: first its columns, then its indexes. -/
theorem syncModel_eq (h : Shows db s r) {existing : List String} {m : Model}
    (hexisting : m.table ∈ existing ↔ m.table ∈ r.tables) (acc : SyncReport) :
    syncModel db existing acc m s =
      (applyAll db acc (lackingColumns r m) >>= fun acc =>
        (m.fields.filter Field.index).foldlM (syncIndex db m) acc) s := by
  unfold syncModel lackingColumns
  by_cases hm : m.table ∈ r.tables
  · obtain ⟨cs, hcs, hnames⟩ := h.columns m.table
    rw [if_pos (hexisting.2 hm), if_pos hm, Action.bind_ok hcs, missingColumns_eq m hnames]
  · rw [if_neg fun he => hm (hexisting.1 he), if_neg hm, applyAll_singleton]

theorem syncIndex_eq (h : Shows db s r) (acc : SyncReport) (m : Model) {f : Field}
    (hf : f.index = true) :
    syncIndex db m acc f s = applyAll db acc (lackingIndexes r m [f]) s := by
  rw [syncIndex, Action.bind_ok (h.indexExists m.table (indexName m f))]
  by_cases hcount : 0 < (r.indexCount m.table (indexName m f)).toInt
  · have hnot : ¬ (r.indexCount m.table (indexName m f)).toInt ≤ 0 := by omega
    simp [lackingIndexes, hf, hcount, hnot, applyAll]
  · have hle : (r.indexCount m.table (indexName m f)).toInt ≤ 0 := by omega
    simp [lackingIndexes, hf, hcount, hle, applyAll]

theorem lackingIndexes_cons (r : Reported) (m : Model) (f : Field) (fs : List Field) :
    lackingIndexes r m (f :: fs) = lackingIndexes r m [f] ++ lackingIndexes r m fs := by
  rw [lackingIndexes, ← List.singleton_append, List.filter_append, List.map_append]
  rfl

theorem lackingIndexes_of_not {m : Model} {f : Field} (hf : f.index = false) :
    lackingIndexes r m [f] = [] := by
  simp [lackingIndexes, hf]

theorem sync_eq (h : Shows db s r) {c : Catalog} {order : List Model}
    (horder : c.dependencyOrder = .ok order) :
    ∃ existing : List String, (∀ t, t ∈ existing ↔ t ∈ r.tables) ∧
      sync db c s = order.foldlM (syncModel db existing) .empty s := by
  obtain ⟨existing, hrun, hexisting⟩ := h.tables
  have hmodels : (liftM (n := Action σ) c.dependencyOrder) s = (.ok order, s) := by
    rw [horder]
    rfl
  exact ⟨existing, hexisting, by rw [sync, Action.bind_ok hrun, Action.bind_ok hmodels]⟩

/-! ## Fixed reports -/

section

variable (hshows : ∀ s, Shows db s r)

include hshows

/-- If nothing changes the report, the steps of all indexes apply what they lack. -/
theorem syncIndexes_eq (m : Model) (fs : List Field) (acc : SyncReport) :
    (fs.filter Field.index).foldlM (syncIndex db m) acc =
      applyAll db acc (lackingIndexes r m fs) := by
  induction fs generalizing acc with
  | nil => rfl
  | cons f fs ih =>
    cases hf : f.index with
    | false =>
      rw [List.filter_cons_of_neg (by simp [hf]), lackingIndexes_cons, lackingIndexes_of_not hf,
        List.nil_append, ih]
    | true =>
      have hrest : (fun acc => (fs.filter Field.index).foldlM (syncIndex db m) acc) =
          fun acc => applyAll db acc (lackingIndexes r m fs) := funext ih
      have hfirst : syncIndex db m acc f = applyAll db acc (lackingIndexes r m [f]) :=
        funext fun s => syncIndex_eq (hshows s) acc m hf
      rw [List.filter_cons_of_pos hf, List.foldlM_cons, lackingIndexes_cons, applyAll_append, hrest,
        hfirst]

theorem syncModel_eq_applyAll {existing : List String}
    (hexisting : ∀ t, t ∈ existing ↔ t ∈ r.tables) (acc : SyncReport) (m : Model) :
    syncModel db existing acc m = applyAll db acc (lacking r m) := by
  have hindexes : (fun acc => (m.fields.filter Field.index).foldlM (syncIndex db m) acc) =
      fun acc => applyAll db acc (lackingIndexes r m m.fields) :=
    funext (syncIndexes_eq hshows m m.fields)
  funext s
  rw [syncModel_eq (hshows s) (hexisting m.table), lacking, applyAll_append, hindexes]

theorem syncModels_eq_applyAll {existing : List String}
    (hexisting : ∀ t, t ∈ existing ↔ t ∈ r.tables) (acc : SyncReport) (ms : List Model) :
    ms.foldlM (syncModel db existing) acc = applyAll db acc (ms.flatMap (lacking r)) := by
  induction ms generalizing acc with
  | nil => rfl
  | cons m ms ih =>
    have hrest : (fun acc => ms.foldlM (syncModel db existing) acc) =
        fun acc => applyAll db acc (ms.flatMap (lacking r)) := funext ih
    rw [List.foldlM_cons, List.flatMap_cons, applyAll_append,
      syncModel_eq_applyAll hshows hexisting, hrest]

/-- A synchronisation applies the changes of its plan. -/
theorem sync_eq_applyAll {c : Catalog} {order : List Model} (horder : c.dependencyOrder = .ok order)
    (s : σ) : sync db c s = applyAll db .empty (order.flatMap (lacking r)) s := by
  obtain ⟨existing, hexisting, hrun⟩ := sync_eq (hshows s) horder
  rw [hrun, syncModels_eq_applyAll hshows hexisting]

end

/-! ## What is sent -/

/-- A database that always gives the same answers and records what it executes; the outcome of a
statement depends on how many went before. -/
def recorder (answer : String → List Value → Except String (List Row))
    (outcome : Nat → Except String Nat) : Executor (List DatabaseCall) where
  execute sql args sent := (outcome sent.length, sent ++ [⟨.execute, sql, args⟩])
  query sql args sent := (answer sql args, sent)

/-- The call that a change makes. -/
def Change.call (d : Dialect) (change : Change) : DatabaseCall := ⟨.execute, change.text d, []⟩

/-- A text without placeholders goes out as it is. -/
theorem rebind_inert (d : Dialect) {sql : String} (h : Inert sql) : d.rebind sql = sql := by
  cases d with
  | sqlite => rfl
  | postgres =>
    have hcount := h.count
    have hweave := weave_pieces none sql.toList
    unfold countPlaceholders at hcount
    rw [hcount] at hweave
    simp only [Dialect.rebind, number, hcount]
    exact (congrArg String.ofList hweave).trans String.ofList_toList

section

variable {ex : Executor σ} {s' : σ}

theorem Change.execute_eq (driver : String) (d : Dialect) (ex : Executor σ) {change : Change}
    (h : change.Proper) (s : σ) :
    Database.execute ⟨driver, d, ex⟩ (change.text d) [] s =
      (Database.report (change.text d) [] (ex.execute (change.text d) [] s).1,
        (ex.execute (change.text d) [] s).2) := by
  simp only [Database.execute, rebind_inert d (Change.inert_text d h)]

theorem applyChange_ok (driver : String) (d : Dialect) (acc : SyncReport) {change : Change}
    (hchange : change.Proper) {n : Nat} (h : ex.execute (change.text d) [] s = (.ok n, s')) :
    applyChange ⟨driver, d, ex⟩ acc change s = (.ok (acc.note change), s') := by
  have hrun := change.execute_eq driver d ex hchange s
  rw [h] at hrun
  rw [applyChange, Action.bind_ok hrun]
  rfl

theorem applyChange_error (driver : String) (d : Dialect) (acc : SyncReport) {change : Change}
    (hchange : change.Proper) {cause : String}
    (h : ex.execute (change.text d) [] s = (.error cause, s')) :
    applyChange ⟨driver, d, ex⟩ acc change s =
      (.error (.execution (change.text d) [] cause), s') := by
  have hrun := change.execute_eq driver d ex hchange s
  rw [h] at hrun
  exact Action.bind_error hrun _

end

section

variable {answer : String → List Value → Except String (List Row)}
  {outcome : Nat → Except String Nat} {sent : List DatabaseCall}

/-- Changes that all succeed are all sent and noted. -/
theorem applyAll_ok (driver : String) (d : Dialect) {changes : List Change}
    (hchanges : ∀ change ∈ changes, change.Proper) (before : List Change)
    (h : ∀ i < changes.length, ∃ n, outcome (sent.length + i) = .ok n) :
    applyAll ⟨driver, d, recorder answer outcome⟩ (.of before) changes sent =
      (.ok (.of (before ++ changes)), sent ++ changes.map (Change.call d)) := by
  induction changes generalizing before sent with
  | nil =>
    rw [List.append_nil, List.map_nil, List.append_nil]
    rfl
  | cons change changes ih =>
    obtain ⟨n, hn⟩ := h 0 (by simp)
    have hrest : ∀ i < changes.length, ∃ n,
        outcome ((sent ++ [change.call d]).length + i) = .ok n := by
      intro i hi
      obtain ⟨n, hn⟩ := h (i + 1) (by simpa using hi)
      exact ⟨n, by rw [← hn]; congr 1; simp only [List.length_append, List.length_singleton]; omega⟩
    have hfirst : applyChange ⟨driver, d, recorder answer outcome⟩ (.of before) change sent =
        (.ok (.of (before ++ [change])), sent ++ [change.call d]) := by
      rw [SyncReport.of_append_singleton]
      exact applyChange_ok driver d _ (hchanges change (by simp)) (Prod.ext hn rfl)
    have htail := ih (fun c hc => hchanges c (by simp [hc])) (before ++ [change]) hrest
    rw [List.append_assoc, List.append_assoc] at htail
    rw [applyAll, List.foldlM_cons, Action.bind_ok hfirst, List.map_cons]
    exact htail

/-- The first change that fails ends the run. -/
theorem applyAll_error (driver : String) (d : Dialect) {changes : List Change}
    (hchanges : ∀ change ∈ changes, change.Proper) {k : Nat} {change : Change} {cause : String}
    (hk : changes[k]? = some change) (h : ∀ i < k, ∃ n, outcome i = .ok n)
    (herror : outcome k = .error cause) :
    applyAll ⟨driver, d, recorder answer outcome⟩ .empty changes [] =
      (.error (.execution (change.text d) [] cause),
        (changes.take (k + 1)).map (Change.call d)) := by
  obtain ⟨hlt, hget⟩ := List.getElem?_eq_some_iff.1 hk
  have hlength : (changes.take k).length = k := List.length_take_of_le (Nat.le_of_lt hlt)
  have hsplit : changes = changes.take k ++ change :: changes.drop (k + 1) := by
    rw [← hget, ← List.drop_eq_getElem_cons hlt, List.take_append_drop]
  have hfront : applyAll ⟨driver, d, recorder answer outcome⟩ .empty (changes.take k) [] =
      (.ok (.of (changes.take k)), (changes.take k).map (Change.call d)) := by
    refine applyAll_ok driver d (fun c hc => hchanges c (List.mem_of_mem_take hc)) [] ?_
    intro i hi
    rw [List.length_nil, Nat.zero_add]
    exact h i (hlength ▸ hi)
  have hfail : applyChange ⟨driver, d, recorder answer outcome⟩ (.of (changes.take k)) change
      ((changes.take k).map (Change.call d)) = (.error (.execution (change.text d) [] cause),
        (changes.take k).map (Change.call d) ++ [change.call d]) := by
    refine applyChange_error driver d _ (hchanges change (List.mem_of_getElem? hk))
      (Prod.ext ?_ rfl)
    rw [← herror]
    exact congrArg outcome ((List.length_map _).trans hlength)
  have htake : changes.take (k + 1) = changes.take k ++ [change] := by
    rw [List.take_succ_eq_append_getElem hlt, hget]
  have hrest : applyAll ⟨driver, d, recorder answer outcome⟩ (.of (changes.take k))
      (change :: changes.drop (k + 1)) ((changes.take k).map (Change.call d)) =
        (.error (.execution (change.text d) [] cause),
          (changes.take k).map (Change.call d) ++ [change.call d]) := by
    rw [applyAll, List.foldlM_cons, Action.bind_error hfail]
  rw [htake, List.map_append, List.map_singleton, ← hrest]
  conv_lhs => rw [hsplit, applyAll_append, Action.bind_ok hfront]

end

theorem lacking_proper {r : Reported} {m : Model} (hm : m.WellFormed) :
    ∀ change ∈ lacking r m, change.Proper := by
  intro change hchange
  rcases List.mem_append.1 hchange with hchange | hchange
  · unfold lackingColumns at hchange
    split at hchange
    · obtain ⟨f, hf, rfl⟩ := List.mem_map.1 hchange
      exact ⟨hm, List.mem_of_mem_filter hf⟩
    · rw [List.mem_singleton.1 hchange]
      exact hm
  · obtain ⟨f, hf, rfl⟩ := List.mem_map.1 hchange
    exact ⟨hm, List.mem_of_mem_filter hf⟩

/-- A synchronisation of a catalog whose relations all have a declared target, on a database
that always reports the same, sends the statements of its plan: the new table of each model in
dependency order or else its missing columns, then its missing indexes. It reports just these
objects in this order. If a statement fails, its error is returned, and the statements up to
it have been sent. -/
theorem sync_runs_plan {c : Catalog} (hc : c.Reachable) (hclosed : c.Closed) (driver : String)
    (d : Dialect) {answer : String → List Value → Except String (List Row)} {r : Reported}
    (hr : Reports d answer r) (outcome : Nat → Except String Nat) :
    ∃ order, c.dependencyOrder = .ok order ∧
      ((∀ i < (order.flatMap (lacking r)).length, ∃ n, outcome i = .ok n) →
        sync ⟨driver, d, recorder answer outcome⟩ c [] =
          (.ok (.of (order.flatMap (lacking r))),
            (order.flatMap (lacking r)).map (Change.call d))) ∧
      ∀ k change cause, (order.flatMap (lacking r))[k]? = some change →
        (∀ i < k, ∃ n, outcome i = .ok n) → outcome k = .error cause →
          sync ⟨driver, d, recorder answer outcome⟩ c [] =
            (.error (.execution (change.text d) [] cause),
              ((order.flatMap (lacking r)).take (k + 1)).map (Change.call d)) := by
  obtain ⟨order, horder, hperm, -⟩ :=
    c.dependencyOrder_finished hc.wellFormed.names_nodup hclosed
  have hshows : ∀ sent, Shows ⟨driver, d, recorder answer outcome⟩ sent r :=
    fun sent => ⟨fun _ _ => rfl, hr⟩
  have hproper : ∀ change ∈ order.flatMap (lacking r), change.Proper := by
    intro change hchange
    obtain ⟨m, hm, hchange⟩ := List.mem_flatMap.1 hchange
    exact lacking_proper (hc.wellFormed.models m (hperm.mem_iff.1 hm)) change hchange
  refine ⟨order, horder, fun hall => ?_, fun k change cause hk hbefore herror => ?_⟩
  · rw [sync_eq_applyAll hshows horder]
    exact applyAll_ok driver d hproper [] (by simpa using hall)
  · rw [sync_eq_applyAll hshows horder]
    exact applyAll_error driver d hproper hk hbefore herror

/-- The answers of a database with the given tables, columns and indexes. -/
def answering (d : Dialect) (r : Reported) (sql : String) (args : List Value) :
    Except String (List Row) :=
  match args with
  | [] =>
    if sql = d.rebind d.tablesQuery then .ok (r.tables.map fun t => [.text t])
    else .error "no such query"
  | [.text table] =>
    if sql = d.rebind d.columnsQuery then
      .ok ((r.columns table).map fun c => [.text c, .text "", .text "YES", .null])
    else .error "no such query"
  | [.text table, .text name] =>
    if sql = d.rebind d.indexQuery then .ok [[.integer (r.indexCount table name)]]
    else .error "no such query"
  | _ => .error "no such query"

theorem answering_reports (d : Dialect) (r : Reported) : Reports d (answering d r) r where
  tables := ⟨_, if_pos rfl, by simp⟩
  columns table := ⟨_, if_pos rfl, by simp⟩
  indexes table name := ⟨_, if_pos rfl, rfl⟩

def taskTitle : Field := { Field.scalar "title" .text with index := true }

/-- A task with an indexed title and a state. -/
def task : Model := ((Model.new "Task").withField taskTitle).withField (.scalar "state" .text)

/-- The table of the tasks without their titles. -/
def untitled : Reported := ⟨["task"], fun _ => ["state", "id"], fun _ _ => 0⟩

/-- The title's column is added, but its index cannot be created. -/
theorem task_index_fails : Catalog.Reachable ⟨[task]⟩ ∧ Catalog.Closed ⟨[task]⟩ ∧
    sync ⟨"postgres", .postgres,
        recorder (answering .postgres untitled) fun n => if n < 1 then .ok 0 else .error "full"⟩
        ⟨[task]⟩ [] =
      (.error (.execution "CREATE INDEX task_title_index ON \"task\" (title)" [] "full"),
        [⟨.execute, "ALTER TABLE \"task\" ADD COLUMN title varchar", []⟩,
          ⟨.execute, "CREATE INDEX task_title_index ON \"task\" (title)", []⟩]) := by
  have hc : Catalog.Reachable ⟨[task]⟩ :=
    .declare .empty (rfl : Catalog.declare .empty task = _)
  have hclosed : Catalog.Closed ⟨[task]⟩ := by unfold Catalog.Closed; decide
  obtain ⟨order, horder, -, hfails⟩ := sync_runs_plan hc hclosed "postgres" .postgres
    (answering_reports .postgres untitled) fun n => if n < 1 then .ok 0 else .error "full"
  cases horder.symm.trans (Catalog.dependencyOrder_single hclosed)
  refine ⟨hc, hclosed, ?_⟩
  exact hfails 1 (.createIndex task taskTitle) "full" rfl (by simp) rfl

end RecordModel
