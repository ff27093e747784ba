import RecordModel.Proofs.Schema.Plan

/-!
# Synchronising twice

A database of the kind of PostgreSQL stores quoted names as they are written and bare names in
lower case. The statements of a synchronisation quote the names of tables only, but its queries
compare all names as they are. A column or an index whose name has an upper-case letter is
therefore created under another name, and is created again the next time.

Results:
* `sync_idle_iff`: a synchronisation does nothing exactly if no model lacks anything.
* `Folds.sync_synced`: what a successful synchronisation has done to the names of a database.
* `sync_twice_iff`: a second synchronisation does nothing exactly if each name was there before
  the first one or is written in lower case.
-/
namespace RecordModel

open RecordModel.Sql

variable {σ : Type}

section

variable {db : Database σ} {s : σ} {r : Reported}

/-! ## Nothing to do -/

namespace SyncReport

def size (acc : SyncReport) : Nat := acc.tables.length + acc.columns.length + acc.indexes.length

theorem size_note (acc : SyncReport) (change : Change) : (acc.note change).size = acc.size + 1 := by
  cases change <;> simp only [note, size, List.length_append, List.length_singleton] <;> omega

end SyncReport

section

variable {s' : σ} {acc acc' : SyncReport} {m : Model}

theorem applyAll_size {changes : List Change} (h : applyAll db acc changes s = (.ok acc', s')) :
    acc'.size = acc.size + changes.length := by
  induction changes generalizing acc s with
  | nil =>
    cases h
    rfl
  | cons change changes ih =>
    obtain ⟨acc1, s1, hfirst, hrest⟩ := Action.bind_eq_ok h
    obtain ⟨n, s2, -, hnote⟩ := Action.bind_eq_ok hfirst
    cases hnote
    rw [ih hrest, SyncReport.size_note, List.length_cons]
    omega

theorem syncIndex_size {f : Field} (h : syncIndex db m acc f s = (.ok acc', s')) :
    acc.size ≤ acc'.size := by
  obtain ⟨found, s1, -, h⟩ := Action.bind_eq_ok h
  cases found with
  | true =>
    cases h
    exact Nat.le_refl _
  | false =>
    have hone : applyAll db acc [.createIndex m f] s1 = (.ok acc', s') := by
      rw [applyAll_singleton]
      exact h
    have hsize := applyAll_size hone
    omega

theorem foldlM_size {α : Type} {step : SyncReport → α → Action σ SyncReport}
    (hstep : ∀ acc a s acc' s', step acc a s = (.ok acc', s') → acc.size ≤ acc'.size)
    {xs : List α} (h : xs.foldlM step acc s = (.ok acc', s')) : acc.size ≤ acc'.size := by
  induction xs generalizing acc s with
  | nil =>
    cases h
    exact Nat.le_refl _
  | cons x xs ih =>
    rw [List.foldlM_cons] at h
    obtain ⟨acc1, s1, hfirst, hrest⟩ := Action.bind_eq_ok h
    exact Nat.le_trans (hstep _ _ _ _ _ hfirst) (ih hrest)

theorem syncModel_size {existing : List String}
    (h : syncModel db existing acc m s = (.ok acc', s')) : acc.size ≤ acc'.size := by
  have hindexes {acc1 : SyncReport} {s1 : σ} (h : (m.fields.filter Field.index).foldlM
      (syncIndex db m) acc1 s1 = (.ok acc', s')) : acc1.size ≤ acc'.size :=
    foldlM_size (fun _ _ _ _ _ => syncIndex_size) h
  unfold syncModel at h
  split at h
  · obtain ⟨cs, s1, -, h⟩ := Action.bind_eq_ok h
    obtain ⟨acc1, s2, hcolumns, h⟩ := Action.bind_eq_ok h
    have hsize := applyAll_size hcolumns
    exact Nat.le_trans (by omega) (hindexes h)
  · obtain ⟨acc1, s1, htable, h⟩ := Action.bind_eq_ok h
    rw [← applyAll_singleton] at htable
    have hsize := applyAll_size htable
    exact Nat.le_trans (by omega) (hindexes h)

theorem pure_idle_iff :
    ((pure acc : Action σ SyncReport) s = (.ok acc', s') ∧ acc'.size ≤ acc.size) ↔
      acc' = acc ∧ s' = s := by
  constructor
  · rintro ⟨hrun, -⟩
    cases hrun
    exact ⟨rfl, rfl⟩
  · rintro ⟨rfl, rfl⟩
    exact ⟨rfl, Nat.le_refl _⟩

theorem applyAll_idle_iff {changes : List Change} :
    (applyAll db acc changes s = (.ok acc', s') ∧ acc'.size ≤ acc.size) ↔
      changes = [] ∧ acc' = acc ∧ s' = s := by
  constructor
  · rintro ⟨hrun, hsize⟩
    have hall := applyAll_size hrun
    have hnil : changes = [] := List.length_eq_zero_iff.1 (by omega)
    subst hnil
    cases hrun
    exact ⟨rfl, rfl, rfl⟩
  · rintro ⟨rfl, rfl, rfl⟩
    exact ⟨rfl, Nat.le_refl _⟩

/-- Two steps do nothing exactly if each of them does nothing. -/
theorem bind_idle_iff {first : Action σ SyncReport} {rest : SyncReport → Action σ SyncReport}
    {P Q : Prop}
    (hfirst : ∀ acc1 s1, (first s = (.ok acc1, s1) ∧ acc1.size ≤ acc.size) ↔
      P ∧ acc1 = acc ∧ s1 = s)
    (hrest : (rest acc s = (.ok acc', s') ∧ acc'.size ≤ acc.size) ↔ Q ∧ acc' = acc ∧ s' = s)
    (hgrows : ∀ acc1 s1, rest acc1 s1 = (.ok acc', s') → acc1.size ≤ acc'.size) :
    ((first >>= rest) s = (.ok acc', s') ∧ acc'.size ≤ acc.size) ↔
      (P ∧ Q) ∧ acc' = acc ∧ s' = s := by
  constructor
  · rintro ⟨hrun, hsize⟩
    obtain ⟨acc1, s1, h1, h2⟩ := Action.bind_eq_ok hrun
    obtain ⟨hP, rfl, rfl⟩ := (hfirst acc1 s1).1 ⟨h1, Nat.le_trans (hgrows acc1 s1 h2) hsize⟩
    obtain ⟨hQ, hsame⟩ := hrest.1 ⟨h2, hsize⟩
    exact ⟨⟨hP, hQ⟩, hsame⟩
  · rintro ⟨⟨hP, hQ⟩, hsame⟩
    obtain ⟨h1, -⟩ := (hfirst acc s).2 ⟨hP, rfl, rfl⟩
    obtain ⟨h2, hsize⟩ := hrest.2 ⟨hQ, hsame⟩
    exact ⟨(Action.bind_ok h1 rest).trans h2, hsize⟩

/-- The indexes of a model are left alone exactly if none is lacking. -/
theorem syncIndexes_idle_iff (h : Shows db s r) {fs : List Field} :
    ((fs.filter Field.index).foldlM (syncIndex db m) acc s = (.ok acc', s') ∧
        acc'.size ≤ acc.size) ↔
      lackingIndexes r m fs = [] ∧ acc' = acc ∧ s' = s := by
  induction fs with
  | nil => exact pure_idle_iff.trans ⟨fun hsame => ⟨rfl, hsame⟩, And.right⟩
  | cons f fs ih =>
    rw [lackingIndexes_cons, List.append_eq_nil_iff]
    cases hf : f.index with
    | false =>
      rw [List.filter_cons_of_neg (by simp [hf]), lackingIndexes_of_not hf, ih]
      simp
    | true =>
      rw [List.filter_cons_of_pos hf, List.foldlM_cons]
      refine bind_idle_iff (fun acc1 s1 => ?_) ih fun _ _ =>
        foldlM_size fun _ _ _ _ _ => syncIndex_size
      rw [syncIndex_eq h acc m hf]
      exact applyAll_idle_iff

/-- A model is left alone exactly if it lacks nothing. -/
theorem syncModel_idle_iff (h : Shows db s r) {existing : List String}
    (hexisting : m.table ∈ existing ↔ m.table ∈ r.tables) :
    (syncModel db existing acc m s = (.ok acc', s') ∧ acc'.size ≤ acc.size) ↔
      lacking r m = [] ∧ acc' = acc ∧ s' = s := by
  rw [syncModel_eq h hexisting, lacking, List.append_eq_nil_iff]
  exact bind_idle_iff (fun _ _ => applyAll_idle_iff) (syncIndexes_idle_iff h) fun _ _ =>
    foldlM_size fun _ _ _ _ _ => syncIndex_size

theorem syncModels_idle_iff (h : Shows db s r) {existing : List String}
    (hexisting : ∀ t, t ∈ existing ↔ t ∈ r.tables) {ms : List Model} :
    (ms.foldlM (syncModel db existing) acc s = (.ok acc', s') ∧ acc'.size ≤ acc.size) ↔
      (∀ m ∈ ms, lacking r m = []) ∧ acc' = acc ∧ s' = s := by
  induction ms with
  | nil => simpa using pure_idle_iff
  | cons m ms ih =>
    rw [List.foldlM_cons, List.forall_mem_cons]
    exact bind_idle_iff (fun _ _ => syncModel_idle_iff h (hexisting m.table)) ih fun _ _ =>
      foldlM_size fun _ _ _ _ _ => syncModel_size

end

/-- A synchronisation does nothing exactly if no model lacks anything. -/
theorem sync_idle_iff (h : Shows db s r) {c : Catalog} {order : List Model}
    (horder : c.dependencyOrder = .ok order) :
    sync db c s = (.ok .empty, s) ↔ ∀ m ∈ order, lacking r m = [] := by
  obtain ⟨existing, hexisting, hrun⟩ := sync_eq h horder
  have hidle : (order.foldlM (syncModel db existing) .empty s = (.ok .empty, s) ∧
      SyncReport.empty.size ≤ SyncReport.empty.size) ↔
        (∀ m ∈ order, lacking r m = []) ∧ SyncReport.empty = .empty ∧ s = s :=
    syncModels_idle_iff h hexisting
  rw [hrun]
  simpa using hidle

end

/-! ## A database that folds names -/

/-- The names that a database stores. -/
structure StoredNames where
  tables : List String
  columns : String → List String
  indexes : String → List String

namespace StoredNames

def reported (v : StoredNames) : Reported :=
  ⟨v.tables, v.columns, fun table name => if name ∈ v.indexes table then 1 else 0⟩

/-- The names when a statement has been executed. -/
def create (v : StoredNames) : Ddl → StoredNames
  | .createTable table columns =>
    { v with
      tables := v.tables ++ [table]
      columns := fun t => if t = table then columns else v.columns t }
  | .addColumn table column =>
    { v with columns := fun t => if t = table then v.columns t ++ [column] else v.columns t }
  | .createIndex name table _ =>
    { v with indexes := fun t => if t = table then v.indexes t ++ [name] else v.indexes t }

/-- The columns of a table; none of one that does not exist. -/
def columnsOf (v : StoredNames) (table : String) : List String :=
  if table ∈ v.tables then v.columns table else []

theorem mem_columnsOf {v : StoredNames} {table name : String} :
    name ∈ v.columnsOf table ↔ table ∈ v.tables ∧ name ∈ v.columns table := by
  unfold columnsOf
  split <;> simp_all

end StoredNames

/-- A database that stores names: looking at it leaves it as it is and reports the names, and a
schema statement that succeeds creates the names that are read from it. -/
structure Folds (ex : Executor σ) (view : σ → StoredNames) : Prop where
  unchanged : ∀ sql args s, (ex.query sql args s).2 = s
  reports : ∀ s, Reports .postgres (fun sql args => (ex.query sql args s).1) (view s).reported
  created : ∀ s sql ddl n s', readDdl sql = some ddl → ex.execute sql [] s = (.ok n, s') →
    view s' = (view s).create ddl

theorem toLower_toLower (c : Char) : c.toLower.toLower = c.toLower := by
  unfold Char.toLower
  split <;> grind

theorem foldName_idem (name : String) : foldName (foldName name) = foldName name := by
  simp only [foldName, String.toList_ofList, List.map_map]
  congr 2
  funext c
  exact toLower_toLower c

/-- The names after a step that wants some of them: the old ones are kept, each wanted one is
there or was created in lower case, and nothing else is new. -/
structure Extended (wanted old new : List String) : Prop where
  kept : ∀ name ∈ old, name ∈ new
  added : ∀ name ∈ wanted, name ∈ new ∨ foldName name ∈ new
  folded : ∀ name ∈ new, name ∈ old ∨ foldName name = name

namespace Extended

variable {wanted wanted' old mid new : List String}

theorem refl (names : List String) : Extended [] names names :=
  ⟨fun _ h => h, by simp, fun _ h => .inl h⟩

theorem trans (h : Extended wanted old mid) (h' : Extended wanted' mid new) :
    Extended (wanted ++ wanted') old new where
  kept name hn := h'.kept name (h.kept name hn)
  added name hn := by
    rcases List.mem_append.1 hn with hn | hn
    · exact (h.added name hn).imp (h'.kept _) (h'.kept _)
    · exact h'.added name hn
  folded name hn := by
    rcases h'.folded name hn with hn | hn
    · exact h.folded name hn
    · exact .inr hn

/-- The wanted names that are not there are created in lower case. -/
theorem create (wanted old : List String) :
    Extended wanted old (old ++ (wanted.filter (· ∉ old)).map foldName) where
  kept name hn := List.mem_append_left _ hn
  added name hn := by
    by_cases hold : name ∈ old
    · exact .inl (List.mem_append_left _ hold)
    · refine .inr (List.mem_append_right _ (List.mem_map_of_mem ?_))
      simp [hn, hold]
  folded name hn := by
    rcases List.mem_append.1 hn with hn | hn
    · exact .inl hn
    · obtain ⟨n, -, rfl⟩ := List.mem_map.1 hn
      exact .inr (foldName_idem n)

theorem mem_iff (h : Extended wanted old new) {name : String} (hn : name ∈ wanted) :
    name ∈ new ↔ name ∈ old ∨ foldName name = name := by
  constructor
  · exact h.folded name
  · rintro (hold | hfold)
    · exact h.kept name hold
    · rcases h.added name hn with hnew | hnew
      · exact hnew
      · rwa [hfold] at hnew

end Extended

/-! ## The first synchronisation -/

/-- The names after models have been brought in line. -/
structure Synced (ms : List Model) (v v' : StoredNames) : Prop where
  tables : ∀ t, t ∈ v'.tables ↔ t ∈ v.tables ∨ t ∈ ms.map Model.table
  columns : ∀ m ∈ ms,
    Extended (m.fields.map Field.column) (v.columnsOf m.table) (v'.columns m.table)
  indexes : ∀ m ∈ ms, Extended ((m.fields.filter Field.index).map (indexName m))
    (v.indexes m.table) (v'.indexes m.table)
  others : ∀ t, t ∉ ms.map Model.table → v'.columns t = v.columns t ∧ v'.indexes t = v.indexes t

theorem Synced.nil (v : StoredNames) : Synced [] v v :=
  ⟨by simp, by simp, by simp, fun _ _ => ⟨rfl, rfl⟩⟩

theorem Synced.cons {m : Model} {ms : List Model} {v v1 v' : StoredNames} (h : Synced [m] v v1)
    (h' : Synced ms v1 v') (hm : m.table ∉ ms.map Model.table) : Synced (m :: ms) v v' := by
  have hother {o : Model} (ho : o ∈ ms) : o.table ∉ [m].map Model.table := by
    intro he
    rw [List.map_singleton, List.mem_singleton] at he
    exact hm (he ▸ List.mem_map_of_mem ho)
  refine ⟨fun t => ?_, fun o ho => ?_, fun o ho => ?_, fun t ht => ?_⟩
  · rw [h'.tables, h.tables, List.map_singleton, List.mem_singleton, List.map_cons, List.mem_cons,
      or_assoc]
  · rcases List.mem_cons.1 ho with rfl | ho
    · rw [(h'.others _ hm).1]
      exact h.columns o (by simp)
    · have hsame : v1.columnsOf o.table = v.columnsOf o.table := by
        have htables : o.table ∈ v1.tables ↔ o.table ∈ v.tables := by
          rw [h.tables, or_iff_left (hother ho)]
        rw [StoredNames.columnsOf, StoredNames.columnsOf, (h.others _ (hother ho)).1]
        simp only [htables]
      rw [← hsame]
      exact h'.columns o ho
  · rcases List.mem_cons.1 ho with rfl | ho
    · rw [(h'.others _ hm).2]
      exact h.indexes o (by simp)
    · rw [← (h.others _ (hother ho)).2]
      exact h'.indexes o ho
  · rw [List.map_cons, List.mem_cons, not_or] at ht
    have hfirst : t ∉ [m].map Model.table := by simpa using ht.1
    rw [(h'.others t ht.2).1, (h'.others t ht.2).2]
    exact h.others t hfirst

section

variable {ex : Executor σ} {view : σ → StoredNames} {driver : String} {s s' : σ}
  {acc acc' : SyncReport} {m : Model}

namespace Folds

theorem shows (h : Folds ex view) (driver : String) (s : σ) :
    Shows ⟨driver, .postgres, ex⟩ s (view s).reported :=
  ⟨fun sql args => h.unchanged sql args s, h.reports s⟩

theorem applyChange (h : Folds ex view) {change : Change} (hchange : change.Proper)
    (hrun : applyChange ⟨driver, .postgres, ex⟩ acc change s = (.ok acc', s')) :
    view s' = (view s).create change.ddl := by
  rcases hout : ex.execute (change.text .postgres) [] s with ⟨_ | n, s1⟩
  · rw [applyChange_error driver .postgres acc hchange hout] at hrun
    cases hrun
  · rw [applyChange_ok driver .postgres acc hchange hout] at hrun
    cases hrun
    exact h.created _ _ _ _ _ (readDdl_text .postgres hchange) hout

theorem applyAll (h : Folds ex view) {changes : List Change}
    (hchanges : ∀ change ∈ changes, change.Proper)
    (hrun : applyAll ⟨driver, .postgres, ex⟩ acc changes s = (.ok acc', s')) :
    view s' = changes.foldl (fun v change => v.create change.ddl) (view s) := by
  induction changes generalizing acc s with
  | nil =>
    cases hrun
    rfl
  | cons change changes ih =>
    obtain ⟨acc1, s1, hfirst, hrest⟩ := Action.bind_eq_ok hrun
    rw [ih (fun c hc => hchanges c (by simp [hc])) hrest,
      h.applyChange (hchanges change (by simp)) hfirst]
    rfl

end Folds

theorem create_addColumns (m : Model) (fs : List Field) (v : StoredNames) :
    (fs.map (Change.addColumn m)).foldl (fun v change => v.create change.ddl) v =
      { v with
        columns := fun t =>
          if t = m.table then v.columns t ++ fs.map (fun f => foldName f.column)
          else v.columns t } := by
  induction fs generalizing v with
  | nil => simp
  | cons f fs ih =>
    rw [List.map_cons, List.foldl_cons, ih, Change.ddl, StoredNames.create]
    congr 1
    funext t
    by_cases ht : t = m.table <;> simp [ht]

/-- The columns of a model after its step; its indexes are still to come. -/
theorem Folds.columns_synced (h : Folds ex view) (hm : m.WellFormed)
    (hrun : RecordModel.applyAll ⟨driver, .postgres, ex⟩ acc (lackingColumns (view s).reported m) s
      = (.ok acc', s')) :
    (∀ t, t ∈ (view s').tables ↔ t ∈ (view s).tables ∨ t = m.table) ∧
      Extended (m.fields.map Field.column) ((view s).columnsOf m.table)
        ((view s').columns m.table) ∧
      (view s').indexes = (view s).indexes ∧
      ∀ t, t ≠ m.table → (view s').columns t = (view s).columns t := by
  have hproper : ∀ change ∈ lackingColumns (view s).reported m, change.Proper :=
    fun change hchange => lacking_proper hm change (List.mem_append_left _ hchange)
  rw [h.applyAll hproper hrun]
  have hcreate := Extended.create (m.fields.map Field.column) ((view s).columnsOf m.table)
  by_cases ht : m.table ∈ (view s).tables
  · have hlacking : lackingColumns (view s).reported m =
        (m.fields.filter fun f => f.column ∉ (view s).columns m.table).map (.addColumn m) :=
      if_pos ht
    rw [hlacking, create_addColumns]
    refine ⟨fun t => ?_, ?_, rfl, fun t hne => if_neg hne⟩
    · constructor
      · exact .inl
      · rintro (hold | rfl)
        · exact hold
        · exact ht
    · rw [StoredNames.columnsOf, if_pos ht, List.filter_map, List.map_map] at hcreate
      simpa [StoredNames.columnsOf, ht, Function.comp_def] using hcreate
  · have hlacking : lackingColumns (view s).reported m = [.createTable m] := if_neg ht
    rw [hlacking]
    refine ⟨fun t => ?_, ?_, rfl, fun t hne => if_neg hne⟩
    · simp [StoredNames.create, Change.ddl]
    · simpa [StoredNames.columnsOf, ht, StoredNames.create, Change.ddl, Function.comp_def]
        using hcreate

/-- The names after indexes of a model have been brought in line. -/
structure Indexed (m : Model) (names : List String) (v v' : StoredNames) : Prop where
  tables : v'.tables = v.tables
  columns : v'.columns = v.columns
  indexes : Extended names (v.indexes m.table) (v'.indexes m.table)
  others : ∀ t, t ≠ m.table → v'.indexes t = v.indexes t

theorem lackingIndexes_reported (v : StoredNames) {f : Field} (hf : f.index = true) :
    lackingIndexes v.reported m [f] =
      if indexName m f ∈ v.indexes m.table then [] else [.createIndex m f] := by
  by_cases hn : indexName m f ∈ v.indexes m.table <;>
    simp [lackingIndexes, StoredNames.reported, hf, hn]

theorem Folds.index_synced (h : Folds ex view) (hm : m.WellFormed) {f : Field}
    (hf : f ∈ m.fields) (hindex : f.index = true)
    (hrun : syncIndex ⟨driver, .postgres, ex⟩ m acc f s = (.ok acc', s')) :
    Indexed m [indexName m f] (view s) (view s') := by
  rw [syncIndex_eq (h.shows driver s) acc m hindex] at hrun
  have hproper : ∀ change ∈ lackingIndexes (view s).reported m [f], change.Proper := by
    intro change hchange
    obtain ⟨g, hg, rfl⟩ := List.mem_map.1 hchange
    exact ⟨hm, List.mem_singleton.1 (List.mem_of_mem_filter hg) ▸ hf⟩
  have hcreate := Extended.create [indexName m f] ((view s).indexes m.table)
  rw [h.applyAll hproper hrun, lackingIndexes_reported _ hindex]
  by_cases hn : indexName m f ∈ (view s).indexes m.table
  · rw [if_pos hn]
    refine ⟨rfl, rfl, ?_, fun _ _ => rfl⟩
    simpa [hn] using hcreate
  · rw [if_neg hn]
    refine ⟨rfl, rfl, ?_, fun t hne => if_neg hne⟩
    simpa [hn, StoredNames.create, Change.ddl] using hcreate

theorem Folds.indexes_synced (h : Folds ex view) (hm : m.WellFormed) {fs : List Field}
    (hfs : ∀ f ∈ fs, f ∈ m.fields ∧ f.index = true)
    (hrun : fs.foldlM (syncIndex ⟨driver, .postgres, ex⟩ m) acc s = (.ok acc', s')) :
    Indexed m (fs.map (indexName m)) (view s) (view s') := by
  induction fs generalizing acc s with
  | nil =>
    cases hrun
    exact ⟨rfl, rfl, .refl _, fun _ _ => rfl⟩
  | cons f fs ih =>
    rw [List.foldlM_cons] at hrun
    obtain ⟨acc1, s1, hfirst, hrest⟩ := Action.bind_eq_ok hrun
    obtain ⟨hf, hindex⟩ := hfs f (by simp)
    have h1 := h.index_synced hm hf hindex hfirst
    have h2 := ih (fun g hg => hfs g (by simp [hg])) hrest
    exact ⟨h2.tables.trans h1.tables, h2.columns.trans h1.columns, h1.indexes.trans h2.indexes,
      fun t ht => (h2.others t ht).trans (h1.others t ht)⟩

/-- What the step of one model does to the names. -/
theorem Folds.model_synced (h : Folds ex view) (hm : m.WellFormed) {existing : List String}
    (hexisting : m.table ∈ existing ↔ m.table ∈ (view s).tables)
    (hrun : syncModel ⟨driver, .postgres, ex⟩ existing acc m s = (.ok acc', s')) :
    Synced [m] (view s) (view s') := by
  rw [syncModel_eq (h.shows driver s) hexisting] at hrun
  obtain ⟨acc1, s1, hfirst, hrest⟩ := Action.bind_eq_ok hrun
  obtain ⟨htables, hcolumns, hsame, hothers⟩ := h.columns_synced hm hfirst
  have hfields : ∀ f ∈ m.fields.filter Field.index, f ∈ m.fields ∧ f.index = true :=
    fun f hf => List.mem_filter.1 hf
  have hindexes := h.indexes_synced hm hfields hrest
  refine ⟨fun t => ?_, List.forall_mem_singleton.2 ?_, List.forall_mem_singleton.2 ?_,
    fun t ht => ?_⟩
  · rw [hindexes.tables, htables, List.map_singleton, List.mem_singleton]
  · rw [hindexes.columns]
    exact hcolumns
  · rw [← hsame]
    exact hindexes.indexes
  · have hne : t ≠ m.table := by simpa using ht
    rw [hindexes.columns, hothers t hne, hindexes.others t hne, hsame]
    exact ⟨rfl, rfl⟩

theorem Folds.models_synced (h : Folds ex view) {ms : List Model} (hms : ∀ m ∈ ms, m.WellFormed)
    (hnodup : (ms.map Model.table).Nodup) {existing : List String}
    (hexisting : ∀ m ∈ ms, m.table ∈ existing ↔ m.table ∈ (view s).tables)
    (hrun : ms.foldlM (syncModel ⟨driver, .postgres, ex⟩ existing) acc s = (.ok acc', s')) :
    Synced ms (view s) (view s') := by
  induction ms generalizing acc s with
  | nil =>
    cases hrun
    exact .nil _
  | cons m ms ih =>
    rw [List.foldlM_cons] at hrun
    obtain ⟨acc1, s1, hfirst, hrest⟩ := Action.bind_eq_ok hrun
    rw [List.map_cons, List.nodup_cons] at hnodup
    have h1 := h.model_synced (hms m (by simp)) (hexisting m (by simp)) hfirst
    refine h1.cons (ih (fun o ho => hms o (by simp [ho])) hnodup.2 (fun o ho => ?_) hrest) hnodup.1
    have hne : o.table ∉ [m].map Model.table := by
      intro he
      rw [List.map_singleton, List.mem_singleton] at he
      exact hnodup.1 (he ▸ List.mem_map_of_mem ho)
    rw [hexisting o (by simp [ho]), h1.tables, or_iff_left hne]

/-- What a successful synchronisation has done to the names. -/
theorem Folds.sync_synced (h : Folds ex view) {c : Catalog} (hc : c.WellFormed)
    {order : List Model} (horder : c.dependencyOrder = .ok order) (hperm : order.Perm c.models)
    {report : SyncReport} (hrun : sync ⟨driver, .postgres, ex⟩ c s = (.ok report, s')) :
    Synced order (view s) (view s') := by
  obtain ⟨existing, hexisting, hsync⟩ := sync_eq (h.shows driver s) horder
  rw [hsync] at hrun
  refine h.models_synced (fun m hm => hc.models m (hperm.mem_iff.1 hm)) ?_
    (fun m _ => hexisting m.table) hrun
  exact (hperm.map Model.table).nodup_iff.2 hc.tables_nodup

end

/-! ## The second synchronisation -/

/-- A database that also records what it executes. -/
def Executor.recorded (ex : Executor σ) : Executor (σ × List DatabaseCall) where
  execute sql args p :=
    let (outcome, s) := ex.execute sql args p.1
    (outcome, s, p.2 ++ [⟨.execute, sql, args⟩])
  query sql args p :=
    let (answer, s) := ex.query sql args p.1
    (answer, s, p.2)

theorem Folds.recorded_shows {ex : Executor σ} {view : σ → StoredNames} (h : Folds ex view)
    (driver : String) (s : σ) (log : List DatabaseCall) :
    Shows ⟨driver, .postgres, ex.recorded⟩ (s, log) (view s).reported :=
  ⟨fun sql args => Prod.ext (h.unchanged sql args s) rfl, h.reports s⟩

theorem lackingColumns_eq_nil_iff {v : StoredNames} {m : Model} :
    lackingColumns v.reported m = [] ↔
      m.table ∈ v.tables ∧ ∀ f ∈ m.fields, f.column ∈ v.columns m.table := by
  unfold lackingColumns
  by_cases ht : m.table ∈ v.tables
  · have hreported : m.table ∈ v.reported.tables := ht
    rw [if_pos hreported, List.map_eq_nil_iff, List.filter_eq_nil_iff]
    simp only [decide_eq_true_eq, not_not]
    exact (and_iff_right ht).symm
  · have hreported : m.table ∉ v.reported.tables := ht
    rw [if_neg hreported]
    simp [ht]

theorem lackingIndexes_eq_nil_iff {v : StoredNames} {m : Model} :
    lackingIndexes v.reported m m.fields = [] ↔
      ∀ f ∈ m.fields, f.index = true → indexName m f ∈ v.indexes m.table := by
  have hcount (name : String) :
      (if name ∈ v.indexes m.table then 1 else 0 : Int64).toInt ≤ 0 ↔
        name ∉ v.indexes m.table := by
    split <;> simp_all
  simp [lackingIndexes, StoredNames.reported, hcount]

/-- A second synchronisation executes nothing and reports nothing exactly if every column was
there before the first one or is written in lower case, and so was or is the name of every
index. -/
theorem sync_twice_iff {ex : Executor σ} {view : σ → StoredNames} (h : Folds ex view)
    {c : Catalog} (hc : c.Reachable) (hclosed : c.Closed) {driver : String} {s s' : σ}
    {report : SyncReport} (hfirst : sync ⟨driver, .postgres, ex⟩ c s = (.ok report, s')) :
    sync ⟨driver, .postgres, ex.recorded⟩ c (s', []) = (.ok .empty, s', []) ↔
      ∀ m ∈ c.models, ∀ f ∈ m.fields,
        (foldName f.column = f.column ∨
          m.table ∈ (view s).tables ∧ f.column ∈ (view s).columns m.table) ∧
        (f.index = true → foldName (indexName m f) = indexName m f ∨
          indexName m f ∈ (view s).indexes m.table) := by
  obtain ⟨order, horder, hperm, -⟩ :=
    c.dependencyOrder_finished hc.wellFormed.names_nodup hclosed
  have hsynced := h.sync_synced hc.wellFormed horder hperm hfirst
  rw [sync_idle_iff (h.recorded_shows driver s' []) horder]
  have hmodel : ∀ m ∈ order, lacking (view s').reported m = [] ↔ ∀ f ∈ m.fields,
      (foldName f.column = f.column ∨
        m.table ∈ (view s).tables ∧ f.column ∈ (view s).columns m.table) ∧
      (f.index = true → foldName (indexName m f) = indexName m f ∨
        indexName m f ∈ (view s).indexes m.table) := by
    intro m hm
    have htable : m.table ∈ (view s').tables :=
      (hsynced.tables _).2 (.inr (List.mem_map_of_mem hm))
    have hcolumn : ∀ f ∈ m.fields, f.column ∈ (view s').columns m.table ↔
        foldName f.column = f.column ∨
          m.table ∈ (view s).tables ∧ f.column ∈ (view s).columns m.table := by
      intro f hf
      rw [(hsynced.columns m hm).mem_iff (List.mem_map_of_mem hf), StoredNames.mem_columnsOf,
        or_comm]
    have hindex : ∀ f ∈ m.fields, f.index = true →
        (indexName m f ∈ (view s').indexes m.table ↔ foldName (indexName m f) = indexName m f ∨
          indexName m f ∈ (view s).indexes m.table) := by
      intro f hf hi
      have hwanted : indexName m f ∈ (m.fields.filter Field.index).map (indexName m) :=
        List.mem_map_of_mem (List.mem_filter.2 ⟨hf, hi⟩)
      rw [(hsynced.indexes m hm).mem_iff hwanted, or_comm]
    rw [lacking, List.append_eq_nil_iff, lackingColumns_eq_nil_iff, lackingIndexes_eq_nil_iff]
    constructor
    · rintro ⟨⟨-, hcolumns⟩, hindexes⟩ f hf
      exact ⟨(hcolumn f hf).1 (hcolumns f hf), fun hi => (hindex f hf hi).1 (hindexes f hf hi)⟩
    · intro hall
      exact ⟨⟨htable, fun f hf => (hcolumn f hf).2 (hall f hf).1⟩,
        fun f hf hi => (hindex f hf hi).2 ((hall f hf).2 hi)⟩
  exact ⟨fun hidle m hm => (hmodel m (hperm.mem_iff.2 hm)).1 (hidle m (hperm.mem_iff.2 hm)),
    fun hall m hm => (hmodel m hm).2 (hall m (hperm.mem_iff.1 hm))⟩

/-! ## A database in memory -/

/-- Is there nothing yet of the name that a statement creates? -/
def StoredNames.lacks (v : StoredNames) : Ddl → Bool
  | .createTable table _ => table ∉ v.tables
  | .addColumn table column => table ∈ v.tables && column ∉ v.columns table
  | .createIndex name table _ => table ∈ v.tables && name ∉ v.indexes table

/-- A database that holds names alone, and creates whatever is not there. -/
def nameServer : Executor StoredNames where
  execute sql _ v :=
    match readDdl sql with
    | some ddl => if v.lacks ddl then (.ok 0, v.create ddl) else (.error "exists", v)
    | none => (.error "syntax", v)
  query sql args v := (answering .postgres v.reported sql args, v)

theorem nameServer_execute {change : Change} (h : change.Proper) (v : StoredNames) :
    nameServer.execute (change.text .postgres) [] v =
      if v.lacks change.ddl then (.ok 0, v.create change.ddl) else (.error "exists", v) := by
  simp only [nameServer, readDdl_text .postgres h]

theorem nameServer_folds : Folds nameServer id where
  unchanged _ _ _ := rfl
  reports v := answering_reports .postgres v.reported
  created v sql ddl n v' hread hrun := by
    simp only [nameServer, hread] at hrun
    split at hrun
    · cases hrun
      rfl
    · cases hrun

theorem sync_single {db : Database σ} {s : σ} {r : Reported} (h : Shows db s r) {m : Model}
    (hclosed : Catalog.Closed ⟨[m]⟩) :
    sync db ⟨[m]⟩ s = (applyAll db .empty (lackingColumns r m) >>= fun acc =>
      (m.fields.filter Field.index).foldlM (syncIndex db m) acc) s := by
  obtain ⟨existing, hexisting, hsync⟩ := sync_eq h (Catalog.dependencyOrder_single hclosed)
  rw [hsync, List.foldlM_cons, ← syncModel_eq h (hexisting m.table)]
  exact congrFun (bind_pure _) s

/-- The table of the tasks without their titles. -/
def taskTable : StoredNames := ⟨["task"], fun _ => ["state", "id"], fun _ => []⟩

/-- The same table with the titles. -/
def titledTable : StoredNames := taskTable.create (.addColumn "task" "title")

/-- The same table with the titles and their index. -/
def indexedTable : StoredNames :=
  titledTable.create (.createIndex "task_title_index" "task" "title")

theorem taskTable_converges : Catalog.Reachable ⟨[task]⟩ ∧ Catalog.Closed ⟨[task]⟩ ∧
    sync ⟨"postgres", .postgres, nameServer⟩ ⟨[task]⟩ taskTable =
      (.ok ⟨[], ["task.title"], ["task_title_index"]⟩, indexedTable) ∧
    sync ⟨"postgres", .postgres, nameServer.recorded⟩ ⟨[task]⟩ (indexedTable, []) =
      (.ok .empty, indexedTable, []) := by
  have hc : Catalog.Reachable ⟨[task]⟩ :=
    .declare .empty (rfl : Catalog.declare .empty task = _)
  have hclosed : Catalog.Closed ⟨[task]⟩ := by unfold Catalog.Closed; decide
  have hm : task.WellFormed := hc.wellFormed.models task (by simp)
  have htitle : taskTitle ∈ task.fields := .tail _ (.head _)
  have hadd : (Change.addColumn task taskTitle).Proper := ⟨hm, htitle⟩
  have hcreate : (Change.createIndex task taskTitle).Proper := ⟨hm, htitle⟩
  have hcolumn : applyAll ⟨"postgres", .postgres, nameServer⟩ .empty [.addColumn task taskTitle]
      taskTable = (.ok ⟨[], ["task.title"], []⟩, titledTable) := by
    rw [applyAll_singleton]
    exact applyChange_ok "postgres" .postgres _ hadd (nameServer_execute hadd _)
  have hindex : syncIndex ⟨"postgres", .postgres, nameServer⟩ task ⟨[], ["task.title"], []⟩
      taskTitle titledTable =
        (.ok ⟨[], ["task.title"], ["task_title_index"]⟩, indexedTable) := by
    have hunindexed : indexName task taskTitle ∉ titledTable.indexes task.table :=
      List.not_mem_nil
    rw [syncIndex_eq (nameServer_folds.shows "postgres" titledTable) _ task rfl,
      lackingIndexes_reported _ rfl, id, if_neg hunindexed, applyAll_singleton]
    exact applyChange_ok "postgres" .postgres _ hcreate (nameServer_execute hcreate _)
  have hfirst : sync ⟨"postgres", .postgres, nameServer⟩ ⟨[task]⟩ taskTable =
      (.ok ⟨[], ["task.title"], ["task_title_index"]⟩, indexedTable) := by
    rw [sync_single (nameServer_folds.shows "postgres" taskTable) hclosed]
    exact (Action.bind_ok hcolumn _).trans (Action.bind_ok hindex _)
  refine ⟨hc, hclosed, hfirst, ?_⟩
  rw [sync_twice_iff nameServer_folds hc hclosed hfirst]
  intro m hm f hf
  cases List.mem_singleton.1 hm
  have hfolded : ∀ f ∈ task.fields, foldName f.column = f.column ∧
      foldName (indexName task f) = indexName task f := by decide
  exact ⟨.inl (hfolded f hf).1, fun _ => .inl (hfolded f hf).2⟩

/-- A text in a column with an upper-case letter. -/
def noteText : Field := { Field.scalar "text" .text with column := "Text" }

/-- A note whose text is stored there. -/
def note : Model := (Model.new "Note").withField noteText

/-- A database without tables. -/
def noTables : StoredNames := ⟨[], fun _ => [], fun _ => []⟩

/-- What is there when the table of the notes has been created. -/
def noteTable : StoredNames := noTables.create (.createTable "note" ["id", "text"])

/-- The first synchronisation creates the column `text`; the second one looks for `Text`, adds it
again and is refused. -/
theorem noteTable_diverges : Catalog.Reachable ⟨[note]⟩ ∧ Catalog.Closed ⟨[note]⟩ ∧
    Folds nameServer id ∧
    sync ⟨"postgres", .postgres, nameServer⟩ ⟨[note]⟩ noTables =
      (.ok ⟨["note"], [], []⟩, noteTable) ∧
    sync ⟨"postgres", .postgres, nameServer.recorded⟩ ⟨[note]⟩ (noteTable, []) =
      (.error (.execution "ALTER TABLE \"note\" ADD COLUMN Text varchar" [] "exists"), noteTable,
        [⟨.execute, "ALTER TABLE \"note\" ADD COLUMN Text varchar", []⟩]) := by
  have hc : Catalog.Reachable ⟨[note]⟩ :=
    .declare .empty (rfl : Catalog.declare .empty note = _)
  have hclosed : Catalog.Closed ⟨[note]⟩ := by unfold Catalog.Closed; decide
  have hm : note.WellFormed := hc.wellFormed.models note (by simp)
  have hcreate : (Change.createTable note).Proper := hm
  have hadd : (Change.addColumn note noteText).Proper := ⟨hm, .tail _ (.head _)⟩
  refine ⟨hc, hclosed, nameServer_folds, ?_, ?_⟩
  · rw [sync_single (nameServer_folds.shows "postgres" noTables) hclosed]
    have htable : applyAll ⟨"postgres", .postgres, nameServer⟩ .empty [.createTable note]
        noTables = (.ok ⟨["note"], [], []⟩, noteTable) := by
      rw [applyAll_singleton]
      exact applyChange_ok "postgres" .postgres _ hcreate (nameServer_execute hcreate _)
    exact Action.bind_ok htable _
  · rw [sync_single (nameServer_folds.recorded_shows "postgres" noteTable []) hclosed]
    have hagain : nameServer.recorded.execute ((Change.addColumn note noteText).text .postgres) []
        (noteTable, []) = (.error "exists", noteTable,
          [⟨.execute, (Change.addColumn note noteText).text .postgres, []⟩]) := by
      simp only [Executor.recorded, nameServer_execute hadd]
      rfl
    have hrefused : applyAll ⟨"postgres", .postgres, nameServer.recorded⟩ .empty
        (lackingColumns noteTable.reported note) (noteTable, []) =
          (.error (.execution "ALTER TABLE \"note\" ADD COLUMN Text varchar" [] "exists"),
            noteTable, [⟨.execute, "ALTER TABLE \"note\" ADD COLUMN Text varchar", []⟩]) := by
      have hlacking : lackingColumns noteTable.reported note = [.addColumn note noteText] :=
        rfl
      rw [hlacking, applyAll_singleton]
      exact applyChange_error "postgres" .postgres _ hadd hagain
    exact Action.bind_error hrefused _

end RecordModel
