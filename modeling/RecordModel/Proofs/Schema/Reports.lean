import Mathlib.Tactic.Tauto
import RecordModel.Database.Introspection

/-!
# Reports of a schema

What a database reports of its schema are tables, the columns of each of them, and for each
table and name the number of indexes. `Reports` says which answers to the catalog queries mean
a report, and `Shows` that a database gives them in a state and stays in it.

Results:
* `Action.bind_ok`, `Action.bind_error`, `Action.bind_eq_ok`: two steps one after the other.
* `Shows.tables`, `Shows.columns`, `Shows.indexExists`: what is made of a report.
-/
namespace RecordModel

open RecordModel.Sql

variable {σ : Type}

/-! ## Steps of an action -/

namespace Action

variable {α β : Type} {x : Action σ α} {s s' : σ}

theorem bind_ok {a : α} (h : x s = (.ok a, s')) (f : α → Action σ β) : (x >>= f) s = f a s' := by
  simp only [bind, ExceptT.bind, ExceptT.mk, StateT.bind, ExceptT.bindCont]
  rw [h]

theorem bind_error {e : Error} (h : x s = (.error e, s')) (f : α → Action σ β) :
    (x >>= f) s = (.error e, s') := by
  simp only [bind, ExceptT.bind, ExceptT.mk, StateT.bind, ExceptT.bindCont]
  rw [h]
  rfl

theorem bind_eq_ok {f : α → Action σ β} {b : β} (h : (x >>= f) s = (.ok b, s')) :
    ∃ a s1, x s = (.ok a, s1) ∧ f a s1 = (.ok b, s') := by
  rcases hx : x s with ⟨_ | a, s1⟩
  · rw [bind_error hx] at h
    cases h
  · exact ⟨a, s1, rfl, (bind_ok hx f).symm.trans h⟩

end Action

/-! ## Reports -/

/-- What a database reports of its schema. -/
structure Reported where
  tables : List String
  columns : String → List String
  indexCount : String → String → Int64

/-- An answer whose rows start with the given texts. -/
def Lists (answer : Except String (List Row)) (names : List String) : Prop :=
  ∃ rows, answer = .ok rows ∧ rows.map List.head? = names.map fun name => some (.text name)

/-- Answers that say what is reported. -/
structure Reports (d : Dialect) (answer : String → List Value → Except String (List Row))
    (r : Reported) : Prop where
  tables : Lists (answer (d.rebind d.tablesQuery) []) r.tables
  columns : ∀ table, Lists (answer (d.rebind d.columnsQuery) [.text table]) (r.columns table)
  indexes : ∀ table name, ∃ row,
    answer (d.rebind d.indexQuery) [.text table, .text name] = .ok [row] ∧
      row.head? = some (.integer (r.indexCount table name))

/-- A database in a state that it reports, which looking at it does not change. -/
structure Shows (db : Database σ) (s : σ) (r : Reported) : Prop where
  unchanged : ∀ sql args, (db.executor.query sql args s).2 = s
  reports : Reports db.dialect (fun sql args => (db.executor.query sql args s).1) r

theorem filterMap_of_heads {α : Type} (read : Row → Option α) (key : α → String)
    {rows : List Row} {names : List String}
    (h : rows.map List.head? = names.map fun name => some (.text name))
    (hread : ∀ row name, row.head? = some (.text name) → ∃ a, read row = some a ∧ key a = name) :
    (rows.filterMap read).map key = names := by
  induction rows generalizing names with
  | nil => cases names <;> simp_all
  | cons row rows ih =>
    cases names with
    | nil => simp at h
    | cons name names =>
      simp only [List.map_cons, List.cons.injEq] at h
      obtain ⟨a, ha, hkey⟩ := hread row name h.1
      rw [List.filterMap_cons_some ha, List.map_cons, hkey, ih h.2]

theorem textAt_zero {row : Row} {name : String} (h : row.head? = some (.text name)) :
    Dialect.textAt row 0 = some name := by
  rw [Dialect.textAt, ← List.head?_eq_getElem?, h]
  rfl

namespace Shows

variable {db : Database σ} {s : σ} {r : Reported}

theorem query (h : Shows db s r) {sql : String} {args : List Value} {rows : List Row}
    (ha : (db.executor.query (db.dialect.rebind sql) args s).1 = .ok rows) :
    db.query sql args s = (.ok rows, s) := by
  have hpair : db.executor.query (db.dialect.rebind sql) args s = (.ok rows, s) :=
    Prod.ext ha (h.unchanged _ _)
  simp only [Database.query, hpair, Database.report]

theorem tables (h : Shows db s r) :
    ∃ ts, db.tables s = (.ok ts, s) ∧ ∀ t, t ∈ ts ↔ t ∈ r.tables := by
  obtain ⟨rows, hrows, hheads⟩ := h.reports.tables
  refine ⟨firstTexts rows, Action.bind_ok (h.query hrows) _, fun t => ?_⟩
  have hnames := filterMap_of_heads (fun row => Dialect.textAt row 0) id hheads
    fun row name hrow => ⟨name, textAt_zero hrow, rfl⟩
  rw [firstTexts, List.mem_eraseDups, ← hnames, List.map_id]

theorem foldl_putColumn_names (cs ds : List ColumnInfo) (name : String) :
    name ∈ (ds.foldl (fun cs c => putColumn c cs) cs).map ColumnInfo.name ↔
      name ∈ cs.map ColumnInfo.name ∨ name ∈ ds.map ColumnInfo.name := by
  induction ds generalizing cs with
  | nil => simp
  | cons d ds ih =>
    rw [List.foldl_cons, ih, putColumn_names, List.map_cons, List.mem_cons]
    split
    · rename_i hd
      constructor
      · tauto
      · rintro (hc | rfl | hds)
        · exact .inl hc
        · exact .inl hd
        · exact .inr hds
    · rw [List.mem_append, List.mem_singleton]
      tauto

theorem columns (h : Shows db s r) (table : String) :
    ∃ cs, db.columns table s = (.ok cs, s) ∧
      ∀ name, name ∈ cs.map ColumnInfo.name ↔ name ∈ r.columns table := by
  obtain ⟨rows, hrows, hheads⟩ := h.reports.columns table
  refine ⟨_, Action.bind_ok (h.query hrows) _, fun name => ?_⟩
  have hnames := filterMap_of_heads db.dialect.columnOfRow ColumnInfo.name hheads
    fun row name hrow => by
      rw [Dialect.columnOfRow, textAt_zero hrow]
      cases db.dialect <;> exact ⟨_, rfl, rfl⟩
  rw [foldl_putColumn_names, hnames]
  simp

theorem indexExists (h : Shows db s r) (table name : String) :
    db.indexExists table name s = (.ok (decide (0 < (r.indexCount table name).toInt)), s) := by
  obtain ⟨row, hrow, hhead⟩ := h.reports.indexes table name
  have hone : db.queryOne db.dialect.indexQuery [.text table, .text name] s = (.ok row, s) := by
    rw [Database.queryOne, Action.bind_ok (h.query hrow)]
    rfl
  rw [Database.indexExists, Action.bind_ok hone]
  simp only [countsSome, hhead, Option.bind_some, Value.toInt64?]
  rfl

end Shows

end RecordModel
