import RecordModel.Query.Statement

/-!
# Databases

A database runs statements over a state of its own. The statement goes out with its
placeholders in the form of the database; a refusal comes back with the statement and its
arguments.

Results:
* `Database.onlyRow_ok`: one row comes back only if the database gave exactly one.
-/
namespace RecordModel

open RecordModel.Sql

/-- What runs statements over a state (`SqlExecutor`). A refusal is a text. -/
structure Executor (σ : Type) where
  /-- Run a statement without rows; gives the number of affected rows. -/
  execute : String → List Value → σ → Except String Nat × σ
  query : String → List Value → σ → Except String (List Row) × σ

/-- An action over the state of a database that can fail; the state outlives a failure. -/
abbrev Action (σ α : Type) := ExceptT Error (StateM σ) α

structure Database (σ : Type) where
  driver : String
  dialect : Dialect
  executor : Executor σ

namespace Database

variable {σ : Type}

/-- A database of a registered driver (`new`). -/
def connect (drivers : Drivers) (driver : String) (executor : Executor σ) : Result (Database σ) := do
  return ⟨driver, ← drivers.find driver, executor⟩

/-- The outcome of a statement as it is reported (`instrumented`). -/
def report {α : Type} (sql : String) (args : List Value) : Except String α → Result α
  | .ok a => .ok a
  | .error cause => .error (.execution sql args cause)

def execute (db : Database σ) (sql : String) (args : List Value) : Action σ Nat :=
  fun s =>
    let sql := db.dialect.rebind sql
    let (outcome, s) := db.executor.execute sql args s
    (report sql args outcome, s)

def query (db : Database σ) (sql : String) (args : List Value) : Action σ (List Row) :=
  fun s =>
    let sql := db.dialect.rebind sql
    let (outcome, s) := db.executor.query sql args s
    (report sql args outcome, s)

/-- The only row of an answer. -/
def onlyRow (sql : String) : List Row → Result Row
  | [row] => .ok row
  | rows => .error (.unexpectedRowCount sql rows.length)

/-- A query that exactly one row must answer (`get`). -/
def queryOne (db : Database σ) (sql : String) (args : List Value) : Action σ Row := do
  onlyRow sql (← db.query sql args)

def run (db : Database σ) (s : Statement) : Action σ Nat := db.execute s.sql s.args

def fetch (db : Database σ) (s : Statement) : Action σ (List Row) := db.query s.sql s.args

/-- Fetch the only row of a statement (`fetch_one`). -/
def fetchOne (db : Database σ) (s : Statement) : Action σ Row := db.queryOne s.sql s.args

theorem onlyRow_ok {sql : String} {rows : List Row} {row : Row} :
    onlyRow sql rows = .ok row ↔ rows = [row] := by
  match rows with
  | [] => simp [onlyRow]
  | [r] => simp [onlyRow]
  | _ :: _ :: _ => simp [onlyRow]

end Database

end RecordModel
