import RecordModel.Database.Introspection
import RecordModel.Schema.Definition

/-!
# Synchronising a schema

Bringing a database in line with a catalog: missing tables, columns and indexes are
created, model by model with relation targets first. What exists is neither altered nor
dropped.

Results:
* `applyAll_nil`: without changes nothing is executed.
-/
namespace RecordModel

open RecordModel.Sql

/-- What a synchronisation has created, in order. -/
structure SyncReport where
  tables : List String
  columns : List String
  indexes : List String
  deriving DecidableEq

namespace SyncReport

def empty : SyncReport := ⟨[], [], []⟩

def isEmpty (r : SyncReport) : Bool := r.tables.isEmpty && r.columns.isEmpty && r.indexes.isEmpty

/-- Add a change to a report. -/
def note (r : SyncReport) : Change → SyncReport
  | .createTable m => { r with tables := r.tables ++ [m.table] }
  | .addColumn m f => { r with columns := r.columns ++ [m.table ++ "." ++ f.column] }
  | .createIndex m f => { r with indexes := r.indexes ++ [indexName m f] }

end SyncReport

variable {σ : Type}

/-- Execute a change and note it. -/
def applyChange (db : Database σ) (r : SyncReport) (change : Change) : Action σ SyncReport := do
  let _ ← db.execute (change.text db.dialect) []
  return r.note change

/-- Execute changes in order. -/
def applyAll (db : Database σ) (r : SyncReport) (changes : List Change) : Action σ SyncReport :=
  changes.foldlM (applyChange db) r

/-- The columns that a table lacks. -/
def missingColumns (m : Model) (existing : List ColumnInfo) : List Change :=
  (m.fields.filter fun f => existing.all fun c => c.name ≠ f.column).map (.addColumn m)

/-- Create the index on a field unless it exists. -/
def syncIndex (db : Database σ) (m : Model) (r : SyncReport) (f : Field) : Action σ SyncReport := do
  if ← db.indexExists m.table (indexName m f) then return r
  else applyChange db r (.createIndex m f)

/-- Bring the table of a model in line; `existing` holds the tables that were there. -/
def syncModel (db : Database σ) (existing : List String) (r : SyncReport) (m : Model) :
    Action σ SyncReport := do
  let r ←
    if m.table ∈ existing then do
      applyAll db r (missingColumns m (← db.columns m.table))
    else applyChange db r (.createTable m)
  (m.fields.filter Field.index).foldlM (syncIndex db m) r

/-- Create all that a catalog needs and a database lacks (`sync_database`). -/
def sync (db : Database σ) (c : Catalog) : Action σ SyncReport := do
  let existing ← db.tables
  let models ← liftM (n := Action σ) c.dependencyOrder
  models.foldlM (syncModel db existing) SyncReport.empty

theorem applyAll_nil (db : Database σ) (r : SyncReport) : applyAll db r [] = pure r := rfl

end RecordModel
