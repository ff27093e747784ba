import RecordModel.Database.Basic

/-!
# Inquiries

An inquiry is a statement together with the reading of its rows. It says all that an
operation wants of a database, before any database is asked.

Results:
* `Inquiry.one_read`: an inquiry for one row refuses any other number of rows.
-/
namespace RecordModel

structure Inquiry (α : Type) where
  statement : Statement
  read : List Row → Result α

namespace Inquiry

/-- An inquiry that each row answers for itself. -/
def each {α : Type} (s : Statement) (readRow : Row → Result α) : Inquiry (List α) :=
  ⟨s, fun rows => rows.mapM readRow⟩

/-- An inquiry that exactly one row answers. -/
def one {α : Type} (s : Statement) (readRow : Row → Result α) : Inquiry α :=
  ⟨s, fun rows => do readRow (← Database.onlyRow s.sql rows)⟩

def map {α β : Type} (f : α → β) (i : Inquiry α) : Inquiry β :=
  ⟨i.statement, fun rows => (i.read rows).map f⟩

theorem one_read {α : Type} {s : Statement} {readRow : Row → Result α} {rows : List Row}
    (h : rows.length ≠ 1) :
    (one s readRow).read rows = .error (.unexpectedRowCount s.sql rows.length) := by
  match rows with
  | [] => rfl
  | [_] => exact absurd rfl h
  | _ :: _ :: _ => rfl

end Inquiry

/-- Ask a database. -/
def Database.ask {σ α : Type} (db : Database σ) (i : Inquiry α) : Action σ α := do
  i.read (← db.fetch i.statement)

end RecordModel
