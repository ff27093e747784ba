import RecordModel.Database.Basic

/-!
# Scripted databases

A database that gives replies from a script, in order, and records every call. Without
replies left, a query gives no rows and a statement affects none.

Results:
* `Script.query_log`: every query is recorded as it was sent.
-/
namespace RecordModel

/-- The two ways of running a statement. -/
inductive CallKind where
  | execute
  | query
  deriving DecidableEq

/-- A call of a database, as it was sent. -/
structure DatabaseCall where
  kind : CallKind
  sql : String
  args : List Value

/-- The replies that are still to be given, and the calls so far. -/
structure Script where
  queries : List (Except String (List Row))
  executes : List (Except String Nat)
  log : List DatabaseCall

namespace Script

def empty : Script := ⟨[], [], []⟩

/-- Add replies behind those that are left. -/
def extend (s : Script) (queries : List (Except String (List Row)))
    (executes : List (Except String Nat)) : Script :=
  { s with queries := s.queries ++ queries, executes := s.executes ++ executes }

/-- The script with its record wiped out. -/
def forget (s : Script) : Script := { s with log := [] }

/-- The next reply, or `last` when none is left. -/
def next {α : Type} (last : α) : List (Except String α) → Except String α
  | [] => .ok last
  | reply :: _ => reply

def executor : Executor Script where
  execute sql args s :=
    (next 0 s.executes,
      { s with executes := s.executes.tail, log := s.log ++ [⟨.execute, sql, args⟩] })
  query sql args s :=
    (next [] s.queries,
      { s with queries := s.queries.tail, log := s.log ++ [⟨.query, sql, args⟩] })

theorem query_log (sql : String) (args : List Value) (s : Script) :
    (executor.query sql args s).2.log = s.log ++ [⟨.query, sql, args⟩] := rfl

end Script

end RecordModel
