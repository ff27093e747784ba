import RecordModel.Catalog.Definition.Reader
import RecordModel.CommandLine.Arguments
import RecordModel.Connection.Settings
import RecordModel.Filter.Reading
import RecordModel.Query.Compile
import RecordModel.Schema.Definition

/-!
# Running command lines

The answer to a request, given the files that it names: the lines to print, or what
stands in the way. The settings are looked at first, then the filter, the driver, the
models, and last the query.

Results:
* `Failure.messages_ne_nil`: every failure is explained.
-/
namespace RecordModel.CommandLine

open RecordModel.Text RecordModel.Sql

/-- Where a cause of failure arose. -/
inductive Circumstance where
  | settings (path : String)
  | models (path : String)
  | filter (text : String)
  deriving DecidableEq

def Circumstance.message : Circumstance → String
  | settings path => s!"Failed to load configuration '{path}'"
  | models path => s!"Failed to read models from '{path}'"
  | filter text => s!"Invalid filter '{text}'"

structure Failure where
  circumstance : Option Circumstance
  cause : Error

namespace Failure

/-- What is said about a failure, the circumstance before the cause. -/
def messages (f : Failure) : List String :=
  (f.circumstance.map Circumstance.message).toList ++ [f.cause.message]

/-- A failure as it is shown, a cause below what it caused. -/
def lines (f : Failure) : List String :=
  match f.circumstance with
  | none => ["Error: " ++ f.cause.message]
  | some c => ["Error: " ++ c.message, "", "Caused by:", "    " ++ f.cause.message]

end Failure

/-- What can fail in a run. -/
abbrev Run (α : Type) := Except Failure α

/-- A step that fails without a circumstance to name. -/
def plainly {α : Type} (r : Result α) : Run α := r.mapError (⟨none, ·⟩)

/-- A step that fails in a circumstance. -/
def amid {α : Type} (c : Circumstance) (r : Result α) : Run α := r.mapError (⟨some c, ·⟩)

/-- The files within reach: the content of each path. -/
abbrev Files := String → Option String

/-- The content of a file. -/
def contentOf (files : Files) (path : String) : Result String :=
  match files path with
  | some content => .ok content
  | none => .error .missingFile

/-- The driver of a request; that of its settings counts more. -/
def driverOf (files : Files) (r : Request) : Run String :=
  match r.config with
  | none => .ok r.driver
  | some path =>
    amid (.settings path) do
      return (← Settings.read (← contentOf files path)).connection.driver

/-- The catalog of a file of models (`load_catalog`). -/
def catalogOf (files : Files) (path : String) : Run Catalog := do
  let definition ← amid (.models path) do Definition.read (← contentOf files path)
  let catalog ← plainly (definition.register .empty)
  plainly catalog.validate
  return catalog

/-- The fields named in a list with commas. -/
def fieldNames (list : String) : List String :=
  ((splitAllText ',' list).map trim).filter fun name => !name.isEmpty

/-- The query of a select command. -/
def Selecting.query (s : Selecting) : Run Query := do
  let q := ((Query.new s.model).withLimit s.limit).withOffset s.offset
  let q := match s.fields with
    | some list => q.select (fieldNames list)
    | none => q
  let condition ← s.filter.mapM fun text => amid (.filter text) (Condition.read text)
  let q := match condition with
    | some c => q.filter c
    | none => q
  return s.orders.foldl Query.orderBy q

/-- The lines that show a statement and its arguments. -/
def statementLines (d : Dialect) (s : Statement) : List String :=
  (d.rebind s.sql ++ ";") ::
    if s.args.isEmpty then [] else ["-- args: [" ++ join ", " (s.args.map Value.literal) ++ "]"]

/-- The lines that answer a request (`print_schema`, `print_select`). -/
def answer (drivers : Drivers) (files : Files) (r : Request) : Run (List String) := do
  let driver ← driverOf files r
  match r.command with
  | .schema =>
    let d ← plainly (drivers.find driver)
    let catalog ← catalogOf files r.models
    return (← plainly (createTables d catalog)).map fun sql => sql ++ ";"
  | .select s =>
    let q ← s.query
    let d ← plainly (drivers.find driver)
    let catalog ← catalogOf files r.models
    let k ← plainly (Compiler.new catalog d q)
    return statementLines d (← plainly (if s.count then k.count else k.select))

def usage : List String :=
  ["Usage: [--driver NAME] [--config FILE] COMMAND",
    "",
    "  schema MODELS                 show the statements that create the tables of all models",
    "  select MODELS --model NAME    show the statement of a query",
    "      --fields LIST             dotted fields with commas between them",
    "      --filter EXPRESSION       such as: age > 30 AND NOT name LIKE 'A%'",
    "      --order FIELD             FIELD, FIELD asc or FIELD desc; may be repeated",
    "      --limit N, --offset N     numbers of rows",
    "      --count                   count the records"]

/-- What a run comes to. -/
inductive Report where
  | answered (lines : List String)
  | failed (failure : Failure)
  | helped
  | refused

namespace Report

/-- The exit status. -/
def status : Report → Nat
  | answered _ | helped => 0
  | failed _ => 1
  | refused => 2

/-- The lines that go to standard output. -/
def output : Report → List String
  | answered lines => lines
  | helped => usage
  | failed _ | refused => []

/-- The lines that go to standard error. -/
def complaints : Report → List String
  | answered _ | helped => []
  | failed failure => failure.lines
  | refused => usage

end Report

/-- Run a command line. -/
def run (drivers : Drivers) (files : Files) (args : List String) : Report :=
  match read args with
  | .help => .helped
  | .refused => .refused
  | .run request =>
    match answer drivers files request with
    | .ok lines => .answered lines
    | .error failure => .failed failure

/-- The files that a command line names. -/
def filesNamed (args : List String) : List String :=
  match read args with
  | .run request => request.config.toList ++ [request.models]
  | _ => []

theorem Failure.messages_ne_nil (f : Failure) : f.messages ≠ [] := by
  simp [messages]

end RecordModel.CommandLine
