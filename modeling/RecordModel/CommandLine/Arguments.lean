import RecordModel.Number.Decimal
import RecordModel.Text.Pieces

/-!
# Command lines

A command line names a command, the file of its models, and options. Options stand
before or behind what they belong to, with their value attached by an equals sign or as
the next argument. The driver and the settings file may be given on either side of the
command; behind it they count more. Arguments are read from left to right, and the first
one that is refused, or asks for help, decides.

Results:
* `Given.put_repeated`: only the option that may be repeated is taken twice.
-/
namespace RecordModel.CommandLine

open RecordModel.Text RecordModel.Number

/-! ## What is asked for -/

/-- The query of a select command, as it is written. -/
structure Selecting where
  model : String
  fields : Option String
  filter : Option String
  orders : List String
  limit : Nat
  offset : Nat
  count : Bool
  deriving DecidableEq

inductive Command where
  /-- Show the statements that create the tables of all models. -/
  | schema
  /-- Show the statement of a query. -/
  | select (q : Selecting)
  deriving DecidableEq

structure Request where
  driver : String
  /-- The file of the settings, whose driver counts instead. -/
  config : Option String
  /-- The file of the models. -/
  models : String
  command : Command
  deriving DecidableEq

/-- What a command line comes to. -/
inductive Invocation where
  | run (request : Request)
  | help
  | refused
  deriving DecidableEq

/-! ## Options -/

/-- The options that take a value. -/
inductive Setting where
  | driver
  | config
  | model
  | fields
  | filter
  | order
  | limit
  | offset
  deriving DecidableEq

namespace Setting

def name : Setting → String
  | driver => "driver"
  | config => "config"
  | model => "model"
  | fields => "fields"
  | filter => "filter"
  | order => "order"
  | limit => "limit"
  | offset => "offset"

/-- The options that may stand before and behind the command. -/
def shared : List Setting := [driver, config]

def ofSelect : List Setting := [model, fields, filter, order, limit, offset]

def mayRepeat (s : Setting) : Bool := s == order

/-- A number of rows. -/
def rowsOf? (value : String) : Option Nat := boundedNat? (twoPow 64) value.toList

/-- Can the option have this value? -/
def accepts (s : Setting) (value : String) : Bool :=
  match s with
  | config => !value.isEmpty
  | limit | offset => (rowsOf? value).isSome
  | _ => true

end Setting

/-- Where in a command line an argument stands. -/
inductive Place where
  | beforeCommand
  | inSchema
  | inSelect
  deriving DecidableEq

def Place.settings : Place → List Setting
  | inSelect => Setting.shared ++ Setting.ofSelect
  | _ => Setting.shared

/-- What has been given at one side of the command. -/
structure Given where
  settings : List (Setting × String)
  count : Bool
  models : Option String

namespace Given

def nothing : Given := ⟨[], false, none⟩

def value? (g : Given) (s : Setting) : Option String := g.settings.lookup s

/-- The values of an option in the order in which they were given. -/
def values (g : Given) (s : Setting) : List String :=
  (g.settings.filter fun p => p.1 = s).map Prod.snd

/-- Take an option with a value. -/
def put (g : Given) (s : Setting) (value : String) : Option Given :=
  if s.accepts value && (s.mayRepeat || (g.value? s).isNone) then
    some { g with settings := g.settings ++ [(s, value)] }
  else none

/-- Take the file of the models. -/
def putModels (g : Given) (path : String) : Option Given :=
  if path.isEmpty || g.models.isSome then none else some { g with models := some path }

def rows (g : Given) (s : Setting) : Nat := ((g.value? s).bind Setting.rowsOf?).getD 0

/-- The query of a select command; its model has to be given. -/
def selecting? (g : Given) : Option Selecting :=
  (g.value? .model).map fun model =>
    ⟨model, g.value? .fields, g.value? .filter, g.values .order, g.rows .limit, g.rows .offset,
      g.count⟩

end Given

def defaultDriver : String := "postgres"

/-- How far a command line has been read: what was given before the command, and what
behind it. -/
structure Progress where
  place : Place
  before : Given
  behind : Given

namespace Progress

def start : Progress := ⟨.beforeCommand, .nothing, .nothing⟩

/-- What was given on the side where the next argument stands. -/
def given (p : Progress) : Given := if p.place = .beforeCommand then p.before else p.behind

def withGiven (p : Progress) (g : Given) : Progress :=
  if p.place = .beforeCommand then { p with before := g } else { p with behind := g }

def put? (p : Progress) (s : Setting) (value : String) : Option Progress :=
  (p.given.put s value).map p.withGiven

/-- Take an argument that is no option: the command, or the file of the models. -/
def putPlain? (p : Progress) (arg : String) : Option Progress :=
  if p.place = .beforeCommand then
    if arg = "schema" then some { p with place := .inSchema }
    else if arg = "select" then some { p with place := .inSelect }
    else none
  else (p.behind.putModels arg).map fun behind => { p with behind }

/-- Take the option that asks for a count. -/
def putCount? (p : Progress) : Option Progress :=
  if p.place = .inSelect && !p.behind.count then
    some { p with behind := { p.behind with count := true } }
  else none

/-- The request, if nothing is missing. -/
def request? (p : Progress) : Option Request := do
  let command ← match p.place with
    | .beforeCommand => none
    | .inSchema => some .schema
    | .inSelect => p.behind.selecting?.map .select
  return {
    driver := ((p.behind.value? .driver).or (p.before.value? .driver)).getD defaultDriver
    config := (p.behind.value? .config).or (p.before.value? .config)
    models := ← p.behind.models
    command }

def finish (p : Progress) : Invocation :=
  match p.request? with
  | some request => .run request
  | none => .refused

end Progress

/-! ## Arguments -/

/-- An option by its name, and the value attached to it if there is one. -/
def longOption? (arg : String) : Option (String × Option String) :=
  match after ['-', '-'] arg.toList with
  | none => none
  | some rest =>
    match splitFirst '=' rest with
    | some (name, value) => some (String.ofList name, some (String.ofList value))
    | none => some (String.ofList rest, none)

/-- Does an argument look like an option, so that it is not a value? -/
def isDashed (arg : String) : Bool := startsWith "-" arg && arg ≠ "-"

/-- What help can be asked for. -/
def isHelpTopic (topics : List String) : Bool :=
  topics = [] || topics = ["schema"] || topics = ["select"] || topics = ["help"]

/-- Read arguments behind a double dash, none of which is an option. -/
def readPlain (p : Progress) : List String → Invocation
  | [] => p.finish
  | arg :: rest =>
    match if p.place = .beforeCommand then none else p.putPlain? arg with
    | some p => readPlain p rest
    | none => .refused

/-- Read arguments. -/
def readFrom (p : Progress) : List String → Invocation
  | [] => p.finish
  | arg :: rest =>
    if arg = "--" then readPlain p rest
    else
      match longOption? arg with
      | some ("help", none) => .help
      | some ("count", none) =>
        match p.putCount? with
        | some p => readFrom p rest
        | none => .refused
      | some (name, attached) =>
        match p.place.settings.find? fun s => s.name = name with
        | none => .refused
        | some s =>
          match attached, rest with
          | some value, rest =>
            match p.put? s value with
            | some p => readFrom p rest
            | none => .refused
          | none, value :: rest =>
            match if isDashed value then none else p.put? s value with
            | some p => readFrom p rest
            | none => .refused
          | none, [] => .refused
      | none =>
        if isDashed arg then if startsWith "-h" arg then .help else .refused
        else if p.place = .beforeCommand && arg = "help" then
          if isHelpTopic rest then .help else .refused
        else
          match p.putPlain? arg with
          | some p => readFrom p rest
          | none => .refused

/-- Read a command line without the name of the program. -/
def read (args : List String) : Invocation := readFrom .start args

theorem Given.put_repeated {g g' : Given} {s : Setting} {value : String}
    (h : g.put s value = some g') (hs : s ≠ .order) : g.value? s = none := by
  unfold put at h
  split at h
  · rename_i hc
    simp only [Setting.mayRepeat, Bool.and_eq_true, Bool.or_eq_true, beq_iff_eq, hs, false_or,
      Option.isNone_iff_eq_none] at hc
    exact hc.2
  · cases h

end RecordModel.CommandLine
