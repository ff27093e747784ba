import RecordModel.Connection.Basic
import RecordModel.Database.Basic
import RecordModel.Json.Printer
import RecordModel.Json.Reader
import RecordModel.Json.Record

/-!
# Settings

The document that configures a program: the connection to its database, and whether
statements are logged. Whatever is not given takes its default.

Results:
* `Settings.open_ok`: a database that is opened has passed validation.
-/
namespace RecordModel

open RecordModel.Sql

namespace Connection

/-- The members of a connection, in the order of its array form. -/
def members : List String := ["driver", "host", "port", "database", "user", "password", "sslmode"]

def ofJson? (j : Json) : Option Connection := do
  let fields ← Json.fieldsOf members j
  return {
    driver := ← Json.withDefault fields "driver" default.driver Json.toText?
    host := ← Json.withDefault fields "host" default.host Json.toText?
    port := ← Json.withDefault fields "port" default.port fun j =>
      (j.toNatBelow? 65536).map UInt16.ofNat
    database := ← Json.withDefault fields "database" default.database Json.toText?
    user := ← Json.withDefault fields "user" default.user Json.toText?
    password := ← Json.withDefault fields "password" default.password Json.toText?
    sslmode := ← Json.withDefault fields "sslmode" default.sslmode (Json.toOption? Json.toText?) }

def toJson (c : Connection) : Json :=
  .record [
    ("driver", .string c.driver), ("host", .string c.host), ("port", .ofNat c.port.toNat),
    ("database", .string c.database), ("user", .string c.user), ("password", .string c.password),
    ("sslmode", match c.sslmode with | some mode => .string mode | none => .null)]

end Connection

/-- The settings of a program (`Config`). -/
structure Settings where
  connection : Connection
  /-- Log every statement. -/
  debugSql : Bool
  deriving DecidableEq

namespace Settings

/-- The members of the settings, in the order of their array form. -/
def members : List String := ["database", "debug_sql"]

def ofJson? (j : Json) : Option Settings := do
  let fields ← Json.fieldsOf members j
  return {
    connection := ← Json.withDefault fields "database" .default Connection.ofJson?
    debugSql := ← Json.withDefault fields "debug_sql" false Json.toBool? }

def toJson (s : Settings) : Json :=
  .record [("database", s.connection.toJson), ("debug_sql", .boolean s.debugSql)]

/-- The settings of a document (`from_json`). -/
def read (text : String) : Result Settings :=
  match (Json.read text).bind ofJson? with
  | some s => .ok s
  | none => .error (.connection .document)

end Settings

/-- The database of settings, once they are found valid (`from_config`). -/
def Settings.open {σ : Type} (s : Settings) (drivers : Drivers) (executor : Executor σ) :
    Result (Database σ) := do
  s.connection.validate drivers
  Database.connect drivers s.connection.driver executor

theorem Settings.open_ok {σ : Type} {s : Settings} {drivers : Drivers} {executor : Executor σ}
    {db : Database σ} (h : s.open drivers executor = .ok db) :
    s.connection.validate drivers = .ok () := by
  unfold Settings.open at h
  cases hv : s.connection.validate drivers with
  | error cause => rw [hv] at h; cases h
  | ok u => rfl

end RecordModel
