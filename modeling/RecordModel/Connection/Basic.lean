import RecordModel.Number.Decimal
import RecordModel.Sql.Dialect

/-!
# Connections

What it takes to reach a database. For an SQLite driver the database is a path, and all
else is without meaning. A connection is written as the string that the driver takes:
the path alone, or blank-separated pairs in which the parts that are not set are left
out.

Results:
* `Connection.validate_ok`: a connection that passes has a known driver and a database.
-/
namespace RecordModel

open RecordModel.Text RecordModel.Number RecordModel.Sql

/-- How a database is reached (`DatabaseConfig`). -/
structure Connection where
  driver : String
  host : String
  port : UInt16
  database : String
  user : String
  password : String
  sslmode : Option String
  deriving DecidableEq

namespace Connection

/-- The defaults of a driver. -/
def new (driver : String) : Connection := ⟨driver, "localhost", 5432, "relmodel", "", "", none⟩

def default : Connection := new "postgres"

def isSqlite (c : Connection) : Bool := startsWith "sqlite" c.driver

/-- A pair of a connection string. -/
def pair (key value : String) : String := key ++ "=" ++ value

/-- A pair that is left out when its value is empty. -/
def pairUnlessEmpty (key value : String) : List String :=
  if value.isEmpty then [] else [pair key value]

/-- The string that the driver takes (`connection_string`). -/
def text (c : Connection) : String :=
  if c.isSqlite then c.database
  else join " " (
    [pair "host" c.host, pair "port" (natText c.port.toNat), pair "dbname" c.database]
      ++ pairUnlessEmpty "user" c.user ++ pairUnlessEmpty "password" c.password
      ++ c.sslmode.toList.map (pair "sslmode"))

/-- What a connection must fulfil before it is opened (`validate`). -/
def validate (drivers : Drivers) (c : Connection) : Result Unit :=
  match drivers.find c.driver with
  | .error _ => .error (.connection (.unknownDriver c.driver))
  | .ok _ =>
    if c.database.isEmpty then .error (.connection .emptyDatabase)
    else if !c.isSqlite && c.host.isEmpty then .error (.connection .emptyHost)
    else if !c.isSqlite && c.port == 0 then .error (.connection .zeroPort)
    else .ok ()

theorem validate_ok {drivers : Drivers} {c : Connection} (h : c.validate drivers = .ok ()) :
    (∃ d, drivers.find c.driver = .ok d) ∧ c.database.isEmpty = false := by
  unfold validate at h
  split at h
  · cases h
  · rename_i d hd
    split at h
    · cases h
    · rename_i hn; exact ⟨⟨d, hd⟩, by simpa using hn⟩

end Connection

end RecordModel
