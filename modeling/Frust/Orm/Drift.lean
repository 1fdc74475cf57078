import Frust.Kernel.Contract
import Frust.Orm.Migrator

/-!
# `Frust.Orm.Drift`: the live schema against the recorded one

`detect_scope_drift` compares, for each resource, the keys of its latest recorded snapshot with the
keys that the database reports on its table. The live keys are read through `INFO`: the definitions
of the answer are put together and read as a block of statements.

`exec` is the connection. It answers a query, or it fails.
-/

set_option autoImplicit false

namespace Frust.Orm

open Frust.Kernel (Json)

/-- `ResourceDrift`. -/
structure ResourceDrift where
  name : String
  table : String
  unexpected : List String
  missing : List String
  deriving DecidableEq

namespace Drift

/-- A connection. -/
abbrev Exec := String → Except String Json

/-- The definition of a table in the answer to `INFO FOR DB`. -/
def tableDefinition (info : Json) (table : String) : Option String :=
  ((info.get "tables").bind (·.get table)).bind Json.asStr

/-- The values of an object. -/
def values : Json → List Json
  | .object entries => entries.map (·.2)
  | _ => []

/-- The definitions in the answer to `INFO FOR TABLE`. -/
def definitions (info : Json) : List String :=
  ["fields", "indexes", "events"].flatMap fun part =>
    (((info.get part).map values).getD []).filterMap Json.asStr

/-- `push_stmt`, for each definition. -/
def pushed (stmts : List String) : String := String.join (stmts.map (· ++ ";\n"))

/-- `live_snapshot`. -/
def liveSnapshot (exec : Exec) (table : String) : Except String SchemaSnapshot := do
  let dbInfo ← (exec "INFO FOR DB;").mapError ("INFO FOR DB: " ++ ·)
  let tableInfo ← (exec ("INFO FOR TABLE " ++ table ++ ";")).mapError
    (("INFO FOR TABLE " ++ table ++ ": ") ++ ·)
  return .fromSql table (pushed ((tableDefinition dbInfo table).toList ++ definitions tableInfo))

/-- What has drifted of one resource. -/
def compareKeys (name : String) (snapshot live : SchemaSnapshot) : Option ResourceDrift :=
  let unexpected := live.objects.keys.filter (· ∉ snapshot.objects)
  let missing := snapshot.objects.keys.filter (· ∉ live.objects)
  if unexpected.isEmpty && missing.isEmpty then none
  else some { name, table := snapshot.table, unexpected, missing }

/-- One turn of the loop. A snapshot of no table is passed over. -/
def driftOf (exec : Exec) (name : String) (snapshot : SchemaSnapshot) :
    Except String (Option ResourceDrift) :=
  if snapshot.table = "" then .ok none
  else (liveSnapshot exec snapshot.table).map (compareKeys name snapshot)

/-- `detect_scope_drift`, past the load of the history. -/
def detectScopeDrift (exec : Exec) (db : ScopeDb) : Except String (List ResourceDrift) := do
  let found ← (loadHistory db).toList.mapM fun (name, (_, snapshot)) => driftOf exec name snapshot
  return (found.filterMap id).insertionSort (·.name ≤ ·.name)

end Drift

end Frust.Orm
