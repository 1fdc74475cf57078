import Frust.Orm.Classify
import Frust.Orm.Order

/-!
# `Frust.Orm.Migrator`: migrating and reverting one scope

A scope is one database: its history table `_framework_migration` and its live
schema objects. The live schema is a map from table to object key to definition;
a `DEFINE` sets a key, a `REMOVE` deletes it, and a `BEGIN … COMMIT` batch takes
effect as a whole or not at all.

`run` is the forward path and `runRevert` the down path. Both handle one resource
at a time and end in an `Outcome`; `MigrationReport.record` files it. Neither
stops at a refusal or a failure.

What the database may do is an argument: `txn i` is the error of the transaction
of the `i`-th considered resource, and `none` when it commits. `ScopeFaults` adds
the calls around a run. `applied_at` and the log lines are not modelled.
-/

set_option autoImplicit false

namespace Frust.Orm

open Frust.Rust

/-! ### The scope's database -/

/-- The direction tag of a history row. -/
inductive Direction where
  | up | down
  deriving DecidableEq

/-- One row of `_framework_migration`. -/
structure HistoryRow where
  name : String
  version : Int
  snapshot : SchemaSnapshot
  direction : Direction
  deriving DecidableEq

/-- The live schema objects: table, object key, definition. -/
abbrev LiveSchema := String → Std.ExtTreeMap String String

/-- One scope's database. History rows are in insertion order. -/
structure ScopeDb where
  history : List HistoryRow
  live : LiveSchema

/-- A database no migration has touched. -/
def ScopeDb.empty : ScopeDb := ⟨[], fun _ => ∅⟩

/-- The table a `DEFINE` statement is about: its own name for a table, and the
word after `ON [TABLE]` for the other kinds. -/
def SchemaObject.target (o : SchemaObject) : Option String :=
  match o.kind with
  | .table => some o.name
  | _ =>
      match parseName ((Str.splitWhitespace o.defineSql).drop 2) with
      | some (_, on :: w :: tail) =>
          if Str.eqIgnoreAsciiCase on "ON" then
            if Str.eqIgnoreAsciiCase w "TABLE" then tail.head? else some w
          else none
      | _ => none

/-- The effect of one statement. A `DEFINE` that names no table has none. -/
def Stmt.apply (live : LiveSchema) : Stmt → LiveSchema
  | .define o =>
      match o.target with
      | some t => Function.update live t ((live t).insert o.key o.defineSql)
      | none => live
  | .remove kind name t =>
      Function.update live t ((live t).erase (kind.keyword ++ ":" ++ name))

/-! ### Options and reports -/

/-- Knobs of a forward run. -/
structure MigrationOptions where
  dryRun : Bool := false
  allowDestructive : Bool := false
  environment : Environment := .prod
  acknowledge : Bool := false
  deriving DecidableEq

/-- Knobs of a revert. -/
structure RevertOptions where
  dryRun : Bool := false
  allowDestructive : Bool := false
  /-- `none` steps back one recorded event. -/
  toVersion : Option Int := none
  environment : Environment := .prod
  acknowledge : Bool := false
  deriving DecidableEq

/-- A migration that took effect. -/
structure AppliedMigration where
  name : String
  version : Int
  creates : Nat
  alters : Nat
  drops : Nat
  statements : List String
  classifications : FieldChangeReport
  deriving DecidableEq

/-- `AppliedMigration::from_diff`. -/
def AppliedMigration.fromDiff (name : String) (version : Int) (d : SchemaDiff)
    (old new : SchemaSnapshot) (statements : List Stmt) : AppliedMigration where
  name := name
  version := version
  creates := d.creates.length
  alters := d.alters.length
  drops := d.drops.length
  statements := statements.map Stmt.sql
  classifications := classifyDiff old new

/-- What a dry run would do. -/
structure PlannedMigration where
  name : String
  nextVersion : Int
  statements : List String
  destructive : List String
  warnings : List String
  classifications : FieldChangeReport
  deriving DecidableEq

/-- `PlannedMigration::from_diff`. -/
def PlannedMigration.fromDiff (name : String) (nextVersion : Int) (d : SchemaDiff)
    (old new : SchemaSnapshot) (table : String) : PlannedMigration where
  name := name
  nextVersion := nextVersion
  statements := (d.statements table).map Stmt.sql
  destructive := d.destructive
  warnings := d.warnings
  classifications := classifyDiff old new

/-- A resource that was refused or failed. -/
structure MigrationError where
  name : String
  message : String
  deriving DecidableEq

/-- What became of one resource. -/
inductive Outcome where
  | skipped
  | planned (p : PlannedMigration)
  | refused (e : MigrationError)
  | failed (e : MigrationError)
  | applied (a : AppliedMigration)
  deriving DecidableEq

/-- The result of one scope. -/
structure MigrationReport where
  scope : String := ""
  «namespace» : String := ""
  database : String := ""
  considered : Nat := 0
  skipped : Nat := 0
  applied : List AppliedMigration := []
  planned : List PlannedMigration := []
  errors : List MigrationError := []
  deriving DecidableEq

namespace MigrationReport

/-- Every considered resource succeeded or was skipped. -/
def isOk (r : MigrationReport) : Bool := r.errors.isEmpty

/-- Files the outcome of one more considered resource. -/
def record (r : MigrationReport) : Outcome → MigrationReport
  | .skipped => { r with considered := r.considered + 1, skipped := r.skipped + 1 }
  | .planned p => { r with considered := r.considered + 1, planned := r.planned ++ [p] }
  | .refused e => { r with considered := r.considered + 1, errors := r.errors ++ [e] }
  | .failed e => { r with considered := r.considered + 1, errors := r.errors ++ [e] }
  | .applied a => { r with considered := r.considered + 1, applied := r.applied ++ [a] }

end MigrationReport

/-! ### History -/

/-- `app__name`, the history key of a resource. -/
def ResourceSpec.key (reg : ResourceSpec) : String := reg.app ++ "__" ++ reg.name

/-- The history rows, latest version first. -/
def historyRows (db : ScopeDb) : List HistoryRow :=
  db.history.insertionSort (fun a b => b.version ≤ a.version)

/-- Keeps the first row seen of a name. -/
def keepFirst (m : Std.ExtTreeMap String (Int × SchemaSnapshot)) (row : HistoryRow) :
    Std.ExtTreeMap String (Int × SchemaSnapshot) :=
  if row.name ∈ m then m else m.insert row.name (row.version, row.snapshot)

/-- The latest version and snapshot per resource: rows come latest first. -/
def loadHistory (db : ScopeDb) : Std.ExtTreeMap String (Int × SchemaSnapshot) :=
  (historyRows db).foldl keepFirst ∅

/-- Files a row under its name. -/
def keepAll (m : Std.ExtTreeMap String (List (Int × SchemaSnapshot))) (row : HistoryRow) :
    Std.ExtTreeMap String (List (Int × SchemaSnapshot)) :=
  m.insert row.name (m.getD row.name [] ++ [(row.version, row.snapshot)])

/-- Every recorded version and snapshot per resource, latest first. -/
def loadFullHistory (db : ScopeDb) : Std.ExtTreeMap String (List (Int × SchemaSnapshot)) :=
  ((historyRows db).foldl keepAll ∅).map
    fun _ versions => versions.insertionSort (fun a b => b.1 ≤ a.1)

/-- Applies one resource's statements and its history row in one transaction.
`error` is the transaction's error, when it does not commit. -/
def applyResource (db : ScopeDb) (name : String) (snapshot : SchemaSnapshot) (version : Int)
    (statements : List Stmt) (direction : Direction) (error : Option String) :
    Except String ScopeDb :=
  match error with
  | some e => .error ("migration transaction failed for " ++ name ++ ": " ++ e)
  | none => .ok {
      history := db.history ++ [{ name, version, snapshot, direction }]
      live := statements.foldl Stmt.apply db.live }

/-! ### The forward path -/

/-- One resource of a forward run. `history` was loaded when the run began. -/
def migrateResource (history : Std.ExtTreeMap String (Int × SchemaSnapshot))
    (opts : MigrationOptions) (error : Option String) (db : ScopeDb) (reg : ResourceSpec) :
    ScopeDb × Outcome :=
  let name := reg.key
  let newSnap := SchemaSnapshot.fromSql reg.name reg.schema
  let (prevVersion, oldSnap) := history.getD name (0, .default)
  let d := diff oldSnap newSnap
  if d.isEmpty then (db, .skipped)
  else
    let nextVersion := prevVersion + 1
    if opts.dryRun then
      (db, .planned (.fromDiff name nextVersion d oldSnap newSnap reg.name))
    else
      let statements := d.statements reg.name
      if !d.destructive.isEmpty && !opts.allowDestructive then
        (db, .refused {
          name
          message := "refusing destructive change(s) " ++ Str.debugStrs d.destructive ++
            " — re-run with allow_destructive to apply" })
      else
        -- the classification gate; it leaves dropped fields to the gate above
        match classificationRefusal opts.environment opts.acknowledge
            (classifyDiff oldSnap newSnap) with
        | some message => (db, .refused { name, message })
        | none =>
            match applyResource db name newSnap nextVersion statements .up error with
            | .ok db' =>
                (db', .applied (.fromDiff name nextVersion d oldSnap newSnap statements))
            | .error message => (db, .failed { name, message })

/-- One turn of the forward loop. -/
def runStep (history : Std.ExtTreeMap String (Int × SchemaSnapshot)) (opts : MigrationOptions)
    (txn : Nat → Option String) (s : ScopeDb × MigrationReport) (reg : ResourceSpec) :
    ScopeDb × MigrationReport :=
  let (db, outcome) := migrateResource history opts (txn s.2.considered) s.1 reg
  (db, s.2.record outcome)

/-- `ResourceMigrator::run`, past the load of the history. -/
def run (regs : List ResourceSpec) (opts : MigrationOptions) (txn : Nat → Option String)
    (db : ScopeDb) (report : MigrationReport) : ScopeDb × MigrationReport :=
  (orderResources regs).foldl (runStep (loadHistory db) opts txn) (db, report)

/-! ### The down path -/

/-- The snapshot to revert to: the one before the current, or the one recorded
at a strictly older version. -/
def revertTarget (toVersion : Option Int) (versions : List (Int × SchemaSnapshot))
    (curVersion : Int) : Option SchemaSnapshot :=
  match toVersion with
  | none => versions[1]?.map (·.2)
  | some v => if v < curVersion then (versions.find? (·.1 = v)).map (·.2) else none

/-- One resource of a revert. `versions` is its recorded history, latest first;
it is never empty. -/
def revertResource (versions : List (Int × SchemaSnapshot)) (opts : RevertOptions)
    (error : Option String) (db : ScopeDb) (name : String) : ScopeDb × Outcome :=
  match versions with
  | [] => (db, .skipped)
  | (curVersion, curSnap) :: _ =>
      match revertTarget opts.toVersion versions curVersion with
      | none => (db, .skipped)
      | some targetSnap =>
          let d := diff curSnap targetSnap
          if d.isEmpty then (db, .skipped)
          else
            let nextVersion := curVersion + 1
            if opts.dryRun then
              (db, .planned (.fromDiff name nextVersion d curSnap targetSnap curSnap.table))
            else
              let statements := d.statements curSnap.table
              if !d.destructive.isEmpty && !opts.allowDestructive then
                (db, .refused {
                  name
                  message := "refusing destructive revert " ++ Str.debugStrs d.destructive ++
                    " — re-run with allow_destructive to apply" })
              else
                match classificationRefusal opts.environment opts.acknowledge
                    (classifyDiff curSnap targetSnap) with
                | some message => (db, .refused { name, message })
                | none =>
                    match applyResource db name targetSnap nextVersion statements .down error with
                    | .ok db' =>
                        (db', .applied
                          (.fromDiff name nextVersion d curSnap targetSnap statements))
                    | .error message => (db, .failed { name, message })

/-- One turn of the revert loop. -/
def revertStep (history : Std.ExtTreeMap String (List (Int × SchemaSnapshot)))
    (opts : RevertOptions) (txn : Nat → Option String) (s : ScopeDb × MigrationReport)
    (name : String) : ScopeDb × MigrationReport :=
  let (db, outcome) :=
    revertResource (history.getD name []) opts (txn s.2.considered) s.1 name
  (db, s.2.record outcome)

/-- `ResourceMigrator::run_revert`, past the load of the history. Names go in
sorted order. -/
def runRevert (opts : RevertOptions) (txn : Nat → Option String) (db : ScopeDb)
    (report : MigrationReport) : ScopeDb × MigrationReport :=
  let history := loadFullHistory db
  history.keys.foldl (revertStep history opts txn) (db, report)

/-! ### One scope, with its connection and its lock -/

/-- Where a scope's database lives. -/
structure StorageLocation where
  «namespace» : String
  database : String
  deriving DecidableEq

/-- The errors of the database calls of one scope run; `none` is success. -/
structure ScopeFaults where
  acquire : Option String := none
  bootstrap : Option String := none
  provision : Option String := none
  lock : Option String := none
  load : Option String := none
  txn : Nat → Option String := fun _ => none

/-- The first error of a list of calls. -/
def firstError : List (Option String) → Except String Unit
  | [] => .ok ()
  | some e :: _ => .error e
  | none :: rest => firstError rest

/-- The calls of `migrate_scope` ahead of the run, in order. `bootstrap_sql` and
the lock are left out of a dry run. The lock is advisory: it changes neither the
history nor the live schema. -/
def migratePrelude (bootstrapSql : Bool) (dryRun : Bool) (database : String) (f : ScopeFaults) :
    List (Option String) :=
  [f.acquire,
    if !dryRun && bootstrapSql then
      f.bootstrap.map fun e => "bootstrap install in " ++ database ++ ": " ++ e
    else none,
    f.provision.map fun e => "history table provision in " ++ database ++ ": " ++ e,
    if dryRun then none else f.lock,
    f.load.map fun e => "load migration history: " ++ e]

/-- `migrate_scope`. -/
def migrateScope (bootstrapSql : Bool) (location : StorageLocation) (regs : List ResourceSpec)
    (opts : MigrationOptions) (scope : String) (f : ScopeFaults) (db : ScopeDb) :
    ScopeDb × Except String MigrationReport :=
  match firstError (migratePrelude bootstrapSql opts.dryRun location.database f) with
  | .error e => (db, .error e)
  | .ok () =>
      let (db', report) := run regs opts f.txn db
        { scope, «namespace» := location.namespace, database := location.database }
      (db', .ok report)

/-- The calls of `revert_scope` ahead of the revert, in order. -/
def revertPrelude (dryRun : Bool) (database : String) (f : ScopeFaults) :
    List (Option String) :=
  [f.acquire,
    f.provision.map fun e => "history table provision in " ++ database ++ ": " ++ e,
    if dryRun then none else f.lock,
    f.load.map fun e => "load full migration history: " ++ e]

/-- `revert_scope`. -/
def revertScope (location : StorageLocation) (opts : RevertOptions) (scope : String)
    (f : ScopeFaults) (db : ScopeDb) : ScopeDb × Except String MigrationReport :=
  match firstError (revertPrelude opts.dryRun location.database f) with
  | .error e => (db, .error e)
  | .ok () =>
      let (db', report) := runRevert opts f.txn db
        { scope, «namespace» := location.namespace, database := location.database }
      (db', .ok report)

end Frust.Orm
