import Frust.Lib.Pool
import Frust.Orm.Lock

/-!
# `Frust.Kernel.Boot`: the boot of a node

A boot takes the lock row of the database, reads the meta version that is stored there, and
refuses, migrates or goes on. `BootProg` is the boot as its statements, in their order. Nodes
with any binaries boot on one database, and a statement of one may come between any two of
another. A statement may fail, with its effect or without, and any time may pass.

The transaction that applies the meta schema is one request: it sets the version and writes one
row of the application log. What a boot does to other tables, after the meta schema, is a `step`.
The check of where the strategy puts its access comes before everything and passes for every
strategy that there is; the report has no counts here.
-/

set_option autoImplicit false

namespace Frust.Kernel

open Frust.Lib Frust.Orm

/-- A node: its holder id, its binary's meta version, and `--accept-meta-migrations`. -/
structure Node where
  holder : String
  metaSchemaVersion : Int
  acceptMetaMigrations : Bool
  deriving DecidableEq

/-- `BootError`. `broker` is a `Db` with the text of a broker's error. -/
inductive BootError where
  | metaNewerThanBinary (dbVersion binaryVersion : Int)
  | metaMigrationPending (dbVersion binaryVersion : Int)
  | lockHeld (holder : String)
  | db (detail : String)
  | broker (e : BrokerError)
  deriving DecidableEq

/-- `BootReport`. -/
structure BootReport where
  appliedMeta : Bool
  metaVersion : Int
  deriving DecidableEq

/-- The result of one statement: of an `OK` its rows, and else the printed detail. -/
abbrev StmtResult := Except String Json

/-- What a boot does after the meta schema. -/
inductive BootStep where
  | identityDdl
  | assertAccessKey
  | seedBaseDoctypes
  | countDoctypes
  | syncUserDoctypes
  | tenantPolicyDdl
  | loadTenantPolicies
  deriving DecidableEq

/-- What a boot asks the database. -/
inductive BootRequest where
  | defineLock
  | createLock (holder : String)
  /-- `time::now() - at` of the lock row. -/
  | lockAge
  | deleteLock
  | lockHolder
  | selectVersion
  | applyMeta (holder : String) (fromVersion toVersion : Int)
  | step (what : BootStep)
  /-- `DELETE ... WHERE holder`. -/
  | releaseLock (holder : String)
  deriving DecidableEq

/-- The answers. -/
abbrev BootAnswer : BootRequest → Type
  | .defineLock | .lockAge | .lockHolder | .applyMeta _ _ _ => Except BrokerError Json
  | .createLock _ | .deleteLock | .selectVersion | .releaseLock _ =>
      Except BrokerError (List StmtResult)
  | .step _ => Except BootError Unit

/-- A boot's program. -/
abbrev BootProg := Prog BootError BootRequest BootAnswer

namespace Boot

/-- Goes on with a value, or fails as a broker does. -/
def lift {α : Type} (r : Except BrokerError α) : BootProg α := .done (r.mapError .broker)

/-- `contains`. -/
def contains (s pattern : String) : Bool := s.toList.tails.any (pattern.toList.isPrefixOf ·)

/-! ### The lock -/

/-- Whether every statement is `OK`. -/
def allOk (stmts : List StmtResult) : Bool := stmts.all fun stmt => stmt.toOption.isSome

/-- `duration_secs`, the same as the migrator's. -/
def durationSecs (s : String) : ℚ := Orm.durationSecs s

/-- `lock_is_stale`, on the rows of the ages. No row, or none that can be read, is stale. -/
def lockIsStale (rows : Json) : Bool :=
  let age := ((rows.rows.head?.bind (Json.get · "age")).bind Json.asStr).getD ""
  if age = "" then true else bootLockStaleSecs < durationSecs age

/-- The loop of `lock_acquire`, with `tries` left. A sleep is time that passes. -/
def lockLoop (holder : String) : (tries : Nat) → BootProg Unit
  | 0 =>
      .ask .lockHolder fun (rows : Except BrokerError Json) => do
        let rows ← lift rows
        let holderNow := ((rows.rows.head?.bind (Json.get · "holder")).bind Json.asStr).getD "?"
        .done (.error (.lockHeld holderNow))
  | tries + 1 =>
      .ask (.createLock holder) fun (stmts : Except BrokerError (List StmtResult)) => do
        let stmts ← lift stmts
        if allOk stmts then .done (.ok ())
        else
          .ask .lockAge fun (rows : Except BrokerError Json) => do
            let rows ← lift rows
            if lockIsStale rows then .ask .deleteLock fun _ => lockLoop holder tries
            else lockLoop holder tries

/-- `lock_acquire`. -/
def lockAcquire (holder : String) : BootProg Unit :=
  .ask .defineLock fun (r : Except BrokerError Json) => do
    let _ ← lift r
    lockLoop holder lockWaitTries

/-! ### The version -/

/-- `read_meta_version`, on the results of its statement. -/
def metaVersionOf : List StmtResult → Except BootError (Option Int)
  | [] => .ok none
  | .error detail :: _ => if contains detail "does not exist" then .ok none else .error (.db detail)
  | .ok result :: _ => .ok ((result.rows.head?.bind (Json.get · "version")).bind Json.asInt)

/-- `read_meta_version`. -/
def readMetaVersion : BootProg (Option Int) :=
  .ask .selectVersion fun (stmts : Except BrokerError (List StmtResult)) => do
    let stmts ← lift stmts
    .done (metaVersionOf stmts)

/-- `apply_meta`. -/
def applyMeta (node : Node) (fromVersion : Int) : BootProg Unit :=
  .ask (.applyMeta node.holder fromVersion node.metaSchemaVersion)
    fun (r : Except BrokerError Json) => do
      let _ ← lift r
      .done (.ok ())

/-- The version check, fail-closed both ways: whether the meta schema was applied. -/
def migrateMeta (node : Node) : Option Int → BootProg Bool
  | some v =>
      if node.metaSchemaVersion < v then
        .done (.error (.metaNewerThanBinary v node.metaSchemaVersion))
      else if v < node.metaSchemaVersion then
        if !node.acceptMetaMigrations then
          .done (.error (.metaMigrationPending v node.metaSchemaVersion))
        else do
          applyMeta node v
          .done (.ok true)
      else .done (.ok false)
  | none => do
      applyMeta node 0
      .done (.ok true)

/-- One of the further steps. -/
def step (what : BootStep) : BootProg Unit := .ask (.step what) fun r => .done r

/-- `boot_locked`, from the identity posture on. -/
def bootRest (node : Node) (applied : Bool) : BootProg BootReport := do
  step .identityDdl
  step .assertAccessKey
  step .seedBaseDoctypes
  let version ← readMetaVersion
  match version with
  | none => .done (.error (.db "meta version missing after sync"))
  | some now =>
      if now ≠ node.metaSchemaVersion then
        .done (.error (.db ("meta version " ++ toString now ++ " after sync, expected " ++
          toString node.metaSchemaVersion)))
      else do
        step .countDoctypes
        step .syncUserDoctypes
        step .tenantPolicyDdl
        step .loadTenantPolicies
        .done (.ok ⟨applied, now⟩)

/-- `boot_locked`. -/
def bootLocked (node : Node) : BootProg BootReport := do
  let dbVersion ← readMetaVersion
  let applied ← migrateMeta node dbVersion
  bootRest node applied

/-- `boot`. -/
def boot (node : Node) : BootProg BootReport := do
  lockAcquire node.holder
  let result ← (bootLocked node).attempt
  .ask (.releaseLock node.holder) fun _ => .done result

end Boot

/-! ### The database -/

/-- The lock row. -/
structure BootLockRow where
  holder : String
  createdAt : Nat
  deriving DecidableEq

/-- A row of the application log. -/
structure MetaApplied where
  fromVersion : Int
  toVersion : Int
  appliedBy : String
  deriving DecidableEq

/-- What boots find in the database: the lock row, the `version` of the meta record where there
is one, and the application log. Times are in nanoseconds. -/
structure BootDb where
  lock : Option BootLockRow := none
  record : Option Json := none
  log : List MetaApplied := []
  now : Nat := 0

namespace BootDb

/-- The stored meta version. -/
def version (s : BootDb) : Option Int := s.record.bind Json.asInt

/-- The lock row is there. -/
def locked (s : BootDb) (holder : String) : BootDb := { s with lock := some ⟨holder, s.now⟩ }

/-- The lock row is gone. -/
def unlocked (s : BootDb) : BootDb := { s with lock := none }

/-- The lock row is gone if it is the holder's. -/
def released (s : BootDb) (holder : String) : BootDb :=
  if s.lock.any (·.holder = holder) then s.unlocked else s

/-- The transaction of `apply_meta`. -/
def applied (s : BootDb) (holder : String) (fromVersion toVersion : Int) : BootDb :=
  { s with record := some (.int toVersion), log := s.log ++ [⟨fromVersion, toVersion, holder⟩] }

/-- The rows of the lock's age. -/
def ageRows (s : BootDb) : Json :=
  .array (s.lock.toList.map fun row =>
    .object [("age", .string (durationText (s.now - row.createdAt)))])

/-- The rows of the lock's holder. -/
def holderRows (s : BootDb) : Json :=
  .array (s.lock.toList.map fun row => .object [("holder", .string row.holder)])

/-- The rows of the meta version. -/
def versionRows (s : BootDb) : Json :=
  .array (s.record.toList.map fun version => .object [("version", version)])

/-- What a statement may answer, and what it does. An answer that reports a failure may come with
the effect or without. Only where there is no record, nothing "does not exist". -/
def Effect (s : BootDb) : (q : BootRequest) → BootAnswer q → BootDb → Prop
  | .defineLock, _, s' | .step _, _, s' => s' = s
  | .lockAge, r, s' => s' = s ∧ ∀ rows, r = .ok rows → rows = s.ageRows
  | .lockHolder, r, s' => s' = s ∧ ∀ rows, r = .ok rows → rows = s.holderRows
  | .createLock holder, r, s' =>
      (s.lock = none ∧ s' = s.locked holder) ∨
        (s' = s ∧ ∀ stmts, r = .ok stmts → Boot.allOk stmts = false)
  | .deleteLock, _, s' => s' = s.unlocked ∨ s' = s
  | .selectVersion, r, s' => s' = s ∧ ∀ stmts, r = .ok stmts →
      stmts = [.ok s.versionRows] ∨ ∃ detail, stmts = [.error detail] ∧
        (Boot.contains detail "does not exist" = true → s.record = none)
  | .applyMeta holder fromVersion toVersion, r, s' =>
      s' = s.applied holder fromVersion toVersion ∨ (s' = s ∧ ∃ e, r = .error e)
  | .releaseLock holder, _, s' => s' = s.released holder ∨ s' = s

/-- What a statement may answer, and what becomes of the database by the next one. -/
def Answers (s : BootDb) (q : BootRequest) (r : BootAnswer q) (s' : BootDb) : Prop :=
  ∃ s₁, Effect s q r s₁ ∧ ∃ elapsed, s' = { s₁ with now := s₁.now + elapsed }

/-- The answers where nothing fails, and each statement takes some time. -/
def answer (elapsed : Nat) (s : BootDb) (q : BootRequest) : BootAnswer q × BootDb :=
  let later (s : BootDb) : BootDb := { s with now := s.now + elapsed }
  match q with
  | .defineLock => (.ok .null, later s)
  | .createLock holder =>
      match s.lock with
      | none => (.ok [.ok .null], later (s.locked holder))
      | some _ => (.ok [.error "Database record already exists"], later s)
  | .lockAge => (.ok s.ageRows, later s)
  | .deleteLock => (.ok [.ok .null], later s.unlocked)
  | .lockHolder => (.ok s.holderRows, later s)
  | .selectVersion => (.ok [.ok s.versionRows], later s)
  | .applyMeta holder fromVersion toVersion =>
      (.ok .null, later (s.applied holder fromVersion toVersion))
  | .step _ => (.ok (), later s)
  | .releaseLock holder => (.ok [.ok .null], later (s.released holder))

end BootDb

end Frust.Kernel
