import Frust.Orm.Migrator

/-!
# `Frust.Orm.Fleet`: migrating every tenant, resumably

`migrateFleetInner` migrates the active tenants one after the other and files a
checkpoint row for each in the platform database, under the run id of the
specs. A tenant with a `done` row of the run is skipped. A guarded rollout first
plans its stage: `Canary` is confined to a cohort, and `Rollout` asks for the
evidence that a canary stage left.

A `World` holds the platform's checkpoint and tenant rows and the database of each
location. The database calls take their errors from `FleetFaults`; a checkpoint
write is two statements, and each may take effect although the call reports an
error. `at` and the log lines are not modelled.
-/

set_option autoImplicit false

namespace Frust.Orm

open Frust.Rust

/-! ### Run ids -/

/-- One byte of FNV-1a. -/
def fnvByte (hash : UInt64) (b : UInt8) : UInt64 := (hash ^^^ b.toUInt64) * 0x100000001b3

/-- One part, with its separator byte. -/
def fnvPart (hash : UInt64) (part : String) : UInt64 :=
  fnvByte (part.toUTF8.data.toList.foldl fnvByte hash) 0xff

/-- `{:016x}`. -/
def hex16 (n : UInt64) : String :=
  let digits := Nat.toDigits 16 n.toNat
  String.ofList (List.replicate (16 - digits.length) '0' ++ digits)

/-- FNV-1a over the joined parts. -/
def fnv1aHex (parts : List String) : String :=
  hex16 (parts.foldl fnvPart 0xcbf29ce484222325)

/-- The app of the platform's own resources. -/
def platformApp : String := "platform"

/-- The specs a tenant is migrated to. -/
def tenantSpecs (specs : List ResourceSpec) : List ResourceSpec :=
  specs.filter (·.app ≠ platformApp)

/-- The parts of a run id: app, name, dependencies and schema of each resource. -/
def runParts (specs : List ResourceSpec) : List String :=
  let resources := (tenantSpecs specs).insertionSort
    fun a b => a.app < b.app ∨ a.app = b.app ∧ a.name ≤ b.name
  "frust-fleet-v2" :: resources.flatMap fun r =>
    [r.app, r.name, "\x1f".intercalate (r.deps.insertionSort (· ≤ ·)), r.schema]

/-- A stable run id. -/
def fleetRunId (specs : List ResourceSpec) : String := fnv1aHex (runParts specs)

/-! ### The platform database -/

/-- The status of a checkpoint row. -/
inductive CheckpointStatus where
  | done | failed | canaryDone
  deriving DecidableEq

/-- One row of `_framework_fleet_checkpoint`. -/
structure CheckpointRow where
  runId : String
  tenant : String
  status : CheckpointStatus
  deriving DecidableEq

/-- One row of `tenant`. -/
structure TenantRow where
  shortId : String
  status : String
  deriving DecidableEq

/-- The platform database and the database of each location. -/
structure World where
  checkpoints : List CheckpointRow
  tenants : List TenantRow
  scopes : StorageLocation → ScopeDb

namespace World

/-- Replaces the database of a location. -/
def setScope (w : World) (loc : StorageLocation) (db : ScopeDb) : World :=
  { w with scopes := Function.update w.scopes loc db }

/-- The tenants with a row of the run and the status. -/
def marked (w : World) (runId : String) (status : CheckpointStatus) : List String :=
  (w.checkpoints.filter fun row => row.runId = runId ∧ row.status = status).map (·.tenant)

/-- `load_done_set`. -/
def doneSet (w : World) (runId : String) : List String := w.marked runId .done

/-- `load_canary_evidence`. -/
def canaryEvidence (w : World) (runId : String) : List String := w.marked runId .canaryDone

/-- `list_active_tenants`. -/
def activeTenants (w : World) : List String :=
  ((w.tenants.filter fun row => row.status ∉ ["suspended", "deleting", "deleted"]).map
    (·.shortId)).insertionSort (· ≤ ·)

end World

/-- How a checkpoint write goes. When it reports an error, either of its two
statements may still have taken effect. -/
inductive CheckpointWrite where
  | ok
  | error (message : String) (deleted created : Bool)
  deriving DecidableEq

namespace CheckpointWrite

/-- The `DELETE` takes effect. -/
def deletes : CheckpointWrite → Bool
  | ok => true
  | error _ deleted _ => deleted

/-- The `CREATE` takes effect. -/
def creates : CheckpointWrite → Bool
  | ok => true
  | error _ _ created => created

/-- The result of the call. -/
def result : CheckpointWrite → Except String Unit
  | ok => .ok ()
  | error message _ _ => .error ("record fleet checkpoint: " ++ message)

end CheckpointWrite

/-- `record_checkpoint`: deletes the rows of the run and the tenant, and creates
one. -/
def recordCheckpoint (w : World) (runId tenant : String) (status : CheckpointStatus)
    (write : CheckpointWrite) : World × Except String Unit :=
  let kept :=
    if write.deletes then
      w.checkpoints.filter fun row => ¬(row.runId = runId ∧ row.tenant = tenant)
    else w.checkpoints
  ({ w with checkpoints := if write.creates then kept ++ [⟨runId, tenant, status⟩] else kept },
    write.result)

/-! ### The context -/

/-- A tenancy strategy. -/
structure Tenancy where
  platformScope : StorageLocation
  locate : String → StorageLocation
  requiresPerTenantSchemaDeploy : Bool

/-- What the engine is given. -/
structure EngineCtx where
  tenancy : Tenancy
  /-- There is bootstrap DDL. -/
  bootstrapSql : Bool

/-- `migrate_tenant_with`. -/
def migrateTenantWith (ctx : EngineCtx) (specs : List ResourceSpec) (opts : MigrationOptions)
    (f : ScopeFaults) (w : World) (tenant : String) : World × Except String MigrationReport :=
  let location := ctx.tenancy.locate tenant
  let (db, result) := migrateScope ctx.bootstrapSql location (tenantSpecs specs) opts
    ("tenant:" ++ tenant) f (w.scopes location)
  (w.setScope location db, result)

/-- `revert_tenant`. -/
def revertTenant (ctx : EngineCtx) (opts : RevertOptions) (f : ScopeFaults) (w : World)
    (tenant : String) : World × Except String MigrationReport :=
  let location := ctx.tenancy.locate tenant
  let (db, result) := revertScope location opts ("tenant:" ++ tenant) f (w.scopes location)
  (w.setScope location db, result)

/-! ### Options, plan and report -/

/-- A phase of a guarded rollout. -/
inductive FleetStage where
  | canary | rollout
  deriving DecidableEq

/-- Knobs of a guarded rollout. -/
structure FleetRolloutOptions where
  stage : FleetStage
  canarySize : Nat
  /-- `NonZeroUsize`. -/
  canarySize_pos : 0 < canarySize
  migration : MigrationOptions
  /-- Stop after the first tenant that fails. -/
  haltOnFailure : Bool

/-- The schedule of a guarded rollout. -/
structure FleetRolloutPlan where
  stage : FleetStage
  canarySize : Nat
  cohortId : String
  active : List String
  targets : List String
  completed : List String
  pending : List String
  deriving DecidableEq

/-- The leading tenants that the canary stage is confined to. -/
def FleetRolloutPlan.cohort (plan : FleetRolloutPlan) : List String :=
  plan.active.take plan.canarySize

/-- A tenant or a stage that failed. -/
structure FleetFailure where
  tenant : String
  message : String
  deriving DecidableEq

/-- The result of a fan-out. -/
structure FleetReport where
  runId : String := ""
  total : Nat := 0
  migrated : List String := []
  alreadyDone : List String := []
  failed : List FleetFailure := []
  checkpointFailed : List FleetFailure := []
  rollout : Option FleetRolloutPlan := none
  halted : Bool := false
  deriving DecidableEq

/-- No failure of any kind. -/
def FleetReport.isPromotable (r : FleetReport) : Bool :=
  r.failed.isEmpty && r.checkpointFailed.isEmpty && !r.halted

/-- `plan_rollout`. -/
def planRollout (stage : FleetStage) (canarySize : Nat) (tenants done canaryEvidence : List String) :
    Except String FleetRolloutPlan :=
  let active := tenants.insertionSort (· ≤ ·)
  if ¬active.IsChain (· ≠ ·) then
    .error "fleet rollout refused: duplicate active tenant id"
  else if active.length < canarySize then
    .error ("fleet rollout refused: canary size " ++ toString canarySize ++ " exceeds " ++
      toString active.length ++ " active tenants")
  else
    let cohort := active.take canarySize
    let cohortId := fnv1aHex cohort
    let missing := cohort.filter (· ∉ done)
    if stage = .rollout ∧ cohortId ∉ canaryEvidence then
      .error ("fleet rollout refused: durable canary evidence absent for cohort " ++ cohortId)
    else if stage = .rollout ∧ missing ≠ [] then
      .error ("fleet rollout refused: canary checkpoint incomplete for tenant(s): " ++
        ", ".intercalate missing)
    else
      let targets := match stage with
        | .canary => cohort
        | .rollout => active
      .ok {
        stage, canarySize, cohortId, active, targets
        completed := targets.filter (· ∈ done)
        pending := targets.filter (· ∉ done) }

/-! ### The loop -/

/-- The faults of one tenant's turn. -/
structure VisitFaults where
  scope : ScopeFaults := {}
  write : CheckpointWrite := .ok

/-- What became of one tenant. -/
inductive Visit where
  | alreadyDone
  | migrated (write : CheckpointWrite)
  | failed (message : String)
  deriving DecidableEq

/-- The turn ends a halting fan-out. -/
def Visit.isFailed : Visit → Bool
  | failed _ => true
  | _ => false

/-- `{:?}` of the errors of a report. -/
def debugErrors (errors : List MigrationError) : String :=
  "[" ++ ", ".intercalate (errors.map fun e =>
    "MigrationError \x7b name: " ++ Str.debugStr e.name ++ ", message: " ++
      Str.debugStr e.message ++ " \x7d") ++ "]"

/-- One tenant of the loop. -/
def visitTenant (ctx : EngineCtx) (specs : List ResourceSpec) (opts : MigrationOptions)
    (runId : String) (done : List String) (f : VisitFaults) (w : World) (tenant : String) :
    World × Visit :=
  if tenant ∈ done then (w, .alreadyDone)
  else
    match migrateTenantWith ctx specs opts f.scope w tenant with
    | (w, .ok r) =>
        if r.isOk then
          ((recordCheckpoint w runId tenant .done f.write).1, .migrated f.write)
        else
          ((recordCheckpoint w runId tenant .failed f.write).1,
            .failed (toString r.errors.length ++ " migration error(s): " ++ debugErrors r.errors))
    | (w, .error e) => ((recordCheckpoint w runId tenant .failed f.write).1, .failed e)

/-- Files the turn of a tenant. -/
def FleetReport.record (r : FleetReport) (tenant : String) : Visit → FleetReport
  | .alreadyDone => { r with alreadyDone := r.alreadyDone ++ [tenant] }
  | .migrated write =>
      let r : FleetReport := match write.result with
        | .ok () => r
        | .error message => { r with checkpointFailed := r.checkpointFailed ++ [⟨tenant, message⟩] }
      { r with migrated := r.migrated ++ [tenant] }
  | .failed message => { r with failed := r.failed ++ [⟨tenant, message⟩] }

/-- The loop over the targets; `i` counts the turns. -/
def fleetLoop (ctx : EngineCtx) (specs : List ResourceSpec) (opts : MigrationOptions)
    (runId : String) (done : List String) (haltOnFailure : Bool) (faults : Nat → VisitFaults) :
    (targets : List String) → (i : Nat) → World → FleetReport → World × FleetReport
  | [], _, w, report => (w, report)
  | tenant :: rest, i, w, report =>
      let (w, visit) := visitTenant ctx specs opts runId done (faults i) w tenant
      let report := report.record tenant visit
      if visit.isFailed && haltOnFailure then (w, { report with halted := true })
      else fleetLoop ctx specs opts runId done haltOnFailure faults rest (i + 1) w report

/-! ### One invocation -/

/-- The errors of the database calls of one invocation. -/
structure FleetFaults where
  acquire : Option String := none
  ensureTable : Option String := none
  loadDone : Option String := none
  loadEvidence : Option String := none
  listTenants : Option String := none
  visit : Nat → VisitFaults := fun _ => {}
  evidence : CheckpointWrite := .ok

/-- The calls of `migrate_fleet_inner` ahead of the plan, in order. -/
def fleetPrelude (f : FleetFaults) : List (Option String) :=
  [f.acquire,
    f.ensureTable.map ("define fleet checkpoint table: " ++ ·),
    f.loadDone.map ("load fleet checkpoints: " ++ ·),
    f.loadEvidence.map ("load canary evidence: " ++ ·),
    f.listTenants.map ("list tenants: " ++ ·)]

/-- The evidence of a completed canary stage. -/
def recordEvidence (w : World) (runId : String) (report : FleetReport) (write : CheckpointWrite) :
    World × FleetReport :=
  match report.rollout with
  | some plan =>
      if plan.stage = .canary ∧ report.isPromotable then
        let (w, result) := recordCheckpoint w runId plan.cohortId .canaryDone write
        match result with
        | .ok () => (w, report)
        | .error e =>
            (w, { report with checkpointFailed := report.checkpointFailed ++
              [⟨"canary-stage", "record canary cohort: " ++ e⟩] })
      else (w, report)
  | none => (w, report)

/-- The plan of an invocation: `none` when it is not guarded. -/
def guardedPlan (w : World) (runId : String) (rollout : Option FleetRolloutOptions) :
    Except String (Option FleetRolloutPlan) :=
  match rollout with
  | none => .ok none
  | some r =>
      (planRollout r.stage r.canarySize w.activeTenants (w.doneSet runId)
        (w.canaryEvidence runId)).map some

/-- The targets of an invocation. -/
def fleetTargets (w : World) (plan : Option FleetRolloutPlan) : List String :=
  match plan with
  | some plan => plan.targets
  | none => w.activeTenants

/-- `migrate_fleet_inner` up to the loop: the plan, or the result it returns
early. -/
def fleetGate (ctx : EngineCtx) (specs : List ResourceSpec) (opts : MigrationOptions)
    (rollout : Option FleetRolloutOptions) (f : FleetFaults) (w : World) :
    Except (Except String FleetReport) (Option FleetRolloutPlan) :=
  if rollout.isSome && opts.dryRun then
    .error (.error
      "guarded fleet rollout refused: dry-run cannot produce durable canary evidence")
  else if !ctx.tenancy.requiresPerTenantSchemaDeploy then .error (.ok {})
  else
    match firstError (fleetPrelude f) with
    | .error e => .error (.error e)
    | .ok () => (guardedPlan w (fleetRunId specs) rollout).mapError .error

/-- `migrate_fleet_inner` from the loop on. -/
def fanOut (ctx : EngineCtx) (specs : List ResourceSpec) (opts : MigrationOptions)
    (rollout : Option FleetRolloutOptions) (plan : Option FleetRolloutPlan) (f : FleetFaults)
    (w : World) : World × FleetReport :=
  let runId := fleetRunId specs
  let halt := rollout.any (·.haltOnFailure)
  let (w', report) := fleetLoop ctx specs opts runId (w.doneSet runId) halt f.visit
    (fleetTargets w plan) 0 w { runId, total := w.activeTenants.length, rollout := plan }
  recordEvidence w' runId report f.evidence

/-- `migrate_fleet_inner`. -/
def migrateFleetInner (ctx : EngineCtx) (specs : List ResourceSpec) (opts : MigrationOptions)
    (rollout : Option FleetRolloutOptions) (f : FleetFaults) (w : World) :
    World × Except String FleetReport :=
  match fleetGate ctx specs opts rollout f w with
  | .error result => (w, result)
  | .ok plan =>
      let (w', report) := fanOut ctx specs opts rollout plan f w
      (w', .ok report)

/-- `migrate_fleet_with`. -/
def migrateFleetWith (ctx : EngineCtx) (specs : List ResourceSpec) (opts : MigrationOptions)
    (f : FleetFaults) (w : World) : World × Except String FleetReport :=
  migrateFleetInner ctx specs opts none f w

/-- `migrate_fleet_rollout`. -/
def migrateFleetRollout (ctx : EngineCtx) (specs : List ResourceSpec)
    (rollout : FleetRolloutOptions) (f : FleetFaults) (w : World) :
    World × Except String FleetReport :=
  migrateFleetInner ctx specs rollout.migration (some rollout) f w

end Frust.Orm
