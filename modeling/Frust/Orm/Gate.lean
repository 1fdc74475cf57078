import Frust.Orm.Fleet

/-!
# `Frust.Orm.Gate`: the startup gate of the platform

`bootCheck` plans the platform's resources in a dry run and decides on the plan. Only where the
decision is `converge` it applies the plan, through the same path as any other migration. It
returns what it decided; the caller aborts.
-/

set_option autoImplicit false

namespace Frust.Orm

/-- What a startup gate may do by itself. -/
inductive BootAction where
  /-- Nothing is pending. -/
  | proceed
  /-- Apply what is pending, then boot. -/
  | converge
  | refuse
  deriving DecidableEq

/-- `boot_action`. -/
def bootAction (env : Environment) (nonDrop : ClassSummary) (hasDrops : Bool) : BootAction :=
  if nonDrop.worst.isNone && !hasDrops then .proceed
  else if env.isStrict then .refuse
  else if hasDrops then .refuse
  else
    match nonDrop.worst with
    | none => .proceed
    | some .safe | some .warn => .converge
    | some .needsBackfill | some .blocked => .refuse

/-- Adds up two tallies. -/
def ClassSummary.add (s t : ClassSummary) : ClassSummary where
  safe := s.safe + t.safe
  warn := s.warn + t.warn
  needsBackfill := s.needsBackfill + t.needsBackfill
  blocked := s.blocked + t.blocked

/-- The loop of `boot_action_for_report`: the tally without drops, and whether there are drops. -/
def gateTally (planned : List PlannedMigration) : ClassSummary × Bool :=
  planned.foldl (fun acc p =>
    (acc.1.add p.classifications.nonDropSummary, if !p.destructive.isEmpty then true else acc.2))
    ({}, false)

/-- `boot_action_for_report`. -/
def bootActionForReport (report : MigrationReport) (env : Environment) : BootAction :=
  bootAction env (gateTally report.planned).1 (gateTally report.planned).2

/-- What a startup gate returns. -/
structure BootCheck where
  action : BootAction
  converged : List String := []
  pending : List String := []
  commandHint : Option String := none
  deriving DecidableEq

/-- The lowercase label of an environment. -/
def Environment.asStr : Environment → String
  | dev => "dev"
  | test => "test"
  | prod => "prod"

/-- `MigrationOptions::default_for`. -/
def MigrationOptions.defaultFor (environment : Environment) : MigrationOptions := { environment }

/-- `MigrationOptions::dry_run_for`. -/
def MigrationOptions.dryRunFor (environment : Environment) : MigrationOptions :=
  { dryRun := true, environment }

/-- The specs of the platform. -/
def platformSpecs (specs : List ResourceSpec) : List ResourceSpec :=
  specs.filter (·.app = platformApp)

/-- `migrate_platform_with`. -/
def migratePlatformWith (ctx : EngineCtx) (specs : List ResourceSpec) (opts : MigrationOptions)
    (f : ScopeFaults) (w : World) : World × Except String MigrationReport :=
  let location := ctx.tenancy.platformScope
  let (db, result) := migrateScope ctx.bootstrapSql location (platformSpecs specs) opts
    "platform" f (w.scopes location)
  (w.setScope location db, result)

/-- `boot_check`. The faults are those of the dry run and those of the application. -/
def bootCheck (ctx : EngineCtx) (specs : List ResourceSpec) (env : Environment)
    (planFaults applyFaults : ScopeFaults) (w : World) : World × Except String BootCheck :=
  let hint := some ("bench migrate apply --env " ++ env.asStr)
  match migratePlatformWith ctx specs (.dryRunFor env) planFaults w with
  | (w, .error e) => (w, .error e)
  | (w, .ok plan) =>
      match bootActionForReport plan env with
      | .proceed => (w, .ok { action := .proceed })
      | .refuse =>
          (w, .ok { action := .refuse, pending := plan.planned.map (·.name), commandHint := hint })
      | .converge =>
          match migratePlatformWith ctx specs (.defaultFor env) applyFaults w with
          | (w, .error e) => (w, .error e)
          | (w, .ok applied) =>
              let converged := applied.applied.map (·.name)
              if applied.isOk then (w, .ok { action := .converge, converged })
              else (w, .ok { action := .refuse, converged, pending := applied.errors.map (·.name),
                             commandHint := hint })

end Frust.Orm
