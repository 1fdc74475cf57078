import Frust.Proofs.Kernel.Apps
import Frust.Proofs.Orm.Lenient
import Frust.Proofs.Rust.Str

/-!
# `Frust.Proofs.Kernel.Installs`: when an install goes through

Where no call of a migration fails, an acknowledged bundle that ships no records passes its gates and
its migration, whatever the schema was (`installApp_ok`), and a sync goes through whatever it refuses
to drop (`sync_ok`). What the schema becomes is left open.
-/

set_option autoImplicit false

namespace Frust.Kernel

open Frust.Lib Frust.Orm Frust.Rust

/-- No call of a migration fails. -/
def Clear (luck : MigrationPhase → ScopeFaults) : Prop := ∀ phase, luck phase = {}

/-- Migrations whose calls all succeed. -/
def noFaults : MigrationPhase → ScopeFaults := fun _ => {}

theorem clear_noFaults : Clear noFaults := fun _ => rfl

/-- Tables that answer every statement with nothing. -/
def noTables : RowEngine := fun _ _ _ _ => .ok .null

/-- A destructive refusal is one that the sync takes for drift. -/
theorem isOrphanRefusal_destructive (field : String) (rest : List String) :
    isOrphanRefusal (destructiveMessage (("REMOVE FIELD " ++ field) :: rest)) = true := by
  unfold isOrphanRefusal destructiveMessage
  rw [Bool.and_eq_true]
  constructor
  · rw [Str.toAsciiLowercase_append, Str.toAsciiLowercase_append]
    exact Str.contains_append_left (Str.contains_append_left (by decide) _) _
  · -- the first statement stands in the middle of the rendered list
    have hquoted : Str.contains "remove field"
        (Str.toAsciiLowercase (Str.debugStr ("REMOVE FIELD " ++ field))) = true := by
      rw [Str.debugStr_append]
      simp only [Str.toAsciiLowercase_append]
      refine Str.contains_append_left (Str.contains_append_left ?_ _) _
      exact Str.contains_append_right (by decide) _
    have hlist : Str.contains "remove field" (Str.toAsciiLowercase
        (Str.debugStrs (("REMOVE FIELD " ++ field) :: rest))) = true := by
      unfold Str.debugStrs
      rw [List.map_cons]
      cases rest with
      | nil =>
          rw [List.map_nil, String.intercalate_singleton]
          simp only [Str.toAsciiLowercase_append]
          exact Str.contains_append_left (Str.contains_append_right hquoted _) _
      | cons r rest =>
          rw [List.map_cons, String.intercalate_cons_cons]
          simp only [Str.toAsciiLowercase_append]
          refine Str.contains_append_left (Str.contains_append_right ?_ _) _
          exact Str.contains_append_left (Str.contains_append_left hquoted _) _
    rw [Str.toAsciiLowercase_append, Str.toAsciiLowercase_append]
    exact Str.contains_append_left (Str.contains_append_right hlist _) _

/-- Refusals to drop columns are drift. -/
theorem fatal_nil {errors : List MigrationError} (h : OnlyRefusals errors) :
    errors.filter (fun e => !isOrphanRefusal e.message) = [] := by
  rw [List.filter_eq_nil_iff]
  intro e he
  obtain ⟨field, rest, hmessage⟩ := h e he
  simp [hmessage, isOrphanRefusal_destructive]

section

open AppProg

variable {engine : RowEngine} {luck : MigrationPhase → ScopeFaults} {s : TenantDb}

/-- The DocTypes of a database, in the order of their names. -/
def TenantDb.defs (s : TenantDb) : List DocTypeDef :=
  (TenantDb.byName s.doctypes).map fun e => e.2.toDef e.1

theorem loadDoctypes_exec (s : TenantDb) :
    loadDoctypes.exec engine luck s = (.ok s.defs, s) := rfl

/-- Every DocType compiles, where the rollups are these. -/
def Compile (dts : List DocTypeDef) (targets : List String) : Prop :=
  ∀ dt ∈ dts, ∃ spec, doctypeSpecIn dt targets = .ok spec

theorem syncSpecs_ok {dts : List DocTypeDef} {targets : List String} (h : Compile dts targets)
    (history : List (String × List (String × String))) :
    ∃ specs, syncSpecs targets history none dts = .ok specs := by
  induction dts with
  | nil => exact ⟨_, rfl⟩
  | cons dt dts ih =>
      obtain ⟨spec, hspec⟩ := h dt List.mem_cons_self
      obtain ⟨specs, hspecs⟩ := ih fun dt' hdt' => h dt' (List.mem_cons_of_mem _ hdt')
      refine ⟨((carryOrphans spec history none).1 :: specs.1,
        ((carryOrphans spec history none).2.map fun f => dt.name ++ "." ++ f) ++ specs.2), ?_⟩
      simp only [syncSpecs, Option.any_none, Bool.false_eq_true, if_false, hspec]
      show (syncSpecs targets history none dts >>= _) = _
      rw [hspecs]
      rfl

theorem seedSingleRows_exec {dts : List DocTypeDef} (h : ∀ dt ∈ dts, dt.issingle = false)
    (s : TenantDb) : (seedSingleRows dts).exec engine luck s = (.ok (), s) := by
  induction dts with
  | nil => rfl
  | cons dt dts ih =>
      have hdt : seedSingleRow dt = pure () := by simp [seedSingleRow, h dt List.mem_cons_self]
      unfold seedSingleRows
      rw [hdt]
      exact ih fun dt' hdt' => h dt' (List.mem_cons_of_mem _ hdt')

/-- A migration in `Dev` without failing calls. -/
theorem migrate_dev (engine : RowEngine) (s : TenantDb) (hclear : Clear luck)
    (phase : MigrationPhase) (specs : List ResourceSpec) (opts : MigrationOptions)
    (henv : opts.environment = .dev) :
    ∃ schema report, (sql (.migrate phase specs opts)).exec engine luck s
        = (.ok (.ok report), { s with schema := schema }) ∧
      OnlyRefusals report.errors ∧ (opts.allowDestructive = true → report.errors = []) := by
  obtain ⟨schema, report, hmigrate, honly, hnone⟩ := migrateScope_dev (⟨"", ""⟩ : StorageLocation)
    (tenantSpecs specs) henv "tenant:default" s.schema
  have hmigrated : TenantDb.migrated luck phase specs opts s.schema = (schema, .ok report) := by
    unfold TenantDb.migrated
    rw [hclear]
    exact hmigrate
  exact ⟨schema, report, by rw [exec_sql]; simp only [TenantDb.serve, hmigrated], honly, hnone⟩

theorem migrate_dry (engine : RowEngine) (s : TenantDb) (hclear : Clear luck)
    (phase : MigrationPhase) (specs : List ResourceSpec) (opts : MigrationOptions)
    (hdry : opts.dryRun = true) :
    ∃ report, (sql (.migrate phase specs opts)).exec engine luck s = (.ok (.ok report), s) := by
  obtain ⟨report, hmigrate⟩ := migrateScope_dry_ok (⟨"", ""⟩ : StorageLocation)
    (tenantSpecs specs) hdry "tenant:default" s.schema
  have hmigrated : TenantDb.migrated luck phase specs opts s.schema = (s.schema, .ok report) := by
    unfold TenantDb.migrated
    rw [hclear]
    exact hmigrate
  exact ⟨report, by rw [exec_sql]; simp only [TenantDb.serve, hmigrated]⟩

/-- A sync of DocTypes that compile, none of them a Single, changes the schema only. -/
theorem sync_ok (engine : RowEngine) (hclear : Clear luck) (hcompile : Compile s.defs (rollupTargets s.defs))
    (hsingle : ∀ dt ∈ s.defs, dt.issingle = false) :
    ∃ outcome schema, sync.exec engine luck s = (.ok outcome, { s with schema := schema }) := by
  obtain ⟨specs, hspecs⟩ := syncSpecs_ok hcompile (TenantDb.historyFields s.schema)
  obtain ⟨schema, report, hserve, honly, _⟩ := migrate_dev engine s hclear
    .sync specs.1 { MigrationOptions.defaultFor .dev with allowDestructive := false } rfl
  have houtcome : ∃ outcome, syncOutcome specs.2 report = .ok outcome := by
    unfold syncOutcome
    rw [fatal_nil honly]
    exact ⟨_, rfl⟩
  obtain ⟨outcome, houtcome⟩ := houtcome
  refine ⟨outcome, schema, ?_⟩
  unfold sync syncInner
  refine (exec_bind_ok (loadDoctypes_exec s)).trans ?_
  refine (exec_bind_ok (exec_sql _ _)).trans ?_
  refine (exec_bind_ok (exec_check hspecs s)).trans ?_
  refine (exec_bind_ok hserve).trans ?_
  refine (exec_bind_ok (a := report) (exec_lift _ _)).trans ?_
  refine (exec_bind_ok (seedSingleRows_exec hsingle _)).trans ?_
  rw [exec_lift, houtcome]

variable {m : Manifest}

theorem planUnchecked_dry (engine : RowEngine) (hclear : Clear luck) {specs : List ResourceSpec}
    (hspecs : m.specs s.defs = .ok specs) :
    ∃ report, (planUnchecked m planOptions).exec engine luck s = (.ok (m.installPlan report), s) := by
  obtain ⟨report, hmigrate⟩ := migrate_dry engine s hclear .plan specs planOptions rfl
  refine ⟨report, ?_⟩
  unfold planUnchecked
  refine (exec_bind_ok (a := .ok s.defs) (t := s) rfl).trans ?_
  refine (exec_bind_ok (exec_check hspecs s)).trans ?_
  refine (exec_bind_ok hmigrate).trans ?_
  exact exec_bind_ok (a := report) (exec_lift _ _)

/-- An acknowledged migration without failing calls. -/
theorem planUnchecked_acknowledged (engine : RowEngine) (hclear : Clear luck) {specs : List ResourceSpec}
    (hspecs : m.specs s.defs = .ok specs) :
    ∃ report schema, (planUnchecked m (applyOptions true)).exec engine luck s
      = (.ok (m.installPlan report), { s with schema := schema }) ∧ report.errors = [] := by
  obtain ⟨schema, report, hmigrate, _, hnone⟩ := migrate_dev engine s hclear .apply specs
    (applyOptions true) rfl
  refine ⟨report, schema, ?_, hnone rfl⟩
  unfold planUnchecked
  refine (exec_bind_ok (a := .ok s.defs) (t := s) rfl).trans ?_
  refine (exec_bind_ok (exec_check hspecs s)).trans ?_
  refine (exec_bind_ok hmigrate).trans ?_
  exact exec_bind_ok (a := report) (exec_lift _ _)

/-- A bundle is ready for a database: it is valid, it advances the registry, its DocTypes compile,
and it ships no records. -/
structure Ready (m : Manifest) (isUpdate : Bool) (s : TenantDb) : Prop where
  valid : m.validate = []
  version : checkVersion m (s.apps.lookup m.name) isUpdate = .ok ()
  specs : ∃ specs, m.specs s.defs = .ok specs
  fixtures : m.fixtures = []

/-- The gates let an acknowledged bundle pass, and change nothing. -/
theorem installGates_ok (engine : RowEngine) (hclear : Clear luck) {isUpdate : Bool} (h : Ready m isUpdate s) :
    ∃ admitted, (installGates m true isUpdate).exec engine luck s = (.ok admitted, s) ∧
      admitted.existing = s.apps.lookup m.name := by
  obtain ⟨specs, hspecs⟩ := h.specs
  obtain ⟨report, hplan⟩ := planUnchecked_dry engine hclear hspecs
  have hvalid : m.checkValid = .ok () := by simp [Manifest.checkValid, h.valid]
  have hfixtures : (planFixtures m).exec engine luck s = (.ok ⟨[], []⟩, s) := by
    unfold planFixtures
    rw [h.fixtures]
    rfl
  have hplanApp : (planApp m).exec engine luck s = (.ok (m.installPlan report, ⟨[], []⟩), s) := by
    unfold planApp
    refine (exec_bind_ok (exec_check hvalid s)).trans ?_
    refine (exec_bind_ok hplan).trans ?_
    exact exec_bind_ok hfixtures
  have hcasualties : ∃ casualties, (extensionCasualties m (m.installPlan report).destructive).exec
      engine luck s = (.ok casualties, s) := by
    unfold extensionCasualties
    split
    · exact ⟨_, rfl⟩
    · exact ⟨_, rfl⟩
  obtain ⟨casualties, hcasualties⟩ := hcasualties
  -- An acknowledged gate is open, whatever it has found.
  have hgate (found : Bool) (refusal : BrokerError) :
      (AppProg.lift (gate found true refusal)).exec engine luck s = (.ok (), s) := by
    cases found <;> rfl
  refine ⟨⟨s.apps.lookup m.name, (m.installPlan report).destructive, ⟨[], []⟩⟩, ?_, rfl⟩
  -- The gates one after the other, each on the same state.
  unfold installGates
  refine (exec_bind_ok (exec_check hvalid s)).trans ?_
  refine (exec_bind_ok (exec_sql _ _)).trans ?_
  refine (exec_bind_ok (exec_check h.version s)).trans ?_
  refine (exec_bind_ok hplanApp).trans ?_
  refine (exec_bind_ok (hgate _ _)).trans ?_
  refine (exec_bind_ok hcasualties).trans ?_
  refine (exec_bind_ok (hgate _ _)).trans ?_
  exact exec_bind_ok (hgate _ _)

/-- An acknowledged bundle that is ready is installed, if it can be attached. -/
theorem installApp_ok (engine : RowEngine) (hclear : Clear luck) {syncs isUpdate : Bool} (h : Ready m isUpdate s)
    {t u v : TenantDb}
    (hbundle : ∀ schema, ∃ schema', (attachBundle syncs m).exec engine luck { s with schema := schema }
      = (.ok (), { t with schema := schema' }))
    (hdetach : ∀ schema, (detachPrevious m (s.apps.lookup m.name)).exec engine luck
      { t with schema := schema } = (.ok (), { u with schema := schema }))
    (hregister : ∀ schema, (register m (s.apps.lookup m.name)).exec engine luck
      { u with schema := schema } = (.ok (), { v with schema := schema })) :
    ∃ report schema, (installApp syncs m true isUpdate).exec engine luck s
      = (.ok report, { v with schema := schema }) := by
  obtain ⟨specs, hspecs⟩ := h.specs
  obtain ⟨admitted, hgates, hexisting⟩ := installGates_ok engine hclear h
  obtain ⟨report, schema, hplan, herrors⟩ :=
    planUnchecked_acknowledged engine hclear hspecs
  obtain ⟨schema', hbundle⟩ := hbundle schema
  -- The parts that write: the schema, the bundle, what goes of the old one, and the registry.
  have happly : (applyBundle syncs m true admitted.existing).exec engine luck s
      = (.ok (m.installPlan report), { v with schema := schema' }) := by
    unfold applyBundle
    refine (exec_bind_ok hplan).trans ?_
    have happlied : checkApplied (m.installPlan report).schema = .ok () := by
      show checkApplied report = .ok ()
      unfold checkApplied
      rw [herrors]
      rfl
    refine (exec_bind_ok (exec_check happlied _)).trans ?_
    refine (exec_bind_ok hbundle).trans ?_
    rw [hexisting]
    refine (exec_bind_ok (hdetach schema')).trans ?_
    exact exec_bind_ok (hregister schema')
  refine ⟨⟨m.name, m.version, isUpdate, report.applied.length, admitted.destructive,
    admitted.fixtures.rows⟩, schema', ?_⟩
  unfold installApp
  refine (exec_bind_ok hgates).trans ?_
  exact exec_bind_ok happly

/-- So there is a run of the install of a bundle that is ready. -/
theorem Ready.installs {syncs isUpdate : Bool} (h : Ready m isUpdate s) {t u v : TenantDb}
    (hbundle : ∀ schema, ∃ schema', (attachBundle syncs m).exec noTables noFaults
      { s with schema := schema } = (.ok (), { t with schema := schema' }))
    (hdetach : ∀ schema, (detachPrevious m (s.apps.lookup m.name)).exec noTables noFaults
      { t with schema := schema } = (.ok (), { u with schema := schema }))
    (hregister : ∀ schema, (register m (s.apps.lookup m.name)).exec noTables noFaults
      { u with schema := schema } = (.ok (), { v with schema := schema })) :
    ∃ schema, Installs syncs m isUpdate s { v with schema := schema } := by
  obtain ⟨report, schema, hrun⟩ := installApp_ok noTables clear_noFaults h hbundle hdetach hregister
  exact ⟨schema, noTables, noFaults, true, report, hrun⟩

/-- A bundle is attached in its four stages, and a sync between the second and the third. -/
theorem attachBundle_ok (engine : RowEngine) (hclear : Clear luck) {t u v : TenantDb}
    (hown : ∀ schema, (attachDoctypes m m.doctypes).exec engine luck { s with schema := schema }
      = (.ok (), { t with schema := schema }))
    (hextends : ∀ schema, (attachEach m m.extends).exec engine luck { t with schema := schema }
      = (.ok (), { u with schema := schema }))
    (hcompile : Compile u.defs (rollupTargets u.defs)) (hsingle : ∀ dt ∈ u.defs, dt.issingle = false)
    (hrest : ∀ schema, (do
      attachWorkflows m.workflows
      attachNotifications m.notifications
      applyFixtures m m.fixtures : AppProg Unit).exec engine luck { u with schema := schema }
      = (.ok (), { v with schema := schema })) (schema : ScopeDb) :
    ∃ schema', (attachBundle true m).exec engine luck { s with schema := schema }
      = (.ok (), { v with schema := schema' }) := by
  have hsync : ∃ schema', (syncExtended true m).exec engine luck { u with schema := schema }
      = (.ok (), { u with schema := schema' }) := by
    unfold syncExtended
    split
    · obtain ⟨outcome, schema', hsync⟩ := sync_ok engine (s := { u with schema := schema })
        hclear hcompile hsingle
      exact ⟨schema', exec_bind_ok hsync⟩
    · exact ⟨schema, rfl⟩
  obtain ⟨schema', hsync⟩ := hsync
  refine ⟨schema', ?_⟩
  have hmeta : (attachMetadata true m).exec engine luck { s with schema := schema }
      = (.ok (), { u with schema := schema' }) := by
    refine (exec_bind_ok (hown schema)).trans ?_
    exact (exec_bind_ok (hextends schema)).trans hsync
  exact (exec_bind_ok hmeta).trans (hrest schema')

end

end Frust.Kernel
