import Frust.Proofs.Orm.Fleet

/-!
# `Frust.Proofs.Orm.Checkpoint`: what a `done` row stands for

A fan-out files `done` for a tenant whose migration reports no error, and skips the
tenant in every later fan-out of the same run id. Two results say what that is
worth.

`done_row_recorded`: when every operation is `Checkpointable`, a `done` row is
written only after the tenant's latest rows hold the snapshots of the specs. The
condition is about the state before the operation. It asks a dry run for tenants
that are recorded already, since a dry run reports no error either and files `done`
for a tenant it left alone (`not_done_row_recorded`).

`fleet_converges_iff`: after a fan-out in which every tenant is migrated or
skipped, every tenant has the target exactly when no `done` row was stale
(`Current`). Run ids are content hashes, so a fan-out of an earlier spec set finds
the rows of its first run again, whatever was migrated or reverted since
(`not_fleet_converges`).
-/

set_option autoImplicit false

namespace Frust.Orm

open Frust.Lib

/-! ### Databases over a fan-out -/

section
variable {ctx : EngineCtx} {call : FleetCall} {w : World}

/-- What every run over the specs keeps in a database, a fan-out keeps: up to each
of its turns, from each of its turns on, and as a whole. -/
theorem visits_scope {P : ScopeDb → Prop}
    (hP : ∀ db txn report, P db → P (run (tenantSpecs call.specs) call.opts txn db report).1)
    {labels : List (String × Visit)} {w₁ w₂ : World}
    (hrun : Run (visitStep ctx call.specs call.opts call.runId (w.doneSet call.runId)
      w.activeTenants) w₁ labels w₂)
    (loc : StorageLocation) (h : P (w₁.scopes loc)) : P (w₂.scopes loc) :=
  hrun.invariant (I := fun w => P (w.scopes loc)) h fun _ _ _ ha hstep =>
    visitStep_scope hP hstep loc ha

/-- A fan-out keeps the histories numbered. -/
theorem visits_versioned (hd : DistinctSpecs (tenantSpecs call.specs))
    {labels : List (String × Visit)} {w₁ w₂ : World}
    (hrun : Run (visitStep ctx call.specs call.opts call.runId (w.doneSet call.runId)
      w.activeTenants) w₁ labels w₂) (hv : w₁.Versioned) : w₂.Versioned := fun loc =>
  visits_scope (fun _ _ _ h => run_versioned h hd.2) hrun loc (hv loc)

/-- A fan-out keeps a database recorded. -/
theorem visits_recorded (hd : DistinctSpecs (tenantSpecs call.specs))
    {labels : List (String × Visit)} {w₁ w₂ : World}
    (hrun : Run (visitStep ctx call.specs call.opts call.runId (w.doneSet call.runId)
      w.activeTenants) w₁ labels w₂) (hv : w₁.Versioned) {loc : StorageLocation}
    (hrec : (w₁.scopes loc).Recorded (tenantSpecs call.specs)) :
    (w₂.scopes loc).Recorded (tenantSpecs call.specs) := fun reg hreg =>
  (visits_scope (P := fun db => db.Versioned ∧ db.RecordedAt reg)
    (fun _ _ _ h => ⟨run_versioned h.1 hd.2, run_recordedAt h.1 hd.2 hreg h.2⟩)
    hrun loc ⟨hv loc, hrec reg hreg⟩).2

/-- A fan-out keeps a database settled. -/
theorem visits_settled (hd : DistinctSpecs (tenantSpecs call.specs))
    {labels : List (String × Visit)} {w₁ w₂ : World}
    (hrun : Run (visitStep ctx call.specs call.opts call.runId (w.doneSet call.runId)
      w.activeTenants) w₁ labels w₂) (hv : w₁.Versioned) {loc : StorageLocation}
    (hset : (w₁.scopes loc).Settled (tenantSpecs call.specs)) :
    (w₂.scopes loc).Settled (tenantSpecs call.specs) := fun reg hreg =>
  (visits_scope (P := fun db => db.Versioned ∧ db.SettledAt reg)
    (fun _ _ _ h => ⟨run_versioned h.1 hd.2, run_settledAt h.1 hd.2 hreg h.2⟩)
    hrun loc ⟨hv loc, hset reg hreg⟩).2

/-- A database that is recorded after a fan-out was settled before it: a resource
whose objects agree keeps its rows. -/
theorem settled_of_visits_recorded (hd : DistinctSpecs (tenantSpecs call.specs))
    {labels : List (String × Visit)} {w₁ w₂ : World}
    (hrun : Run (visitStep ctx call.specs call.opts call.runId (w.doneSet call.runId)
      w.activeTenants) w₁ labels w₂) (hv : w₁.Versioned) {loc : StorageLocation}
    (hrec : (w₂.scopes loc).Recorded (tenantSpecs call.specs)) :
    (w₁.scopes loc).Settled (tenantSpecs call.specs) := by
  intro reg hreg hagree
  have hrows := visits_scope
    (P := fun db => db.Versioned ∧ db.rowsOf reg.key = (w₁.scopes loc).rowsOf reg.key)
    (fun db _ _ h => ⟨run_versioned h.1 hd.2, (run_rowsOf_of_agree h.1 hd.2 hreg
      (by rw [ScopeDb.head_congr h.2, hagree])).trans h.2⟩)
    hrun loc ⟨hv loc, rfl⟩
  exact (ScopeDb.recordedAt_congr hrows.2).mp (hrec reg hreg)

end

/-- An operation keeps the histories numbered. -/
theorem FleetOp.exec_versioned {ctx : EngineCtx} {op : FleetOp} {w : World} (hd : op.Distinct)
    (hv : w.Versioned) : (op.exec ctx w).Versioned := by
  cases op with
  | fleet call =>
      intro loc
      simp only [exec, call.exec_scopes]
      exact visits_versioned hd (call.visits_run ctx w) hv loc
  | revertTenant tenant opts faults =>
      intro loc
      simp only [exec, Orm.revertTenant, World.setScope, Function.update_apply]
      split
      · rcases revertScope_cases (ctx.tenancy.locate tenant) opts ("tenant:" ++ tenant) faults
          (w.scopes (ctx.tenancy.locate tenant)) with ⟨e, he⟩ | ⟨report, hr⟩
        · rw [he]
          exact hv _
        · rw [hr]
          exact runRevert_versioned (hv _)
      · exact hv loc
  | setTenants tenants => exact hv

/-- A run of operations keeps the histories numbered. -/
theorem FleetOp.run_versioned {ctx : EngineCtx} {ops : List FleetOp} {w₀ w : World}
    (hrun : Run (FleetOp.step ctx) w₀ ops w) (hd : ∀ op ∈ ops, op.Distinct) (hv : w₀.Versioned) :
    w.Versioned :=
  hrun.invariant_of_mem hv fun a op b hop ha hstep => by
    rw [show b = op.exec ctx a from hstep]
    exact exec_versioned (hd op hop) ha

/-! ### Checkpoint soundness -/

/-- Before the call, each active tenant that it will not skip is settled, and
recorded already when the call is a dry run. -/
def FleetCall.Checkpointable (ctx : EngineCtx) (w : World) (call : FleetCall) : Prop :=
  ∀ tenant ∈ w.activeTenants, tenant ∉ w.doneSet call.runId →
    if call.opts.dryRun then
      (w.scopes (ctx.tenancy.locate tenant)).Recorded (tenantSpecs call.specs)
    else (w.scopes (ctx.tenancy.locate tenant)).Settled (tenantSpecs call.specs)

instance (ctx : EngineCtx) (w : World) (call : FleetCall) :
    Decidable (call.Checkpointable ctx w) :=
  inferInstanceAs (Decidable (∀ tenant ∈ w.activeTenants, tenant ∉ w.doneSet call.runId →
    if call.opts.dryRun then
      (w.scopes (ctx.tenancy.locate tenant)).Recorded (tenantSpecs call.specs)
    else (w.scopes (ctx.tenancy.locate tenant)).Settled (tenantSpecs call.specs)))

/-- The specs of an operation are distinct, and a fan-out is checkpointable. -/
def FleetOp.Checkpointable (ctx : EngineCtx) (w : World) : FleetOp → Prop
  | .fleet call => DistinctSpecs (tenantSpecs call.specs) ∧ call.Checkpointable ctx w
  | _ => True

theorem FleetOp.Checkpointable.distinct {ctx : EngineCtx} {w : World} {op : FleetOp}
    (h : op.Checkpointable ctx w) : op.Distinct := by
  cases op with
  | fleet call => exact h.1
  | _ => trivial

/-- A turn that reports its tenant migrated leaves it recorded. -/
theorem FleetCall.Checkpointable.recorded {ctx : EngineCtx} {w : World} {call : FleetCall}
    (h : call.Checkpointable ctx w) (hd : DistinctSpecs (tenantSpecs call.specs))
    (hv : w.Versioned) {v : Visited} (hmem : v ∈ call.visits ctx w) {write : CheckpointWrite}
    (hwrite : v.visit = .migrated write) :
    (v.world.scopes (ctx.tenancy.locate v.tenant)).Recorded (tenantSpecs call.specs) := by
  obtain ⟨w₁, before, _, hbefore, ⟨hactive, f, hvisit⟩, _⟩ := call.visits_mem hmem
  rw [hwrite] at hvisit
  obtain ⟨hnot, report, hok, hscope⟩ := visitTenant_migrated hvisit
  have hv₁ := visits_versioned hd hbefore hv
  have hcond := h v.tenant hactive hnot
  rw [hscope]
  split at hcond
  · -- a dry run leaves the database as it was, and it was recorded
    rename_i hdry
    rw [run_dryRun (hv₁ _) hd.2 hdry]
    exact visits_recorded hd hbefore hv hcond
  · rename_i hdry
    exact run_recorded (hv₁ _) hd (by simpa using hdry) hok (visits_settled hd hbefore hv hcond)

/-- A `done` row that a call leaves was there before, or one of its turns created
it. -/
theorem FleetCall.done_row {ctx : EngineCtx} {w : World} {call : FleetCall} {row : CheckpointRow}
    (hrow : row ∈ (call.exec ctx w).1.checkpoints) (hstatus : row.status = .done) :
    row ∈ w.checkpoints ∨ ∃ v ∈ call.visits ctx w,
      v.visit.writesDone = true ∧ v.tenant = row.tenant ∧ call.runId = row.runId := by
  have hend : row ∈ (endWorld w (call.visits ctx w)).checkpoints := by
    cases h : call.plan? ctx w with
    | none =>
        rw [(exec_of_plan?_none h).1] at hrow
        rw [visits, h]
        exact hrow
    | some plan =>
        rw [exec_of_plan?_some h] at hrow
        rcases mem_recordEvidence hrow with hold | ⟨hcanary, _⟩
        · exact hold
        · rw [hstatus] at hcanary
          exact absurd hcanary (by simp)
  have hrun := call.visits_run ctx w
  refine hrun.invariant_of_mem (I := fun w' => row ∈ w'.checkpoints → row ∈ w.checkpoints ∨
    ∃ v ∈ call.visits ctx w, v.visit.writesDone = true ∧ v.tenant = row.tenant ∧
      call.runId = row.runId) Or.inl (fun a label b hlabel ha hstep hb => ?_) hend
  obtain ⟨_, f, hvisit⟩ := hstep
  rcases visitTenant_done_row hvisit hb hstatus with hold | ⟨hdone, htenant, hid⟩
  · exact ha hold
  · obtain ⟨v, hv, rfl⟩ := List.mem_map.mp hlabel
    exact Or.inr ⟨v, hv, hdone, htenant.symm, hid.symm⟩

/-- In a run whose operations are checkpointable, each turn that creates a `done`
row leaves its tenant recorded, and no other step adds a `done` row. -/
theorem done_row_recorded (ctx : EngineCtx) {w₀ w w' : World} {ops : List FleetOp} {op : FleetOp}
    (hv : w₀.Versioned)
    (hrun : Run.Steps (FleetOp.step ctx) w₀ (fun w op _ => op.Checkpointable ctx w) ops w)
    (hop : op.Checkpointable ctx w) (hstep : op.step ctx w w') :
    (∀ call, op = .fleet call → ∀ v ∈ call.visits ctx w, v.visit.writesDone = true →
      (v.world.scopes (ctx.tenancy.locate v.tenant)).Recorded (tenantSpecs call.specs)) ∧
    (∀ row ∈ w'.checkpoints, row.status = .done → row ∉ w.checkpoints →
      ∃ call, op = .fleet call ∧ ∃ v ∈ call.visits ctx w,
        v.visit.writesDone = true ∧ v.tenant = row.tenant ∧ call.runId = row.runId) := by
  -- Each operation of the run keeps the histories versioned, so they are at `w`.
  have hvw : w.Versioned := hrun.invariant hv fun a op b ha hstep hop => by
    rw [show b = op.exec ctx a from hstep]
    exact FleetOp.exec_versioned hop.distinct ha
  refine ⟨?_, fun row hrow hstatus hnew => ?_⟩
  · rintro call rfl v hmem hdone
    cases hwrite : v.visit with
    | migrated write => exact hop.2.recorded hop.1 hvw hmem hwrite
    | _ => rw [hwrite] at hdone; exact absurd hdone (by simp [Visit.writesDone])
  · -- Of the three operations only a fleet call writes checkpoints.
    rw [show w' = op.exec ctx w from hstep] at hrow
    cases op with
    | fleet call =>
        exact ⟨call, rfl, (call.done_row hrow hstatus).resolve_left hnew⟩
    | revertTenant tenant opts faults => exact absurd hrow hnew
    | setTenants tenants => exact absurd hrow hnew

/-- A deployment with one database for each tenant. -/
def plainCtx : EngineCtx := ⟨⟨⟨"platform", "platform"⟩, fun t => ⟨"tenants", t⟩, true⟩, false⟩

/-- One active tenant, and nothing migrated yet. -/
def soloWorld : World := ⟨[], [⟨"acme", "active"⟩], fun _ => .empty⟩

theorem soloWorld_versioned : soloWorld.Versioned := fun _ => ScopeDb.versioned_empty

/-- The first version of a resource. -/
def noteV1 : List ResourceSpec := [⟨"a", "t", "DEFINE FIELD x ON TABLE t", []⟩]

/-- Its second version. -/
def noteV2 : List ResourceSpec :=
  [⟨"a", "t", "DEFINE FIELD x ON TABLE t;DEFINE FIELD y ON TABLE t", []⟩]

/-- A fan-out of one resource to one tenant. -/
theorem done_row_recorded_solo :
    let call := FleetCall.migrateFleetWith noteV1 {} {}
    ∀ v ∈ call.visits plainCtx soloWorld, v.visit.writesDone = true →
      (v.world.scopes (plainCtx.tenancy.locate v.tenant)).Recorded (tenantSpecs noteV1) := by
  intro call
  have hop : (FleetOp.fleet call).Checkpointable plainCtx soloWorld :=
    ⟨by decide +kernel, by decide +kernel⟩
  exact (done_row_recorded plainCtx soloWorld_versioned .nil hop rfl).1 call rfl

/-- A dry run files `done` for a tenant without a schema. -/
theorem not_done_row_recorded :
    ¬ ∀ (ctx : EngineCtx) (w₀ w : World) (ops : List FleetOp) (call : FleetCall), w₀.Versioned →
      Run (FleetOp.step ctx) w₀ ops w → ∀ v ∈ call.visits ctx w, v.visit.writesDone = true →
        (v.world.scopes (ctx.tenancy.locate v.tenant)).Recorded (tenantSpecs call.specs) := by
  intro h
  have hdry := h plainCtx soloWorld soloWorld [] (.migrateFleetWith noteV1 { dryRun := true } {})
    soloWorld_versioned .nil
  have hvisit : ∃ v ∈ (FleetCall.migrateFleetWith noteV1 { dryRun := true } {}).visits plainCtx
      soloWorld, v.visit.writesDone = true ∧
      ¬ (v.world.scopes (plainCtx.tenancy.locate v.tenant)).Recorded (tenantSpecs noteV1) := by
    decide +kernel
  obtain ⟨v, hv, hdone, hnot⟩ := hvisit
  exact hnot (hdry v hv hdone)

/-! ### Convergence -/

/-- No tenant will be skipped on a stale row. An active tenant that the call will
skip has the target already, or shares its database with a tenant that the call
migrates; an active tenant that it will not skip is settled. -/
def FleetCall.Current (ctx : EngineCtx) (w : World) (call : FleetCall) : Prop :=
  ∀ tenant ∈ w.activeTenants,
    if tenant ∈ w.doneSet call.runId then
      (w.scopes (ctx.tenancy.locate tenant)).Recorded (tenantSpecs call.specs) ∨
      ∃ other ∈ w.activeTenants, other ∉ w.doneSet call.runId ∧
        ctx.tenancy.locate other = ctx.tenancy.locate tenant
    else (w.scopes (ctx.tenancy.locate tenant)).Settled (tenantSpecs call.specs)

instance (ctx : EngineCtx) (w : World) (call : FleetCall) : Decidable (call.Current ctx w) :=
  inferInstanceAs (Decidable (∀ tenant ∈ w.activeTenants,
    if tenant ∈ w.doneSet call.runId then
      (w.scopes (ctx.tenancy.locate tenant)).Recorded (tenantSpecs call.specs) ∨
      ∃ other ∈ w.activeTenants, other ∉ w.doneSet call.runId ∧
        ctx.tenancy.locate other = ctx.tenancy.locate tenant
    else (w.scopes (ctx.tenancy.locate tenant)).Settled (tenantSpecs call.specs)))

theorem FleetCall.Current.checkpointable {ctx : EngineCtx} {w : World} {call : FleetCall}
    (h : call.Current ctx w) (hdry : call.opts.dryRun = false) : call.Checkpointable ctx w := by
  intro tenant hactive hnot
  have hcur := h tenant hactive
  rw [if_neg hnot] at hcur
  rw [hdry]
  exact hcur

/-- One turn files its tenant where its outcome says. -/
theorem mem_record (report : FleetReport) (tenant : String) (visit : Visit) (t : String) :
    (t ∈ (report.record tenant visit).migrated →
      t ∈ report.migrated ∨ (tenant = t ∧ ∃ write, visit = .migrated write)) ∧
    (t ∈ (report.record tenant visit).alreadyDone →
      t ∈ report.alreadyDone ∨ (tenant = t ∧ visit = .alreadyDone)) := by
  cases visit with
  | alreadyDone =>
      refine ⟨Or.inl, fun h => ?_⟩
      rcases List.mem_append.mp h with h | h
      · exact Or.inl h
      · exact Or.inr ⟨(List.mem_singleton.mp h).symm, rfl⟩
  | migrated write =>
      cases hresult : write.result with
      | ok _ =>
          simp only [FleetReport.record, hresult]
          refine ⟨fun h => ?_, Or.inl⟩
          rcases List.mem_append.mp h with h | h
          · exact Or.inl h
          · exact Or.inr ⟨(List.mem_singleton.mp h).symm, write, rfl⟩
      | error e =>
          simp only [FleetReport.record, hresult]
          refine ⟨fun h => ?_, Or.inl⟩
          rcases List.mem_append.mp h with h | h
          · exact Or.inl h
          · exact Or.inr ⟨(List.mem_singleton.mp h).symm, write, rfl⟩
  | failed message => exact ⟨Or.inl, Or.inl⟩

/-- A tenant that a report calls migrated had such a turn. -/
theorem mem_migrated_reportOf {halt : Bool} {visits : List Visited} {report : FleetReport}
    {tenant : String} (h : tenant ∈ (reportOf halt report visits).migrated) :
    tenant ∈ report.migrated ∨
      ∃ v ∈ visits, v.tenant = tenant ∧ ∃ write, v.visit = .migrated write := by
  simp only [reportOf] at h
  induction visits generalizing report with
  | nil => exact Or.inl h
  | cons v rest ih =>
      rcases ih h with h | ⟨v', hv', hspec⟩
      · rcases (mem_record report v.tenant v.visit tenant).1 h with h | hspec
        · exact Or.inl h
        · exact Or.inr ⟨v, List.mem_cons_self, hspec⟩
      · exact Or.inr ⟨v', List.mem_cons_of_mem _ hv', hspec⟩

/-- A tenant that a report calls done was skipped in its turn. -/
theorem mem_alreadyDone_reportOf {halt : Bool} {visits : List Visited} {report : FleetReport}
    {tenant : String} (h : tenant ∈ (reportOf halt report visits).alreadyDone) :
    tenant ∈ report.alreadyDone ∨ ∃ v ∈ visits, v.tenant = tenant ∧ v.visit = .alreadyDone := by
  simp only [reportOf] at h
  induction visits generalizing report with
  | nil => exact Or.inl h
  | cons v rest ih =>
      rcases ih h with h | ⟨v', hv', hspec⟩
      · rcases (mem_record report v.tenant v.visit tenant).2 h with h | hspec
        · exact Or.inl h
        · exact Or.inr ⟨v, List.mem_cons_self, hspec⟩
      · exact Or.inr ⟨v', List.mem_cons_of_mem _ hv', hspec⟩

/-- A tenant whose turn skips it has a `done` row. -/
theorem visitTenant_alreadyDone {ctx : EngineCtx} {specs : List ResourceSpec}
    {opts : MigrationOptions} {runId : String} {done : List String} {f : VisitFaults}
    {w w' : World} {tenant : String}
    (h : visitTenant ctx specs opts runId done f w tenant = (w', .alreadyDone)) :
    tenant ∈ done := by
  simp only [visitTenant] at h
  split at h
  · assumption
  · split at h
    · split at h <;> exact absurd h (by simp)
    · exact absurd h (by simp)

/-- The evidence write leaves the lists of tenants as they are. -/
theorem recordEvidence_lists (w : World) (runId : String) (report : FleetReport)
    (write : CheckpointWrite) :
    (recordEvidence w runId report write).2.migrated = report.migrated ∧
    (recordEvidence w runId report write).2.alreadyDone = report.alreadyDone := by
  simp only [recordEvidence]
  split
  · split
    · split <;> exact ⟨rfl, rfl⟩
    · exact ⟨rfl, rfl⟩
  · exact ⟨rfl, rfl⟩

namespace FleetCall

variable {ctx : EngineCtx} {w : World} {call : FleetCall}

/-- A call that reports every active tenant migrated or skipped: each tenant that
it does not skip has a turn that migrates it. -/
theorem migrated_of_reported {report : FleetReport}
    (hreport : (call.exec ctx w).2 = .ok report)
    (hall : ∀ tenant ∈ w.activeTenants,
      tenant ∈ report.migrated ∨ tenant ∈ report.alreadyDone)
    {tenant : String} (hactive : tenant ∈ w.activeTenants)
    (hnot : tenant ∉ w.doneSet call.runId) :
    ∃ v ∈ call.visits ctx w, v.tenant = tenant ∧ ∃ write, v.visit = .migrated write := by
  cases hplan : call.plan? ctx w with
  | none =>
      rw [(exec_of_plan?_none hplan).2 report hreport] at hall
      rcases hall tenant hactive with h | h
      · exact absurd h List.not_mem_nil
      · exact absurd h List.not_mem_nil
  | some plan =>
      rw [exec_of_plan?_some hplan] at hreport
      have hlists := recordEvidence_lists (endWorld w (call.visits ctx w)) call.runId
        (reportOf (call.rollout?.any (·.haltOnFailure))
          { runId := call.runId, total := w.activeTenants.length, rollout := plan }
          (call.visits ctx w)) call.faults.evidence
      rw [← Except.ok.inj hreport, hlists.1, hlists.2] at hall
      rcases hall tenant hactive with h | h
      · exact (mem_migrated_reportOf h).resolve_left List.not_mem_nil
      · obtain ⟨v, hv, rfl, hdone⟩ := (mem_alreadyDone_reportOf h).resolve_left List.not_mem_nil
        obtain ⟨_, _, _, _, ⟨_, f, hvisit⟩, _⟩ := call.visits_mem hv
        rw [hdone] at hvisit
        exact absurd (visitTenant_alreadyDone hvisit) hnot

/-- When every tenant has the target after the call, no row was stale before. -/
theorem current_of_recorded (hd : DistinctSpecs (tenantSpecs call.specs)) (hv : w.Versioned)
    (hafter : ∀ tenant ∈ w.activeTenants,
      ((call.exec ctx w).1.scopes (ctx.tenancy.locate tenant)).Recorded
        (tenantSpecs call.specs)) : call.Current ctx w := by
  intro tenant hactive
  have hend := call.visits_run ctx w
  have hrec := hafter tenant hactive
  rw [call.exec_scopes] at hrec
  split
  · by_cases hshare : ∃ other ∈ w.activeTenants, other ∉ w.doneSet call.runId ∧
        ctx.tenancy.locate other = ctx.tenancy.locate tenant
    · exact Or.inr hshare
    · -- no turn migrates in this location
      refine Or.inl ?_
      have hsame : (endWorld w (call.visits ctx w)).scopes (ctx.tenancy.locate tenant)
          = w.scopes (ctx.tenancy.locate tenant) := by
        refine hend.invariant (I := fun w' => w'.scopes (ctx.tenancy.locate tenant)
          = w.scopes (ctx.tenancy.locate tenant)) rfl fun a label b ha hstep => ?_
        obtain ⟨hlabel, f, hvisit⟩ := hstep
        rcases visitTenant_scopes hvisit with heq | ⟨hnot, _, heq⟩
        · rw [heq, ha]
        · have hne : ctx.tenancy.locate tenant ≠ ctx.tenancy.locate label.1 := fun hl =>
            hshare ⟨label.1, hlabel, hnot, hl.symm⟩
          rw [heq, Function.update_of_ne hne, ha]
      rwa [hsame] at hrec
  · exact settled_of_visits_recorded hd hend hv hrec

/-- When no row is stale and every tenant that is not skipped is migrated, every
tenant has the target after the call. -/
theorem recorded_of_current (hd : DistinctSpecs (tenantSpecs call.specs)) (hv : w.Versioned)
    (hdry : call.opts.dryRun = false)
    (hmigrated : ∀ tenant ∈ w.activeTenants, tenant ∉ w.doneSet call.runId →
      ∃ v ∈ call.visits ctx w, v.tenant = tenant ∧ ∃ write, v.visit = .migrated write)
    (hcur : call.Current ctx w) : ∀ tenant ∈ w.activeTenants,
      ((call.exec ctx w).1.scopes (ctx.tenancy.locate tenant)).Recorded
        (tenantSpecs call.specs) := by
  have hvisited : ∀ tenant ∈ w.activeTenants, tenant ∉ w.doneSet call.runId →
      ((endWorld w (call.visits ctx w)).scopes (ctx.tenancy.locate tenant)).Recorded
        (tenantSpecs call.specs) := by
    intro tenant hactive hnot
    obtain ⟨v, hmem, rfl, write, hwrite⟩ := hmigrated tenant hactive hnot
    have hrec := (hcur.checkpointable hdry).recorded hd hv hmem hwrite
    obtain ⟨w₁, before, after, hbefore, hstep, hafter⟩ := call.visits_mem hmem
    exact visits_recorded hd hafter (visits_versioned hd (hbefore.snoc hstep) hv) hrec
  intro tenant hactive
  rw [call.exec_scopes]
  have h := hcur tenant hactive
  split at h
  · rcases h with hrec | ⟨other, hother, hnot, hloc⟩
    · exact visits_recorded hd (call.visits_run ctx w) hv hrec
    · rw [← hloc]
      exact hvisited other hother hnot
  · rename_i hnot
    exact hvisited tenant hactive hnot

end FleetCall

/-- After a fan-out that is not dry and reports every tenant migrated or skipped,
every tenant has the target exactly when no tenant was skipped on a stale row. -/
theorem fleet_converges_iff (ctx : EngineCtx) {w₀ w : World} {ops : List FleetOp}
    (hv : w₀.Versioned) (hrun : Run (FleetOp.step ctx) w₀ ops w) (hops : ∀ op ∈ ops, op.Distinct)
    (specs : List ResourceSpec) (opts : MigrationOptions) (faults : FleetFaults)
    (hd : DistinctSpecs (tenantSpecs specs)) (hdry : opts.dryRun = false) (report : FleetReport)
    (hreport : (migrateFleetWith ctx specs opts faults w).2 = .ok report)
    (hall : ∀ tenant ∈ w.activeTenants,
      tenant ∈ report.migrated ∨ tenant ∈ report.alreadyDone) :
    (∀ tenant ∈ w.activeTenants,
      ((migrateFleetWith ctx specs opts faults w).1.scopes (ctx.tenancy.locate tenant)).Recorded
        (tenantSpecs specs)) ↔
    (FleetCall.migrateFleetWith specs opts faults).Current ctx w := by
  have hvw := FleetOp.run_versioned hrun hops hv
  let call := FleetCall.migrateFleetWith specs opts faults
  -- The report has each active tenant, so each of them was migrated or was done before.
  have hmigrated := @FleetCall.migrated_of_reported ctx w call report hreport hall
  exact ⟨@FleetCall.current_of_recorded ctx w call hd hvw,
    @FleetCall.recorded_of_current ctx w call hd hvw hdry fun _ => hmigrated⟩

/-- The call returns a report, and every active tenant is in it. -/
def FleetCall.Reports (ctx : EngineCtx) (w : World) (call : FleetCall) : Prop :=
  ∃ report ∈ (call.exec ctx w).2.toOption, ∀ tenant ∈ w.activeTenants,
    tenant ∈ report.migrated ∨ tenant ∈ report.alreadyDone

instance (ctx : EngineCtx) (w : World) (call : FleetCall) : Decidable (call.Reports ctx w) :=
  inferInstanceAs (Decidable (∃ report ∈ (call.exec ctx w).2.toOption, _))

theorem FleetCall.Reports.elim {ctx : EngineCtx} {w : World} {call : FleetCall}
    (h : call.Reports ctx w) : ∃ report, (call.exec ctx w).2 = .ok report ∧
      ∀ tenant ∈ w.activeTenants, tenant ∈ report.migrated ∨ tenant ∈ report.alreadyDone := by
  obtain ⟨report, hmem, hall⟩ := h
  refine ⟨report, ?_, hall⟩
  cases hres : (call.exec ctx w).2 with
  | error e => rw [hres] at hmem; exact absurd hmem (by simp [Except.toOption])
  | ok r => rw [hres] at hmem; rw [Option.some.inj hmem]

/-- A second fan-out of the same specs. -/
theorem fleet_converges_solo :
    let first := FleetOp.fleet (.migrateFleetWith noteV1 {} {})
    let w := first.exec plainCtx soloWorld
    ∀ tenant ∈ w.activeTenants,
      ((migrateFleetWith plainCtx noteV1 {} {} w).1.scopes
        (plainCtx.tenancy.locate tenant)).Recorded (tenantSpecs noteV1) := by
  intro first w
  have hd : DistinctSpecs (tenantSpecs noteV1) := by decide +kernel
  have hrun : Run (FleetOp.step plainCtx) soloWorld [first] w := .single rfl
  have hfacts : (FleetCall.migrateFleetWith noteV1 {} {}).Reports plainCtx w ∧
      (FleetCall.migrateFleetWith noteV1 {} {}).Current plainCtx w := by
    decide +kernel
  clear_value w
  obtain ⟨report, hreport, hall⟩ := hfacts.1.elim
  refine (fleet_converges_iff plainCtx soloWorld_versioned hrun (fun op hop => ?_)
    noteV1 {} {} hd rfl report hreport hall).mpr hfacts.2
  obtain rfl := List.mem_singleton.mp hop
  exact hd

/-- Going back to an earlier spec set revives its rows: the tenant is skipped and
stays at the later one. -/
theorem not_fleet_converges :
    ¬ ∀ (ctx : EngineCtx) (w₀ w : World) (ops : List FleetOp) (specs : List ResourceSpec)
      (opts : MigrationOptions) (faults : FleetFaults) (report : FleetReport),
      w₀.Versioned → Run (FleetOp.step ctx) w₀ ops w → opts.dryRun = false →
      (migrateFleetWith ctx specs opts faults w).2 = .ok report →
      (∀ tenant ∈ w.activeTenants, tenant ∈ report.migrated ∨ tenant ∈ report.alreadyDone) →
      ∀ tenant ∈ w.activeTenants,
        ((migrateFleetWith ctx specs opts faults w).1.scopes
          (ctx.tenancy.locate tenant)).Recorded (tenantSpecs specs) := by
  intro h
  let first := FleetOp.fleet (.migrateFleetWith noteV1 {} {})
  let second := FleetOp.fleet (.migrateFleetWith noteV2 {} {})
  let w := second.exec plainCtx (first.exec plainCtx soloWorld)
  have hrun : Run (FleetOp.step plainCtx) soloWorld [first, second] w :=
    .cons rfl (.single rfl)
  have hfacts : (FleetCall.migrateFleetWith noteV1 {} {}).Reports plainCtx w ∧
      "acme" ∈ w.activeTenants ∧
      ¬ ((migrateFleetWith plainCtx noteV1 {} {} w).1.scopes
          (plainCtx.tenancy.locate "acme")).Recorded (tenantSpecs noteV1) := by
    decide +kernel
  clear_value w
  obtain ⟨hreports, hactive, hnot⟩ := hfacts
  obtain ⟨report, hreport, hall⟩ := hreports.elim
  exact hnot (h plainCtx soloWorld w _ noteV1 {} {} report soloWorld_versioned hrun rfl
    hreport hall "acme" hactive)

end Frust.Orm
