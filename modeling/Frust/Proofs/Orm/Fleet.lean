import Frust.Orm.Fleet
import Frust.Proofs.Orm.Scope
import Mathlib.Data.String.Basic

/-!
# `Frust.Proofs.Orm.Fleet`: what a `done` row stands for

`fleetVisits` is the trace of `fleetLoop`: each tenant's turn, with what became of
it and the world after it. `fleetLoop_eq` reads the loop off the trace, and
`fleetVisits_run` makes it a run, so facts about a fan-out are invariants of one
turn.

A `FleetOp` is one operation on a deployment: a fan-out, a tenant's revert, or a
change of the tenants. The histories of all databases stay numbered over every run
of operations (`FleetOp.run_versioned`), and `planRollout_ok` says what an accepted
plan is.
-/

set_option autoImplicit false

namespace Frust.Orm

open Frust.Lib

/-! ### The trace of a fan-out -/

/-- One tenant's turn, and the world after it. -/
structure Visited where
  tenant : String
  visit : Visit
  world : World

/-- The world after a trace. -/
def endWorld (w : World) (visits : List Visited) : World :=
  (visits.getLast?.map (·.world)).getD w

@[simp] theorem endWorld_nil (w : World) : endWorld w [] = w := rfl

@[simp] theorem endWorld_cons (w : World) (v : Visited) (rest : List Visited) :
    endWorld w (v :: rest) = endWorld v.world rest := by
  cases rest with
  | nil => rfl
  | cons v' rest' => simp [endWorld, List.getLast?_cons]

section
variable (ctx : EngineCtx) (specs : List ResourceSpec) (opts : MigrationOptions)
  (runId : String) (done : List String) (halt : Bool) (faults : Nat → VisitFaults)

/-- The turns of `fleetLoop`. -/
def fleetVisits : List String → Nat → World → List Visited
  | [], _, _ => []
  | tenant :: rest, i, w =>
      let (w', visit) := visitTenant ctx specs opts runId done (faults i) w tenant
      ⟨tenant, visit, w'⟩ ::
        if visit.isFailed && halt then [] else fleetVisits rest (i + 1) w'

/-- A turn of a target, as a step. -/
def visitStep (targets : List String) (w : World) (label : String × Visit) (w' : World) : Prop :=
  label.1 ∈ targets ∧
    ∃ f, visitTenant ctx specs opts runId done f w label.1 = (w', label.2)

/-- The report of a trace. -/
def reportOf (report : FleetReport) (visits : List Visited) : FleetReport :=
  { visits.foldl (fun r v => r.record v.tenant v.visit) report with
    halted := report.halted || visits.any fun v => v.visit.isFailed && halt }

variable {ctx specs opts runId done halt faults}

@[simp] theorem record_halted (report : FleetReport) (tenant : String) (visit : Visit) :
    (report.record tenant visit).halted = report.halted := by
  cases visit with
  | migrated write =>
      simp only [FleetReport.record]
      split <;> rfl
  | _ => rfl

@[simp] theorem record_rollout (report : FleetReport) (tenant : String) (visit : Visit) :
    (report.record tenant visit).rollout = report.rollout := by
  cases visit with
  | migrated write =>
      simp only [FleetReport.record]
      split <;> rfl
  | _ => rfl

/-- The turns leave the plan in the report. -/
@[simp] theorem reportOf_rollout (report : FleetReport) (visits : List Visited) :
    (reportOf halt report visits).rollout = report.rollout := by
  simp only [reportOf]
  induction visits generalizing report with
  | nil => rfl
  | cons v rest ih => rw [List.foldl_cons, ih, record_rollout]

theorem fleetLoop_eq (targets : List String) (i : Nat) (w : World) (report : FleetReport) :
    fleetLoop ctx specs opts runId done halt faults targets i w report
      = (endWorld w (fleetVisits ctx specs opts runId done halt faults targets i w),
          reportOf halt report
            (fleetVisits ctx specs opts runId done halt faults targets i w)) := by
  induction targets generalizing i w report with
  | nil => simp [fleetLoop, fleetVisits, reportOf]
  | cons tenant rest ih =>
      simp only [fleetLoop, fleetVisits]
      cases hv : visitTenant ctx specs opts runId done (faults i) w tenant with
      | mk w' visit =>
          simp only [endWorld_cons]
          by_cases hstop : (visit.isFailed && halt) = true
          · simp [hstop, reportOf]
          · have hgo : (visit.isFailed && halt) = false := by simpa using hstop
            simp only [hgo, Bool.false_eq_true, if_false]
            rw [ih]
            simp [reportOf, hgo]

theorem fleetVisits_run {all : List String} (targets : List String) (hsub : targets ⊆ all)
    (i : Nat) (w : World) :
    Run (visitStep ctx specs opts runId done all) w
      ((fleetVisits ctx specs opts runId done halt faults targets i w).map
        fun v => (v.tenant, v.visit))
      (endWorld w (fleetVisits ctx specs opts runId done halt faults targets i w)) := by
  induction targets generalizing i w with
  | nil => exact .nil
  | cons tenant rest ih =>
      simp only [fleetVisits]
      cases hv : visitTenant ctx specs opts runId done (faults i) w tenant with
      | mk w' visit =>
          simp only [endWorld_cons, List.map_cons]
          refine Run.cons ⟨hsub List.mem_cons_self, faults i, hv⟩ ?_
          split
          · exact .nil
          · exact ih (fun x hx => hsub (List.mem_cons_of_mem _ hx)) _ _

/-- A turn of the trace: the run up to it, its step, and the run after it. -/
theorem fleetVisits_mem {all : List String} (targets : List String) (hsub : targets ⊆ all)
    (i : Nat) (w : World) :
    ∀ v ∈ fleetVisits ctx specs opts runId done halt faults targets i w,
      ∃ (w₁ : World) (before after : List (String × Visit)),
        Run (visitStep ctx specs opts runId done all) w before w₁ ∧
        visitStep ctx specs opts runId done all w₁ (v.tenant, v.visit) v.world ∧
        Run (visitStep ctx specs opts runId done all) v.world after
          (endWorld w (fleetVisits ctx specs opts runId done halt faults targets i w)) := by
  induction targets generalizing i w with
  | nil => intro v hv; exact absurd hv List.not_mem_nil
  | cons tenant rest ih =>
      have hrest : rest ⊆ all := fun x hx => hsub (List.mem_cons_of_mem _ hx)
      simp only [fleetVisits]
      cases hvisit : visitTenant ctx specs opts runId done (faults i) w tenant with
      | mk w' visit =>
          have hstep : visitStep ctx specs opts runId done all w (tenant, visit) w' :=
            ⟨hsub List.mem_cons_self, faults i, hvisit⟩
          simp only [endWorld_cons]
          intro v hv
          split at hv <;> rename_i hstop
          · obtain rfl := List.mem_singleton.mp hv
            rw [if_pos hstop]
            exact ⟨w, [], [], .nil, hstep, .nil⟩
          · rw [if_neg hstop]
            rcases List.mem_cons.mp hv with rfl | hv
            · exact ⟨w, [], _, .nil, hstep, fleetVisits_run rest hrest _ _⟩
            · obtain ⟨w₁, before, after, h₁, h₂, h₃⟩ := ih hrest _ _ v hv
              exact ⟨w₁, _, after, Run.cons hstep h₁, h₂, h₃⟩

end

/-! ### One turn -/

@[simp] theorem recordCheckpoint_scopes (w : World) (runId tenant : String)
    (status : CheckpointStatus) (write : CheckpointWrite) :
    (recordCheckpoint w runId tenant status write).1.scopes = w.scopes := rfl

@[simp] theorem recordCheckpoint_tenants (w : World) (runId tenant : String)
    (status : CheckpointStatus) (write : CheckpointWrite) :
    (recordCheckpoint w runId tenant status write).1.tenants = w.tenants := rfl

/-- A checkpoint write adds at most its own row. -/
theorem mem_recordCheckpoint {w : World} {runId tenant : String} {status : CheckpointStatus}
    {write : CheckpointWrite} {row : CheckpointRow}
    (h : row ∈ (recordCheckpoint w runId tenant status write).1.checkpoints) :
    row ∈ w.checkpoints ∨ (write.creates = true ∧ row = ⟨runId, tenant, status⟩) := by
  have hkept : ∀ r, r ∈ (if write.deletes = true then
      w.checkpoints.filter fun row => ¬(row.runId = runId ∧ row.tenant = tenant)
      else w.checkpoints) → r ∈ w.checkpoints := by
    intro r hr
    split at hr
    · exact (List.mem_filter.mp hr).1
    · exact hr
  simp only [recordCheckpoint] at h
  split at h
  · rename_i hcreate
    rcases List.mem_append.mp h with hold | hnew
    · exact Or.inl (hkept row hold)
    · exact Or.inr ⟨hcreate, by simpa using hnew⟩
  · exact Or.inl (hkept row h)

/-- A `done` row is created. -/
def Visit.writesDone : Visit → Bool
  | migrated write => write.creates
  | _ => false

section
variable {ctx : EngineCtx} {specs : List ResourceSpec} {opts : MigrationOptions}
  {runId : String} {done : List String} {f : VisitFaults} {w w' : World} {tenant : String}
  {visit : Visit}

/-- What a turn does to the databases: nothing, or a run in the tenant's own. -/
theorem visitTenant_scopes (h : visitTenant ctx specs opts runId done f w tenant = (w', visit)) :
    w'.scopes = w.scopes ∨
      (tenant ∉ done ∧ ∃ report, w'.scopes = Function.update w.scopes (ctx.tenancy.locate tenant)
        (run (tenantSpecs specs) opts f.scope.txn (w.scopes (ctx.tenancy.locate tenant))
          report).1) := by
  simp only [visitTenant] at h
  split at h
  · cases h
    exact Or.inl rfl
  · rename_i hdone
    simp only [migrateTenantWith] at h
    rcases migrateScope_cases ctx.bootstrapSql (ctx.tenancy.locate tenant) (tenantSpecs specs)
        opts ("tenant:" ++ tenant) f.scope (w.scopes (ctx.tenancy.locate tenant)) with
      ⟨e, he⟩ | ⟨report, hrun⟩
    · rw [he] at h
      cases h
      exact Or.inl (by simp [World.setScope])
    · rw [hrun] at h
      refine Or.inr ⟨hdone, report, ?_⟩
      simp only at h
      split at h <;> cases h <;> rfl

/-- A tenant reported migrated: its run reported no error. -/
theorem visitTenant_migrated {write : CheckpointWrite}
    (h : visitTenant ctx specs opts runId done f w tenant = (w', .migrated write)) :
    tenant ∉ done ∧ ∃ report,
      (run (tenantSpecs specs) opts f.scope.txn (w.scopes (ctx.tenancy.locate tenant))
        report).2.isOk = true ∧
      w'.scopes (ctx.tenancy.locate tenant)
        = (run (tenantSpecs specs) opts f.scope.txn (w.scopes (ctx.tenancy.locate tenant))
            report).1 := by
  simp only [visitTenant] at h
  split at h
  · exact absurd h (by simp)
  · rename_i hdone
    simp only [migrateTenantWith] at h
    rcases migrateScope_cases ctx.bootstrapSql (ctx.tenancy.locate tenant) (tenantSpecs specs)
        opts ("tenant:" ++ tenant) f.scope (w.scopes (ctx.tenancy.locate tenant)) with
      ⟨e, he⟩ | ⟨report, hrun⟩
    · rw [he] at h
      exact absurd h (by simp)
    · rw [hrun] at h
      simp only at h
      split at h
      · rename_i hok
        cases h
        exact ⟨hdone, report, hok, by simp [World.setScope]⟩
      · exact absurd h (by simp)

/-- What a turn does to the checkpoint rows. -/
theorem visitTenant_checkpoints
    (h : visitTenant ctx specs opts runId done f w tenant = (w', visit)) :
    w'.checkpoints = w.checkpoints ∨
      ∃ status, w'.checkpoints = (recordCheckpoint w runId tenant status f.write).1.checkpoints ∧
        (status = .done ∧ visit = .migrated f.write ∨ status = .failed) := by
  simp only [visitTenant] at h
  split at h
  · cases h
    exact Or.inl rfl
  · right
    split at h
    · rename_i hmigrate
      have hw : _ = _ := congrArg (fun p => p.1.checkpoints) hmigrate
      simp only [migrateTenantWith, World.setScope] at hw
      split at h
      · cases h
        exact ⟨.done, by simp only [recordCheckpoint, hw], Or.inl ⟨rfl, rfl⟩⟩
      · cases h
        exact ⟨.failed, by simp only [recordCheckpoint, hw], Or.inr rfl⟩
    · rename_i hmigrate
      have hw : _ = _ := congrArg (fun p => p.1.checkpoints) hmigrate
      simp only [migrateTenantWith, World.setScope] at hw
      cases h
      exact ⟨.failed, by simp only [recordCheckpoint, hw], Or.inr rfl⟩

/-- A `done` row that a turn leaves was there before, or is the row it creates. -/
theorem visitTenant_done_row
    (h : visitTenant ctx specs opts runId done f w tenant = (w', visit)) {row : CheckpointRow}
    (hrow : row ∈ w'.checkpoints) (hstatus : row.status = .done) :
    row ∈ w.checkpoints ∨
      (visit.writesDone = true ∧ row.tenant = tenant ∧ row.runId = runId) := by
  rcases visitTenant_checkpoints h with heq | ⟨status, heq, hkind⟩
  · exact Or.inl (heq ▸ hrow)
  · rw [heq] at hrow
    rcases mem_recordCheckpoint hrow with hold | ⟨hcreates, rfl⟩
    · exact Or.inl hold
    · rcases hkind with ⟨_, rfl⟩ | rfl
      · exact Or.inr ⟨hcreates, rfl, rfl⟩
      · exact absurd hstatus (by simp)

end

/-- What every run over the specs keeps in a database, every turn of a fan-out
keeps in each location. -/
theorem visitStep_scope {ctx : EngineCtx} {specs : List ResourceSpec} {opts : MigrationOptions}
    {runId : String} {done all : List String} {P : ScopeDb → Prop}
    (hP : ∀ db txn report, P db → P (run (tenantSpecs specs) opts txn db report).1) {w w' : World}
    {label : String × Visit} (h : visitStep ctx specs opts runId done all w label w')
    (loc : StorageLocation) (hloc : P (w.scopes loc)) : P (w'.scopes loc) := by
  obtain ⟨_, f, hvisit⟩ := h
  rcases visitTenant_scopes hvisit with heq | ⟨_, report, heq⟩
  · rw [heq]
    exact hloc
  · rw [heq, Function.update_apply]
    split
    · rename_i hl
      exact hP _ _ _ (hl ▸ hloc)
    · exact hloc

/-! ### The plan -/

/-- An accepted plan: the active tenants sorted and without duplicates, a cohort
that fits, and for a rollout the evidence of the cohort and its `done` rows. -/
structure Accepted (stage : FleetStage) (canarySize : Nat) (tenants done evidence : List String)
    (plan : FleetRolloutPlan) : Prop where
  stage_eq : plan.stage = stage
  active_eq : plan.active = tenants.insertionSort (· ≤ ·)
  nodup : plan.active.Nodup
  canarySize_eq : plan.canarySize = canarySize
  size : canarySize ≤ plan.active.length
  cohortId_eq : plan.cohortId = fnv1aHex plan.cohort
  targets_eq : plan.targets = if stage = .canary then plan.cohort else plan.active
  evidence : stage = .rollout → plan.cohortId ∈ evidence
  cohort_done : stage = .rollout → ∀ tenant ∈ plan.cohort, tenant ∈ done
  completed_eq : plan.completed = plan.targets.filter (· ∈ done)
  pending_eq : plan.pending = plan.targets.filter (· ∉ done)

/-- In a sorted list, distinct neighbours are enough. -/
theorem nodup_of_sorted {l : List String} (hsorted : l.Pairwise (· ≤ ·))
    (hchain : l.IsChain (· ≠ ·)) : l.Nodup := by
  have hlt : l.IsChain (· < ·) := by
    induction l with
    | nil => exact .nil
    | cons a rest ih =>
        cases rest with
        | nil => exact .singleton a
        | cons b rest =>
            rw [List.isChain_cons_cons] at hchain ⊢
            have hab := List.rel_of_pairwise_cons hsorted List.mem_cons_self
            exact ⟨lt_of_le_of_ne hab hchain.1, ih hsorted.of_cons hchain.2⟩
  exact (List.isChain_iff_pairwise.mp hlt).imp fun hab => ne_of_lt hab

theorem planRollout_ok {stage : FleetStage} {canarySize : Nat} {tenants done evidence : List String}
    {plan : FleetRolloutPlan}
    (h : planRollout stage canarySize tenants done evidence = .ok plan) :
    Accepted stage canarySize tenants done evidence plan := by
  simp only [planRollout] at h
  split at h
  · exact absurd h (by simp)
  rename_i hchain
  split at h
  · exact absurd h (by simp)
  rename_i hsize
  split at h
  · exact absurd h (by simp)
  rename_i hevidence
  split at h
  · exact absurd h (by simp)
  rename_i hmissing
  obtain rfl := Except.ok.inj h
  refine ⟨rfl, rfl, ?_, rfl, Nat.le_of_not_lt hsize, rfl, by cases stage <;> rfl, fun hs => ?_,
    fun hs tenant ht => ?_, rfl, rfl⟩
  · exact nodup_of_sorted (List.pairwise_insertionSort _ _) (by simpa using hchain)
  · by_contra hcon
    exact hevidence ⟨hs, hcon⟩
  · by_contra hcon
    refine hmissing ⟨hs, fun hnil => ?_⟩
    have hin := List.filter_eq_nil_iff.mp hnil tenant ht
    exact hin (decide_eq_true hcon)

/-- The targets of an accepted plan are active. -/
theorem Accepted.targets_subset {stage : FleetStage} {canarySize : Nat}
    {tenants done evidence : List String} {plan : FleetRolloutPlan}
    (h : Accepted stage canarySize tenants done evidence plan) : plan.targets ⊆ tenants := by
  intro tenant ht
  have hactive : tenant ∈ plan.active := by
    rw [h.targets_eq] at ht
    split at ht
    · exact List.mem_of_mem_take ht
    · exact ht
  rw [h.active_eq, List.mem_insertionSort] at hactive
  exact hactive

/-! ### Operations on a deployment -/

/-- A call of one of the two fan-outs. -/
inductive FleetCall where
  | migrateFleetWith (specs : List ResourceSpec) (opts : MigrationOptions) (faults : FleetFaults)
  | migrateFleetRollout (specs : List ResourceSpec) (rollout : FleetRolloutOptions)
      (faults : FleetFaults)

namespace FleetCall

def specs : FleetCall → List ResourceSpec
  | migrateFleetWith specs _ _ => specs
  | migrateFleetRollout specs _ _ => specs

def opts : FleetCall → MigrationOptions
  | migrateFleetWith _ opts _ => opts
  | migrateFleetRollout _ rollout _ => rollout.migration

def rollout? : FleetCall → Option FleetRolloutOptions
  | migrateFleetWith _ _ _ => none
  | migrateFleetRollout _ rollout _ => some rollout

def faults : FleetCall → FleetFaults
  | migrateFleetWith _ _ faults => faults
  | migrateFleetRollout _ _ faults => faults

/-- The id the call files its rows under. -/
def runId (call : FleetCall) : String := fleetRunId call.specs

/-- The call. -/
def exec (ctx : EngineCtx) (w : World) : FleetCall → World × Except String FleetReport
  | migrateFleetWith specs opts faults => Orm.migrateFleetWith ctx specs opts faults w
  | migrateFleetRollout specs rollout faults => Orm.migrateFleetRollout ctx specs rollout faults w

/-- The plan of the call, when it gets as far as its loop. -/
def plan? (ctx : EngineCtx) (w : World) (call : FleetCall) :
    Option (Option FleetRolloutPlan) :=
  (fleetGate ctx call.specs call.opts call.rollout? call.faults w).toOption

/-- The turns of the call. -/
def visits (ctx : EngineCtx) (w : World) (call : FleetCall) : List Visited :=
  match call.plan? ctx w with
  | none => []
  | some plan =>
      fleetVisits ctx call.specs call.opts call.runId (w.doneSet call.runId)
        (call.rollout?.any (·.haltOnFailure)) call.faults.visit (fleetTargets w plan) 0 w

/-- Both calls are `migrate_fleet_inner`. -/
theorem exec_eq (ctx : EngineCtx) (w : World) (call : FleetCall) :
    call.exec ctx w
      = migrateFleetInner ctx call.specs call.opts call.rollout? call.faults w := by
  cases call <;> rfl

/-- A call that gets no further than its gate changes nothing, and when it
returns a report, it is the empty one. -/
theorem exec_of_plan?_none {ctx : EngineCtx} {w : World} {call : FleetCall}
    (h : call.plan? ctx w = none) :
    (call.exec ctx w).1 = w ∧ ∀ report, (call.exec ctx w).2 = .ok report → report = {} := by
  rw [exec_eq]
  cases hg : fleetGate ctx call.specs call.opts call.rollout? call.faults w with
  | ok plan => rw [plan?, hg] at h; exact absurd h (by simp [Except.toOption])
  | error r =>
      simp only [migrateFleetInner, hg, true_and]
      intro report hr
      rw [hr, fleetGate] at hg
      split at hg
      · exact absurd hg (by simp)
      split at hg
      · exact (Except.ok.inj (Except.error.inj hg)).symm
      split at hg
      · exact absurd hg (by simp)
      · cases hp : guardedPlan w (fleetRunId call.specs) call.rollout? with
        | error e => rw [hp] at hg; exact absurd hg (by simp [Except.mapError])
        | ok plan => rw [hp] at hg; exact absurd hg (by simp [Except.mapError])

/-- A call that gets to its loop takes its turns and may record its evidence. -/
theorem exec_of_plan?_some {ctx : EngineCtx} {w : World} {call : FleetCall}
    {plan : Option FleetRolloutPlan} (h : call.plan? ctx w = some plan) :
    call.exec ctx w =
      let visits := call.visits ctx w
      let r := recordEvidence (endWorld w visits) call.runId
        (reportOf (call.rollout?.any (·.haltOnFailure))
          { runId := call.runId, total := w.activeTenants.length, rollout := plan } visits)
        call.faults.evidence
      (r.1, .ok r.2) := by
  have hgate : fleetGate ctx call.specs call.opts call.rollout? call.faults w = .ok plan := by
    cases hg : fleetGate ctx call.specs call.opts call.rollout? call.faults w with
    | error r => rw [plan?, hg] at h; exact absurd h (by simp [Except.toOption])
    | ok plan' => rw [plan?, hg] at h; rw [Option.some.inj h]
  rw [exec_eq]
  simp only [migrateFleetInner, hgate, fanOut, visits, h, fleetLoop_eq, runId]

/-- The plan of a guarded call was accepted. -/
theorem accepted {ctx : EngineCtx} {w : World} {call : FleetCall}
    {plan : Option FleetRolloutPlan} (h : call.plan? ctx w = some plan) :
    (call.rollout? = none ∧ plan = none) ∨
    ∃ rollout p, call.rollout? = some rollout ∧ plan = some p ∧
      Accepted rollout.stage rollout.canarySize w.activeTenants (w.doneSet call.runId)
        (w.canaryEvidence call.runId) p := by
  simp only [plan?, fleetGate] at h
  -- The gates of the call that refuse leave no plan.
  split at h
  · exact absurd h (by simp [Except.toOption])
  split at h
  · exact absurd h (by simp [Except.toOption])
  split at h
  · exact absurd h (by simp [Except.toOption])
  cases hr : call.rollout? with
  | none =>
      rw [hr] at h
      exact Or.inl ⟨rfl, by simpa [guardedPlan, Except.mapError, Except.toOption] using h.symm⟩
  | some rollout =>
      rw [hr] at h
      simp only [guardedPlan] at h
      cases hp : planRollout rollout.stage rollout.canarySize w.activeTenants
          (w.doneSet (fleetRunId call.specs)) (w.canaryEvidence (fleetRunId call.specs)) with
      | error e =>
          rw [hp] at h
          exact absurd h (by simp [Except.map, Except.mapError, Except.toOption])
      | ok p =>
          rw [hp] at h
          have hplan : plan = some p := by
            simpa [Except.map, Except.mapError, Except.toOption] using h.symm
          exact Or.inr ⟨rollout, p, rfl, hplan, planRollout_ok hp⟩

/-- The turns of a call that gets to its loop are a run over its targets. -/
theorem visits_run_targets {ctx : EngineCtx} {w : World} {call : FleetCall}
    {plan : Option FleetRolloutPlan} (h : call.plan? ctx w = some plan) :
    Run (visitStep ctx call.specs call.opts call.runId (w.doneSet call.runId)
        (fleetTargets w plan)) w
      ((call.visits ctx w).map fun v => (v.tenant, v.visit))
      (endWorld w (call.visits ctx w)) := by
  simp only [visits, h]
  exact fleetVisits_run _ (fun _ => id) _ _

/-- A call visits active tenants only. -/
theorem targets_subset {ctx : EngineCtx} {w : World} {call : FleetCall}
    {plan : Option FleetRolloutPlan} (h : call.plan? ctx w = some plan) :
    fleetTargets w plan ⊆ w.activeTenants := by
  rcases call.accepted h with ⟨_, rfl⟩ | ⟨_, p, _, rfl, hacc⟩
  · exact fun _ ht => ht
  · exact hacc.targets_subset

/-- A turn of a call: the run up to it, its step, and the run after it. -/
theorem visits_mem {ctx : EngineCtx} {w : World} {call : FleetCall} {v : Visited}
    (hv : v ∈ call.visits ctx w) :
    ∃ (w₁ : World) (before after : List (String × Visit)),
      Run (visitStep ctx call.specs call.opts call.runId (w.doneSet call.runId) w.activeTenants)
        w before w₁ ∧
      visitStep ctx call.specs call.opts call.runId (w.doneSet call.runId) w.activeTenants
        w₁ (v.tenant, v.visit) v.world ∧
      Run (visitStep ctx call.specs call.opts call.runId (w.doneSet call.runId) w.activeTenants)
        v.world after (endWorld w (call.visits ctx w)) := by
  simp only [visits] at hv ⊢
  split at hv
  · exact absurd hv List.not_mem_nil
  · rename_i plan hplan
    exact fleetVisits_mem _ (call.targets_subset hplan) _ _ v hv

theorem visits_run (ctx : EngineCtx) (w : World) (call : FleetCall) :
    Run (visitStep ctx call.specs call.opts call.runId (w.doneSet call.runId) w.activeTenants)
      w ((call.visits ctx w).map fun v => (v.tenant, v.visit))
      (endWorld w (call.visits ctx w)) := by
  simp only [visits]
  split
  · exact .nil
  · rename_i plan hplan
    exact fleetVisits_run _ (call.targets_subset hplan) _ _

end FleetCall

@[simp] theorem recordEvidence_scopes (w : World) (runId : String) (report : FleetReport)
    (write : CheckpointWrite) : (recordEvidence w runId report write).1.scopes = w.scopes := by
  simp only [recordEvidence]
  split
  · split
    · split <;> simp_all [recordCheckpoint]
    · rfl
  · rfl

/-- The evidence write adds at most one evidence row. -/
theorem mem_recordEvidence {w : World} {runId : String} {report : FleetReport}
    {write : CheckpointWrite} {row : CheckpointRow}
    (h : row ∈ (recordEvidence w runId report write).1.checkpoints) :
    row ∈ w.checkpoints ∨ (row.status = .canaryDone ∧ row.runId = runId ∧
      write.creates = true ∧ ∃ plan, report.rollout = some plan ∧ plan.stage = .canary ∧
        report.isPromotable = true ∧ row.tenant = plan.cohortId) := by
  simp only [recordEvidence] at h
  split at h
  · rename_i plan hplan
    split at h
    · rename_i hcanary
      have h' : row ∈ (recordCheckpoint w runId plan.cohortId .canaryDone write).1.checkpoints := by
        split at h <;> exact h
      rcases mem_recordCheckpoint h' with hold | ⟨hcreates, rfl⟩
      · exact Or.inl hold
      · exact Or.inr ⟨rfl, rfl, hcreates, plan, hplan, hcanary.1, hcanary.2, rfl⟩
    · exact Or.inl h
  · exact Or.inl h

namespace FleetCall

/-- The databases after a call are those after its turns. -/
theorem exec_scopes (ctx : EngineCtx) (w : World) (call : FleetCall) :
    (call.exec ctx w).1.scopes = (endWorld w (call.visits ctx w)).scopes := by
  cases h : call.plan? ctx w with
  | none => rw [(exec_of_plan?_none h).1, visits, h]; rfl
  | some plan => rw [exec_of_plan?_some h]; simp

end FleetCall

/-- An operation on a deployment. -/
inductive FleetOp where
  | fleet (call : FleetCall)
  | revertTenant (tenant : String) (opts : RevertOptions) (faults : ScopeFaults)
  /-- Tenants come, go and change their status. -/
  | setTenants (tenants : List TenantRow)

namespace FleetOp

/-- The world after an operation. -/
def exec (ctx : EngineCtx) (w : World) : FleetOp → World
  | fleet call => (call.exec ctx w).1
  | revertTenant tenant opts faults => (Orm.revertTenant ctx opts faults w tenant).1
  | setTenants tenants => { w with tenants }

/-- An operation as a step. -/
def step (ctx : EngineCtx) (w : World) (op : FleetOp) (w' : World) : Prop := w' = op.exec ctx w

/-- The specs of an operation have distinct names and keys. -/
def Distinct : FleetOp → Prop
  | fleet call => DistinctSpecs (tenantSpecs call.specs)
  | _ => True

end FleetOp

/-- The histories of all databases are numbered from one. -/
def World.Versioned (w : World) : Prop := ∀ loc, (w.scopes loc).Versioned

end Frust.Orm
