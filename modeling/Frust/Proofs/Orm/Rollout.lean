import Frust.Proofs.Orm.Fleet

/-!
# `Frust.Proofs.Orm.Rollout`: the guarded rollout

A rollout stage asks for two things that earlier calls left in the checkpoint
table: an evidence row for its cohort and a `done` row for each tenant of the
cohort. `evidence_source` follows the evidence rows through a run of operations:
each was written by a promotable canary stage of its run id, for the cohort whose
hash it carries. The two kinds of row share a table and a key, but not a status,
so a tenant whose id is a cohort's hash does no harm to the argument.

`rollout_guarded` puts the parts together. Cohorts are compared by their hashes,
so it assumes that no canary stage of the run had another cohort of the same hash.
-/

set_option autoImplicit false

namespace Frust.Orm

open Frust.Lib

namespace FleetCall

/-- The report of a call before its evidence is recorded. -/
def stageReport (ctx : EngineCtx) (w : World) (call : FleetCall)
    (plan : Option FleetRolloutPlan) : FleetReport :=
  reportOf (call.rollout?.any (·.haltOnFailure))
    { runId := call.runId, total := w.activeTenants.length, rollout := plan } (call.visits ctx w)

/-- The call carries out a canary stage under `plan` that is promotable and
records its evidence. -/
def RecordsEvidence (ctx : EngineCtx) (w : World) (call : FleetCall) (plan : FleetRolloutPlan) :
    Prop :=
  call.plan? ctx w = some (some plan) ∧ plan.stage = .canary ∧
    (call.stageReport ctx w (some plan)).isPromotable = true ∧
    call.faults.evidence.creates = true

end FleetCall

/-! ### Where evidence comes from -/

theorem canaryDone_row_of_visits {ctx : EngineCtx} {w : World} {call : FleetCall}
    {row : CheckpointRow} (hstatus : row.status = .canaryDone)
    (hrow : row ∈ (endWorld w (call.visits ctx w)).checkpoints) : row ∈ w.checkpoints := by
  refine (call.visits_run ctx w).invariant (I := fun w' => row ∈ w'.checkpoints →
    row ∈ w.checkpoints) id (fun a label b ha hstep hb => ha ?_) hrow
  obtain ⟨_, f, hvisit⟩ := hstep
  rcases visitTenant_checkpoints hvisit with heq | ⟨status, heq, hkind⟩
  · exact heq ▸ hb
  · rw [heq] at hb
    rcases mem_recordCheckpoint hb with hold | ⟨_, rfl⟩
    · exact hold
    · rcases hkind with ⟨rfl, _⟩ | rfl <;> exact absurd hstatus (by simp)

/-- An evidence row that an operation adds is that of a promotable canary stage. -/
theorem canaryDone_row_of_exec {ctx : EngineCtx} {w : World} {op : FleetOp}
    {row : CheckpointRow} (hstatus : row.status = .canaryDone)
    (hrow : row ∈ (op.exec ctx w).checkpoints) :
    row ∈ w.checkpoints ∨ ∃ call plan, op = .fleet call ∧ call.RecordsEvidence ctx w plan ∧
      call.runId = row.runId ∧ plan.cohortId = row.tenant := by
  cases op with
  | revertTenant tenant opts faults => exact Or.inl hrow
  | setTenants tenants => exact Or.inl hrow
  | fleet call =>
      simp only [FleetOp.exec] at hrow
      cases hplan : call.plan? ctx w with
      | none =>
          rw [(FleetCall.exec_of_plan?_none hplan).1] at hrow
          exact Or.inl hrow
      | some plan =>
          rw [FleetCall.exec_of_plan?_some hplan] at hrow
          rcases mem_recordEvidence hrow with hold | ⟨_, hid, hcreates, p, hp, hstage, hprom, htenant⟩
          · exact Or.inl (canaryDone_row_of_visits hstatus hold)
          · have hplan' : plan = some p := by rw [← hp, reportOf_rollout]
            subst hplan'
            exact Or.inr ⟨call, p, rfl, ⟨hplan, hstage, hprom, hcreates⟩, hid.symm, htenant.symm⟩

/-- Every evidence row of a run is that of an earlier promotable canary stage. -/
theorem evidence_source {ctx : EngineCtx} {w₀ w : World} {ops : List FleetOp}
    (hrun : Run (FleetOp.step ctx) w₀ ops w)
    (hfresh : ∀ row ∈ w₀.checkpoints, row.status ≠ .canaryDone) {row : CheckpointRow}
    (hrow : row ∈ w.checkpoints) (hstatus : row.status = .canaryDone) :
    ∃ before call after wᵢ plan, ops = before ++ .fleet call :: after ∧
      Run (FleetOp.step ctx) w₀ before wᵢ ∧ call.RecordsEvidence ctx wᵢ plan ∧
      call.runId = row.runId ∧ plan.cohortId = row.tenant := by
  induction hrun with
  | nil => exact absurd hstatus (hfresh row hrow)
  | @snoc ops w' w op hpre hstep ih =>
      rw [show w = op.exec ctx w' from hstep] at hrow
      rcases canaryDone_row_of_exec hstatus hrow with hold | ⟨call, plan, rfl, hrec, hspec⟩
      · obtain ⟨before, call, after, wᵢ, plan, rfl, hsource⟩ := ih hold
        exact ⟨before, call, after ++ [op], wᵢ, plan, by simp, hsource⟩
      · exact ⟨ops, call, [], w', plan, rfl, hpre, hrec, hspec⟩

/-! ### The plan's lists -/

/-- The active tenants of a plan ascend. -/
theorem Accepted.sorted {stage : FleetStage} {canarySize : Nat}
    {tenants done evidence : List String} {plan : FleetRolloutPlan}
    (h : Accepted stage canarySize tenants done evidence plan) :
    plan.targets.Pairwise (· < ·) := by
  have hactive : plan.active.Pairwise (· < ·) := by
    have hle : plan.active.Pairwise (· ≤ ·) := by
      rw [h.active_eq]
      exact List.pairwise_insertionSort _ _
    exact (hle.and h.nodup).imp fun hab => lt_of_le_of_ne hab.1 hab.2
  rw [h.targets_eq]
  split
  · exact hactive.sublist (List.take_sublist _ _)
  · exact hactive

/-- The completed and the pending tenants are sorted and disjoint, and together
they are the targets. -/
theorem Accepted.partition {stage : FleetStage} {canarySize : Nat}
    {tenants done evidence : List String} {plan : FleetRolloutPlan}
    (h : Accepted stage canarySize tenants done evidence plan) :
    plan.completed.Pairwise (· < ·) ∧ plan.pending.Pairwise (· < ·) ∧
      plan.completed.Disjoint plan.pending ∧
      (plan.completed ++ plan.pending).Perm plan.targets := by
  rw [h.completed_eq, h.pending_eq]
  refine ⟨h.sorted.filter _, h.sorted.filter _, fun tenant hc hp => ?_, ?_⟩
  · have h₁ := (List.mem_filter.mp hc).2
    have h₂ := (List.mem_filter.mp hp).2
    exact of_decide_eq_true h₂ (of_decide_eq_true h₁)
  · have hperm := List.filter_append_perm (fun t => decide (t ∈ done)) plan.targets
    simpa only [decide_not] using hperm

/-! ### Main result -/

theorem World.mem_marked {w : World} {runId tenant : String} {status : CheckpointStatus} :
    tenant ∈ w.marked runId status ↔ ⟨runId, tenant, status⟩ ∈ w.checkpoints := by
  simp only [marked, List.mem_map, List.mem_filter, decide_eq_true_eq]
  constructor
  · rintro ⟨row, ⟨hrow, rfl, rfl⟩, rfl⟩
    exact hrow
  · intro h
    exact ⟨_, ⟨h, rfl, rfl⟩, rfl⟩

/-- The evidence write leaves the plan as it is. -/
theorem recordEvidence_rollout (w : World) (runId : String) (report : FleetReport)
    (write : CheckpointWrite) : (recordEvidence w runId report write).2.rollout = report.rollout := by
  simp only [recordEvidence]
  split
  · split
    · split <;> rfl
    · rfl
  · rfl

/-- A turn leaves the locations of other tenants alone. -/
theorem visitStep_frame {ctx : EngineCtx} {specs : List ResourceSpec} {opts : MigrationOptions}
    {runId : String} {done all : List String} {w w' : World} {label : String × Visit}
    (h : visitStep ctx specs opts runId done all w label w') {loc : StorageLocation}
    (hloc : ∀ tenant ∈ all, ctx.tenancy.locate tenant ≠ loc) : w'.scopes loc = w.scopes loc := by
  obtain ⟨hmem, f, hvisit⟩ := h
  rcases visitTenant_scopes hvisit with heq | ⟨_, report, heq⟩
  · rw [heq]
  · rw [heq, Function.update_of_ne (Ne.symm (hloc _ hmem))]

/-- The plan a guarded call returns is the one it carried out. -/
theorem FleetCall.rollout_of_report {ctx : EngineCtx} {w : World} {call : FleetCall}
    {report : FleetReport} (hreport : (call.exec ctx w).2 = .ok report)
    {plan : FleetRolloutPlan} (hplan : report.rollout = some plan) :
    call.plan? ctx w = some (some plan) := by
  cases h : call.plan? ctx w with
  | none =>
      rw [(exec_of_plan?_none h).2 report hreport] at hplan
      exact absurd hplan (by simp)
  | some p =>
      rw [exec_of_plan?_some h] at hreport
      have hrollout := recordEvidence_rollout (endWorld w (call.visits ctx w)) call.runId
        (reportOf (call.rollout?.any (·.haltOnFailure))
          { runId := call.runId, total := w.activeTenants.length, rollout := p }
          (call.visits ctx w)) call.faults.evidence
      rw [← Except.ok.inj hreport, hrollout, reportOf_rollout] at hplan
      rw [← hplan]

/-- A guarded rollout, after any run of operations on a deployment that started
without evidence rows.

- A canary stage visits tenants of its cohort only, and leaves every location that
  is not one of theirs alone.
- A rollout stage that migrates a tenant outside the cohort found a `done` row of
  its run id for each tenant of the cohort, and an earlier promotable canary stage
  of the same run id and the same cohort recorded its evidence.
- The completed and the pending tenants of the reported plan are sorted and
  disjoint, and together they are its targets.

`hhash`: no canary stage of the run had another cohort with the hash of this one. -/
theorem rollout_guarded (ctx : EngineCtx) {w₀ w : World} {ops : List FleetOp}
    (hfresh : ∀ row ∈ w₀.checkpoints, row.status ≠ .canaryDone)
    (hrun : Run (FleetOp.step ctx) w₀ ops w)
    (specs : List ResourceSpec) (rollout : FleetRolloutOptions) (faults : FleetFaults)
    (cohort : List String)
    (hcohort : cohort = (w.activeTenants.insertionSort (· ≤ ·)).take rollout.canarySize)
    (hhash : ∀ before call after wᵢ plan, ops = before ++ .fleet call :: after →
      Run (FleetOp.step ctx) w₀ before wᵢ → call.RecordsEvidence ctx wᵢ plan →
      fnv1aHex plan.cohort = fnv1aHex cohort → plan.cohort = cohort) :
    let call := FleetCall.migrateFleetRollout specs rollout faults
    (rollout.stage = .canary →
      (∀ v ∈ call.visits ctx w, v.tenant ∈ cohort) ∧
      (∀ loc, (∀ tenant ∈ cohort, ctx.tenancy.locate tenant ≠ loc) →
        (call.exec ctx w).1.scopes loc = w.scopes loc)) ∧
    (rollout.stage = .rollout → ∀ v ∈ call.visits ctx w, v.tenant ∉ cohort →
      v.visit ≠ .alreadyDone →
      (∀ tenant ∈ cohort, ⟨fleetRunId specs, tenant, .done⟩ ∈ w.checkpoints) ∧
      ∃ before canary after wᵢ plan, ops = before ++ .fleet canary :: after ∧
        Run (FleetOp.step ctx) w₀ before wᵢ ∧ canary.RecordsEvidence ctx wᵢ plan ∧
        canary.runId = fleetRunId specs ∧ plan.cohort = cohort) ∧
    (∀ report plan, (call.exec ctx w).2 = .ok report → report.rollout = some plan →
      plan.completed.Pairwise (· < ·) ∧ plan.pending.Pairwise (· < ·) ∧
        plan.completed.Disjoint plan.pending ∧
        (plan.completed ++ plan.pending).Perm plan.targets) := by
  intro call
  -- the plan of a call that gets to its loop
  have haccepted : ∀ p, call.plan? ctx w = some p → ∃ plan, p = some plan ∧
      Accepted rollout.stage rollout.canarySize w.activeTenants (w.doneSet (fleetRunId specs))
        (w.canaryEvidence (fleetRunId specs)) plan ∧ plan.cohort = cohort := by
    intro p hp
    rcases call.accepted hp with ⟨hnone, _⟩ | ⟨r, plan, hr, rfl, hacc⟩
    · exact absurd hnone (by simp [call, FleetCall.rollout?])
    · obtain rfl : rollout = r := Option.some.inj hr
      refine ⟨plan, rfl, hacc, ?_⟩
      rw [FleetRolloutPlan.cohort, hacc.active_eq, hacc.canarySize_eq, hcohort]
  -- A visit is a step of the loop over the targets of the plan.
  have hvisited : ∀ v ∈ call.visits ctx w, ∃ p, call.plan? ctx w = some p ∧
      v.tenant ∈ fleetTargets w p := by
    intro v hv
    cases hp : call.plan? ctx w with
    | none => rw [FleetCall.visits, hp] at hv; exact absurd hv List.not_mem_nil
    | some p =>
        obtain ⟨pre, post, hsplit⟩ := List.append_of_mem (List.mem_map_of_mem hv)
        have hrun := call.visits_run_targets hp
        rw [hsplit] at hrun
        obtain ⟨_, _, _, hstep, _⟩ := hrun.split
        exact ⟨p, rfl, hstep.1⟩
  refine ⟨fun hstage => ⟨fun v hv => ?_, fun loc hloc => ?_⟩, fun hstage v hv hout hnew => ?_,
    fun report plan hreport hrollout => ?_⟩
  · obtain ⟨p, hp, htarget⟩ := hvisited v hv
    obtain ⟨plan, rfl, hacc, hc⟩ := haccepted p hp
    rw [← hc]
    simpa [fleetTargets, hacc.targets_eq, hstage] using htarget
  · -- Each step of the loop leaves every scope alone but the visited tenant's.
    rw [call.exec_scopes]
    cases hp : call.plan? ctx w with
    | none => rw [FleetCall.visits, hp]; rfl
    | some p =>
        obtain ⟨plan, rfl, hacc, hc⟩ := haccepted p hp
        refine (call.visits_run_targets hp).invariant (I := fun w' => w'.scopes loc = w.scopes loc)
          rfl fun a label b ha hstep => (visitStep_frame hstep fun tenant ht => ?_).trans ha
        refine hloc tenant ?_
        rw [← hc]
        simpa [fleetTargets, hacc.targets_eq, hstage] using ht
  · obtain ⟨p, hp, _⟩ := hvisited v hv
    obtain ⟨plan, rfl, hacc, hc⟩ := haccepted p hp
    refine ⟨fun tenant ht => World.mem_marked.mp (hacc.cohort_done hstage tenant (hc ▸ ht)), ?_⟩
    -- The plan was accepted for its evidence, and a call of the run has written that row.
    have hrow : ⟨fleetRunId specs, plan.cohortId, .canaryDone⟩ ∈ w.checkpoints :=
      World.mem_marked.mp (hacc.evidence hstage)
    obtain ⟨before, canary, after, wᵢ, plan', hops, hpre, hrec, hid, htenant⟩ :=
      evidence_source hrun hfresh hrow rfl
    refine ⟨before, canary, after, wᵢ, plan', hops, hpre, hrec, hid, ?_⟩
    refine hhash before canary after wᵢ plan' hops hpre hrec ?_
    -- both cohort ids are hashes of their cohorts
    have hacc' : plan'.cohortId = fnv1aHex plan'.cohort := by
      rcases canary.accepted hrec.1 with ⟨_, hnone⟩ | ⟨_, q, _, hq, hacc'⟩
      · exact absurd hnone (by simp)
      · rw [Option.some.inj hq]
        exact hacc'.cohortId_eq
    rw [← hacc', htenant, hacc.cohortId_eq, hc]
  · obtain ⟨_, hq, hacc, _⟩ := haccepted _ (FleetCall.rollout_of_report hreport hrollout)
    rw [Option.some.inj hq]
    exact hacc.partition

/-- A deployment with two active tenants, and nothing migrated yet. -/
def duoWorld : World := ⟨[], [⟨"beta", "active"⟩, ⟨"acme", "active"⟩], fun _ => .empty⟩

/-- A stage with a canary of one tenant. -/
def stageOfOne (stage : FleetStage) : FleetRolloutOptions := ⟨stage, 1, Nat.one_pos, {}, true⟩

/-- A canary stage and the rollout after it: the second tenant is migrated, and the
first has its `done` row. -/
theorem rollout_guarded_duo :
    let specs : List ResourceSpec := [⟨"a", "t", "DEFINE FIELD x ON TABLE t", []⟩]
    let ctx : EngineCtx := ⟨⟨⟨"platform", "platform"⟩, fun t => ⟨"tenants", t⟩, true⟩, false⟩
    let canary := FleetOp.fleet (.migrateFleetRollout specs (stageOfOne .canary) {})
    let w := canary.exec ctx duoWorld
    (∃ v ∈ (FleetCall.migrateFleetRollout specs (stageOfOne .rollout) {}).visits ctx w,
      v.tenant = "beta" ∧ v.visit ≠ .alreadyDone) ∧
    ⟨fleetRunId specs, "acme", .done⟩ ∈ w.checkpoints := by
  intro specs ctx canary w
  have hrun : Run (FleetOp.step ctx) duoWorld [canary] w := .single rfl
  have hfacts : (∃ v ∈ (FleetCall.migrateFleetRollout specs (stageOfOne .rollout) {}).visits ctx w,
        v.tenant = "beta" ∧ v.visit ≠ .alreadyDone) ∧
      ["acme"] = (w.activeTenants.insertionSort (· ≤ ·)).take 1 ∧
      (duoWorld.activeTenants.insertionSort (· ≤ ·)).take 1 = ["acme"] := by
    decide +kernel
  clear_value w
  obtain ⟨⟨v, hv, htenant, hnew⟩, hcohort, hfirst⟩ := hfacts
  refine ⟨⟨v, hv, htenant, hnew⟩, ?_⟩
  have h := rollout_guarded ctx (fun row hrow => absurd hrow List.not_mem_nil) hrun specs
    (stageOfOne .rollout) {} ["acme"] hcohort fun before call after wᵢ plan hops hpre hrec _ => by
      -- the only canary stage of the run had the same cohort
      obtain ⟨rfl, hcall, rfl⟩ : before = [] ∧ canary = .fleet call ∧ after = [] := by
        cases before with
        | nil => simpa using hops
        | cons _ _ => simp at hops
      obtain rfl := hpre.nil_inv
      obtain rfl := FleetOp.fleet.inj hcall
      rcases FleetCall.accepted hrec.1 with ⟨hnone, _⟩ | ⟨r, p, hr, hp, hacc⟩
      · exact absurd hnone (by simp [FleetCall.rollout?])
      · obtain rfl := Option.some.inj hr
        obtain rfl := Option.some.inj hp
        rw [FleetRolloutPlan.cohort, hacc.active_eq, hacc.canarySize_eq]
        exact hfirst
  exact (h.2.1 rfl v hv (by rw [htenant]; decide) hnew).1 "acme" List.mem_cons_self

end Frust.Orm
