import Frust.Orm.Gate
import Frust.Proofs.Orm.Checkpoint
import Frust.Proofs.Orm.Classify

/-!
# `Frust.Proofs.Orm.Gate`: what the startup gate lets through

The gate reads the tally of the field changes of a plan and whether a field is dropped. It goes
on exactly when every planned migration is `Quiet`: no entry but drops, and no drop of a field
(`proceed_iff`). A plan of a dry run is quiet exactly when it changes no field (`quiet_iff`), so
that a plan for tables, indexes or events alone is not seen. `gateComplete_iff` says that this is
the only way in which the gate is incomplete.
-/

set_option autoImplicit false

namespace Frust.Orm

/-! ### Tallies -/

/-- How often a severity was counted. -/
def ClassSummary.count (s : ClassSummary) : FieldClass → Nat
  | .safe => s.safe
  | .warn => s.warn
  | .needsBackfill => s.needsBackfill
  | .blocked => s.blocked

theorem ClassSummary.count_tally (s : ClassSummary) (c c' : FieldClass) :
    (s.tally c).count c' = s.count c' + if c = c' then 1 else 0 := by
  cases c <;> cases c' <;> rfl

theorem ClassSummary.count_add (s t : ClassSummary) (c : FieldClass) :
    (s.add t).count c = s.count c + t.count c := by
  cases c <;> rfl

theorem ClassSummary.worst_eq_none {s : ClassSummary} :
    s.worst = none ↔ ∀ c, s.count c = 0 := by
  constructor
  · intro h c
    unfold worst at h
    split at h
    · cases h
    split at h
    · cases h
    split at h
    · cases h
    split at h
    · cases h
    cases c <;> simp only [count] <;> omega
  · intro h
    have hsafe := h .safe
    have hwarn := h .warn
    have hbackfill := h .needsBackfill
    have hblocked := h .blocked
    simp only [count] at hsafe hwarn hbackfill hblocked
    unfold worst
    rw [hsafe, hwarn, hbackfill, hblocked]
    rfl

/-- Where the worst is safe or a warning, nothing worse was counted. -/
theorem ClassSummary.count_of_worst {s : ClassSummary}
    (h : s.worst = some .safe ∨ s.worst = some .warn) :
    s.count .needsBackfill = 0 ∧ s.count .blocked = 0 := by
  unfold worst at h
  simp only [count]
  by_cases hblocked : 0 < s.blocked
  · simp [hblocked] at h
  · by_cases hbackfill : 0 < s.needsBackfill
    · simp [hblocked, hbackfill] at h
    · omega

/-- The entries that are counted. -/
def counts (c : FieldClass) (e : FieldChangeEntry) : Bool := e.change ≠ .dropped ∧ e.cls = c

theorem count_nonDropSummary (r : FieldChangeReport) (c : FieldClass) :
    r.nonDropSummary.count c = r.entries.countP (counts c) := by
  have hfold : ∀ (entries : List FieldChangeEntry) (s : ClassSummary),
      (entries.foldl (fun s e => if e.change = .dropped then s else s.tally e.cls) s).count c
        = s.count c + entries.countP (counts c) := by
    intro entries
    induction entries with
    | nil => intro s; rfl
    | cons e entries ih =>
        intro s
        rw [List.foldl_cons, ih, List.countP_cons]
        by_cases hdrop : e.change = .dropped
        · simp [counts, hdrop]
        · rw [if_neg hdrop, ClassSummary.count_tally]
          by_cases hcls : e.cls = c
          · simp [counts, hdrop, hcls]
            omega
          · simp [counts, hcls]
  have hempty : ClassSummary.count {} c = 0 := by cases c <;> rfl
  have h := hfold r.entries {}
  rw [hempty, Nat.zero_add] at h
  exact h

/-! ### The decision -/

theorem bootAction_proceed {env : Environment} {s : ClassSummary} {hasDrops : Bool} :
    bootAction env s hasDrops = .proceed ↔ s.worst = none ∧ hasDrops = false := by
  unfold bootAction
  cases hworst : s.worst with
  | none => cases hasDrops <;> cases env <;> simp [Environment.isStrict]
  | some c => cases c <;> cases hasDrops <;> cases env <;> simp [Environment.isStrict]

/-- In production, what does not go on is refused. -/
theorem bootAction_prod {s : ClassSummary} {hasDrops : Bool}
    (h : bootAction .prod s hasDrops ≠ .proceed) : bootAction .prod s hasDrops = .refuse := by
  unfold bootAction at h ⊢
  split
  · rename_i hquiet
    exact absurd (if_pos hquiet) h
  · rfl

theorem bootAction_converge {env : Environment} {s : ClassSummary} {hasDrops : Bool}
    (h : bootAction env s hasDrops = .converge) :
    hasDrops = false ∧ (s.worst = some .safe ∨ s.worst = some .warn) := by
  unfold bootAction at h
  split at h
  · cases h
  split at h
  · cases h
  split at h
  · cases h
  rename_i hdrops
  refine ⟨by simpa using hdrops, ?_⟩
  split at h
  · cases h
  · rename_i hworst
    exact Or.inl hworst
  · rename_i hworst
    exact Or.inr hworst
  · cases h
  · cases h

/-! ### The tally of a plan -/

theorem gateTally_count (planned : List PlannedMigration) (c : FieldClass) :
    (gateTally planned).1.count c
      = (planned.map fun p => p.classifications.entries.countP (counts c)).sum := by
  have hfold : ∀ (planned : List PlannedMigration) (acc : ClassSummary × Bool),
      (planned.foldl (fun acc p => (acc.1.add p.classifications.nonDropSummary,
          if !p.destructive.isEmpty then true else acc.2)) acc).1.count c
        = acc.1.count c + (planned.map fun p => p.classifications.entries.countP (counts c)).sum := by
    intro planned
    induction planned with
    | nil => intro acc; rfl
    | cons p planned ih =>
        intro acc
        rw [List.foldl_cons, ih, List.map_cons, List.sum_cons, ClassSummary.count_add,
          count_nonDropSummary]
        omega
  have hempty : ClassSummary.count {} c = 0 := by cases c <;> rfl
  have h := hfold planned ({}, false)
  rw [hempty, Nat.zero_add] at h
  exact h

theorem gateTally_drops (planned : List PlannedMigration) :
    (gateTally planned).2 = false ↔ ∀ p ∈ planned, p.destructive = [] := by
  have hfold : ∀ (planned : List PlannedMigration) (acc : ClassSummary × Bool),
      (planned.foldl (fun acc p => (acc.1.add p.classifications.nonDropSummary,
          if !p.destructive.isEmpty then true else acc.2)) acc).2 = false ↔
        acc.2 = false ∧ ∀ p ∈ planned, p.destructive = [] := by
    intro planned
    induction planned with
    | nil => intro acc; simp
    | cons p planned ih =>
        intro acc
        rw [List.foldl_cons, ih, List.forall_mem_cons]
        cases hp : p.destructive <;> simp
  rw [gateTally, hfold]
  simp

/-- Nothing in a planned migration is seen by the gate. -/
def Quiet (p : PlannedMigration) : Prop :=
  (∀ e ∈ p.classifications.entries, e.change = .dropped) ∧ p.destructive = []

/-- The gate goes on exactly when all that is planned is quiet. -/
theorem proceed_iff {report : MigrationReport} {env : Environment} :
    bootActionForReport report env = .proceed ↔ ∀ p ∈ report.planned, Quiet p := by
  unfold bootActionForReport
  rw [bootAction_proceed, gateTally_drops, ClassSummary.worst_eq_none]
  simp only [gateTally_count]
  constructor
  · rintro ⟨hcounts, hdrops⟩ p hp
    refine ⟨fun e he => ?_, hdrops p hp⟩
    by_contra hne
    have hzero := List.sum_eq_zero_iff_forall_eq_nat.mp (hcounts e.cls) _ (List.mem_map_of_mem hp)
    exact List.countP_eq_zero.mp hzero e he (decide_eq_true ⟨hne, rfl⟩)
  · intro hquiet
    refine ⟨fun c => List.sum_eq_zero_iff_forall_eq_nat.mpr fun n hn => ?_, fun p hp => (hquiet p hp).2⟩
    obtain ⟨p, hp, rfl⟩ := List.mem_map.mp hn
    exact List.countP_eq_zero.mpr fun e he hcounted =>
      (of_decide_eq_true hcounted).1 ((hquiet p hp).1 e he)

/-! ### Dry runs -/

/-- A migration that a dry run plans for two snapshots that differ. -/
structure Plans (p : PlannedMigration) (old new : SchemaSnapshot) : Prop where
  differ : (diff old new).isEmpty = false
  planned : ∃ name version table, p = .fromDiff name version (diff old new) old new table

/-- The report of a dry run over pairs of snapshots, without those that are equal. -/
def DryRun (report : MigrationReport) (pairs : List (SchemaSnapshot × SchemaSnapshot)) : Prop :=
  List.Forall₂ (fun p d => Plans p d.1 d.2) report.planned pairs

section

variable {p : PlannedMigration} {old new : SchemaSnapshot} {report : MigrationReport}
  {pairs : List (SchemaSnapshot × SchemaSnapshot)} {env : Environment}

/-- A planned migration is quiet exactly when it changes no field. -/
theorem quiet_iff (h : Plans p old new) : Quiet p ↔ ¬ ChangesField old new := by
  obtain ⟨name, version, table, rfl⟩ := h.planned
  constructor
  · rintro ⟨hentries, hdestructive⟩ hchanges
    rcases entry_of_changesField hchanges with ⟨e, he, hne⟩ | hne
    · exact hne (hentries e he)
    · exact hne hdestructive
  · intro hnone
    obtain ⟨hentries, hdestructive⟩ := entries_of_not_changesField hnone
    refine ⟨fun e he => ?_, hdestructive⟩
    replace he : e ∈ (classifyDiff old new).entries := he
    rw [hentries] at he
    cases he

theorem DryRun.quiet_iff (h : DryRun report pairs) :
    (∀ p ∈ report.planned, Quiet p) ↔ ∀ d ∈ pairs, ¬ ChangesField d.1 d.2 := by
  unfold DryRun at h
  generalize report.planned = planned at h
  induction h with
  | nil => simp
  | cons hp _ ih => rw [List.forall_mem_cons, List.forall_mem_cons, ih, Orm.quiet_iff hp]

theorem DryRun.planned_eq_nil (h : DryRun report pairs) : report.planned = [] ↔ pairs = [] := by
  rw [← List.length_eq_zero_iff, ← List.length_eq_zero_iff, h.length_eq]

/-- What the gate promises for a report: it goes on exactly when nothing is planned, it refuses
whatever is planned in production, and it applies only what is safe or worth a warning, without a
drop. Tables, indexes and events have no severity but that a diff may warn about them. -/
structure GateComplete (report : MigrationReport) (env : Environment) : Prop where
  proceed : bootActionForReport report env = .proceed ↔ report.planned = []
  prod : env = .prod → report.planned ≠ [] → bootActionForReport report env = .refuse
  converge : bootActionForReport report env = .converge → ∀ p ∈ report.planned,
    p.destructive = [] ∧ ∀ e ∈ p.classifications.entries,
      e.change ≠ .dropped ∧ (e.cls = .safe ∨ e.cls = .warn)

/-- What is applied at boot is always safe or a warning. -/
theorem DryRun.converge (h : DryRun report pairs)
    (hconverge : bootActionForReport report env = .converge) :
    ∀ p ∈ report.planned, p.destructive = [] ∧ ∀ e ∈ p.classifications.entries,
      e.change ≠ .dropped ∧ (e.cls = .safe ∨ e.cls = .warn) := by
  obtain ⟨hdrops, hworst⟩ := bootAction_converge hconverge
  obtain ⟨hbackfill, hblocked⟩ := ClassSummary.count_of_worst hworst
  rw [gateTally_count, List.sum_eq_zero_iff_forall_eq_nat] at hbackfill hblocked
  intro p hp
  have hdestructive := (gateTally_drops _).mp hdrops p hp
  refine ⟨hdestructive, fun e he => ?_⟩
  obtain ⟨d, _, hplans⟩ : ∃ d ∈ pairs, Plans p d.1 d.2 := by
    obtain ⟨i, hi, rfl⟩ := List.getElem_of_mem hp
    exact ⟨_, List.getElem_mem (h.length_eq ▸ hi), List.forall₂_iff_get.mp h |>.2 i hi _⟩
  obtain ⟨name, version, table, rfl⟩ := hplans.planned
  have hchange : e.change ≠ .dropped := change_of_not_destructive hdestructive he
  refine ⟨hchange, ?_⟩
  -- nothing worse was counted
  have hno : ∀ c, (∀ n ∈ report.planned.map fun p => p.classifications.entries.countP (counts c),
      n = 0) → e.cls ≠ c := by
    intro c hzero hcls
    have hcount := List.countP_eq_zero.mp (hzero _ (List.mem_map_of_mem hp)) e he
    exact hcount (decide_eq_true ⟨hchange, hcls⟩)
  have hbackfill' := hno _ hbackfill
  have hblocked' := hno _ hblocked
  cases hcls : e.cls with
  | safe => exact Or.inl rfl
  | warn => exact Or.inr rfl
  | needsBackfill => exact absurd hcls hbackfill'
  | blocked => exact absurd hcls hblocked'

/-- The gate is complete exactly when nothing is planned or a field changes. -/
theorem gateComplete_iff (h : DryRun report pairs) :
    GateComplete report env ↔ pairs = [] ∨ ∃ d ∈ pairs, ChangesField d.1 d.2 := by
  constructor
  · intro hgate
    by_contra hnone
    push Not at hnone
    obtain ⟨hpairs, hquiet⟩ := hnone
    have hplanned := hgate.proceed.mp (proceed_iff.mpr (h.quiet_iff.mpr hquiet))
    exact hpairs (h.planned_eq_nil.mp hplanned)
  · intro hcond
    have hproceed : bootActionForReport report env = .proceed ↔ report.planned = [] := by
      rw [proceed_iff, h.quiet_iff, h.planned_eq_nil]
      rcases hcond with rfl | ⟨d, hd, hchanges⟩
      · simp
      · refine ⟨fun hquiet => absurd hchanges (hquiet d hd), ?_⟩
        rintro rfl
        cases hd
    refine ⟨hproceed, ?_, h.converge⟩
    rintro rfl hplanned
    exact bootAction_prod fun hgo => hplanned (hproceed.mp hgo)

end

/-! ### The boot check -/

/-- The latest recorded snapshot of a resource. -/
def ScopeDb.recorded (db : ScopeDb) (reg : ResourceSpec) : SchemaSnapshot :=
  ((loadHistory db).getD reg.key (0, .default)).2

/-- The recorded schema is the one that the resources ask for. -/
def ScopeDb.AtSpecs (db : ScopeDb) (regs : List ResourceSpec) : Prop :=
  ∀ reg ∈ regs, (db.recorded reg).objects = reg.snapshot.objects

instance (db : ScopeDb) (regs : List ResourceSpec) : Decidable (db.AtSpecs regs) :=
  inferInstanceAs (Decidable (∀ reg ∈ regs, (db.recorded reg).objects = reg.snapshot.objects))

/-- The resources whose recorded snapshot is another. -/
def ScopeDb.pendingPairs (db : ScopeDb) (regs : List ResourceSpec) :
    List (SchemaSnapshot × SchemaSnapshot) :=
  (regs.map fun reg => (db.recorded reg, reg.snapshot)).filter fun d => !(diff d.1 d.2).isEmpty

section

variable {regs : List ResourceSpec} {opts : MigrationOptions} {txn : Nat → Option String}
  {db : ScopeDb} {report : MigrationReport}

/-- A turn of a dry run plans what is pending. -/
theorem migrateResource_dryRun {error : Option String} {db' : ScopeDb} {reg : ResourceSpec}
    (hdry : opts.dryRun = true) :
    (migrateResource (loadHistory db) opts error db' reg).2
      = if (diff (db.recorded reg) reg.snapshot).isEmpty then .skipped
        else .planned (.fromDiff reg.key (((loadHistory db).getD reg.key (0, .default)).1 + 1)
          (diff (db.recorded reg) reg.snapshot) (db.recorded reg) reg.snapshot reg.name) := by
  unfold migrateResource
  dsimp only
  rw [hdry, if_pos rfl]
  by_cases hsame : (diff (db.recorded reg) reg.snapshot).isEmpty = true
  · rw [if_pos hsame]
    exact congrArg Prod.snd (if_pos hsame)
  · rw [if_neg hsame]
    exact congrArg Prod.snd (if_neg hsame)

/-- A dry run plans what is pending, in the order of the resources. -/
theorem run_dryRun_planned (hdry : opts.dryRun = true) (hempty : report.planned = []) :
    DryRun (run regs opts txn db report).2 (db.pendingPairs (orderResources regs)) := by
  -- On the resources: each adds its pair, if its diff is not empty.
  have hfold : ∀ (regs : List ResourceSpec) (s : ScopeDb × MigrationReport)
      (pairs : List (SchemaSnapshot × SchemaSnapshot)), DryRun s.2 pairs →
      DryRun (regs.foldl (runStep (loadHistory db) opts txn) s).2 (pairs ++ db.pendingPairs regs) := by
    intro regs
    induction regs with
    | nil =>
        intro s pairs hs
        rw [ScopeDb.pendingPairs, List.map_nil, List.filter_nil, List.append_nil]
        exact hs
    | cons reg regs ih =>
        intro s pairs hs
        rw [List.foldl_cons]
        have hturn : (runStep (loadHistory db) opts txn s reg).2
            = s.2.record (migrateResource (loadHistory db) opts (txn s.2.considered) s.1 reg).2 := rfl
        rw [migrateResource_dryRun hdry] at hturn
        by_cases hsame : (diff (db.recorded reg) reg.snapshot).isEmpty = true
        · rw [if_pos hsame] at hturn
          have hnext : DryRun (runStep (loadHistory db) opts txn s reg).2 pairs := by
            rw [hturn]
            exact hs
          have hpairs : db.pendingPairs (reg :: regs) = db.pendingPairs regs := by
            simp [ScopeDb.pendingPairs, hsame]
          rw [hpairs]
          exact ih _ _ hnext
        · rw [if_neg hsame] at hturn
          have hnext : DryRun (runStep (loadHistory db) opts txn s reg).2
              (pairs ++ [(db.recorded reg, reg.snapshot)]) := by
            rw [hturn]
            exact List.rel_append hs
              (.cons ⟨by simpa using hsame, _, _, _, rfl⟩ .nil)
          have hpairs : db.pendingPairs (reg :: regs)
              = (db.recorded reg, reg.snapshot) :: db.pendingPairs regs := by
            simp [ScopeDb.pendingPairs, hsame]
          rw [hpairs, List.append_cons]
          exact ih _ _ hnext
  have hstart : DryRun report [] := by
    unfold DryRun
    rw [hempty]
    exact .nil
  exact hfold _ (db, report) [] hstart

end

/-- What a boot check that returns has planned. -/
theorem bootCheck_cases {ctx : EngineCtx} {specs : List ResourceSpec} {env : Environment}
    {planFaults applyFaults : ScopeFaults} {w w' : World} {check : BootCheck}
    (h : bootCheck ctx specs env planFaults applyFaults w = (w', .ok check)) :
    ∃ plan, DryRun plan ((w.scopes ctx.tenancy.platformScope).pendingPairs
        (orderResources (platformSpecs specs))) ∧
      (check.action = .proceed ↔ bootActionForReport plan env = .proceed) := by
  unfold bootCheck at h
  dsimp only at h
  split at h
  · cases h
  rename_i w₁ plan hplan
  refine ⟨plan, ?_, ?_⟩
  · unfold migratePlatformWith migrateScope at hplan
    dsimp only at hplan
    split at hplan
    · cases hplan
    · cases hplan
      -- The plan is that of a dry run over the platform's resources.
      exact run_dryRun_planned rfl rfl
  · split at h
    · rename_i hgo
      cases h
      exact ⟨fun _ => hgo, fun _ => rfl⟩
    · rename_i hgo
      cases h
      rw [hgo]
    · rename_i hgo
      rw [hgo]
      split at h
      · cases h
      · split at h <;> cases h <;> simp

/-- For every report of a dry run, the gate is complete if and only if nothing is planned or a
field changes. For every boot check, that it goes on only where the recorded schema is the one the
platform's resources ask for holds if and only if it is, or a field changes. -/
theorem boot_gate_complete (env : Environment) :
    (∀ report pairs, DryRun report pairs →
      (GateComplete report env ↔ pairs = [] ∨ ∃ d ∈ pairs, ChangesField d.1 d.2)) ∧
    ∀ ctx specs planFaults applyFaults w w' check,
      bootCheck ctx specs env planFaults applyFaults w = (w', .ok check) →
      let db := w.scopes ctx.tenancy.platformScope
      let regs := orderResources (platformSpecs specs)
      (check.action = .proceed → db.AtSpecs regs) ↔
        db.AtSpecs regs ∨ ∃ reg ∈ regs, ChangesField (db.recorded reg) reg.snapshot := by
  refine ⟨fun report pairs h => gateComplete_iff h, ?_⟩
  intro ctx specs planFaults applyFaults w w' check h db regs
  -- What the check does is decided by the dry run over the pairs that are pending.
  obtain ⟨plan, hplan, haction⟩ := bootCheck_cases h
  rw [haction, proceed_iff, hplan.quiet_iff]
  constructor
  · intro hgate
    -- Something is pending and no pair changes a field: the plan is quiet, so the boot goes on.
    by_contra hnone
    push Not at hnone
    obtain ⟨hpending, hquiet⟩ := hnone
    refine hpending (hgate fun d hd => ?_)
    obtain ⟨reg, hreg, rfl⟩ := List.mem_map.mp (List.mem_filter.mp hd).1
    exact hquiet reg hreg
  · rintro (hat | ⟨reg, hreg, hchanges⟩) hquiet
    · exact hat
    · -- A pair that changes a field is pending, and its plan is not quiet.
      by_contra hpending
      refine hquiet (db.recorded reg, reg.snapshot) ?_ hchanges
      refine List.mem_filter.mpr ⟨List.mem_map_of_mem hreg, ?_⟩
      rw [Bool.not_eq_true']
      by_contra hsame
      rw [Bool.not_eq_false, isEmpty_diff_iff] at hsame
      exact not_changesField_of_objects hsame hchanges

/-- A table of the platform with one field. -/
def platformField : ResourceSpec := ⟨"platform", "t", "DEFINE FIELD x ON TABLE t", []⟩

/-- A new field in production. -/
theorem boot_gate_complete_field :
    GateComplete (run [platformField] (.dryRunFor .prod) (fun _ => none) .empty {}).2 .prod ∧
      ∃ w' check, bootCheck plainCtx [platformField] .prod {} {} soloWorld = (w', .ok check) ∧
        (check.action = .proceed →
          ScopeDb.empty.AtSpecs (orderResources (platformSpecs [platformField]))) := by
  have hchanges : ChangesField (ScopeDb.empty.recorded platformField) platformField.snapshot :=
    ⟨"x", by decide +kernel⟩
  constructor
  · refine ((boot_gate_complete .prod).1 _ _ (run_dryRun_planned rfl rfl)).mpr (Or.inr ?_)
    have hmem : (ScopeDb.empty.recorded platformField, platformField.snapshot)
        ∈ ScopeDb.empty.pendingPairs (orderResources [platformField]) := by decide +kernel
    exact ⟨_, hmem, hchanges⟩
  · have hok : (bootCheck plainCtx [platformField] .prod {} {} soloWorld).2.toOption.isSome
        = true := by decide +kernel
    cases hcall : bootCheck plainCtx [platformField] .prod {} {} soloWorld with
    | mk w' result =>
        rw [hcall] at hok
        cases result with
        | error e => cases hok
        | ok check =>
            have hmem : platformField ∈ orderResources (platformSpecs [platformField]) := by
              decide +kernel
            exact ⟨w', check, rfl, ((boot_gate_complete .prod).2 _ _ _ _ _ _ _ hcall).mpr
              (Or.inr ⟨platformField, hmem, hchanges⟩)⟩

/-- A table of the platform with one event. -/
def platformEvent (code : String) : ResourceSpec where
  app := "platform"
  name := "t"
  schema := "DEFINE EVENT e ON TABLE t THEN \x7b THROW " ++ code ++ " \x7d"
  deps := []

/-- The platform where the event was recorded. -/
def eventDb : ScopeDb where
  history := [⟨"platform__t", 1, (platformEvent "1").snapshot, .up⟩]
  live _ := ∅

/-- A plan for an event alone is not seen: the gate goes on in production while the recorded
event is another. -/
theorem not_boot_gate_complete :
    (bootCheck plainCtx [platformEvent "2"] .prod {} {} ⟨[], [], fun _ => eventDb⟩).2.toOption
        = some { action := .proceed } ∧
      ¬ eventDb.AtSpecs (orderResources (platformSpecs [platformEvent "2"])) := by
  decide +kernel

end Frust.Orm
