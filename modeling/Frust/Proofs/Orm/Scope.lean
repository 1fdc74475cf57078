import Frust.Proofs.Orm.Turns

/-!
# `Frust.Proofs.Orm.Scope`: what a scope migration records

`RecordedAt reg`: the latest row of a resource holds its snapshot. A forward run
that reports no error has applied or skipped every resource. It skips a resource
when the objects agree, and objects may agree without a row: a resource without
objects has none to create, and a row of another table may hold the same objects.
`Settled` says that this is not so, and then a run without errors records every
resource (`run_recorded`).

Both are kept by every further run over the same resources.
-/

set_option autoImplicit false

namespace Frust.Orm

open Frust.Lib

/-- The snapshot a resource asks for. -/
def ResourceSpec.snapshot (reg : ResourceSpec) : SchemaSnapshot := .fromSql reg.name reg.schema

/-- The resources are told apart by their names and by their history keys. -/
def DistinctSpecs (specs : List ResourceSpec) : Prop :=
  (specs.map (·.name)).Nodup ∧ (specs.map (·.key)).Nodup

instance (specs : List ResourceSpec) : Decidable (DistinctSpecs specs) :=
  inferInstanceAs (Decidable (_ ∧ _))

namespace ScopeDb

/-- The latest row of the resource holds its snapshot. -/
def RecordedAt (db : ScopeDb) (reg : ResourceSpec) : Prop :=
  (db.rowsOf reg.key).getLast?.map (·.snapshot) = some reg.snapshot

/-- Every resource is recorded. -/
def Recorded (db : ScopeDb) (specs : List ResourceSpec) : Prop :=
  ∀ reg ∈ specs, db.RecordedAt reg

/-- A resource whose objects are those of its head is recorded. -/
def SettledAt (db : ScopeDb) (reg : ResourceSpec) : Prop :=
  (db.head reg.key).2.objects = reg.snapshot.objects → db.RecordedAt reg

/-- No resource would be skipped without being recorded. -/
def Settled (db : ScopeDb) (specs : List ResourceSpec) : Prop :=
  ∀ reg ∈ specs, db.SettledAt reg

instance (db : ScopeDb) (reg : ResourceSpec) : Decidable (db.RecordedAt reg) :=
  inferInstanceAs (Decidable (_ = _))

instance (db : ScopeDb) (specs : List ResourceSpec) : Decidable (db.Recorded specs) :=
  inferInstanceAs (Decidable (∀ reg ∈ specs, db.RecordedAt reg))

instance (db : ScopeDb) (reg : ResourceSpec) : Decidable (db.SettledAt reg) :=
  inferInstanceAs (Decidable (_ → _))

instance (db : ScopeDb) (specs : List ResourceSpec) : Decidable (db.Settled specs) :=
  inferInstanceAs (Decidable (∀ reg ∈ specs, db.SettledAt reg))

theorem recordedAt_congr {db db' : ScopeDb} {reg : ResourceSpec}
    (h : db'.rowsOf reg.key = db.rowsOf reg.key) : db'.RecordedAt reg ↔ db.RecordedAt reg := by
  rw [RecordedAt, RecordedAt, h]

theorem settledAt_congr {db db' : ScopeDb} {reg : ResourceSpec}
    (h : db'.rowsOf reg.key = db.rowsOf reg.key) : db'.SettledAt reg ↔ db.SettledAt reg := by
  rw [SettledAt, SettledAt, recordedAt_congr h, head_congr h]

theorem recordedAt_commit (db : ScopeDb) (reg : ResourceSpec) (table : String)
    (direction : Direction) : (db.commit reg.key reg.snapshot table direction).RecordedAt reg := by
  simp [RecordedAt, rowsOf_commit_self]

end ScopeDb

/-! ### Turns over the resources of a run -/

section
variable {regs : List ResourceSpec} {dryRun : Bool} {db db' : ScopeDb} {name : String}
  {o : Outcome} {reg : ResourceSpec}

/-- A turn either keeps the rows of a resource or records it, and in the latter
case its objects had changed. -/
theorem Turn.rows_or_recorded (hnd : (regs.map (·.key)).Nodup) (hreg : reg ∈ regs)
    (h : Turn (migratePlan regs) dryRun db name o db') :
    db'.rowsOf reg.key = db.rowsOf reg.key ∨
      (db'.RecordedAt reg ∧ (db.head reg.key).2.objects ≠ reg.snapshot.objects) := by
  by_cases hname : reg.key = name
  · subst hname
    cases h with
    | @applied new table direction hplan _ hne =>
        rw [migratePlan_of_mem hnd hreg] at hplan
        obtain ⟨rfl, rfl⟩ := Prod.mk.inj (Option.some.inj hplan)
        exact Or.inr ⟨db.recordedAt_commit reg _ direction, hne⟩
    | _ => exact Or.inl rfl
  · exact Or.inl (h.rowsOf_ne hname)

theorem Turn.recordedAt (hnd : (regs.map (·.key)).Nodup) (hreg : reg ∈ regs)
    (h : Turn (migratePlan regs) dryRun db name o db') (hrec : db.RecordedAt reg) :
    db'.RecordedAt reg := by
  rcases h.rows_or_recorded hnd hreg with hrows | ⟨hrec', _⟩
  · exact (ScopeDb.recordedAt_congr hrows).mpr hrec
  · exact hrec'

theorem Turn.settledAt (hnd : (regs.map (·.key)).Nodup) (hreg : reg ∈ regs)
    (h : Turn (migratePlan regs) dryRun db name o db') (hset : db.SettledAt reg) :
    db'.SettledAt reg := by
  rcases h.rows_or_recorded hnd hreg with hrows | ⟨hrec, _⟩
  · exact (ScopeDb.settledAt_congr hrows).mpr hset
  · exact fun _ => hrec

/-- A resource whose objects agree keeps its rows. -/
theorem Turn.rowsOf_of_agree (hnd : (regs.map (·.key)).Nodup) (hreg : reg ∈ regs)
    (h : Turn (migratePlan regs) dryRun db name o db')
    (hagree : (db.head reg.key).2.objects = reg.snapshot.objects) :
    db'.rowsOf reg.key = db.rowsOf reg.key :=
  (h.rows_or_recorded hnd hreg).resolve_right fun ⟨_, hne⟩ => hne hagree

/-- The turn of a resource in a run that is not dry, when it reports no error:
afterwards the resource is recorded, if it was settled. -/
theorem Turn.recordedAt_of_ok (hnd : (regs.map (·.key)).Nodup) (hreg : reg ∈ regs)
    (h : Turn (migratePlan regs) false db reg.key o db') (ho : o.error? = none)
    (hset : db.SettledAt reg) : db'.RecordedAt reg := by
  have hplan := migratePlan_of_mem hnd hreg
  cases h with
  | idle hnone => rw [hplan] at hnone; exact absurd hnone (by simp)
  | skipped hsome hobj =>
      rw [hplan] at hsome
      obtain ⟨rfl, rfl⟩ := Prod.mk.inj (Option.some.inj hsome)
      exact hset hobj
  | planned _ hdry _ => exact absurd hdry (by simp)
  | refused message _ => exact absurd ho (by simp [Outcome.error?])
  | failed message _ => exact absurd ho (by simp [Outcome.error?])
  | applied direction hsome _ _ =>
      rw [hplan] at hsome
      obtain ⟨rfl, rfl⟩ := Prod.mk.inj (Option.some.inj hsome)
      exact db.recordedAt_commit reg _ direction

end

/-! ### A forward run -/

section
variable {regs : List ResourceSpec} {opts : MigrationOptions} {txn : Nat → Option String}
  {db : ScopeDb} {report : MigrationReport}

theorem run_versioned (hv : db.Versioned) (hnd : (regs.map (·.key)).Nodup) :
    (run regs opts txn db report).1.Versioned := by
  obtain ⟨turns, _, hrun, _⟩ := run_turns hv hnd opts txn report
  exact hrun.invariant hv fun _ _ _ ha hstep => Turn.versioned hstep ha

theorem run_dryRun (hv : db.Versioned) (hnd : (regs.map (·.key)).Nodup)
    (hdry : opts.dryRun = true) : (run regs opts txn db report).1 = db := by
  obtain ⟨turns, _, hrun, _⟩ := run_turns hv hnd opts txn report
  rw [hdry] at hrun
  exact hrun.invariant (I := (· = db)) rfl fun a label b ha hstep =>
    (Turn.eq_of_dryRun hstep).trans ha

theorem run_recordedAt (hv : db.Versioned) (hnd : (regs.map (·.key)).Nodup) {reg : ResourceSpec}
    (hreg : reg ∈ regs) (hrec : db.RecordedAt reg) :
    (run regs opts txn db report).1.RecordedAt reg := by
  obtain ⟨turns, _, hrun, _⟩ := run_turns hv hnd opts txn report
  exact hrun.invariant hrec fun _ _ _ ha hstep => Turn.recordedAt hnd hreg hstep ha

theorem run_settledAt (hv : db.Versioned) (hnd : (regs.map (·.key)).Nodup) {reg : ResourceSpec}
    (hreg : reg ∈ regs) (hset : db.SettledAt reg) :
    (run regs opts txn db report).1.SettledAt reg := by
  obtain ⟨turns, _, hrun, _⟩ := run_turns hv hnd opts txn report
  exact hrun.invariant hset fun _ _ _ ha hstep => Turn.settledAt hnd hreg hstep ha

/-- A resource whose objects agree keeps its rows. -/
theorem run_rowsOf_of_agree (hv : db.Versioned) (hnd : (regs.map (·.key)).Nodup)
    {reg : ResourceSpec} (hreg : reg ∈ regs)
    (hagree : (db.head reg.key).2.objects = reg.snapshot.objects) :
    (run regs opts txn db report).1.rowsOf reg.key = db.rowsOf reg.key := by
  obtain ⟨turns, _, hrun, _⟩ := run_turns hv hnd opts txn report
  refine hrun.invariant (I := fun d => d.rowsOf reg.key = db.rowsOf reg.key) rfl
    fun a label b ha hstep => ?_
  refine (Turn.rowsOf_of_agree hnd hreg hstep ?_).trans ha
  rw [ScopeDb.head_congr ha, hagree]

/-- A run that is not dry and reports no error records every settled resource. -/
theorem run_recorded (hv : db.Versioned) (hd : DistinctSpecs regs) (hdry : opts.dryRun = false)
    (hok : (run regs opts txn db report).2.isOk = true) (hset : db.Settled regs) :
    (run regs opts txn db report).1.Recorded regs := by
  intro reg hreg
  obtain ⟨turns, hnames, hrun, hreport⟩ := run_turns hv hd.2 opts txn report
  have hnd : (turns.map (·.1)).Nodup := hnames ▸ nodup_keys_orderResources hd.2
  -- with distinct names, no resource is lost in the order
  have hmem : reg.key ∈ turns.map (·.1) := by
    rw [hnames]
    exact List.mem_map_of_mem ((orderResources_perm hd.1).mem_iff.mpr hreg)
  obtain ⟨⟨name, o⟩, hturn, rfl⟩ := List.mem_map.mp hmem
  obtain ⟨db₁, db₂, h, hbefore, hafter⟩ := turn_of_mem hrun hnd hturn
  have ho : o.error? = none := by
    have herrors : (turns.map (·.2)).filterMap Outcome.error? = [] := by
      rw [hreport, MigrationReport.isOk, errors_foldl_record, List.isEmpty_iff,
        List.append_eq_nil_iff] at hok
      exact hok.2
    exact List.filterMap_eq_nil_iff.mp herrors o (List.mem_map_of_mem hturn)
  rw [hdry] at h
  exact (ScopeDb.recordedAt_congr hafter).mpr
    (h.recordedAt_of_ok hd.2 hreg ho ((ScopeDb.settledAt_congr hbefore).mpr (hset reg hreg)))

end

/-! ### The calls of a scope -/

/-- A scope migration is a run, or it returns an error and changes nothing. -/
theorem migrateScope_cases (bootstrapSql : Bool) (location : StorageLocation)
    (regs : List ResourceSpec) (opts : MigrationOptions) (scope : String) (f : ScopeFaults)
    (db : ScopeDb) :
    (∃ e, migrateScope bootstrapSql location regs opts scope f db = (db, .error e)) ∨
    (∃ report, migrateScope bootstrapSql location regs opts scope f db
      = ((run regs opts f.txn db report).1, .ok (run regs opts f.txn db report).2)) := by
  simp only [migrateScope]
  split
  · rename_i e _
    exact Or.inl ⟨e, rfl⟩
  · exact Or.inr ⟨_, rfl⟩

/-- A scope revert is a revert, or it returns an error and changes nothing. -/
theorem revertScope_cases (location : StorageLocation) (opts : RevertOptions) (scope : String)
    (f : ScopeFaults) (db : ScopeDb) :
    (∃ e, revertScope location opts scope f db = (db, .error e)) ∨
    (∃ report, revertScope location opts scope f db
      = ((runRevert opts f.txn db report).1, .ok (runRevert opts f.txn db report).2)) := by
  simp only [revertScope]
  split
  · rename_i e _
    exact Or.inl ⟨e, rfl⟩
  · exact Or.inr ⟨_, rfl⟩

theorem runRevert_versioned {opts : RevertOptions} {txn : Nat → Option String} {db : ScopeDb}
    {report : MigrationReport} (hv : db.Versioned) :
    (runRevert opts txn db report).1.Versioned := by
  obtain ⟨turns, _, hrun, _⟩ := runRevert_turns hv opts txn report
  exact hrun.invariant hv fun _ _ _ ha hstep => Turn.versioned hstep ha

end Frust.Orm
