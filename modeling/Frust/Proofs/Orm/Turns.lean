import Frust.Lib.Run
import Frust.Proofs.Orm.History
import Frust.Proofs.Orm.Order
import Frust.Proofs.Orm.Schema

/-!
# `Frust.Proofs.Orm.Turns`: both migration paths as one transition system

The forward path and the down path are separate code, but each handles one
resource after another, and what one resource may do is the same on both: stay
where it is, or commit one new version together with the statements that lead
there. `Turn` is that step. A `Plan` says which snapshot a path wants for a
resource, and for which table its statements are.

`run_turns` and `runRevert_turns` are the simulation: each path is a run of
`Turn`s, one for each name, and its report records their outcomes. The history
is loaded once, before the first turn. Since no name comes twice and a turn
writes under its own name only, what was loaded for a name is still its head when
its turn comes.
-/

set_option autoImplicit false

namespace Frust.Orm

open Frust.Lib

/-- What a path wants: the snapshot of a resource and the table of its
statements. `none` leaves the resource alone. -/
abbrev Plan := String → Option (SchemaSnapshot × String)

/-- A committed migration: one more version of `name`, and its statements. -/
def ScopeDb.commit (db : ScopeDb) (name : String) (new : SchemaSnapshot) (table : String)
    (direction : Direction) : ScopeDb where
  history := db.history ++ [{ name, version := (db.head name).1 + 1, snapshot := new, direction }]
  live := ((diff (db.head name).2 new).statements table).foldl Stmt.apply db.live

/-- One resource, on either path. -/
inductive Turn (plan : Plan) (dryRun : Bool) (db : ScopeDb) (name : String) :
    Outcome → ScopeDb → Prop where
  | idle : plan name = none → Turn plan dryRun db name .skipped db
  | skipped {new : SchemaSnapshot} {table : String} : plan name = some (new, table) →
      (db.head name).2.objects = new.objects → Turn plan dryRun db name .skipped db
  | planned {new : SchemaSnapshot} {table : String} : plan name = some (new, table) →
      dryRun = true → (db.head name).2.objects ≠ new.objects →
      Turn plan dryRun db name
        (.planned (.fromDiff name ((db.head name).1 + 1) (diff (db.head name).2 new)
          (db.head name).2 new table)) db
  | refused (message : String) : dryRun = false →
      Turn plan dryRun db name (.refused ⟨name, message⟩) db
  | failed (message : String) : dryRun = false →
      Turn plan dryRun db name (.failed ⟨name, message⟩) db
  | applied {new : SchemaSnapshot} {table : String} (direction : Direction) :
      plan name = some (new, table) → dryRun = false → (db.head name).2.objects ≠ new.objects →
      Turn plan dryRun db name
        (.applied (.fromDiff name ((db.head name).1 + 1) (diff (db.head name).2 new)
          (db.head name).2 new ((diff (db.head name).2 new).statements table)))
        (db.commit name new table direction)

/-- A turn as a labelled step: the label is the name and its outcome. -/
def turnStep (plan : Plan) (dryRun : Bool) (db : ScopeDb) (label : String × Outcome)
    (db' : ScopeDb) : Prop :=
  Turn plan dryRun db label.1 label.2 db'

/-! ### A commit -/

namespace ScopeDb

variable (db : ScopeDb) (name : String) (new : SchemaSnapshot) (table : String)
  (direction : Direction)

theorem rowsOf_commit_self : (db.commit name new table direction).rowsOf name
    = db.rowsOf name ++ [⟨name, (db.head name).1 + 1, new, direction⟩] := by
  simp [rowsOf, commit]

theorem rowsOf_commit_ne {other : String} (h : other ≠ name) :
    (db.commit name new table direction).rowsOf other = db.rowsOf other := by
  simp [rowsOf, commit, Ne.symm h]

@[simp] theorem head_commit_self :
    (db.commit name new table direction).head name = ((db.head name).1 + 1, new) := by
  simp [head, rowsOf_commit_self]

theorem commit_live : (db.commit name new table direction).live
    = ((diff (db.head name).2 new).statements table).foldl Stmt.apply db.live := rfl

theorem Versioned.commit {db : ScopeDb} (h : db.Versioned) :
    (db.commit name new table direction).Versioned := by
  intro other
  by_cases ho : other = name
  · subst ho
    rw [rowsOf_commit_self, List.map_append, h other, List.length_append, List.length_singleton,
      List.range_succ, List.map_append, h.head_version other]
    rfl
  · rw [rowsOf_commit_ne db name new table direction ho]
    exact h other

end ScopeDb

/-! ### What a turn keeps -/

namespace Turn

variable {plan : Plan} {dryRun : Bool} {db db' : ScopeDb} {name : String} {o : Outcome}

/-- A turn reads the plan at its own name only. -/
theorem congr {plan' : Plan} (hplan : plan name = plan' name)
    (h : Turn plan dryRun db name o db') : Turn plan' dryRun db name o db' := by
  cases h with
  | idle h => exact .idle (hplan ▸ h)
  | skipped h hobj => exact .skipped (hplan ▸ h) hobj
  | planned h hdry hne => exact .planned (hplan ▸ h) hdry hne
  | refused message hdry => exact .refused message hdry
  | failed message hdry => exact .failed message hdry
  | applied direction h hdry hne => exact .applied direction (hplan ▸ h) hdry hne

/-- A turn writes rows under its own name only. -/
theorem rowsOf_ne (h : Turn plan dryRun db name o db') {other : String} (hne : other ≠ name) :
    db'.rowsOf other = db.rowsOf other := by
  cases h with
  | applied direction _ _ _ => exact db.rowsOf_commit_ne name _ _ direction hne
  | _ => rfl

theorem versioned (h : Turn plan dryRun db name o db') (hv : db.Versioned) : db'.Versioned := by
  cases h with
  | applied direction _ _ _ => exact ScopeDb.Versioned.commit _ _ _ direction hv
  | _ => exact hv

theorem applied_inv {a : AppliedMigration} (h : Turn plan dryRun db name (.applied a) db') :
    a.name = name ∧ dryRun = false ∧ ∃ (new : SchemaSnapshot) (table : String)
      (direction : Direction), plan name = some (new, table) ∧
        db' = db.commit name new table direction := by
  generalize ho : Outcome.applied a = o at h
  cases h with
  | @applied new table direction hplan hdry _ =>
      cases ho
      exact ⟨rfl, hdry, new, table, direction, hplan, rfl⟩
  | _ => exact absurd ho (by simp)

/-- A turn that is not reported applied changes nothing. -/
theorem eq_of_not_applied (h : Turn plan dryRun db name o db')
    (ho : ∀ a, o ≠ .applied a) : db' = db := by
  cases h with
  | applied _ _ _ _ => exact absurd rfl (ho _)
  | _ => rfl

theorem eq_of_dryRun (h : Turn plan true db name o db') : db' = db := by
  cases h with
  | applied _ _ hdry _ => exact absurd hdry (by simp)
  | _ => rfl

end Turn

/-- Turns of other names keep a resource's rows. -/
theorem turns_rowsOf_ne {plan : Plan} {dryRun : Bool} {db db' : ScopeDb}
    {turns : List (String × Outcome)} (h : Run (turnStep plan dryRun) db turns db') {name : String}
    (hnot : name ∉ turns.map (·.1)) : db'.rowsOf name = db.rowsOf name := by
  induction h with
  | nil => rfl
  | snoc hrun hstep ih =>
      rw [List.map_append, List.mem_append, not_or] at hnot
      rw [Turn.rowsOf_ne hstep (by simpa using hnot.2), ih hnot.1]

/-- A name's turn, in a run of turns with distinct names: the rows of the name
are those of the start before it, and those of the end after it. -/
theorem turn_of_mem {plan : Plan} {dryRun : Bool} {db db' : ScopeDb}
    {turns : List (String × Outcome)} (h : Run (turnStep plan dryRun) db turns db')
    (hnd : (turns.map (·.1)).Nodup) {name : String} {o : Outcome} (hmem : (name, o) ∈ turns) :
    ∃ db₁ db₂, Turn plan dryRun db₁ name o db₂ ∧ db₁.rowsOf name = db.rowsOf name ∧
      db'.rowsOf name = db₂.rowsOf name := by
  obtain ⟨before, after, rfl⟩ := List.append_of_mem hmem
  obtain ⟨db₁, db₂, h₁, hturn, h₂⟩ := h.split
  rw [List.map_append, List.map_cons, List.nodup_append, List.nodup_cons] at hnd
  refine ⟨db₁, db₂, hturn, turns_rowsOf_ne h₁ fun hin => ?_, turns_rowsOf_ne h₂ hnd.2.1.1⟩
  exact hnd.2.2 name hin name List.mem_cons_self rfl

/-! ### The report -/

namespace Outcome

/-- The error an outcome puts into the report. -/
def error? : Outcome → Option MigrationError
  | refused e => some e
  | failed e => some e
  | _ => none

/-- The migration an outcome reports as applied. -/
def applied? : Outcome → Option AppliedMigration
  | applied a => some a
  | _ => none

end Outcome

/-- The report's errors are those of the outcomes. -/
theorem errors_foldl_record (outcomes : List Outcome) (r : MigrationReport) :
    (outcomes.foldl MigrationReport.record r).errors
      = r.errors ++ outcomes.filterMap Outcome.error? := by
  induction outcomes generalizing r with
  | nil => simp
  | cons o rest ih =>
      rw [List.foldl_cons, ih]
      cases o <;> simp [MigrationReport.record, Outcome.error?, List.filterMap_cons]

/-- The report's applied migrations are those of the outcomes. -/
theorem applied_foldl_record (outcomes : List Outcome) (r : MigrationReport) :
    (outcomes.foldl MigrationReport.record r).applied
      = r.applied ++ outcomes.filterMap Outcome.applied? := by
  induction outcomes generalizing r with
  | nil => simp
  | cons o rest ih =>
      rw [List.foldl_cons, ih]
      cases o <;> simp [MigrationReport.record, Outcome.applied?, List.filterMap_cons]

/-! ### The two paths are runs of turns -/

/-- A loop whose body is a turn of its item, with distinct names, is a run. The
body may rely on the rows its name had at the start. -/
theorem foldl_turns {α : Type*} (nameOf : α → String)
    (body : ScopeDb × MigrationReport → α → ScopeDb × MigrationReport) (plan : Plan)
    (dryRun : Bool) (items : List α) (db : ScopeDb) (report : MigrationReport)
    (hnd : (items.map nameOf).Nodup)
    (hbody : ∀ a ∈ items, ∀ (db' : ScopeDb) (r : MigrationReport),
      db'.rowsOf (nameOf a) = db.rowsOf (nameOf a) →
      ∃ o, (body (db', r) a).2 = r.record o ∧
        Turn plan dryRun db' (nameOf a) o (body (db', r) a).1) :
    ∃ turns : List (String × Outcome), turns.map (·.1) = items.map nameOf ∧
      Run (turnStep plan dryRun) db turns (items.foldl body (db, report)).1 ∧
      (items.foldl body (db, report)).2
        = (turns.map (·.2)).foldl MigrationReport.record report := by
  induction items using List.reverseRecOn with
  | nil => exact ⟨[], rfl, .nil, rfl⟩
  | append_singleton init last ih =>
      rw [List.map_append, List.nodup_append] at hnd
      obtain ⟨turns, hnames, hrun, hreport⟩ := ih hnd.1 fun a ha =>
        hbody a (List.mem_append_left _ ha)
      have hnot : nameOf last ∉ turns.map (·.1) := by
        rw [hnames]
        intro hin
        exact hnd.2.2 _ hin (nameOf last) (by simp) rfl
      obtain ⟨o, ho, hturn⟩ := hbody last (by simp) (init.foldl body (db, report)).1
        (init.foldl body (db, report)).2 (turns_rowsOf_ne hrun hnot)
      refine ⟨turns ++ [(nameOf last, o)], by simp [hnames], ?_, ?_⟩
      · rw [List.foldl_append, List.foldl_cons, List.foldl_nil]
        exact hrun.snoc hturn
      · rw [List.foldl_append, List.foldl_cons, List.foldl_nil, ho, hreport]
        simp

/-- The plan of a forward run. -/
def migratePlan (regs : List ResourceSpec) : Plan := fun name =>
  (regs.find? (·.key = name)).map fun reg =>
    (SchemaSnapshot.fromSql reg.name reg.schema, reg.name)

/-- With distinct keys, the plan of a resource's key is the resource's. -/
theorem migratePlan_of_mem {regs : List ResourceSpec} (hnd : (regs.map (·.key)).Nodup)
    {reg : ResourceSpec} (hmem : reg ∈ regs) :
    migratePlan regs reg.key = some (SchemaSnapshot.fromSql reg.name reg.schema, reg.name) := by
  have hfind : regs.find? (·.key = reg.key) = some reg := by
    cases h : regs.find? (·.key = reg.key) with
    | none => exact absurd (List.find?_eq_none.mp h reg hmem) (by simp)
    | some reg' =>
        have hkey : reg'.key = reg.key := by simpa using List.find?_some h
        rw [List.inj_on_of_nodup_map hnd (List.mem_of_find?_eq_some h) hmem hkey]
  rw [migratePlan, hfind]
  rfl

/-- One resource of a forward run is a turn, when the loaded history still holds
for it. -/
theorem migrateResource_turn {history : Std.ExtTreeMap String (Int × SchemaSnapshot)}
    {opts : MigrationOptions} {error : Option String} {db : ScopeDb} {reg : ResourceSpec}
    {plan : Plan} (hhist : history.getD reg.key (0, .default) = db.head reg.key)
    (hplan : plan reg.key = some (SchemaSnapshot.fromSql reg.name reg.schema, reg.name)) :
    Turn plan opts.dryRun db reg.key (migrateResource history opts error db reg).2
      (migrateResource history opts error db reg).1 := by
  simp only [migrateResource, hhist]
  split
  · rename_i hempty
    exact .skipped hplan (isEmpty_diff_iff.mp hempty)
  · rename_i hempty
    have hne := fun h => hempty (isEmpty_diff_iff.mpr h)
    split
    · rename_i hdry
      exact .planned hplan hdry hne
    · rename_i hdry
      have hdry' : opts.dryRun = false := by simpa using hdry
      split
      · exact .refused _ hdry'
      · split
        · exact .refused _ hdry'
        · cases error with
          | none => exact .applied .up hplan hdry' hne
          | some e => exact .failed _ hdry'

/-- Resources with distinct keys are ordered into resources with distinct keys. -/
theorem nodup_keys_orderResources {regs : List ResourceSpec} (hnd : (regs.map (·.key)).Nodup) :
    ((orderResources regs).map (·.key)).Nodup := by
  refine List.Nodup.map_on (fun a ha b hb hkey => ?_) (nodup_orderResources regs).of_map
  exact List.inj_on_of_nodup_map hnd (mem_of_mem_orderResources ha)
    (mem_of_mem_orderResources hb) hkey

/-- The forward path is a run of turns, one for each resource in order. -/
theorem run_turns {regs : List ResourceSpec} {db : ScopeDb} (hv : db.Versioned)
    (hnd : (regs.map (·.key)).Nodup) (opts : MigrationOptions) (txn : Nat → Option String)
    (report : MigrationReport) :
    ∃ turns : List (String × Outcome), turns.map (·.1) = (orderResources regs).map (·.key) ∧
      Run (turnStep (migratePlan regs) opts.dryRun) db turns (run regs opts txn db report).1 ∧
      (run regs opts txn db report).2
        = (turns.map (·.2)).foldl MigrationReport.record report := by
  refine foldl_turns ResourceSpec.key (runStep (loadHistory db) opts txn) _ _ _ db report
    (nodup_keys_orderResources hnd) fun reg hmem db' r hrows => ?_
  have hhist : (loadHistory db).getD reg.key (0, .default) = db'.head reg.key := by
    rw [loadHistory_getD hv, ScopeDb.head_congr hrows]
  exact ⟨_, rfl, migrateResource_turn hhist
    (migratePlan_of_mem hnd (mem_of_mem_orderResources hmem))⟩

/-- The plan of a revert, by the history it loaded. -/
def revertPlan (opts : RevertOptions) (db : ScopeDb) : Plan := fun name =>
  (revertTarget opts.toVersion
    ((db.rowsOf name).reverse.map fun row => (row.version, row.snapshot))
    (db.head name).1).map fun target => (target, (db.head name).2.table)

/-- One resource of a revert is a turn, when the loaded history still holds for
it. -/
theorem revertResource_turn {versions : List (Int × SchemaSnapshot)} {opts : RevertOptions}
    {error : Option String} {db : ScopeDb} {name : String}
    (hrows : versions = (db.rowsOf name).reverse.map fun row => (row.version, row.snapshot)) :
    Turn (revertPlan opts db) opts.dryRun db name (revertResource versions opts error db name).2
      (revertResource versions opts error db name).1 := by
  cases versions with
  | nil =>
      refine .idle ?_
      rw [revertPlan, ← hrows]
      cases hto : opts.toVersion <;> simp [revertTarget]
  | cons cur rest =>
      obtain ⟨curVersion, curSnap⟩ := cur
      -- The first of the loaded versions is the head.
      have hhead : db.head name = (curVersion, curSnap) := by
        rw [ScopeDb.head, ← List.head?_reverse, ← List.head?_map, ← hrows]
        rfl
      simp only [revertResource]
      cases htarget : revertTarget opts.toVersion ((curVersion, curSnap) :: rest) curVersion with
      | none =>
          refine .idle ?_
          rw [revertPlan, ← hrows, hhead, htarget]
          rfl
      | some target =>
          -- The target and the head's table are what the plan says.
          have hplan : revertPlan opts db name = some (target, (db.head name).2.table) := by
            rw [revertPlan, ← hrows, hhead, htarget]
            rfl
          simp only
          split
          · rename_i hempty
            exact .skipped hplan (by rw [hhead]; exact isEmpty_diff_iff.mp hempty)
          · rename_i hempty
            have hne : (db.head name).2.objects ≠ target.objects := by
              rw [hhead]
              exact fun h => hempty (isEmpty_diff_iff.mpr h)
            split
            · rename_i hdry
              have := Turn.planned hplan hdry hne
              rwa [hhead] at this
            · rename_i hdry
              have hdry' : opts.dryRun = false := by simpa using hdry
              split
              · exact .refused _ hdry'
              · split
                · exact .refused _ hdry'
                · cases error with
                  | none =>
                      have := Turn.applied .down hplan hdry' hne
                      simp only [hhead] at this
                      simpa [applyResource, ScopeDb.commit, hhead] using this
                  | some e => exact .failed _ hdry'

/-- The down path is a run of turns, one for each recorded resource. -/
theorem runRevert_turns {db : ScopeDb} (hv : db.Versioned) (opts : RevertOptions)
    (txn : Nat → Option String) (report : MigrationReport) :
    ∃ turns : List (String × Outcome), turns.map (·.1) = (loadFullHistory db).keys ∧
      Run (turnStep (revertPlan opts db) opts.dryRun) db turns
        (runRevert opts txn db report).1 ∧
      (runRevert opts txn db report).2
        = (turns.map (·.2)).foldl MigrationReport.record report := by
  have hnd : ((loadFullHistory db).keys.map id).Nodup := by
    rw [List.map_id]
    exact Std.ExtTreeMap.nodup_keys
  obtain ⟨turns, hnames, hrun, hreport⟩ := foldl_turns id
    (revertStep (loadFullHistory db) opts txn) (revertPlan opts db) opts.dryRun _ db report hnd
    fun name _ db' r hrows => by
      simp only [id] at hrows
      have hplan : revertPlan opts db' name = revertPlan opts db name := by
        rw [revertPlan, revertPlan, ScopeDb.head_congr hrows, hrows]
      have hversions : (loadFullHistory db).getD name []
          = (db'.rowsOf name).reverse.map fun row => (row.version, row.snapshot) := by
        rw [loadFullHistory_getD hv, hrows]
      have hturn := @revertResource_turn _ opts (txn r.considered) db' name hversions
      exact ⟨_, rfl, hturn.congr hplan⟩
  exact ⟨turns, by simpa using hnames, hrun, hreport⟩

end Frust.Orm
