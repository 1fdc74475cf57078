import Frust.Orm.Gate

/-!
# `Frust.Proofs.Orm.Lenient`: runs in the development environment

In `Dev` the classification gate refuses nothing. So where no call of the database fails, a real
run refuses only what destroys a column without leave, and with leave it refuses nothing
(`migrateScope_dev`). A dry run leaves the database as it is.
-/

set_option autoImplicit false

namespace Frust.Orm

open Frust.Rust

/-- The message of a destructive refusal. -/
def destructiveMessage (destructive : List String) : String :=
  "refusing destructive change(s) " ++ Str.debugStrs destructive
    ++ " — re-run with allow_destructive to apply"

/-- The errors are destructive refusals, of columns. -/
def OnlyRefusals (errors : List MigrationError) : Prop :=
  ∀ e ∈ errors, ∃ field rest, e.message = destructiveMessage (("REMOVE FIELD " ++ field) :: rest)

theorem classificationRefusal_dev (acknowledge : Bool) (r : FieldChangeReport) :
    classificationRefusal .dev acknowledge r = none := by
  unfold classificationRefusal Environment.decide
  cases r.nonDropSummary.worst with
  | none => rfl
  | some tier => cases tier <;> rfl

/-- Dropped columns are named with their statements. -/
theorem destructive_cons {d : SchemaDiff} (h : d.destructive.isEmpty = false) :
    ∃ field rest, d.destructive = ("REMOVE FIELD " ++ field) :: rest := by
  unfold SchemaDiff.destructive at h ⊢
  cases hdrops : d.drops.filter (·.kind = .field) with
  | nil => simp [hdrops] at h
  | cons o os => exact ⟨o.name, _, rfl⟩

/-- What a real turn does: it skips what is applied, refuses to destroy a column without leave, and
else runs one transaction. -/
inductive DevTurn (d : SchemaDiff) (old new : SchemaSnapshot) (version : Int)
    (opts : MigrationOptions) (error : Option String) (db : ScopeDb) (reg : ResourceSpec) :
    ScopeDb × Outcome → Prop where
  | skipped : d.isEmpty = true → DevTurn d old new version opts error db reg (db, .skipped)
  | refused (e : MigrationError) : d.isEmpty = false → d.destructive.isEmpty = false →
      opts.allowDestructive = false → DevTurn d old new version opts error db reg (db, .refused e)
  | failed (e : MigrationError) : d.isEmpty = false →
      (d.destructive.isEmpty = true ∨ opts.allowDestructive = true) → error ≠ none →
      DevTurn d old new version opts error db reg (db, .failed e)
  | applied (a : AppliedMigration) : d.isEmpty = false →
      (d.destructive.isEmpty = true ∨ opts.allowDestructive = true) → error = none →
      DevTurn d old new version opts error db reg
        (⟨db.history ++ [⟨reg.key, version + 1, new, .up⟩],
          (d.statements reg.name).foldl Stmt.apply db.live⟩, .applied a)

theorem devTurn {history : Std.ExtTreeMap String (Int × SchemaSnapshot)} {opts : MigrationOptions}
    (henv : opts.environment = .dev) (hdry : opts.dryRun = false) (error : Option String)
    (db : ScopeDb) {reg : ResourceSpec} {version : Int} {old new : SchemaSnapshot}
    (hold : history.getD reg.key (0, .default) = (version, old))
    (hnew : SchemaSnapshot.fromSql reg.name reg.schema = new) :
    DevTurn (diff old new) old new version opts error db reg
      (migrateResource history opts error db reg) := by
  unfold migrateResource
  simp only [hold, hnew, henv, hdry, classificationRefusal_dev, Bool.false_eq_true, if_false]
  split
  · rename_i hempty
    exact .skipped hempty
  · rename_i hpending
    rw [Bool.not_eq_true] at hpending
    split
    · rename_i hrefused
      rw [Bool.and_eq_true, Bool.not_eq_true', Bool.not_eq_true'] at hrefused
      exact .refused _ hpending hrefused.1 hrefused.2
    · rename_i hgo
      have hleave : (diff old new).destructive.isEmpty = true ∨ opts.allowDestructive = true := by
        by_contra hno
        rw [not_or, Bool.not_eq_true, Bool.not_eq_true] at hno
        exact hgo (by rw [hno.1, hno.2]; rfl)
      cases error with
      | none => exact .applied _ hpending hleave rfl
      | some e => exact .failed _ hpending hleave (by simp)

/-- What one turn may file: nothing, a plan, an applied migration, or a destructive refusal. -/
theorem migrateResource_dev (history : Std.ExtTreeMap String (Int × SchemaSnapshot))
    {opts : MigrationOptions} (henv : opts.environment = .dev) (db : ScopeDb) (reg : ResourceSpec)
    (report : MigrationReport) (h : OnlyRefusals report.errors) :
    OnlyRefusals (report.record (migrateResource history opts none db reg).2).errors ∧
    (opts.allowDestructive = true →
      (report.record (migrateResource history opts none db reg).2).errors = report.errors) := by
  unfold migrateResource
  simp only [henv, classificationRefusal_dev, applyResource]
  split
  · exact ⟨h, fun _ => rfl⟩
  · split
    · exact ⟨h, fun _ => rfl⟩
    · split
      · rename_i hrefused
        rw [Bool.and_eq_true, Bool.not_eq_true'] at hrefused
        constructor
        · intro e he
          rcases List.mem_append.mp he with he | he
          · exact h e he
          · obtain ⟨field, rest, hd⟩ := destructive_cons hrefused.1
            rw [List.mem_singleton.mp he]
            exact ⟨field, rest, by rw [← hd]; rfl⟩
        · intro hallow
          rw [hallow] at hrefused
          cases hrefused.2
      · exact ⟨h, fun _ => rfl⟩

/-- A run in `Dev` whose transactions commit. -/
theorem run_dev (regs : List ResourceSpec) {opts : MigrationOptions}
    (henv : opts.environment = .dev) (db : ScopeDb) (report : MigrationReport)
    (h : report.errors = []) :
    OnlyRefusals (run regs opts (fun _ => none) db report).2.errors ∧
    (opts.allowDestructive = true → (run regs opts (fun _ => none) db report).2.errors = []) := by
  unfold run
  -- the invariant of the loop, from any database and report
  suffices hloop : ∀ (regs : List ResourceSpec) (s : ScopeDb × MigrationReport),
      OnlyRefusals s.2.errors ∧ (opts.allowDestructive = true → s.2.errors = []) →
      OnlyRefusals (regs.foldl (runStep (loadHistory db) opts fun _ => none) s).2.errors ∧
      (opts.allowDestructive = true →
        (regs.foldl (runStep (loadHistory db) opts fun _ => none) s).2.errors = []) by
    refine hloop _ _ ⟨?_, fun _ => h⟩
    intro e he
    rw [h] at he
    cases he
  intro regs
  induction regs with
  | nil => exact fun s hs => hs
  | cons reg regs ih =>
      intro s hs
      obtain ⟨honly, hnone⟩ := migrateResource_dev (loadHistory db) henv s.1 reg s.2 hs.1
      refine ih _ ⟨honly, fun hallow => ?_⟩
      exact (hnone hallow).trans (hs.2 hallow)

theorem firstError_clear (bootstrapSql dryRun : Bool) (database : String) :
    firstError (migratePrelude bootstrapSql dryRun database {}) = .ok () := by
  cases bootstrapSql <;> cases dryRun <;> rfl

/-- A migration in `Dev` without failing calls reports destructive refusals, if anything. -/
theorem migrateScope_dev (location : StorageLocation) (regs : List ResourceSpec)
    {opts : MigrationOptions} (henv : opts.environment = .dev) (scope : String) (db : ScopeDb) :
    ∃ db' report, migrateScope false location regs opts scope {} db = (db', .ok report) ∧
      OnlyRefusals report.errors ∧ (opts.allowDestructive = true → report.errors = []) := by
  unfold migrateScope
  rw [firstError_clear]
  exact ⟨_, _, rfl, run_dev regs henv db _ rfl⟩

theorem migrateScope_dry (location : StorageLocation) (regs : List ResourceSpec)
    {opts : MigrationOptions} (hdry : opts.dryRun = true) (scope : String) (f : ScopeFaults)
    (db : ScopeDb) : (migrateScope false location regs opts scope f db).1 = db := by
  unfold migrateScope
  split
  · rfl
  · unfold run
    suffices hloop : ∀ (regs : List ResourceSpec) (s : ScopeDb × MigrationReport),
        (regs.foldl (runStep (loadHistory db) opts f.txn) s).1 = s.1 from hloop _ _
    intro regs
    induction regs with
    | nil => exact fun s => rfl
    | cons reg regs ih =>
        intro s
        rw [List.foldl_cons, ih]
        unfold runStep migrateResource
        simp only [hdry]
        split <;> rfl

theorem migrateScope_dry_ok (location : StorageLocation) (regs : List ResourceSpec)
    {opts : MigrationOptions} (hdry : opts.dryRun = true) (scope : String) (db : ScopeDb) :
    ∃ report, migrateScope false location regs opts scope {} db = (db, .ok report) := by
  have hsame := migrateScope_dry location regs hdry scope {} db
  unfold migrateScope at hsame ⊢
  rw [firstError_clear] at hsame ⊢
  exact ⟨_, Prod.ext hsame rfl⟩

end Frust.Orm
