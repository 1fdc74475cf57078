import Frust.Orm.Migrator

/-!
# `Frust.Proofs.Orm.Preview`: a dry run shows what a real run does

Both paths decide on each resource by the history that they loaded at their start, and a dry run
differs from a real one only after that decision. `Verdict` relates what the two say of one
resource, and `Previews` what they say of a scope. `previews_foldl` carries the first to the
second along the loop, and `run_previews` and `runRevert_previews` are the two paths.

No condition on the names of the resources is needed: two specs with one history key are both
planned, and both applied, from the history before the run.
-/

set_option autoImplicit false

namespace Frust.Orm

/-! ### One resource -/

/-- What a planned migration and an applied one have in common. -/
structure Change where
  name : String
  version : Int
  statements : List String
  classifications : FieldChangeReport
  deriving DecidableEq

/-- The change of a plan. -/
def PlannedMigration.change (p : PlannedMigration) : Change :=
  ⟨p.name, p.nextVersion, p.statements, p.classifications⟩

/-- The change that took effect. -/
def AppliedMigration.change (a : AppliedMigration) : Change :=
  ⟨a.name, a.version, a.statements, a.classifications⟩

/-- What a dry run and a real run say of one resource, and what the real one does. -/
inductive Verdict (db : ScopeDb) : (dry real : Outcome) → (db' : ScopeDb) → Prop where
  | skipped : Verdict db .skipped .skipped db
  | refused {p : PlannedMigration} {e : MigrationError} : e.name = p.name →
      Verdict db (.planned p) (.refused e) db
  | failed {p : PlannedMigration} {e : MigrationError} : e.name = p.name →
      Verdict db (.planned p) (.failed e) db
  | applied {p : PlannedMigration} {a : AppliedMigration} (statements : List Stmt)
      (row : HistoryRow) : a.change = p.change → statements.map Stmt.sql = a.statements →
      row.name = a.name → row.version = a.version →
      Verdict db (.planned p) (.applied a)
        ⟨db.history ++ [row], statements.foldl Stmt.apply db.live⟩

/-! ### A scope -/

/-- A dry run on `db` and a real one: the first changes nothing, and the second applies what the
first plans, but for what it refuses. -/
structure Previews (db : ScopeDb) (dry real : ScopeDb × MigrationReport) : Prop where
  unchanged : dry.1 = db
  applied : dry.2.applied = []
  errors : dry.2.errors = []
  considered : real.2.considered = dry.2.considered
  skipped : real.2.skipped = dry.2.skipped
  planned : real.2.planned = []
  /-- Each planned migration is refused under its name, or applied. -/
  verdicts : ∃ verdicts : List (PlannedMigration × Option MigrationError),
    verdicts.map (·.1) = dry.2.planned ∧
      (verdicts.filter (·.2.isNone)).map (·.1.change) = real.2.applied.map (·.change) ∧
      verdicts.filterMap (·.2) = real.2.errors ∧ ∀ v ∈ verdicts, ∀ e ∈ v.2, e.name = v.1.name
  /-- The applied statements took effect, and each applied migration is one row of the history. -/
  committed : ∃ (rows : List HistoryRow) (statements : List (List Stmt)),
    real.1 = ⟨db.history ++ rows, statements.flatten.foldl Stmt.apply db.live⟩ ∧
      rows.map (fun row => (row.name, row.version)) = real.2.applied.map (fun a => (a.name, a.version)) ∧
      statements.map (·.map Stmt.sql) = real.2.applied.map (·.statements)

theorem previews_start (db : ScopeDb) {report : MigrationReport} (happlied : report.applied = [])
    (hplanned : report.planned = []) (herrors : report.errors = []) :
    Previews db (db, report) (db, report) where
  unchanged := rfl
  applied := happlied
  errors := herrors
  considered := rfl
  skipped := rfl
  planned := hplanned
  verdicts := ⟨[], by simp [hplanned, happlied, herrors]⟩
  committed := ⟨[], [], by simp [happlied]⟩

theorem Previews.record {db db' : ScopeDb} {dry real : ScopeDb × MigrationReport} {o o' : Outcome}
    (h : Previews db dry real) (hverdict : Verdict real.1 o o' db') :
    Previews db (dry.1, dry.2.record o) (db', real.2.record o') := by
  -- A plan adds one verdict on the real side: applied, or the error that it met.
  obtain ⟨verdicts, hplanned, happlied, herrors, hnames⟩ := h.verdicts
  -- What is applied adds its row and its statements to what was committed.
  obtain ⟨rows, statements, hreal, hrows, hstatements⟩ := h.committed
  have hrefused : ∀ (p : PlannedMigration) (e : MigrationError), e.name = p.name →
      ∀ v ∈ verdicts ++ [(p, some e)], ∀ e' ∈ v.2, e'.name = v.1.name := by
    intro p e hname v hv e' he'
    rcases List.mem_append.mp hv with hv | hv
    · exact hnames v hv e' he'
    · obtain rfl := List.mem_singleton.mp hv
      cases he'
      exact hname
  cases hverdict with
  | skipped =>
      exact {
        unchanged := h.unchanged
        applied := h.applied
        errors := h.errors
        considered := congrArg (· + 1) h.considered
        skipped := congrArg (· + 1) h.skipped
        planned := h.planned
        verdicts := h.verdicts
        committed := h.committed }
  | @refused p e hname | @failed p e hname =>
      exact {
        unchanged := h.unchanged
        applied := h.applied
        errors := h.errors
        considered := congrArg (· + 1) h.considered
        skipped := h.skipped
        planned := h.planned
        verdicts := by
          refine ⟨verdicts ++ [(p, some e)], ?_, ?_, ?_, hrefused p e hname⟩
          · rw [List.map_append, hplanned]
            rfl
          · rw [List.filter_append, List.map_append, happlied]
            exact List.append_nil _
          · rw [List.filterMap_append, herrors]
            rfl
        committed := h.committed }
  | @applied p a stmts row hchange hsql hname hversion =>
      exact {
        unchanged := h.unchanged
        applied := h.applied
        errors := h.errors
        considered := congrArg (· + 1) h.considered
        skipped := h.skipped
        planned := h.planned
        verdicts := by
          refine ⟨verdicts ++ [(p, none)], ?_, ?_, ?_, ?_⟩
          · rw [List.map_append, hplanned]
            rfl
          · show _ = (real.2.applied ++ [a]).map _
            rw [List.filter_append, List.map_append, happlied, List.map_append]
            exact congrArg _ (congrArg (fun c => [c]) hchange.symm)
          · rw [List.filterMap_append, herrors]
            exact List.append_nil _
          · intro v hv e he
            rcases List.mem_append.mp hv with hv | hv
            · exact hnames v hv e he
            · obtain rfl := List.mem_singleton.mp hv
              cases he
        committed := by
          refine ⟨rows ++ [row], statements ++ [stmts], ?_, ?_, ?_⟩
          · rw [hreal, List.flatten_append, List.foldl_append, List.append_assoc]
            simp
          · show _ = (real.2.applied ++ [a]).map _
            rw [List.map_append, List.map_append, hrows]
            simp [hname, hversion]
          · show _ = (real.2.applied ++ [a]).map _
            rw [List.map_append, List.map_append, hstatements]
            simp [hsql] }

/-- What refuses nothing applies all that is planned. -/
theorem Previews.all {db : ScopeDb} {dry real : ScopeDb × MigrationReport} (h : Previews db dry real)
    (herrors : real.2.errors = []) :
    real.2.applied.map (·.change) = dry.2.planned.map (·.change) := by
  obtain ⟨verdicts, hplanned, happlied, hrefused, _⟩ := h.verdicts
  rw [herrors] at hrefused
  have hnone : verdicts.filter (·.2.isNone) = verdicts := by
    refine List.filter_eq_self.mpr fun v hv => ?_
    have hv' := List.filterMap_eq_nil_iff.mp hrefused v hv
    rw [hv']
    rfl
  rw [← happlied, ← hplanned, hnone, List.map_map]
  rfl

/-! ### The loops -/

/-- A loop whose turns give verdicts. -/
theorem previews_foldl {α : Type} {dryStep realStep : ScopeDb × MigrationReport → α →
      ScopeDb × MigrationReport} {db : ScopeDb}
    (hstep : ∀ (a : α) (db' : ScopeDb) (r r' : MigrationReport), ∃ o o',
      dryStep (db, r) a = (db, r.record o) ∧
        (realStep (db', r') a).2 = r'.record o' ∧ Verdict db' o o' (realStep (db', r') a).1)
    (items : List α) {dry real : ScopeDb × MigrationReport} (h : Previews db dry real) :
    Previews db (items.foldl dryStep dry) (items.foldl realStep real) := by
  induction items generalizing dry real with
  | nil => exact h
  | cons a items ih =>
      refine ih ?_
      obtain ⟨db₀, r⟩ := dry
      obtain ⟨db', r'⟩ := real
      obtain rfl : db₀ = db := h.unchanged
      obtain ⟨o, o', hdry, hreport, hverdict⟩ := hstep a db' r r'
      have hnext := h.record hverdict
      rw [hdry]
      rw [← hreport] at hnext
      exact hnext

/-- One resource of the forward path. -/
theorem migrateResource_verdict (history : Std.ExtTreeMap String (Int × SchemaSnapshot))
    (dry real : MigrationOptions) (error error' : Option String) (db db' : ScopeDb)
    (reg : ResourceSpec) :
    (migrateResource history { dry with dryRun := true } error db reg).1 = db ∧
      Verdict db' (migrateResource history { dry with dryRun := true } error db reg).2
        (migrateResource history { real with dryRun := false } error' db' reg).2
        (migrateResource history { real with dryRun := false } error' db' reg).1 := by
  unfold migrateResource
  dsimp only
  split
  · exact ⟨rfl, .skipped⟩
  · refine ⟨rfl, ?_⟩
    simp only [if_true, Bool.false_eq_true, if_false]
    -- from here on only the real run goes further
    split
    · exact .refused rfl
    · split
      · exact .refused rfl
      · cases error' with
        | some e => exact .failed rfl
        | none => exact .applied _ _ rfl rfl rfl rfl

theorem revertResource_verdict (versions : List (Int × SchemaSnapshot))
    (dry real : RevertOptions) (error error' : Option String) (db db' : ScopeDb) (name : String) :
    (revertResource versions { dry with dryRun := true, toVersion := real.toVersion } error db name).1
        = db ∧
      Verdict db'
        (revertResource versions { dry with dryRun := true, toVersion := real.toVersion } error db
          name).2
        (revertResource versions { real with dryRun := false } error' db' name).2
        (revertResource versions { real with dryRun := false } error' db' name).1 := by
  unfold revertResource
  cases versions with
  | nil => exact ⟨rfl, .skipped⟩
  | cons current older =>
      dsimp only
      split
      · exact ⟨rfl, .skipped⟩
      · split
        · exact ⟨rfl, .skipped⟩
        · refine ⟨rfl, ?_⟩
          simp only [if_true, Bool.false_eq_true, if_false]
          split
          · exact .refused rfl
          · split
            · exact .refused rfl
            · cases error' with
              | some e => exact .failed rfl
              | none => exact .applied _ _ rfl rfl rfl rfl

theorem run_previews (regs : List ResourceSpec) (dry real : MigrationOptions)
    (txn txn' : Nat → Option String) (db : ScopeDb) :
    Previews db (run regs { dry with dryRun := true } txn db {})
      (run regs { real with dryRun := false } txn' db {}) := by
  refine previews_foldl (fun reg db' r r' => ?_) _ (previews_start db rfl rfl rfl)
  obtain ⟨hdb, hverdict⟩ := migrateResource_verdict (loadHistory db) dry real
    (txn r.considered) (txn' r'.considered) db db' reg
  exact ⟨_, _, Prod.ext hdb rfl, rfl, hverdict⟩

theorem runRevert_previews (dry real : RevertOptions) (txn txn' : Nat → Option String)
    (db : ScopeDb) :
    Previews db (runRevert { dry with dryRun := true, toVersion := real.toVersion } txn db {})
      (runRevert { real with dryRun := false } txn' db {}) := by
  refine previews_foldl (fun name db' r r' => ?_) _ (previews_start db rfl rfl rfl)
  obtain ⟨hdb, hverdict⟩ := revertResource_verdict ((loadFullHistory db).getD name []) dry real
    (txn r.considered) (txn' r'.considered) db db' name
  exact ⟨_, _, Prod.ext hdb rfl, rfl, hverdict⟩

/-- On either path, for every history, every set of specs and all options: a dry run changes
nothing, a real run applies exactly what is planned and not refused, and all of it if it refuses
nothing. -/
theorem preview_is_apply (regs : List ResourceSpec) (dry real : MigrationOptions)
    (dryBack realBack : RevertOptions) (txn txn' : Nat → Option String) (db : ScopeDb) :
    (let planned := run regs { dry with dryRun := true } txn db {}
      let applied := run regs { real with dryRun := false } txn' db {}
      Previews db planned applied ∧ (applied.2.errors = [] →
        applied.2.applied.map (·.change) = planned.2.planned.map (·.change))) ∧
    (let planned := runRevert { dryBack with dryRun := true, toVersion := realBack.toVersion } txn db {}
      let applied := runRevert { realBack with dryRun := false } txn' db {}
      Previews db planned applied ∧ (applied.2.errors = [] →
        applied.2.applied.map (·.change) = planned.2.planned.map (·.change))) := by
  -- Both directions are one plan, run with and without writing.
  have hforward := run_previews regs dry real txn txn' db
  have hback := runRevert_previews dryBack realBack txn txn' db
  exact ⟨⟨hforward, hforward.all⟩, hback, hback.all⟩

end Frust.Orm
