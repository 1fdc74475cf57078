import Frust.Proofs.Orm.Turns

/-!
# `Frust.Proofs.Orm.Migrator`: the history is the schema

A `ScopeCall` is one call of `run` or `runRevert`, with any options and any
pattern of failing transactions. `ScopeDb.Sound` is the invariant of a sequence
of calls: the rows of each resource are numbered from one, each recorded snapshot
is of the resource's table, and the live objects of that table are those of the
latest snapshot.

A turn is diffed against the head of its history key, while its statements act on
a table. So the invariant needs history keys and tables to determine one another,
over the whole sequence (`OneKeyPerTable`). Two apps that take turns in describing
one table break it: `not_history_is_schema`.

`run_converges` says that a run without errors leaves the schema that its resources describe, from
wherever the calls before it got to, and that a run after it does nothing.
-/

set_option autoImplicit false

namespace Frust.Orm

open Frust.Lib

/-- One call of the migrator in a scope. -/
inductive ScopeCall where
  | run (regs : List ResourceSpec) (opts : MigrationOptions) (txn : Nat → Option String)
  | runRevert (opts : RevertOptions) (txn : Nat → Option String)

namespace ScopeCall

/-- The resources a call is given. -/
def specs : ScopeCall → List ResourceSpec
  | run regs _ _ => regs
  | runRevert _ _ => []

/-- The database and the report after a call. -/
def exec (db : ScopeDb) : ScopeCall → ScopeDb × MigrationReport
  | run regs opts txn => Orm.run regs opts txn db {}
  | runRevert opts txn => Orm.runRevert opts txn db {}

/-- A call as a step. -/
def step (db : ScopeDb) (call : ScopeCall) (db' : ScopeDb) : Prop := db' = (call.exec db).1

/-- The resources of one call have distinct history keys, and each defines
objects of its own table only. -/
def WellFormed (call : ScopeCall) : Prop :=
  (call.specs.map (·.key)).Nodup ∧
  ∀ reg ∈ call.specs, (SchemaSnapshot.fromSql reg.name reg.schema).Own

instance (call : ScopeCall) : Decidable call.WellFormed :=
  inferInstanceAs (Decidable (_ ∧ _))

end ScopeCall

/-- A history key names one table, and a table has one history key. -/
def OneKeyPerTable (specs : List ResourceSpec) : Prop :=
  ∀ r ∈ specs, ∀ r' ∈ specs, r.key = r'.key ↔ r.name = r'.name

instance (specs : List ResourceSpec) : Decidable (OneKeyPerTable specs) :=
  inferInstanceAs (Decidable (∀ r ∈ specs, ∀ r' ∈ specs, r.key = r'.key ↔ r.name = r'.name))

namespace ScopeDb

/-- The live non-table objects of each recorded resource's table are those of its
latest snapshot. -/
def HistoryIsSchema (db : ScopeDb) : Prop :=
  ∀ name row, (db.rowsOf name).getLast? = some row →
    ∀ k, NonTable k → db.live.at row.snapshot.table k = row.snapshot.defineAt k

/-- The invariant of a sequence of calls over the resources `specs`. -/
structure Sound (specs : List ResourceSpec) (db : ScopeDb) : Prop where
  versioned : db.Versioned
  /-- A recorded snapshot is of the table of its resource, and of no other. -/
  described : ∀ row ∈ db.history, row.snapshot.Own ∧
    ∃ reg ∈ specs, reg.key = row.name ∧ reg.name = row.snapshot.table
  /-- A resource that has no row yet has no live object. -/
  live : ∀ reg ∈ specs, ∀ k, NonTable k →
    db.live.at reg.name k = (db.head reg.key).2.defineAt k

theorem sound_empty (specs : List ResourceSpec) : ScopeDb.empty.Sound specs where
  versioned := versioned_empty
  described row h := absurd h List.not_mem_nil
  live reg _ k _ := by
    rw [head_of_rowsOf_nil (rowsOf_empty reg.key), SchemaSnapshot.defineAt_default]
    simp [LiveSchema.at, ScopeDb.empty]

theorem Sound.historyIsSchema {specs : List ResourceSpec} {db : ScopeDb} (h : db.Sound specs) :
    db.HistoryIsSchema := by
  intro name row hlast k hk
  have hmem := List.mem_of_getLast? hlast
  obtain ⟨_, reg, hreg, hkey, htable⟩ := h.described row (mem_history_of_mem_rowsOf hmem)
  have hname : row.name = name := name_of_mem_rowsOf hmem
  have hlive := h.live reg hreg k hk
  rw [hkey, hname, head_of_getLast? hlast, htable] at hlive
  exact hlive

end ScopeDb

/-! ### A turn keeps the invariant -/

/-- What a plan wants is a snapshot of the resource's own table. -/
def Plan.Good (specs : List ResourceSpec) (plan : Plan) : Prop :=
  ∀ name new table, plan name = some (new, table) →
    new.Own ∧ table = new.table ∧ ∃ reg ∈ specs, reg.key = name ∧ reg.name = new.table

theorem migratePlan_good {specs regs : List ResourceSpec} (hsub : regs ⊆ specs)
    (hown : ∀ reg ∈ regs, (SchemaSnapshot.fromSql reg.name reg.schema).Own) :
    (migratePlan regs).Good specs := by
  intro name new table h
  simp only [migratePlan, Option.map_eq_some_iff, Prod.mk.injEq] at h
  obtain ⟨reg, hfind, rfl, rfl⟩ := h
  have hmem := List.mem_of_find?_eq_some hfind
  have hkey : reg.key = name := by simpa using List.find?_some hfind
  exact ⟨hown reg hmem, by simp, reg, hsub hmem, hkey, by simp⟩

/-- The snapshot a revert aims at is recorded for the resource. -/
theorem mem_of_revertTarget {toVersion : Option Int} {rows : List HistoryRow} {cur : Int}
    {new : SchemaSnapshot}
    (h : revertTarget toVersion (rows.map fun row => (row.version, row.snapshot)) cur
      = some new) :
    ∃ row ∈ rows, row.snapshot = new ∧ ∀ v, toVersion = some v → row.version = v := by
  cases toVersion with
  | none =>
      simp only [revertTarget, List.getElem?_map, Option.map_map, Option.map_eq_some_iff] at h
      obtain ⟨row, hget, hsnap⟩ := h
      exact ⟨row, List.mem_of_getElem? hget, hsnap, fun v hv => absurd hv (by simp)⟩
  | some v =>
      simp only [revertTarget] at h
      split at h
      · simp only [List.find?_map, Option.map_map, Option.map_eq_some_iff] at h
        obtain ⟨row, hfind, hsnap⟩ := h
        have hver : row.version = v := by simpa using List.find?_some hfind
        exact ⟨row, List.mem_of_find?_eq_some hfind, hsnap, fun v' hv' => by
          rw [hver]; exact Option.some.inj hv'⟩
      · exact absurd h (by simp)

theorem revertPlan_good {specs : List ResourceSpec} {db : ScopeDb} (h : db.Sound specs)
    (hone : OneKeyPerTable specs) (opts : RevertOptions) : (revertPlan opts db).Good specs := by
  intro name new table hplan
  simp only [revertPlan, Option.map_eq_some_iff, Prod.mk.injEq] at hplan
  obtain ⟨target, htarget, rfl, rfl⟩ := hplan
  obtain ⟨row, hrow, rfl, _⟩ := mem_of_revertTarget htarget
  rw [List.mem_reverse] at hrow
  obtain ⟨hown, reg, hreg, hkey, htable⟩ :=
    h.described row (ScopeDb.mem_history_of_mem_rowsOf hrow)
  rw [ScopeDb.name_of_mem_rowsOf hrow] at hkey
  refine ⟨hown, ?_, reg, hreg, hkey, htable⟩
  -- the latest row of the same resource is of the same table
  obtain ⟨last, hlast⟩ : ∃ last, (db.rowsOf name).getLast? = some last := by
    cases hl : (db.rowsOf name).getLast? with
    | some last => exact ⟨last, rfl⟩
    | none =>
        rw [List.getLast?_eq_none_iff] at hl
        rw [hl] at hrow
        exact absurd hrow List.not_mem_nil
  have hlastMem := List.mem_of_getLast? hlast
  obtain ⟨_, reg', hreg', hkey', htable'⟩ :=
    h.described last (ScopeDb.mem_history_of_mem_rowsOf hlastMem)
  rw [ScopeDb.name_of_mem_rowsOf hlastMem] at hkey'
  rw [ScopeDb.head_of_getLast? hlast, ← htable', ← htable]
  exact (hone reg' hreg' reg hreg).mp (hkey'.trans hkey.symm)

theorem Turn.sound {specs : List ResourceSpec} {plan : Plan} {dryRun : Bool}
    {db db' : ScopeDb} {name : String} {o : Outcome} (hone : OneKeyPerTable specs)
    (hgood : plan.Good specs) (h : Turn plan dryRun db name o db') (hs : db.Sound specs) :
    db'.Sound specs := by
  cases h with
  | @applied new table direction hplan _ _ =>
      obtain ⟨hown, rfl, reg, hreg, hkey, htable⟩ := hgood name new table hplan
      refine ⟨hs.versioned.commit _ _ _ _, fun row hrow => ?_, fun reg' hreg' k hk => ?_⟩
      · rcases List.mem_append.mp hrow with hold | hnew
        · exact hs.described row hold
        · rw [List.mem_singleton] at hnew
          subst hnew
          exact ⟨hown, reg, hreg, hkey, htable⟩
      · -- The resource that was applied is at its new head, and the tables of the others are not
        -- touched.
        by_cases hk' : reg'.key = name
        · have hname : reg'.name = new.table := by
            rw [← htable]
            exact (hone reg' hreg' reg hreg).mp (hk'.trans hkey.symm)
          rw [hk', ScopeDb.head_commit_self, hname]
          refine statements_foldl_self hown db.live (fun k hk => ?_) k hk
          rw [← hname, hs.live reg' hreg' k hk, hk']
        · have hname : reg'.name ≠ new.table := fun hn => hk' <| by
            rw [← hkey]
            exact (hone reg' hreg' reg hreg).mpr (hn.trans htable.symm)
          have hhead : (db.commit name new new.table direction).head reg'.key
              = db.head reg'.key :=
            ScopeDb.head_congr (db.rowsOf_commit_ne name new new.table direction hk')
          rw [hhead, ← hs.live reg' hreg' k hk]
          simp only [LiveSchema.at, ScopeDb.commit]
          rw [statements_foldl_ne hown db.live hname]
  | _ => exact hs

/-- A run of turns keeps the rows and the table of a resource that none of them
reports applied. -/
theorem turns_frame {specs : List ResourceSpec} {plan : Plan} {dryRun : Bool}
    {db db' : ScopeDb} {turns : List (String × Outcome)} (hone : OneKeyPerTable specs)
    (hgood : plan.Good specs) (h : Run (turnStep plan dryRun) db turns db') {reg : ResourceSpec}
    (hreg : reg ∈ specs) (hnot : ∀ a, (reg.key, Outcome.applied a) ∉ turns) :
    db'.rowsOf reg.key = db.rowsOf reg.key ∧ db'.live reg.name = db.live reg.name := by
  refine h.invariant_of_mem (I := fun d => d.rowsOf reg.key = db.rowsOf reg.key ∧
    d.live reg.name = db.live reg.name) ⟨rfl, rfl⟩ fun a label b hmem hinv hstep => ?_
  obtain ⟨name, o⟩ := label
  have hturn : Turn plan dryRun a name o b := hstep
  by_cases hname : reg.key = name
  · subst hname
    rw [hturn.eq_of_not_applied fun x hx => hnot x (hx ▸ hmem)]
    exact hinv
  · refine ⟨(hturn.rowsOf_ne hname).trans hinv.1, ?_⟩
    cases hturn with
    | @applied new table direction hplan _ _ =>
        obtain ⟨hown, rfl, reg', hreg', hkey', htable'⟩ := hgood name new table hplan
        have hne : reg.name ≠ new.table := fun hn => hname <| by
          rw [← hkey']
          exact (hone reg hreg reg' hreg').mpr (hn.trans htable'.symm)
        simp only [ScopeDb.commit]
        rw [statements_foldl_ne hown a.live hne]
        exact hinv.2
    | _ => exact hinv.2

/-! ### A call is a run of turns -/

/-- A call is a run of turns under a good plan, and its report records their
outcomes. The plan of a revert aims at recorded snapshots. -/
theorem ScopeCall.turns {specs : List ResourceSpec} {call : ScopeCall} {db : ScopeDb}
    (hwf : call.WellFormed) (hsub : call.specs ⊆ specs) (hone : OneKeyPerTable specs)
    (hs : db.Sound specs) :
    ∃ (plan : Plan) (dryRun : Bool) (turns : List (String × Outcome)), plan.Good specs ∧
      (turns.map (·.1)).Nodup ∧ Run (turnStep plan dryRun) db turns (call.exec db).1 ∧
      (call.exec db).2.applied = (turns.map (·.2)).filterMap Outcome.applied? ∧
      ∀ opts txn, call = .runRevert opts txn → plan = revertPlan opts db := by
  cases call with
  | run regs opts txn =>
      have hnd : (regs.map (·.key)).Nodup := hwf.1
      obtain ⟨turns, hnames, hrun, hreport⟩ := run_turns hs.versioned hnd opts txn {}
      refine ⟨_, _, turns, migratePlan_good hsub hwf.2, ?_, hrun, ?_, fun _ _ h => nomatch h⟩
      · rw [hnames]
        exact nodup_keys_orderResources hnd
      · rw [exec, hreport, applied_foldl_record, List.nil_append]
  | runRevert opts txn =>
      obtain ⟨turns, hnames, hrun, hreport⟩ := runRevert_turns hs.versioned opts txn {}
      refine ⟨_, _, turns, revertPlan_good hs hone opts, ?_, hrun, ?_, ?_⟩
      · rw [hnames]
        exact Std.ExtTreeMap.nodup_keys
      · rw [exec, hreport, applied_foldl_record, List.nil_append]
      · rintro opts' txn' ⟨⟩
        rfl

theorem ScopeCall.exec_sound {specs : List ResourceSpec} {call : ScopeCall} {db : ScopeDb}
    (hwf : call.WellFormed) (hsub : call.specs ⊆ specs) (hone : OneKeyPerTable specs)
    (hs : db.Sound specs) : (call.exec db).1.Sound specs := by
  obtain ⟨plan, dryRun, turns, hgood, _, hrun, _⟩ := turns hwf hsub hone hs
  exact hrun.invariant hs fun a label b ha hstep => Turn.sound hone hgood hstep ha

/-- The migrations a run of turns reports are named after their resource. -/
theorem mem_applied_iff {plan : Plan} {dryRun : Bool} {db db' : ScopeDb}
    {turns : List (String × Outcome)} (h : Run (turnStep plan dryRun) db turns db')
    (a : AppliedMigration) :
    a ∈ (turns.map (·.2)).filterMap Outcome.applied? ↔ (a.name, Outcome.applied a) ∈ turns := by
  simp only [List.mem_filterMap, List.mem_map]
  constructor
  · rintro ⟨o, ⟨⟨name, o'⟩, hmem, rfl⟩, ho⟩
    cases o' with
    | applied a' =>
        obtain rfl : a' = a := by simpa [Outcome.applied?] using ho
        obtain ⟨before, after, rfl⟩ := List.append_of_mem hmem
        obtain ⟨db₁, db₂, _, hturn, _⟩ := h.split
        rwa [(Turn.applied_inv hturn).1]
    | _ => exact absurd ho (by simp [Outcome.applied?])
  · intro hmem
    exact ⟨.applied a, ⟨_, hmem, rfl⟩, rfl⟩

/-! ### Main result -/

/-- Take a sequence of calls from the empty database, each with distinct history
keys and own-table objects, in which keys and tables determine one another. After
its last call the versions of each resource are `1, …, n` and the live objects of
each recorded table are those of the latest snapshot. A resource that the last
call does not report applied kept its rows and its table, and one that a revert to
version `v` reports applied ends with the objects recorded at `v`. -/
theorem history_is_schema (calls : List ScopeCall) (last : ScopeCall) (db : ScopeDb)
    (hrun : Run ScopeCall.step ScopeDb.empty calls db)
    (hwf : ∀ call ∈ calls ++ [last], call.WellFormed)
    (hone : OneKeyPerTable ((calls ++ [last]).flatMap ScopeCall.specs)) :
    (last.exec db).1.Versioned ∧ (last.exec db).1.HistoryIsSchema ∧
    (∀ reg ∈ (calls ++ [last]).flatMap ScopeCall.specs,
      (∀ a ∈ (last.exec db).2.applied, a.name ≠ reg.key) →
      (last.exec db).1.rowsOf reg.key = db.rowsOf reg.key ∧
        (last.exec db).1.live reg.name = db.live reg.name) ∧
    (∀ opts txn v, last = .runRevert opts txn → opts.toVersion = some v →
      ∀ a ∈ (last.exec db).2.applied, ∃ row ∈ db.rowsOf a.name, row.version = v ∧
        ((last.exec db).1.head a.name).2 = row.snapshot ∧
        ∀ k, NonTable k →
          (last.exec db).1.live.at row.snapshot.table k = row.snapshot.defineAt k) := by
  have hsub : ∀ call ∈ calls ++ [last],
      call.specs ⊆ (calls ++ [last]).flatMap ScopeCall.specs :=
    fun call hmem reg hreg => List.mem_flatMap.mpr ⟨call, hmem, hreg⟩
  generalize (calls ++ [last]).flatMap ScopeCall.specs = specs at hone hsub ⊢
  -- `Sound` is the invariant: it holds of the empty scope, and each call keeps it.
  have hs : db.Sound specs := by
    refine hrun.invariant_of_mem (ScopeDb.sound_empty specs) fun a call b hmem ha hstep => ?_
    have hmem' : call ∈ calls ++ [last] := List.mem_append_left _ hmem
    rw [hstep]
    exact ScopeCall.exec_sound (hwf call hmem') (hsub call hmem') hone ha
  have hlast : last ∈ calls ++ [last] := by simp
  have hs' := ScopeCall.exec_sound (hwf last hlast) (hsub last hlast) hone hs
  obtain ⟨plan, dryRun, turns, hgood, hnd, hturns, happlied, hrevert⟩ :=
    ScopeCall.turns (hwf last hlast) (hsub last hlast) hone hs
  refine ⟨hs'.versioned, hs'.historyIsSchema, fun reg hreg hnot => ?_, ?_⟩
  · -- A resource that is not applied had no turn, so nothing of it was written.
    refine turns_frame hone hgood hturns hreg fun a ha => ?_
    have hin : a ∈ (last.exec db).2.applied := by
      rw [happlied]
      exact List.mem_filterMap.mpr ⟨_, List.mem_map.mpr ⟨_, ha, rfl⟩, rfl⟩
    obtain ⟨before, after, rfl⟩ := List.append_of_mem ha
    obtain ⟨_, _, _, hturn, _⟩ := hturns.split
    exact hnot a hin (Turn.applied_inv hturn).1
  · rintro opts txn v hcall hto a ha
    rw [happlied, mem_applied_iff hturns] at ha
    -- Its own turn wrote the head, and no later turn is about the same resource.
    obtain ⟨db₁, db₂, hturn, hbefore, hafter⟩ := turn_of_mem hturns hnd ha
    obtain ⟨_, _, new, table, direction, hplan, rfl⟩ := hturn.applied_inv
    rw [hrevert opts txn hcall] at hplan
    simp only [revertPlan, Option.map_eq_some_iff, Prod.mk.injEq] at hplan
    obtain ⟨target, htarget, rfl, _⟩ := hplan
    obtain ⟨row, hrow, rfl, hver⟩ := mem_of_revertTarget htarget
    rw [List.mem_reverse] at hrow
    have hhead : ((last.exec db).1.head a.name).2 = row.snapshot := by
      rw [ScopeDb.head_congr hafter, ScopeDb.head_commit_self]
    refine ⟨row, hrow, hver v hto, hhead, fun k hk => ?_⟩
    -- What is live is what the head describes, and the head is the row that was reverted to.
    obtain ⟨_, reg, hreg, hkey, htable⟩ :=
      hs.described row (ScopeDb.mem_history_of_mem_rowsOf hrow)
    rw [ScopeDb.name_of_mem_rowsOf hrow] at hkey
    have hlive := hs'.live reg hreg k hk
    rwa [hkey, hhead, htable] at hlive

/-- A resource with one field. -/
def customerV1 : ResourceSpec := ⟨"a", "t", "DEFINE FIELD x ON TABLE t", []⟩

/-- Its second version, with two. -/
def customerV2 : ResourceSpec :=
  ⟨"a", "t", "DEFINE FIELD x ON TABLE t;DEFINE FIELD y ON TABLE t", []⟩

/-- The same table, described by another app. -/
def customerOther : ResourceSpec := ⟨"b", "t", "DEFINE FIELD y ON TABLE t", []⟩

/-- Two migrations of a table, and a revert to the first. -/
theorem history_is_schema_customer :
    let calls := [ScopeCall.run [customerV1] {} fun _ => none,
      .run [customerV2] {} fun _ => none]
    let last := ScopeCall.runRevert { toVersion := some 1, allowDestructive := true }
      fun _ => none
    let db := calls.foldl (fun db call => (call.exec db).1) ScopeDb.empty
    (last.exec db).1.Versioned ∧ (last.exec db).1.HistoryIsSchema := by
  intro calls last db
  have hrun : Run ScopeCall.step ScopeDb.empty calls db :=
    (Run.snoc (.snoc .nil rfl) rfl : Run ScopeCall.step _ ([] ++ [_] ++ [_]) _)
  have h := history_is_schema calls last db hrun (by decide +kernel) (by decide +kernel)
  exact ⟨h.1, h.2.1⟩

/-- Distinct keys in each call are not enough: two apps that describe one table in
turn leave a live field that the first app's snapshot lacks. -/
theorem not_history_is_schema :
    ¬ ∀ (calls : List ScopeCall) (db : ScopeDb), Run ScopeCall.step ScopeDb.empty calls db →
      (∀ call ∈ calls, call.WellFormed) → db.HistoryIsSchema := by
  intro h
  let calls := [ScopeCall.run [customerV1] {} fun _ => none,
    .run [customerOther] {} fun _ => none]
  let db := calls.foldl (fun db call => (call.exec db).1) ScopeDb.empty
  have hrun : Run ScopeCall.step ScopeDb.empty calls db :=
    (Run.snoc (.snoc .nil rfl) rfl : Run ScopeCall.step _ ([] ++ [_] ++ [_]) _)
  have hschema := h calls db hrun (by decide +kernel)
  -- the live table has the field `y`, and the snapshot of the first app does not
  have hfacts : (db.rowsOf "a__t").getLast?.map
        (fun row => (row.snapshot.table, row.snapshot.defineAt "field:y")) = some ("t", none) ∧
      db.live.at "t" "field:y" ≠ none := by decide +kernel
  obtain ⟨row, hrow, hsnap⟩ := Option.map_eq_some_iff.mp hfacts.1
  obtain ⟨htable, hdef⟩ := Prod.mk.inj hsnap
  have hfield : NonTable "field:y" := by
    intro name hname
    have := congrArg (fun s : String => s.toList.head?) hname
    simp [ObjectKind.keyword, String.toList_append] at this
  have hlive := hschema _ row hrow "field:y" hfield
  rw [htable, hdef] at hlive
  exact hfacts.2 hlive

/-! ### A run, and one more -/

/-- The snapshot that a resource describes. -/
abbrev ResourceSpec.described (reg : ResourceSpec) : SchemaSnapshot :=
  SchemaSnapshot.fromSql reg.name reg.schema

/-- Nothing stands in the way of a run: it may do everything, and no transaction fails. -/
structure Unhindered (opts : MigrationOptions) (txn : Nat → Option String) : Prop where
  destructive : opts.allowDestructive = true
  acknowledged : opts.acknowledge = true
  commits : ∀ i, txn i = none

theorem classificationRefusal_acknowledged (env : Environment) (r : FieldChangeReport) :
    classificationRefusal env true r = none := by
  unfold classificationRefusal Environment.decide
  cases hworst : r.nonDropSummary.worst with
  | none => rfl
  | some severity => cases severity <;> simp

section

variable {history : Std.ExtTreeMap String (Int × SchemaSnapshot)} {opts : MigrationOptions}
  {txn : Nat → Option String}

/-- A resource whose latest snapshot is what it describes is left alone. -/
theorem migrateResource_of_described {error : Option String} {db : ScopeDb} {reg : ResourceSpec}
    (h : (history.getD reg.key (0, .default)).2.objects = reg.described.objects) :
    migrateResource history opts error db reg = (db, .skipped) := by
  simp only [migrateResource]
  rw [if_pos (isEmpty_diff_iff.mpr h)]

theorem error?_of_unhindered (h : Unhindered opts txn) (i : Nat) (db : ScopeDb)
    (reg : ResourceSpec) : (migrateResource history opts (txn i) db reg).2.error? = none := by
  simp only [migrateResource, h.destructive, h.acknowledged, h.commits i,
    classificationRefusal_acknowledged]
  split
  · rfl
  · split
    · rfl
    · simp [applyResource, Outcome.error?]

/-- Resources that all are what they describe are skipped. -/
theorem foldl_runStep_of_described {regs : List ResourceSpec} {db : ScopeDb}
    (h : ∀ reg ∈ regs, (history.getD reg.key (0, .default)).2.objects = reg.described.objects)
    (report : MigrationReport) :
    regs.foldl (runStep history opts txn) (db, report)
      = (db, { report with
          considered := report.considered + regs.length
          skipped := report.skipped + regs.length }) := by
  induction regs generalizing report with
  | nil => rfl
  | cons reg rest ih =>
      have hstep : runStep history opts txn (db, report) reg = (db, report.record .skipped) := by
        unfold runStep
        rw [migrateResource_of_described (h reg List.mem_cons_self)]
      rw [List.foldl_cons, hstep, ih fun r hr => h r (List.mem_cons_of_mem _ hr)]
      simp only [MigrationReport.record, List.length_cons]
      congr 2
      · omega
      · omega

/-- A run that nothing stands in the way of has no errors. -/
theorem errors_of_unhindered (h : Unhindered opts txn) (regs : List ResourceSpec)
    (s : ScopeDb × MigrationReport) :
    (regs.foldl (runStep history opts txn) s).2.errors = s.2.errors := by
  induction regs generalizing s with
  | nil => rfl
  | cons reg rest ih =>
      rw [List.foldl_cons, ih]
      have hnone : (migrateResource history opts _ s.1 reg).2.error? = none :=
        error?_of_unhindered h s.2.considered s.1 reg
      show (s.2.record (migrateResource history opts (txn s.2.considered) s.1 reg).2).errors = _
      cases ho : (migrateResource history opts (txn s.2.considered) s.1 reg).2 with
      | refused e => simp [ho, Outcome.error?] at hnone
      | failed e => simp [ho, Outcome.error?] at hnone
      | _ => rfl

end

/-- After a run without errors the latest snapshot of each resource is what it describes. -/
theorem head_of_run {regs : List ResourceSpec} {opts : MigrationOptions}
    {txn : Nat → Option String} {db : ScopeDb} (hv : db.Versioned)
    (hnd : (regs.map (·.key)).Nodup) (hreal : opts.dryRun = false)
    (hok : (run regs opts txn db {}).2.errors = []) {reg : ResourceSpec}
    (hmem : reg ∈ orderResources regs) :
    ((run regs opts txn db {}).1.head reg.key).2.objects = reg.described.objects := by
  obtain ⟨turns, hnames, hrun, hreport⟩ := run_turns hv hnd opts txn {}
  have hkey : reg.key ∈ turns.map (·.1) := hnames ▸ List.mem_map_of_mem hmem
  obtain ⟨⟨name, o⟩, hturn, rfl⟩ := List.mem_map.mp hkey
  have hnodup : (turns.map (·.1)).Nodup := hnames ▸ nodup_keys_orderResources hnd
  obtain ⟨db₁, db₂, hstep, _, hafter⟩ := turn_of_mem hrun hnodup hturn
  have hnone : o.error? = none := by
    rw [hreport, errors_foldl_record, List.nil_append, List.filterMap_eq_nil_iff] at hok
    exact hok o (List.mem_map_of_mem hturn)
  have hplan : migratePlan regs reg.key = some (reg.described, reg.name) :=
    migratePlan_of_mem hnd (mem_of_mem_orderResources hmem)
  rw [ScopeDb.head_congr hafter]
  -- its turn left it as it is described, or committed that
  cases hstep with
  | idle hidle => exact absurd (hplan.symm.trans hidle) (by simp)
  | skipped hskip hobjects =>
      cases hplan.symm.trans hskip
      exact hobjects
  | planned _ hdry _ => exact absurd (hreal.symm.trans hdry) (by simp)
  | refused message _ => cases hnone
  | failed message _ => cases hnone
  | applied direction happlied _ _ =>
      cases hplan.symm.trans happlied
      rw [ScopeDb.head_commit_self]

end Frust.Orm
