import Frust.Proofs.Kernel.Extensions

/-!
# `Frust.Proofs.Kernel.Refusal`: what a refused install leaves

The gates of an install only read (`installGates_same`), so what they refuse changes nothing. Two
checks stand behind the first writes: an extension must fit the record that it finds, which is asked
after the migration and after the bundle's own DocTypes are written, and the name of a workflow must
be an identifier, which is asked after all of the records are.

`refused_iff` says when a refused install leaves the database as it was.
-/

set_option autoImplicit false

namespace Frust.Kernel

open Frust.Lib Frust.Orm Frust.Rust

/-! ### The checks behind the first writes -/

/-- An extension fits a record: it is there, no one else has the fields, and an app's scripts can be
taken out of it. -/
def Manifest.Fits (m : Manifest) (e : ExtensionDecl) (row : Option DocTypeRow) : Prop :=
  ∃ r, row = some r ∧ checkConflicts m e r e.fields = .ok () ∧ TenantDb.strippable r = true

/-- Each extension fits the record that those before it leave. -/
def Manifest.FitFrom (m : Manifest) : List ExtensionDecl → (String → Option DocTypeRow) → Prop
  | [], _ => True
  | e :: rest, rows =>
      m.Fits e (rows e.doctype) ∧ m.FitFrom rest fun name => m.extendAt name (rows name) e

/-- The extensions of a bundle fit the records that its own DocTypes leave. -/
def ExtensionsFit (m : Manifest) (s : TenantDb) : Prop :=
  m.FitFrom m.extends fun name => m.doctypes.foldl (m.attachAt name) (s.doctypes.lookup name)

/-- The workflows of a bundle have names. -/
def WorkflowsNamed (m : Manifest) : Prop := ∀ w ∈ m.workflows, isIdent w.name = true

section

open AppProg

variable {engine : RowEngine} {luck : MigrationPhase → ScopeFaults} {α β : Type} {s s' : TenantDb}
  {m : Manifest}

/-! ### Programs that only read -/

/-- A program's statements leave the database as it is. -/
def AppProg.Reads (luck : MigrationPhase → ScopeFaults) (p : AppProg α) : Prop :=
  p.Only fun q => ∀ (engine : RowEngine) (s : TenantDb), (TenantDb.serve engine luck s q).2 = s

theorem AppProg.Reads.same {p : AppProg α} (h : p.Reads luck) (s : TenantDb) :
    (p.exec engine luck s).2 = s := by
  refine Prog.Only.run_invariant (I := fun t => t = s) ?_ h rfl
  intro t q hq ht
  rw [hq engine t, ht]

theorem AppProg.Reads.bind {p : AppProg α} {f : α → AppProg β} (h : p.Reads luck)
    (hf : ∀ a, (f a).Reads luck) : (p >>= f).Reads luck :=
  Prog.Only.bind h hf

/-- What stays within nothing only reads. -/
theorem AppProg.Within.reads {p : AppProg α} (h : p.Within []) : p.Reads luck := by
  refine h.only.mono fun q hq engine s => ?_
  have hnone : q.part = none := by
    cases hpart : q.part with
    | none => rfl
    | some part => exact absurd (hq part hpart) List.not_mem_nil
  have hsame (part : Part) : part.Same (TenantDb.serve engine luck s q).2 s :=
    serve_same q (by simp [hnone])
  have hd : (TenantDb.serve engine luck s q).2.doctypes = s.doctypes := hsame .doctypes
  have hw : (TenantDb.serve engine luck s q).2.workflows = s.workflows := hsame .workflows
  have hn : (TenantDb.serve engine luck s q).2.notifications = s.notifications :=
    hsame .notifications
  have ha : (TenantDb.serve engine luck s q).2.apps = s.apps := hsame .apps
  have hp : (TenantDb.serve engine luck s q).2.provenance = s.provenance := hsame .provenance
  have hr : (TenantDb.serve engine luck s q).2.rows = s.rows := hsame .rows
  have hs : (TenantDb.serve engine luck s q).2.schema = s.schema := hsame .schema
  generalize (TenantDb.serve engine luck s q).2 = t at *
  cases t
  cases s
  simp_all

theorem planUnchecked_reads (m : Manifest) {opts : MigrationOptions} (hdry : opts.dryRun = true) :
    (planUnchecked m opts).Reads luck := by
  unfold planUnchecked
  refine (Within.reads loadDoctypes_within.attempt).bind fun existing => ?_
  refine (Within.reads (Within.done _)).bind fun specs => ?_
  refine Reads.bind ⟨fun engine s => ?_, fun _ => trivial⟩ fun schema => ?_
  · have hmigrate := migrateScope_dry (⟨"", ""⟩ : StorageLocation) (tenantSpecs specs) hdry
      "tenant:default" (luck .plan) s.schema
    simp only [TenantDb.serve, hdry, if_true, TenantDb.migrated, hmigrate]
  · exact (Within.reads (Within.done _)).bind fun _ => trivial

theorem AppProg.Reads.lift (r : Except BrokerError α) : (AppProg.lift r).Reads luck :=
  Within.reads (Within.done _)

theorem AppProg.Reads.pure (a : α) : (Pure.pure a : AppProg α).Reads luck :=
  Within.reads (Within.done _)

theorem installed_reads (name : String) : (installed name).Reads luck :=
  Within.reads (Within.read rfl)

-- a program is not to be run while its parts are looked up
attribute [local irreducible] AppProg.Reads

theorem planApp_reads (m : Manifest) : (planApp m).Reads luck := by
  unfold planApp
  refine (Reads.lift _).bind fun _ => ?_
  refine (planUnchecked_reads m rfl).bind fun plan => ?_
  exact (planFixtures_within m).reads.bind fun _ => Reads.pure _

theorem installGates_reads (m : Manifest) (acknowledge isUpdate : Bool) :
    (installGates m acknowledge isUpdate).Reads luck := by
  unfold installGates
  refine (Reads.lift _).bind fun _ => ?_
  refine (installed_reads m.name).bind fun existing => ?_
  refine (Reads.lift _).bind fun _ => ?_
  refine (planApp_reads m).bind fun plans => ?_
  refine (Reads.lift _).bind fun _ => ?_
  refine (extensionCasualties_within m _).reads.bind fun casualties => ?_
  exact (Reads.lift _).bind fun _ => (Reads.lift _).bind fun _ => Reads.pure _

/-- The gates leave the database as it is. -/
theorem installGates_same (m : Manifest) (acknowledge isUpdate : Bool) (s : TenantDb) :
    ((installGates m acknowledge isUpdate).exec engine luck s).2 = s :=
  (installGates_reads m acknowledge isUpdate).same s

/-! ### When the checks pass -/

theorem checkIdent_of_isIdent {name : String} (h : isIdent name = true) :
    checkIdent name = .ok () := by
  simp [checkIdent, h]

/-- An extension that fits is applied. -/
theorem attachExtension_ok {e : ExtensionDecl} (hident : isIdent e.doctype = true)
    (h : m.Fits e (s.doctypes.lookup e.doctype)) :
    ∃ t, (attachExtension m e).exec engine luck s = (.ok (), t) := by
  obtain ⟨row, hrow, hconflicts, hstrippable⟩ := h
  have hstrip : (sql (.strip e.doctype m.name)).exec engine luck s = (.ok (), { s with
      doctypes := modify e.doctype (TenantDb.stripRow m.name) s.doctypes }) := by
    rw [exec_sql]
    simp [TenantDb.serve, hrow, hstrippable]
  have hfound : (sql (.doctype e.doctype)).exec engine luck s = (.ok (some row), s) := by
    rw [exec_sql]
    exact congrArg (fun r => (Except.ok r, s)) hrow
  unfold attachExtension
  rw [exec_bind_ok (exec_check (checkIdent_of_isIdent hident) s), exec_bind_ok hfound,
    exec_bind_ok (exec_check hconflicts s)]
  exact ⟨_, (exec_bind_ok hstrip).trans
    ((exec_bind_ok (addFields_exec _ _ _)).trans (addScripts_exec _ _ _))⟩

/-- The extensions are applied if and only if each of them fits. -/
theorem attachEach_ok_iff {es : List ExtensionDecl}
    (hidents : ∀ e ∈ es, isIdent e.doctype = true) {rows : String → Option DocTypeRow}
    (hrows : ∀ name, s.doctypes.lookup name = rows name) :
    (∃ t, (attachEach m es).exec engine luck s = (.ok (), t)) ↔ m.FitFrom es rows := by
  induction es generalizing s rows with
  | nil => exact ⟨fun _ => trivial, fun _ => ⟨s, rfl⟩⟩
  | cons e es ih =>
      have hident : isIdent e.doctype = true := hidents e List.mem_cons_self
      have hrest : ∀ e' ∈ es, isIdent e'.doctype = true :=
        fun e' he' => hidents e' (List.mem_cons_of_mem _ he')
      constructor
      · rintro ⟨t, h⟩
        obtain ⟨_, u, he, h⟩ := exec_bind_inv h
        obtain ⟨hfits, hlookup⟩ := attachExtension_inv he
        refine ⟨hrows e.doctype ▸ hfits, (ih hrest fun name => ?_).mp ⟨t, h⟩⟩
        rw [hlookup, hrows]
      · rintro ⟨hfits, hfrom⟩
        have he : ∃ u, (attachExtension m e).exec engine luck s = (.ok (), u) :=
          attachExtension_ok hident (hrows e.doctype ▸ hfits)
        obtain ⟨u, he⟩ := he
        obtain ⟨_, hlookup⟩ := attachExtension_inv he
        obtain ⟨t, h⟩ := (ih hrest fun name => by rw [hlookup, hrows]).mpr hfrom
        exact ⟨t, (exec_bind_ok he).trans h⟩

theorem attachWorkflows_within (ws : List WorkflowDef) :
    (attachWorkflows ws).Within [.workflows] := by
  induction ws with
  | nil => exact Within.done _
  | cons w ws ih =>
      refine Within.bind (Within.done _) fun _ => Within.bind (Within.done _) fun _ => ?_
      refine Within.bind (Within.statement fun part hpart => ?_) fun _ => ih
      cases hpart
      exact List.mem_singleton_self _

/-- The workflows are written if and only if they have names. -/
theorem attachWorkflows_ok_iff {ws : List WorkflowDef}
    (hidents : ∀ w ∈ ws, isIdent w.doctype = true) :
    (∃ t, (attachWorkflows ws).exec engine luck s = (.ok (), t)) ↔
      ∀ w ∈ ws, isIdent w.name = true := by
  induction ws generalizing s with
  | nil => exact ⟨fun _ w hw => absurd hw List.not_mem_nil, fun _ => ⟨s, rfl⟩⟩
  | cons w ws ih =>
      have hdoctype : checkIdent w.doctype = .ok () :=
        checkIdent_of_isIdent (hidents w List.mem_cons_self)
      have hrest : ∀ w' ∈ ws, isIdent w'.doctype = true :=
        fun w' hw' => hidents w' (List.mem_cons_of_mem _ hw')
      constructor
      · rintro ⟨t, h⟩
        obtain ⟨_, hname, h⟩ := exec_lift_bind_inv h
        obtain ⟨_, _, h⟩ := exec_lift_bind_inv h
        obtain ⟨_, u, _, h⟩ := exec_bind_inv h
        exact List.forall_mem_cons.mpr ⟨checkIdent_ok hname, (ih hrest).mp ⟨t, h⟩⟩
      · intro hnames
        obtain ⟨hname, hnames⟩ := List.forall_mem_cons.mp hnames
        obtain ⟨t, h⟩ := (ih (s := { s with workflows := put w.name w s.workflows }) hrest).mpr hnames
        unfold attachWorkflows
        rw [exec_bind_ok (exec_check (checkIdent_of_isIdent hname) s),
          exec_bind_ok (exec_check hdoctype s)]
        exact ⟨t, (exec_bind_ok (exec_sql _ _)).trans h⟩

/-- The DocTypes are written if they have names. -/
theorem attachDoctypes_ok {dts : List DocTypeDef} (h : ∀ dt ∈ dts, isIdent dt.name = true)
    (s : TenantDb) : ∃ t, (attachDoctypes m dts).exec engine luck s = (.ok (), t) := by
  induction dts generalizing s with
  | nil => exact ⟨s, rfl⟩
  | cons dt dts ih =>
      have hdt : (attachDoctype m dt).exec engine luck s = _ :=
        attachDoctype_exec (h dt List.mem_cons_self) s
      obtain ⟨t, hrest⟩ := ih (fun dt' hdt' => h dt' (List.mem_cons_of_mem _ hdt')) _
      exact ⟨t, (exec_bind_ok hdt).trans hrest⟩

/-! ### Refusals -/

/-- What is attached before the fixtures. -/
def attachDeclared (syncs : Bool) (m : Manifest) : AppProg Unit := do
  attachMetadata syncs m
  attachWorkflows m.workflows
  attachNotifications m.notifications

/-- A refusal that the bundle and the stored metadata decide: by a gate, at an extension, at the
name of a workflow, or at a fixture that another app ships. -/
inductive Refused (engine : RowEngine) (luck : MigrationPhase → ScopeFaults) (syncs : Bool)
    (m : Manifest) (acknowledge isUpdate : Bool) (s : TenantDb) (e : BrokerError) : Prop
  | gates {t : TenantDb}
      (h : (installGates m acknowledge isUpdate).exec engine luck s = (.error e, t))
  | extension {applied : InstallPlan} {t u v : TenantDb}
      (happly : (planUnchecked m (applyOptions acknowledge)).exec engine luck s = (.ok applied, t))
      (hown : (attachDoctypes m m.doctypes).exec engine luck t = (.ok (), u))
      (h : (attachEach m m.extends).exec engine luck u = (.error e, v))
  | workflow {applied : InstallPlan} {t u v : TenantDb}
      (happly : (planUnchecked m (applyOptions acknowledge)).exec engine luck s = (.ok applied, t))
      (hmeta : (attachMetadata syncs m).exec engine luck t = (.ok (), u))
      (h : (attachWorkflows m.workflows).exec engine luck u = (.error e, v))
  | fixture {applied : InstallPlan} {t u v : TenantDb} {fs rest : List FixtureDecl} {f : FixtureDecl}
      {p : Provenance}
      (happly : (planUnchecked m (applyOptions acknowledge)).exec engine luck s = (.ok applied, t))
      (hmeta : (attachDeclared syncs m).exec engine luck t = (.ok (), u))
      (hsplit : m.fixtures = fs ++ f :: rest)
      (hfixtures : (applyFixtures m fs).exec engine luck u = (.ok (), v))
      (hfound : v.provenance.lookup (fixtureProvenanceId f.doctype f.key) = some p)
      (hother : p.app ≠ m.name)
      (h : e = .fixtureRefused ambiguousOwner f.doctype f.key [p.app, m.name]
        (declaredByBoth m f p.app))

/-- An install that is refused leaves the database as it was. -/
def RefusedUnchanged (engine : RowEngine) (luck : MigrationPhase → ScopeFaults) (syncs : Bool)
    (m : Manifest) (acknowledge isUpdate : Bool) (s : TenantDb) : Prop :=
  ∀ e s', (installApp syncs m acknowledge isUpdate).exec engine luck s = (.error e, s') →
    Refused engine luck syncs m acknowledge isUpdate s e → s' = s

/-- The gates refuse, or every check behind the first writes passes. -/
def RefusesFirst (engine : RowEngine) (luck : MigrationPhase → ScopeFaults) (m : Manifest)
    (acknowledge isUpdate : Bool) (s : TenantDb) : Prop :=
  (∃ e t, (installGates m acknowledge isUpdate).exec engine luck s = (.error e, t)) ∨
    ExtensionsFit m s ∧ WorkflowsNamed m

/-- The migrations of an install go through: that of the bundle, and the sync after its extensions. -/
structure Migrates (engine : RowEngine) (luck : MigrationPhase → ScopeFaults) (syncs : Bool)
    (m : Manifest) (acknowledge : Bool) (s : TenantDb) : Prop where
  applied : ∃ plan t, (planUnchecked m (applyOptions acknowledge)).exec engine luck s = (.ok plan, t)
    ∧ checkApplied plan.schema = .ok ()
  synced : ∀ plan t u v,
    (planUnchecked m (applyOptions acknowledge)).exec engine luck s = (.ok plan, t) →
    (attachDoctypes m m.doctypes).exec engine luck t = (.ok (), u) →
    (attachEach m m.extends).exec engine luck u = (.ok (), v) →
    ∃ w, (syncExtended syncs m).exec engine luck v = (.ok (), w)

/-! ### Names of a valid bundle -/

theorem kernel_isIdent {name : String} (h : Manifest.isIdent name = true) : isIdent name = true := by
  unfold Manifest.isIdent at h
  exact (Bool.and_eq_true _ _ ▸ h).1

theorem isIdent_of_doctypeProblems {dts : List DocTypeDef} {seen : List String}
    (h : Manifest.doctypeProblems seen dts = []) : ∀ dt ∈ dts, isIdent dt.name = true := by
  induction dts generalizing seen with
  | nil => exact fun dt hdt => absurd hdt List.not_mem_nil
  | cons dt dts ih =>
      simp only [Manifest.doctypeProblems, List.append_eq_nil_iff, problem_eq_nil] at h
      refine List.forall_mem_cons.mpr ⟨kernel_isIdent (by simpa using h.1.1.1), ih h.2⟩

/-- The DocTypes of a valid bundle have names. -/
theorem isIdent_of_declared (hvalid : m.validate = []) : ∀ dt ∈ m.doctypes, isIdent dt.name = true := by
  unfold Manifest.validate at hvalid
  simp only [List.append_eq_nil_iff] at hvalid
  exact isIdent_of_doctypeProblems hvalid.1.1.1.1.1.1.1.1.2

/-- The extensions of a valid bundle name a DocType. -/
theorem isIdent_of_extends (hvalid : m.validate = []) :
    ∀ e ∈ m.extends, isIdent e.doctype = true := by
  intro e he
  have hproblems := extensionProblems_nil hvalid he
  unfold Manifest.extensionProblems at hproblems
  simp only [List.append_eq_nil_iff, problem_eq_nil] at hproblems
  exact kernel_isIdent (by simpa using hproblems.1.1.1.1)

/-- A workflow of a valid bundle is one of a DocType of the bundle. -/
theorem isIdent_of_workflow (hvalid : m.validate = []) :
    ∀ w ∈ m.workflows, isIdent w.doctype = true := by
  intro w hw
  have hproblems := workflowProblems_nil hvalid hw
  unfold Manifest.workflowProblems at hproblems
  simp only [List.append_eq_nil_iff, problem_eq_nil] at hproblems
  have howns : m.owns w.doctype = true := by simpa using hproblems.1.1.1
  obtain ⟨dt, hdt, hname⟩ := List.any_eq_true.mp howns
  rw [← beq_iff_eq.mp hname]
  exact isIdent_of_declared hvalid dt hdt

/-! ### What is left -/

/-- A record that is an app's. -/
def OwnedBy (app name : String) (s : TenantDb) : Prop :=
  ∃ row, s.doctypes.lookup name = some row ∧ row.app = some app

/-- A change of some record that leaves it to its owner. -/
theorem OwnedBy.modified {app name : String} (h : OwnedBy app name s) {doctype : String}
    {f : DocTypeRow → DocTypeRow} (hf : ∀ row, (f row).app = row.app) :
    OwnedBy app name { s with doctypes := modify doctype f s.doctypes } := by
  obtain ⟨row, hrow, happ⟩ := h
  by_cases hname : name = doctype
  · exact ⟨f row, by simp [hname ▸ hrow, hname], by rw [hf, happ]⟩
  · exact ⟨row, by simp [hname, hrow], happ⟩

/-- A statement that leaves a record to its owner. -/
def KeepsOwner (app name : String) (q : DbRequest) : Prop :=
  ∀ (engine : RowEngine) (luck : MigrationPhase → ScopeFaults) (t : TenantDb), OwnedBy app name t →
    OwnedBy app name (TenantDb.serve engine luck t q).2

theorem addFields_keepsOwner (app name doctype : String) (fs : List StoredField) :
    (addFields doctype fs).Only (KeepsOwner app name) := by
  induction fs with
  | nil => trivial
  | cons f fs ih =>
      refine Prog.Only.bind ⟨fun _ _ t ht => ?_, fun _ => trivial⟩ fun _ => ih
      exact ht.modified fun _ => rfl

theorem addScripts_keepsOwner (app name doctype : String) (xs : List ScriptRow) :
    (addScripts doctype xs).Only (KeepsOwner app name) := by
  induction xs with
  | nil => trivial
  | cons x xs ih =>
      refine Prog.Only.bind ⟨fun _ _ t ht => ?_, fun _ => trivial⟩ fun _ => ih
      exact ht.modified fun _ => rfl

theorem attachExtension_keepsOwner (m : Manifest) (app name : String) (e : ExtensionDecl) :
    (attachExtension m e).Only (KeepsOwner app name) := by
  unfold attachExtension
  refine Prog.Only.bind trivial fun _ => ?_
  refine Prog.Only.bind ⟨fun _ _ t ht => ht, fun _ => trivial⟩ fun row => ?_
  cases row with
  | none => trivial
  | some row =>
      refine Prog.Only.bind trivial fun _ => ?_
      refine Prog.Only.bind ⟨fun _ _ t ht => ?_, fun _ => trivial⟩ fun _ => ?_
      · -- where the scripts are a text, the statement fails and changes nothing
        simp only [TenantDb.serve]
        split
        · exact ht.modified fun _ => rfl
        · exact ht
      · exact (addFields_keepsOwner app name _ _).bind fun _ => addScripts_keepsOwner app name _ _

/-- The extensions leave a record to its owner. -/
theorem attachEach_owned {app name : String} {es : List ExtensionDecl} {r : Except BrokerError Unit}
    (h : OwnedBy app name s) (hrun : (attachEach m es).exec engine luck s = (r, s')) :
    OwnedBy app name s' := by
  have hall (es : List ExtensionDecl) : (attachEach m es).Only (KeepsOwner app name) := by
    induction es with
    | nil => trivial
    | cons e es ih => exact (attachExtension_keepsOwner m app name e).bind fun _ => ih
  have hkept : OwnedBy app name ((attachEach m es).exec engine luck s).2 :=
    Prog.Only.run_invariant (fun t q hq ht => hq engine luck t ht) (hall es) h
  rw [hrun] at hkept
  exact hkept

/-- The DocTypes of a bundle become the app's. -/
theorem attachDoctypes_owned {dt : DocTypeDef} (hdt : dt ∈ m.doctypes)
    (h : (attachDoctypes m m.doctypes).exec engine luck s = (.ok (), s')) :
    OwnedBy m.name dt.name s' := by
  unfold OwnedBy
  rw [attachDoctypes_inv h]
  obtain ⟨pre, post, hsplit⟩ := List.append_of_mem hdt
  rw [hsplit, List.foldl_append, List.foldl_cons]
  -- from the DocType on, whatever it finds, the record is the app's
  have hkeep (dts : List DocTypeDef) (row : DocTypeRow) (happ : row.app = some m.name) :
      ∃ row', dts.foldl (m.attachAt dt.name) (some row) = some row' ∧ row'.app = some m.name := by
    induction dts generalizing row with
    | nil => exact ⟨row, rfl, happ⟩
    | cons dt' dts ih =>
        rw [List.foldl_cons]
        unfold Manifest.attachAt
        split
        · exact ih _ (attachedRow_app m dt' _)
        · exact ih row happ
  unfold Manifest.attachAt at hkeep ⊢
  rw [if_pos rfl]
  exact hkeep post _ (attachedRow_app m dt _)

/-! ### Fixtures of other apps -/

/-- A record that no other app ships. -/
def NotOthers (app id : String) (s : TenantDb) : Prop :=
  ∀ p, s.provenance.lookup id = some p → p.app = app

/-- A plan without an ambiguous owner has met no fixture of another app. -/
theorem collectFixtures_notOthers {stored : List DocTypeDef} {fs : List FixtureDecl}
    {found : FixtureFindings} (h : (collectFixtures m stored fs).exec engine luck s = (.ok found, s'))
    (hnone : found.ambiguous = []) :
    ∀ f ∈ fs, NotOthers m.name (fixtureProvenanceId f.doctype f.key) s := by
  induction fs generalizing s found with
  | nil => exact fun f hf => absurd hf List.not_mem_nil
  | cons f fs ih =>
      obtain ⟨one, t, hone, h⟩ := exec_bind_inv h
      obtain ⟨more, u, hmore, h⟩ := exec_bind_inv h
      cases h
      obtain ⟨hone_none, hmore_none⟩ := List.append_eq_nil_iff.mp hnone
      have hsame : t.provenance = s.provenance :=
        (planFixture_within m stored f).same_of_ok (List.not_mem_nil (a := Part.provenance)) hone
      refine List.forall_mem_cons.mpr ⟨fun p hp => ?_, fun f' hf' => ?_⟩
      · by_contra hother
        replace hone := (exec_bind_ok (exec_sql (.provenance _) s)).symm.trans hone
        have hfilter : (s.provenance.lookup (fixtureProvenanceId f.doctype f.key)).filter
            (·.app ≠ m.name) = some p := by
          rw [hp, Option.filter_some, if_pos (by simpa using hother)]
        simp only [hfilter] at hone
        cases hone
        cases hone_none
      · have hrest := ih hmore hmore_none f' hf'
        unfold NotOthers at hrest ⊢
        rwa [hsame] at hrest

/-- A statement that leaves a record to no other app. -/
def KeepsProvider (app id : String) (q : DbRequest) : Prop :=
  ∀ (engine : RowEngine) (luck : MigrationPhase → ScopeFaults) (t : TenantDb), NotOthers app id t →
    NotOthers app id (TenantDb.serve engine luck t q).2

theorem keepsProvider_of_part {app id : String} {q : DbRequest} (h : q.part ≠ some .provenance) :
    KeepsProvider app id q := by
  intro engine luck t ht
  have hsame : (TenantDb.serve engine luck t q).2.provenance = t.provenance := serve_same q h
  unfold NotOthers at ht ⊢
  rwa [hsame]

theorem claim_keepsProvider {app : String} (id id' : String) {p : Provenance} (h : p.app = app) :
    KeepsProvider app id (.claim id' p) := by
  intro engine luck t ht p' hp'
  simp only [TenantDb.serve] at hp'
  split at hp'
  · exact ht p' hp'
  · rw [lookup_put] at hp'
    split at hp'
    · cases hp'
      exact h
    · exact ht p' hp'

theorem ship_keepsProvider {app : String} (id id' : String) {p : Provenance} (h : p.app = app) :
    KeepsProvider app id (.ship id' p) := by
  intro engine luck t ht p' hp'
  simp only [TenantDb.serve, lookup_modify] at hp'
  split at hp'
  · obtain ⟨_, _, rfl⟩ := Option.map_eq_some_iff.mp hp'
    exact h
  · exact ht p' hp'

/-- What a fixture asks of the provenance is a claim and a shipment of its own record. -/
theorem applyFixture_only {P : DbRequest → Prop} {f : FixtureDecl}
    (hread : ∀ q : DbRequest, q.part ≠ some .provenance → P q)
    (hclaim : ∀ row : Provenance, row.app = m.name →
      P (.claim (fixtureProvenanceId f.doctype f.key) row))
    (hship : ∀ row : Provenance, row.app = m.name →
      P (.ship (fixtureProvenanceId f.doctype f.key) row)) : (applyFixture m f).Only P := by
  have hask {q : DbRequest} (hq : q.part ≠ some .provenance) : (sql q).Only P :=
    ⟨hread q hq, fun _ => trivial⟩
  have hrecord (doctype key : String) : (fixtureRecord doctype key).Only P :=
    Prog.Only.bind trivial fun _ => Prog.Only.bind trivial fun _ => hask (by simp [DbRequest.part])
  have hclaimed : (claimFixture m f).Only P := by
    unfold claimFixture
    refine Prog.Only.bind ⟨hclaim _ rfl, fun _ => trivial⟩ fun claim => ?_
    split
    · trivial
    · refine Prog.Only.bind (hask (by simp [DbRequest.part])) fun raced => ?_
      split
      · trivial
      · split <;> trivial
  unfold applyFixture
  refine (hrecord _ _).bind fun current => ?_
  refine (hask (by simp [DbRequest.part])).bind fun provenance => ?_
  split
  · trivial
  · refine Prog.Only.bind ?_ fun _ => Prog.Only.bind trivial fun content => ?_
    · unfold claimUnowned
      split
      · exact hclaimed
      · trivial
    · refine (hask (by simp [DbRequest.part])).bind fun _ => Prog.Only.bind ?_ fun _ => ?_
      · unfold clearFields
        cases (clearedFields f current).isEmpty with
        | true => trivial
        | false => exact hask (by simp [DbRequest.part])
      · refine (hrecord _ _).bind fun row => ?_
        split
        · trivial
        · exact ⟨hship _ rfl, fun _ => trivial⟩

theorem applyFixtures_keepsProvider (id : String) (fs : List FixtureDecl) :
    (applyFixtures m fs).Only (KeepsProvider m.name id) := by
  induction fs with
  | nil => trivial
  | cons f fs ih =>
      -- A claim and a shipped row are the module's own.
      have hone : (applyFixture m f).Only (KeepsProvider m.name id) :=
        applyFixture_only (fun q => keepsProvider_of_part)
          (fun row => claim_keepsProvider id _) fun row => ship_keepsProvider id _
      exact hone.bind fun _ => ih

/-- Where the gates pass, no fixture of the bundle is another app's. -/
theorem installGates_notOthers {acknowledge isUpdate : Bool} {admitted : Admitted} {t : TenantDb}
    (h : (installGates m acknowledge isUpdate).exec engine luck s = (.ok admitted, t)) :
    ∀ f ∈ m.fixtures, NotOthers m.name (fixtureProvenanceId f.doctype f.key) s := by
  obtain ⟨_, _, h⟩ := exec_lift_bind_inv h
  replace h := (exec_bind_ok (exec_sql _ _)).symm.trans h
  obtain ⟨_, _, h⟩ := exec_lift_bind_inv h
  obtain ⟨plans, u, hplan, _⟩ := exec_bind_inv h
  obtain ⟨_, _, hplan⟩ := exec_lift_bind_inv hplan
  obtain ⟨plan, v, hschema, hplan⟩ := exec_bind_inv hplan
  obtain ⟨fixtures, w, hfixtures, _⟩ := exec_bind_inv hplan
  have hsame : v.provenance = s.provenance :=
    (planUnchecked_within m _).same_of_ok (show Part.provenance ∉ _ by decide) hschema
  replace hfixtures := (exec_bind_ok (loadDoctypes_exec v)).symm.trans hfixtures
  obtain ⟨found, y, hfound, hchecks⟩ := exec_bind_inv hfixtures
  have hnone : found.ambiguous = [] := by
    by_contra hambiguous
    split at hchecks
    · cases congrArg Prod.fst hchecks
    · rw [if_pos (by simpa using hambiguous)] at hchecks
      cases congrArg Prod.fst hchecks
  intro f hf
  have hv := collectFixtures_notOthers hfound hnone f hf
  unfold NotOthers at hv ⊢
  rwa [hsame] at hv

/-! ### Refused installs -/

section

variable {syncs acknowledge isUpdate : Bool}

theorem attachDeclared_within (syncs : Bool) (m : Manifest) :
    (attachDeclared syncs m).Within [.doctypes, .workflows, .notifications, .schema, .rows] := by
  have hnotifications (ns : List NotificationDef) :
      (attachNotifications ns).Within [.notifications] := by
    induction ns with
    | nil => exact Within.done _
    | cons n ns ih =>
        refine Within.bind (Within.done _) fun _ => Within.bind (Within.statement ?_) fun _ => ih
        intro part hpart
        cases hpart
        exact List.mem_singleton_self _
  have hmeta : (attachMetadata syncs m).Within [.doctypes, .schema, .rows] := by
    refine Within.bind ((attachDoctypes_within m _).mono (by simp)) fun _ => ?_
    refine Within.bind ((attachEach_within m _).mono (by simp)) fun _ => ?_
    exact (syncExtended_within syncs m).mono (by simp)
  refine (hmeta.mono (by simp)).bind fun _ => ?_
  refine ((attachWorkflows_within _).mono (by simp)).bind fun _ => ?_
  exact (hnotifications _).mono (by simp)

/-- What the gates refuse changes nothing. -/
theorem refused_by_gates {e e' : BrokerError} {t : TenantDb}
    (hgates : (installGates m acknowledge isUpdate).exec engine luck s = (.error e', t))
    (h : (installApp syncs m acknowledge isUpdate).exec engine luck s = (.error e, s')) : s' = s := by
  have hsame : ((installGates m acknowledge isUpdate).exec engine luck s).2 = s :=
    installGates_same m acknowledge isUpdate s
  rw [hgates] at hsame
  unfold installApp at h
  rw [exec_bind_error hgates] at h
  cases h
  exact hsame

/-- The records that the extensions find, after the migration and the bundle's own DocTypes. -/
theorem lookup_attached {applied : InstallPlan} {t u : TenantDb}
    (happly : (planUnchecked m (applyOptions acknowledge)).exec engine luck s = (.ok applied, t))
    (hown : (attachDoctypes m m.doctypes).exec engine luck t = (.ok (), u)) (name : String) :
    u.doctypes.lookup name = m.doctypes.foldl (m.attachAt name) (s.doctypes.lookup name) := by
  have hsame : t.doctypes = s.doctypes :=
    (planUnchecked_within m _).same_of_ok (show Part.doctypes ∉ _ by decide) happly
  rw [attachDoctypes_inv hown, hsame]

/-- Where every check passes that stands behind the first writes, nothing is refused there. -/
theorem not_refused_behind {admitted : Admitted} {t : TenantDb} {e : BrokerError}
    (hgates : (installGates m acknowledge isUpdate).exec engine luck s = (.ok admitted, t))
    (hfit : ExtensionsFit m s) (hnamed : WorkflowsNamed m) :
    ¬ Refused engine luck syncs m acknowledge isUpdate s e := by
  have hvalid := (installGates_inv hgates).1
  intro href
  cases href with
  | gates h => cases hgates.symm.trans h
  | extension happly hown h =>
      obtain ⟨v, hok⟩ :=
        (attachEach_ok_iff (isIdent_of_extends hvalid) (lookup_attached happly hown)).mpr hfit
      cases hok.symm.trans h
  | @workflow applied t u v happly hmeta h =>
      have hok : ∃ v, (attachWorkflows m.workflows).exec engine luck u = (.ok (), v) :=
        (attachWorkflows_ok_iff (isIdent_of_workflow hvalid)).mpr hnamed
      obtain ⟨v, hok⟩ := hok
      cases hok.symm.trans h
  | @fixture applied t u v fs rest f p happly hmeta hsplit hfixtures hfound hother h =>
      -- what the plan has not met, neither the metadata nor the fixtures before it bring
      have hmem : f ∈ m.fixtures := hsplit ▸ List.mem_append_right fs List.mem_cons_self
      have hstart : NotOthers m.name (fixtureProvenanceId f.doctype f.key) s :=
        installGates_notOthers hgates f hmem
      have hbefore : u.provenance = s.provenance :=
        ((attachDeclared_within syncs m).same_of_ok (show Part.provenance ∉ _ by decide) hmeta).trans
          ((planUnchecked_within m _).same_of_ok (show Part.provenance ∉ _ by decide) happly)
      have hkept : NotOthers m.name (fixtureProvenanceId f.doctype f.key)
          ((applyFixtures m fs).exec engine luck u).2 := by
        refine Prog.Only.run_invariant (fun t q hq ht => hq engine luck t ht)
          (applyFixtures_keepsProvider _ fs) ?_
        unfold NotOthers at hstart ⊢
        rwa [hbefore]
      rw [hfixtures] at hkept
      exact hother (hkept p hfound)

/-- An install that gets as far as its metadata fails with what the metadata fails with. -/
theorem installApp_of_attachBundle_error {admitted : Admitted} {applied : InstallPlan}
    {t v : TenantDb} {e : BrokerError}
    (hgates : (installGates m acknowledge isUpdate).exec engine luck s = (.ok admitted, s))
    (happly : (planUnchecked m (applyOptions acknowledge)).exec engine luck s = (.ok applied, t))
    (happlied : checkApplied applied.schema = .ok ())
    (h : (attachBundle syncs m).exec engine luck t = (.error e, v)) :
    (installApp syncs m acknowledge isUpdate).exec engine luck s = (.error e, v) := by
  have hbundle : (applyBundle syncs m acknowledge admitted.existing).exec engine luck s
      = (.error e, v) := by
    unfold applyBundle
    rw [exec_bind_ok happly, exec_bind_ok (exec_check happlied t), exec_bind_error h]
  unfold installApp
  rw [exec_bind_ok hgates, exec_bind_error hbundle]

/-- A program that does not succeed fails. -/
theorem exec_error_of_not_ok {p : AppProg Unit}
    (h : ¬ ∃ t, p.exec engine luck s = (.ok (), t)) :
    ∃ e t, p.exec engine luck s = (.error e, t) := by
  cases hp : p.exec engine luck s with
  | mk r t =>
      cases r with
      | ok a => exact absurd ⟨t, hp⟩ h
      | error e => exact ⟨e, t, rfl⟩

/-- An install refused behind its first writes leaves the records of its DocTypes. -/
theorem refused_behind {admitted : Admitted}
    (hgates : (installGates m acknowledge isUpdate).exec engine luck s = (.ok admitted, s))
    (hmigrates : Migrates engine luck syncs m acknowledge s)
    (hnot : ¬ (ExtensionsFit m s ∧ WorkflowsNamed m)) :
    ∃ e v, (installApp syncs m acknowledge isUpdate).exec engine luck s = (.error e, v) ∧
      Refused engine luck syncs m acknowledge isUpdate s e ∧
      ∀ dt ∈ m.doctypes, OwnedBy m.name dt.name v := by
  have hvalid := (installGates_inv hgates).1
  obtain ⟨applied, t, happly, happlied⟩ := hmigrates.applied
  have hown : ∃ u, (attachDoctypes m m.doctypes).exec engine luck t = (.ok (), u) :=
    attachDoctypes_ok (isIdent_of_declared hvalid) t
  obtain ⟨u, hown⟩ := hown
  have howned : ∀ dt ∈ m.doctypes, OwnedBy m.name dt.name u :=
    fun dt hdt => attachDoctypes_owned hdt hown
  have hfit_iff : (∃ v, (attachEach m m.extends).exec engine luck u = (.ok (), v)) ↔
      ExtensionsFit m s :=
    attachEach_ok_iff (isIdent_of_extends hvalid) (lookup_attached happly hown)
  by_cases hfit : ExtensionsFit m s
  · -- the extensions are applied and synced, and then a workflow has no name
    obtain ⟨v, hext⟩ := hfit_iff.mpr hfit
    obtain ⟨w, hsync⟩ := hmigrates.synced applied t u v happly hown hext
    have hmeta : (attachMetadata syncs m).exec engine luck t = (.ok (), w) := by
      unfold attachMetadata attachExtensions
      rw [exec_bind_ok hown, exec_bind_ok hext, hsync]
    have hnamed : ¬ WorkflowsNamed m := fun hnamed => hnot ⟨hfit, hnamed⟩
    have hworkflow : ∃ e x, (attachWorkflows m.workflows).exec engine luck w = (.error e, x) :=
      exec_error_of_not_ok fun h =>
        hnamed ((attachWorkflows_ok_iff (isIdent_of_workflow hvalid)).mp h)
    obtain ⟨e, x, hworkflow⟩ := hworkflow
    refine ⟨e, x, installApp_of_attachBundle_error hgates happly happlied ?_,
      .workflow happly hmeta hworkflow, fun dt hdt => ?_⟩
    · unfold attachBundle
      rw [exec_bind_ok hmeta, exec_bind_error hworkflow]
    · have hv : OwnedBy m.name dt.name v := attachEach_owned (howned dt hdt) hext
      have hw : w.doctypes = v.doctypes :=
        (syncExtended_within syncs m).same_of_ok (show Part.doctypes ∉ _ by decide) hsync
      have hx : x.doctypes = w.doctypes :=
        (attachWorkflows_within m.workflows).same_of_ok (show Part.doctypes ∉ _ by decide) hworkflow
      unfold OwnedBy at hv ⊢
      rw [hx, hw]
      exact hv
  · -- an extension does not fit
    obtain ⟨e, v, hext⟩ := exec_error_of_not_ok fun h => hfit (hfit_iff.mp h)
    refine ⟨e, v, installApp_of_attachBundle_error hgates happly happlied ?_,
      .extension happly hown hext, fun dt hdt => ?_⟩
    · unfold attachBundle attachMetadata attachExtensions
      rw [Prog.bind_bind, exec_bind_ok hown, Prog.bind_bind, exec_bind_error hext]
    · exact attachEach_owned (howned dt hdt) hext

end

end

/-! ### A refusal behind the first writes -/

/-- A bundle with a DocType of its own, and an extension of a note. -/
def crmBoth : Manifest :=
  { crmExtends with doctypes := [{ name := "lead", fields := [] }] }

theorem crmBoth_ready : Ready crmBoth false {} := ⟨by decide +kernel, rfl, ⟨_, rfl⟩, rfl⟩

/-- Without failing calls, an acknowledged bundle that ships no records gets through its migration. -/
theorem Ready.migrates {m : Manifest} {s : TenantDb} (h : Ready m false s)
    (hnot : ¬ ExtensionsFit m s) : Migrates noTables noFaults true m true s := by
  obtain ⟨specs, hspecs⟩ := h.specs
  obtain ⟨report, schema, hplan, herrors⟩ := planUnchecked_acknowledged noTables clear_noFaults hspecs
  constructor
  case applied =>
    refine ⟨_, _, hplan, ?_⟩
    show checkApplied report = .ok ()
    simp [checkApplied, herrors]
  case synced =>
    intro plan t u v happly hown hext
    have hfit : ExtensionsFit m s :=
      (attachEach_ok_iff (isIdent_of_extends h.valid) (lookup_attached happly hown)).mp ⟨v, hext⟩
    exact absurd hfit hnot

/-- There is no note to extend. -/
theorem crmBoth_not_fit : ¬ ExtensionsFit crmBoth {} := by
  intro h
  obtain ⟨⟨row, hrow, _⟩, _⟩ := h
  cases hrow

theorem crmBoth_foreign : ∃ dt ∈ crmBoth.doctypes, ¬ OwnedBy crmBoth.name dt.name {} := by
  refine ⟨_, List.mem_cons_self, ?_⟩
  rintro ⟨row, hrow, _⟩
  cases hrow

end Frust.Kernel
