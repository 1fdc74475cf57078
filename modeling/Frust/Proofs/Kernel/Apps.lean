import Frust.Kernel.Apps
import Frust.Proofs.Kernel.Row

/-!
# `Frust.Proofs.Kernel.Apps`: what the lifecycle leaves

An install touches a DocType record only under the names that the bundle declares or extends, one
record after the other. `Manifest.bundleAt` is what becomes of the record under one name, and
`InstallEffect` says that a whole install does just this to the records, and what it does to the
workflows, the notifications and the registry. `UninstallEffect` says the same of an uninstall.

A program stays `Within` some parts of the database: the others are the same before and after.
-/

set_option autoImplicit false

namespace Frust.Kernel

open Frust.Lib Frust.Orm Frust.Rust

/-! ### Parts of the database -/

/-- What a statement may change. -/
inductive Part where
  | doctypes | workflows | notifications | apps | provenance | rows | schema
  deriving DecidableEq

/-- The part of the database that a statement is about, if it may change one. -/
def DbRequest.part : DbRequest → Option Part
  | .upsertDoctype .. | .createDoctype .. | .addField .. | .addScript .. | .strip .. | .stripOthers _
  | .deleteDoctype _ | .setClientScript .. => some .doctypes
  | .upsertWorkflow _ | .deleteWorkflow _ => some .workflows
  | .upsertNotification _ | .deleteNotification _ => some .notifications
  | .createApp .. | .updateApp .. | .setEnabled .. | .deleteApp _ => some .apps
  | .claim .. | .ship .. | .orphan _ | .orphanApp _ => some .provenance
  | .writeRow .. => some .rows
  | .migrate .. => some .schema
  | _ => none

/-- Two databases agree in a part. -/
def Part.Same : Part → TenantDb → TenantDb → Prop
  | doctypes, s, t => s.doctypes = t.doctypes
  | workflows, s, t => s.workflows = t.workflows
  | notifications, s, t => s.notifications = t.notifications
  | apps, s, t => s.apps = t.apps
  | provenance, s, t => s.provenance = t.provenance
  | rows, s, t => s.rows = t.rows
  | schema, s, t => s.schema = t.schema

theorem Part.Same.trans {part : Part} {s t u : TenantDb} (h : part.Same s t) (h' : part.Same t u) :
    part.Same s u := by
  cases part <;> exact Eq.trans h h'

/-- A program's statements change nothing but the given parts. -/
def AppProg.Within {α : Type} (parts : List Part) (p : AppProg α) : Prop :=
  p.Only fun q => ∀ part, q.part = some part → part ∈ parts

section

variable {engine : RowEngine} {luck : MigrationPhase → ScopeFaults} {α β : Type} {s s' : TenantDb}

/-- A statement leaves the parts that it is not about. -/
theorem serve_same (q : DbRequest) {part : Part} (h : q.part ≠ some part) :
    part.Same (TenantDb.serve engine luck s q).2 s := by
  cases q <;> cases part <;>
    first
      | exact absurd rfl h
      | rfl
      | (simp only [TenantDb.serve]; split <;> rfl)

namespace AppProg

theorem exec_sql (q : DbRequest) (s : TenantDb) :
    (sql q).exec engine luck s = TenantDb.serve engine luck s q := rfl

theorem exec_lift (r : Except BrokerError α) (s : TenantDb) :
    (lift r).exec engine luck s = (r, s) := rfl

/-- A check that passes changes nothing. -/
theorem exec_check {r : Except BrokerError α} {a : α} (h : r = .ok a) (s : TenantDb) :
    (lift r).exec engine luck s = (.ok a, s) := by
  rw [exec_lift, h]

/-- A run of both parts that succeeds went through both. -/
theorem exec_bind_inv {p : AppProg α} {f : α → AppProg β} {b : β}
    (h : (p >>= f).exec engine luck s = (.ok b, s')) :
    ∃ a t, p.exec engine luck s = (.ok a, t) ∧ (f a).exec engine luck t = (.ok b, s') :=
  Prog.run_bind_inv h

theorem exec_bind_ok {p : AppProg α} {f : α → AppProg β} {a : α} {t : TenantDb}
    (h : p.exec engine luck s = (.ok a, t)) :
    (p >>= f).exec engine luck s = (f a).exec engine luck t :=
  Prog.run_bind_ok h

theorem exec_bind_error {p : AppProg α} {f : α → AppProg β} {e : BrokerError} {t : TenantDb}
    (h : p.exec engine luck s = (.error e, t)) :
    (p >>= f).exec engine luck s = (.error e, t) :=
  Prog.run_bind_error h

/-- A check that succeeds changes nothing. -/
theorem exec_lift_bind_inv {r : Except BrokerError α} {f : α → AppProg β} {b : β}
    (h : (lift r >>= f).exec engine luck s = (.ok b, s')) :
    ∃ a, r = .ok a ∧ (f a).exec engine luck s = (.ok b, s') := by
  obtain ⟨a, t, ha, h⟩ := exec_bind_inv h
  rw [exec_lift] at ha
  cases ha
  exact ⟨a, rfl, h⟩

/-! ### Staying within parts -/

namespace Within

variable {parts : List Part}

theorem done (r : Except BrokerError α) : Within parts (Prog.done r : AppProg α) := trivial

theorem statement {q : DbRequest} (h : ∀ part, q.part = some part → part ∈ parts) :
    (sql q).Within parts :=
  ⟨h, fun _ => trivial⟩

/-- A statement that changes nothing. -/
theorem read {q : DbRequest} (h : q.part = none) : (sql q).Within parts :=
  statement fun part hpart => by rw [h] at hpart; cases hpart

theorem bind {p : AppProg α} {f : α → AppProg β} (h : p.Within parts)
    (hf : ∀ a, (f a).Within parts) : (p >>= f).Within parts :=
  Prog.Only.bind h hf

/-- A program that does one thing or the other. -/
theorem ite {c : Prop} [Decidable c] {p p' : AppProg α} (h : p.Within parts)
    (h' : p'.Within parts) : Within parts (if c then p else p') := by
  split
  · exact h
  · exact h'

theorem attempt {p : AppProg α} (h : p.Within parts) : Within parts (Prog.attempt p) := by
  induction p with
  | done r => trivial
  | ask q next ih => exact ⟨h.1, fun r => ih r (h.2 r)⟩

theorem mono {parts' : List Part} {p : AppProg α} (h : p.Within parts)
    (hsub : ∀ part ∈ parts, part ∈ parts') : p.Within parts' :=
  Prog.Only.mono h fun _ hq part hpart => hsub part (hq part hpart)

/-- What a program does not touch is the same after it. -/
theorem same {p : AppProg α} (h : p.Within parts) {part : Part} (hpart : part ∉ parts)
    (s : TenantDb) : part.Same (p.exec engine luck s).2 s := by
  refine Prog.Only.run_invariant (I := fun t => part.Same t s) ?_ h (by cases part <;> rfl)
  intro t q hq ht
  exact (serve_same q fun hq' => hpart (hq part hq')).trans ht

theorem same_of_ok {p : AppProg α} (h : p.Within parts) {part : Part} (hpart : part ∉ parts)
    {r : Except BrokerError α} (hrun : p.exec engine luck s = (r, s')) : part.Same s' s := by
  have hsame : part.Same (p.exec engine luck s).2 s := h.same hpart s
  rw [hrun] at hsame
  exact hsame

/-- What a program that stays within parts asks. -/
theorem only {p : AppProg α} (h : p.Within parts) :
    p.Only fun q => ∀ part, q.part = some part → part ∈ parts := h

end Within

attribute [irreducible] Within

end AppProg

end

/-! ### Where the programs stay -/

section

open AppProg (Within)

variable {parts : List Part}

theorem loadDoctypes_within : loadDoctypes.Within parts :=
  (Within.read rfl).bind fun _ => Within.done _

theorem planUnchecked_within (m : Manifest) (opts : MigrationOptions) :
    (planUnchecked m opts).Within [.schema] := by
  unfold planUnchecked
  refine Within.bind loadDoctypes_within.attempt fun existing => ?_
  refine Within.bind (Within.done _) fun specs => ?_
  refine Within.bind (Within.statement ?_) fun schema => ?_
  · intro part hpart
    cases hpart
    exact List.mem_singleton_self _
  · exact Within.bind (Within.done _) fun _ => Within.done _

theorem planFixture_within (m : Manifest) (stored : List DocTypeDef) (f : FixtureDecl) :
    (planFixture m stored f).Within parts := by
  unfold planFixture
  refine Within.bind (Within.read rfl) fun provenance => ?_
  split
  · exact Within.done _
  · split
    · exact Within.done _
    · split
      · exact Within.done _
      · refine Within.bind ?_ fun _ => Within.done _
        exact (Within.done _).bind fun _ => (Within.done _).bind fun _ => Within.read rfl

theorem collectFixtures_within (m : Manifest) (stored : List DocTypeDef) (fs : List FixtureDecl) :
    (collectFixtures m stored fs).Within parts := by
  induction fs with
  | nil => exact Within.done _
  | cons f fs ih =>
      exact (planFixture_within m stored f).bind fun _ => ih.bind fun _ => Within.done _

theorem planFixtures_within (m : Manifest) : (planFixtures m).Within parts := by
  unfold planFixtures
  refine Within.bind loadDoctypes_within fun stored => ?_
  refine Within.bind (collectFixtures_within m stored _) fun found => ?_
  split
  · exact Within.done _
  · split <;> exact Within.done _

theorem planApp_within (m : Manifest) : (planApp m).Within [.schema] :=
  (Within.done _).bind fun _ => (planUnchecked_within m _).bind fun _ =>
    (planFixtures_within m).bind fun _ => Within.done _

theorem extensionCasualties_within (m : Manifest) (destructive : List String) :
    (extensionCasualties m destructive).Within parts := by
  unfold extensionCasualties
  split
  · exact Within.done _
  · exact (Within.read rfl).bind fun _ => Within.done _

theorem installGates_within (m : Manifest) (acknowledge isUpdate : Bool) :
    (installGates m acknowledge isUpdate).Within [.schema] := by
  unfold installGates
  refine Within.bind (Within.done _) fun _ => Within.bind (Within.read rfl) fun existing => ?_
  refine Within.bind (Within.done _) fun _ => Within.bind (planApp_within m) fun plans => ?_
  refine Within.bind (Within.done _) fun _ => ?_
  refine Within.bind (extensionCasualties_within m _) fun casualties => ?_
  exact (Within.done _).bind fun _ => (Within.done _).bind fun _ => Within.done _

theorem seedSingleRow_within (dt : DocTypeDef) : (seedSingleRow dt).Within [.rows] := by
  unfold seedSingleRow
  split
  · exact Within.done _
  · split
    · exact Within.done _
    · refine Within.bind (Within.read rfl) fun existing => Within.ite ?_ (Within.done _)
      exact Within.statement fun part hpart => by cases hpart; exact List.mem_singleton_self _

theorem seedSingleRows_within (dts : List DocTypeDef) : (seedSingleRows dts).Within [.rows] := by
  induction dts with
  | nil => exact Within.done _
  | cons dt dts ih => exact (seedSingleRow_within dt).bind fun _ => ih

theorem sync_within : sync.Within [.schema, .rows] := by
  unfold sync syncInner
  refine Within.bind loadDoctypes_within fun dts => Within.bind (Within.read rfl) fun history => ?_
  refine Within.bind (Within.done _) fun specs => ?_
  split
  · exact Within.done _
  · refine Within.bind (Within.statement ?_) fun report => Within.bind (Within.done _) fun _ => ?_
    · intro part hpart
      cases hpart
      exact List.mem_cons_self
    · refine ((seedSingleRows_within dts).mono ?_).bind fun _ => Within.done _
      intro part hpart
      rw [List.mem_singleton.mp hpart]
      decide

theorem fixtureRecord_within (doctype key : String) : (fixtureRecord doctype key).Within parts :=
  (Within.done _).bind fun _ => (Within.done _).bind fun _ => Within.read rfl

theorem claimFixture_within (m : Manifest) (f : FixtureDecl) :
    (claimFixture m f).Within [.provenance] := by
  unfold claimFixture
  refine Within.bind (Within.attempt (Within.statement ?_)) fun claim => ?_
  · intro part hpart
    cases hpart
    exact List.mem_singleton_self _
  · split
    · exact Within.done _
    · refine Within.bind (Within.read rfl) fun raced => ?_
      split
      · exact Within.done _
      · split <;> exact Within.done _

theorem applyFixture_within (m : Manifest) (f : FixtureDecl) :
    (applyFixture m f).Within [.provenance, .rows] := by
  have hwrite : ∀ w, (sql (.writeRow f.doctype f.key w)).Within [Part.provenance, .rows] := by
    intro w
    refine Within.statement fun part hpart => ?_
    cases hpart
    exact List.mem_cons_of_mem _ List.mem_cons_self
  unfold applyFixture
  refine Within.bind (fixtureRecord_within _ _) fun current => ?_
  refine Within.bind (Within.read rfl) fun provenance => ?_
  split
  · exact Within.done _
  · refine Within.bind ?_ fun _ => Within.bind (Within.done _) fun content => ?_
    · unfold claimUnowned
      split
      · refine (claimFixture_within m f).mono fun part hpart => ?_
        rw [List.mem_singleton.mp hpart]
        exact List.mem_cons_self
      · exact Within.done _
    · refine Within.bind (hwrite _) fun _ => Within.bind ?_ fun _ => ?_
      · exact Within.ite (Within.done _) (hwrite _)
      · refine Within.bind (fixtureRecord_within _ _) fun row => ?_
        split
        · exact Within.done _
        · refine Within.statement fun part hpart => ?_
          cases hpart
          exact List.mem_cons_self

theorem applyFixtures_within (m : Manifest) (fs : List FixtureDecl) :
    (applyFixtures m fs).Within [.provenance, .rows] := by
  induction fs with
  | nil => exact Within.done _
  | cons f fs ih => exact (applyFixture_within m f).bind fun _ => ih

theorem orphanRemovedFixtures_within (m : Manifest) (fs : List FixtureDecl) :
    (orphanRemovedFixtures m fs).Within [.provenance] := by
  induction fs with
  | nil => exact Within.done _
  | cons f fs ih =>
      refine Within.bind (Within.ite (Within.done _) ?_) fun _ => ih
      exact Within.statement fun part hpart => by cases hpart; exact List.mem_singleton_self _

end

section

open AppProg (Within)

theorem addFields_within (doctype : String) (fs : List StoredField) :
    (addFields doctype fs).Within [.doctypes] := by
  induction fs with
  | nil => exact Within.done _
  | cons f fs ih =>
      refine Within.bind (Within.statement ?_) fun _ => ih
      intro part hpart
      cases hpart
      exact List.mem_singleton_self _

theorem addScripts_within (doctype : String) (ss : List ScriptRow) :
    (addScripts doctype ss).Within [.doctypes] := by
  induction ss with
  | nil => exact Within.done _
  | cons x ss ih =>
      refine Within.bind (Within.statement ?_) fun _ => ih
      intro part hpart
      cases hpart
      exact List.mem_singleton_self _

theorem attachDoctypes_within (m : Manifest) (dts : List DocTypeDef) :
    (attachDoctypes m dts).Within [.doctypes] := by
  induction dts with
  | nil => exact Within.done _
  | cons dt dts ih =>
      refine Within.bind ?_ fun _ => ih
      refine Within.bind (Within.done _) fun _ => Within.bind (Within.read rfl) fun prior => ?_
      refine Within.bind (Within.statement ?_) fun _ => ?_
      · intro part hpart
        cases hpart
        exact List.mem_singleton_self _
      · exact (addFields_within _ _).bind fun _ => addScripts_within _ _

theorem attachEach_within (m : Manifest) (es : List ExtensionDecl) :
    (attachEach m es).Within [.doctypes] := by
  induction es with
  | nil => exact Within.done _
  | cons e es ih =>
      refine Within.bind ?_ fun _ => ih
      refine Within.bind (Within.done _) fun _ => Within.bind (Within.read rfl) fun row => ?_
      cases row with
      | none => exact Within.done _
      | some row =>
          refine Within.bind (Within.done _) fun _ => Within.bind (Within.statement ?_) fun _ => ?_
          · intro part hpart
            cases hpart
            exact List.mem_singleton_self _
          · exact (addFields_within _ _).bind fun _ => addScripts_within _ _

end

/-! ### Records -/

/-- A record with more fields. -/
def withFields (fs : List StoredField) (row : DocTypeRow) : DocTypeRow :=
  { row with fields := row.fields ++ fs }

/-- A record with more scripts; with none it stays what it is. -/
def withScripts (ss : List ScriptRow) (row : DocTypeRow) : DocTypeRow :=
  if ss = [] then row else { row with serverScript := .list (row.serverScript.items ++ ss) }

@[simp] theorem withFields_fields (fs : List StoredField) (row : DocTypeRow) :
    (withFields fs row).fields = row.fields ++ fs := rfl

@[simp] theorem withFields_serverScript (fs : List StoredField) (row : DocTypeRow) :
    (withFields fs row).serverScript = row.serverScript := rfl

@[simp] theorem withFields_app (fs : List StoredField) (row : DocTypeRow) :
    (withFields fs row).app = row.app := rfl

@[simp] theorem withFields_nil (row : DocTypeRow) : withFields [] row = row := by
  simp [withFields]

@[simp] theorem withScripts_nil (row : DocTypeRow) : withScripts [] row = row := rfl

@[simp] theorem withScripts_fields (ss : List ScriptRow) (row : DocTypeRow) :
    (withScripts ss row).fields = row.fields := by
  unfold withScripts
  split <;> rfl

@[simp] theorem withScripts_app (ss : List ScriptRow) (row : DocTypeRow) :
    (withScripts ss row).app = row.app := by
  unfold withScripts
  split <;> rfl

@[simp] theorem withScripts_items (ss : List ScriptRow) (row : DocTypeRow) :
    (withScripts ss row).serverScript.items = row.serverScript.items ++ ss := by
  unfold withScripts
  split
  · rename_i h
    rw [h, List.append_nil]
  · rfl

@[simp] theorem stripRow_fields (app : String) (row : DocTypeRow) :
    (TenantDb.stripRow app row).fields = row.fields.filter (·.extApp ≠ some app) := rfl

@[simp] theorem stripRow_items (app : String) (row : DocTypeRow) :
    (TenantDb.stripRow app row).serverScript.items
      = row.serverScript.items.filter (·.app ≠ some app) := rfl

@[simp] theorem stripRow_app (app : String) (row : DocTypeRow) :
    (TenantDb.stripRow app row).app = row.app := rfl

/-- The record that a bundle leaves under the name of a DocType of its own. -/
def attachedRow (m : Manifest) (dt : DocTypeDef) (prior : Option DocTypeRow) : DocTypeRow :=
  withScripts (foreignScripts m.name prior) (withFields (addedFields prior) (m.ownRow dt))

/-- The record that an extension leaves. -/
def extendedRow (m : Manifest) (e : ExtensionDecl) (row : DocTypeRow) : DocTypeRow :=
  withScripts (scriptOf m e)
    (withFields (e.fields.map m.extensionField) (TenantDb.stripRow m.name row))

namespace Manifest

/-- What a DocType of the bundle makes of the record under a name. -/
def attachAt (m : Manifest) (name : String) (row : Option DocTypeRow) (dt : DocTypeDef) :
    Option DocTypeRow :=
  if dt.name = name then some (attachedRow m dt row) else row

/-- What an extension of the bundle makes of the record under a name. -/
def extendAt (m : Manifest) (name : String) (row : Option DocTypeRow) (e : ExtensionDecl) :
    Option DocTypeRow :=
  if e.doctype = name then row.map (extendedRow m e) else row

/-- What a bundle makes of the record under a name. -/
def bundleAt (m : Manifest) (name : String) (row : Option DocTypeRow) : Option DocTypeRow :=
  m.extends.foldl (m.extendAt name) (m.doctypes.foldl (m.attachAt name) row)

end Manifest

section

open AppProg

variable {engine : RowEngine} {luck : MigrationPhase → ScopeFaults} {s s' : TenantDb}
  {m : Manifest}

theorem addFields_exec (doctype : String) (fs : List StoredField) (s : TenantDb) :
    (addFields doctype fs).exec engine luck s
      = (.ok (), { s with doctypes := modify doctype (withFields fs) s.doctypes }) := by
  induction fs generalizing s with
  | nil => rw [modify_of_forall withFields_nil]; rfl
  | cons f fs ih =>
      show (addFields doctype fs).exec engine luck
        { s with doctypes := modify doctype (TenantDb.addFieldRow f) s.doctypes } = _
      rw [ih, modify_modify]
      congr 4
      funext row
      simp [withFields, TenantDb.addFieldRow]

theorem addScripts_exec (doctype : String) (ss : List ScriptRow) (s : TenantDb) :
    (addScripts doctype ss).exec engine luck s
      = (.ok (), { s with doctypes := modify doctype (withScripts ss) s.doctypes }) := by
  induction ss generalizing s with
  | nil => rw [modify_of_forall withScripts_nil]; rfl
  | cons x ss ih =>
      show (addScripts doctype ss).exec engine luck
        { s with doctypes := modify doctype (TenantDb.addScriptRow x) s.doctypes } = _
      rw [ih, modify_modify]
      congr 4
      funext row
      unfold withScripts TenantDb.addScriptRow
      by_cases hss : ss = []
      · simp [hss]
      · simp [hss, ServerScript.items]

/-- A DocType with a good name is attached. -/
theorem attachDoctype_exec {dt : DocTypeDef} (h : isIdent dt.name = true) (s : TenantDb) :
    (attachDoctype m dt).exec engine luck s = (.ok (), { s with
      doctypes := modify dt.name (withScripts (foreignScripts m.name (s.doctypes.lookup dt.name)))
        (modify dt.name (withFields (addedFields (s.doctypes.lookup dt.name)))
          (put dt.name (m.ownRow dt) s.doctypes)) }) := by
  unfold attachDoctype
  rw [exec_bind_ok (a := ()) (t := s) (by rw [exec_lift]; simp [checkIdent, h])]
  refine (exec_bind_ok (exec_sql _ _)).trans ((exec_bind_ok (exec_sql _ _)).trans ?_)
  exact (exec_bind_ok (addFields_exec _ _ _)).trans (addScripts_exec _ _ _)

theorem attachDoctype_inv {dt : DocTypeDef}
    (h : (attachDoctype m dt).exec engine luck s = (.ok (), s')) (name : String) :
    s'.doctypes.lookup name = m.attachAt name (s.doctypes.lookup name) dt := by
  have hident : isIdent dt.name = true := by
    obtain ⟨_, hcheck, _⟩ := exec_lift_bind_inv h
    unfold checkIdent at hcheck
    split at hcheck
    · assumption
    · cases hcheck
  rw [attachDoctype_exec hident, Prod.mk.injEq] at h
  rw [← h.2]
  unfold Manifest.attachAt attachedRow
  by_cases hname : dt.name = name
  · simp [hname]
  · simp [hname, Ne.symm hname]

theorem attachDoctypes_inv {dts : List DocTypeDef}
    (h : (attachDoctypes m dts).exec engine luck s = (.ok (), s')) (name : String) :
    s'.doctypes.lookup name = dts.foldl (m.attachAt name) (s.doctypes.lookup name) := by
  induction dts generalizing s with
  | nil => cases h; rfl
  | cons dt dts ih =>
      obtain ⟨_, t, hdt, hrest⟩ := exec_bind_inv h
      rw [ih hrest, attachDoctype_inv hdt name]
      rfl

/-- An extension that is applied found a record, without a conflict. -/
theorem attachExtension_inv {e : ExtensionDecl}
    (h : (attachExtension m e).exec engine luck s = (.ok (), s')) :
    (∃ row, s.doctypes.lookup e.doctype = some row ∧ checkConflicts m e row e.fields = .ok () ∧
      TenantDb.strippable row = true) ∧
    ∀ name, s'.doctypes.lookup name = m.extendAt name (s.doctypes.lookup name) e := by
  obtain ⟨_, hcheck, h⟩ := exec_lift_bind_inv h
  replace h := (exec_bind_ok (exec_sql _ _)).symm.trans h
  cases hrow : s.doctypes.lookup e.doctype with
  | none =>
      -- without a record the extension is refused
      rw [hrow] at h
      cases congrArg Prod.fst h
  | some row =>
      rw [hrow] at h
      obtain ⟨_, hconflicts, h⟩ := exec_lift_bind_inv h
      obtain ⟨_, t, hstrip, h⟩ := exec_bind_inv h
      replace hstrip : TenantDb.serve engine luck s (.strip e.doctype m.name) = _ := hstrip
      simp only [TenantDb.serve, hrow, Option.all_some] at hstrip
      split at hstrip
      · rename_i hstrippable
        cases hstrip
        replace h := (exec_bind_ok (addFields_exec _ _ _)).symm.trans h
        rw [addScripts_exec, Prod.mk.injEq] at h
        refine ⟨⟨row, rfl, hconflicts, hstrippable⟩, fun name => ?_⟩
        rw [← h.2]
        unfold Manifest.extendAt extendedRow
        by_cases hname : e.doctype = name
        · subst hname
          simp [hrow]
        · simp [hname, Ne.symm hname]
      · cases congrArg Prod.fst hstrip

theorem attachEach_inv {es : List ExtensionDecl}
    (h : (attachEach m es).exec engine luck s = (.ok (), s')) :
    (∀ e ∈ es, ∃ row, s.doctypes.lookup e.doctype = some row ∧ TenantDb.strippable row = true) ∧
    ∀ name, s'.doctypes.lookup name = es.foldl (m.extendAt name) (s.doctypes.lookup name) := by
  induction es generalizing s with
  | nil =>
      cases h
      exact ⟨by simp, fun name => rfl⟩
  | cons e es ih =>
      obtain ⟨_, t, he, hrest⟩ := exec_bind_inv h
      obtain ⟨⟨row, hrow, _, hstrippable⟩, hlookup⟩ := attachExtension_inv he
      obtain ⟨hfound, hrest⟩ := ih hrest
      constructor
      · intro e' he'
        rcases List.mem_cons.mp he' with rfl | he'
        · exact ⟨row, hrow, hstrippable⟩
        · obtain ⟨row', hrow', hstrippable'⟩ := hfound e' he'
          rw [hlookup] at hrow'
          unfold Manifest.extendAt at hrow'
          -- the record before the first extension is that of the first, or it is the same
          split at hrow'
          · rename_i hsame
            exact ⟨row, hsame ▸ hrow, hstrippable⟩
          · exact ⟨row', hrow', hstrippable'⟩
      · intro name
        rw [hrest, hlookup]
        rfl

end

/-! ### The record under one name -/

namespace Manifest

/-- The DocType of a bundle under a name: the last one. -/
def doctypeOf (m : Manifest) (name : String) : Option DocTypeDef :=
  m.doctypes.reverse.find? (·.name = name)

/-- The extension of a bundle for a DocType: the last one. -/
def extensionOf (m : Manifest) (name : String) : Option ExtensionDecl :=
  m.extends.reverse.find? (·.doctype = name)

/-- The names of the DocTypes that a bundle declares. -/
def declared (m : Manifest) : List String := m.doctypes.map (·.name)

end Manifest

section

variable {m m' : Manifest} {name : String}

@[simp] theorem addedFields_none : addedFields none = [] := rfl

@[simp] theorem foreignScripts_none (app : String) : foreignScripts app none = [] := rfl

@[simp] theorem addedFields_some (row : DocTypeRow) :
    addedFields (some row) = row.fields.filter (·.extApp.isSome) := rfl

@[simp] theorem foreignScripts_some (app : String) (row : DocTypeRow) :
    foreignScripts app (some row) = row.serverScript.items.filter fun s => s.app.any (· ≠ app) :=
  rfl

theorem ownRow_addedFields (m : Manifest) (dt : DocTypeDef) :
    (m.ownRow dt).fields.filter (·.extApp.isSome) = [] := by
  simp [Manifest.ownRow, List.filter_eq_nil_iff]

theorem ownRow_items (m : Manifest) (dt : DocTypeDef) :
    (m.ownRow dt).serverScript.items = m.serverScriptsFor dt.name := by
  unfold Manifest.ownRow
  simp only
  split
  · rename_i hempty
    exact (List.isEmpty_iff.mp hempty).symm
  · rfl

theorem ownRow_foreignScripts (m : Manifest) (dt : DocTypeDef) :
    (m.ownRow dt).serverScript.items.filter (fun s => s.app.any (· ≠ m.name)) = [] := by
  rw [ownRow_items, List.filter_eq_nil_iff]
  intro x hx
  obtain ⟨s, _, rfl⟩ := List.mem_map.mp hx
  simp

@[simp] theorem attachedRow_app (m : Manifest) (dt : DocTypeDef) (prior : Option DocTypeRow) :
    (attachedRow m dt prior).app = some m.name := by
  simp [attachedRow, Manifest.ownRow]

@[simp] theorem attachedRow_fields (m : Manifest) (dt : DocTypeDef) (prior : Option DocTypeRow) :
    (attachedRow m dt prior).fields = (m.ownRow dt).fields ++ addedFields prior := by
  simp [attachedRow]

@[simp] theorem attachedRow_items (m : Manifest) (dt : DocTypeDef) (prior : Option DocTypeRow) :
    (attachedRow m dt prior).serverScript.items
      = m.serverScriptsFor dt.name ++ foreignScripts m.name prior := by
  simp [attachedRow, ownRow_items]

/-- What other apps added stays on the record. -/
@[simp] theorem addedFields_attachedRow (m : Manifest) (dt : DocTypeDef)
    (prior : Option DocTypeRow) :
    addedFields (some (attachedRow m dt prior)) = addedFields prior := by
  rw [addedFields_some, attachedRow_fields, List.filter_append, ownRow_addedFields, List.nil_append]
  simp [addedFields]

@[simp] theorem foreignScripts_attachedRow (m : Manifest) (dt : DocTypeDef)
    (prior : Option DocTypeRow) :
    foreignScripts m.name (some (attachedRow m dt prior)) = foreignScripts m.name prior := by
  rw [foreignScripts_some, attachedRow_items, List.filter_append]
  have hown := ownRow_foreignScripts m dt
  rw [ownRow_items] at hown
  rw [hown, List.nil_append]
  simp [foreignScripts]

/-- A record is written whole: only what others added to the former one matters. -/
theorem attachedRow_congr (m : Manifest) (dt : DocTypeDef) {prior prior' : Option DocTypeRow}
    (hfields : addedFields prior = addedFields prior')
    (hscripts : foreignScripts m.name prior = foreignScripts m.name prior') :
    attachedRow m dt prior = attachedRow m dt prior' := by
  unfold attachedRow
  rw [hfields, hscripts]

@[simp] theorem extendedRow_app (m : Manifest) (e : ExtensionDecl) (row : DocTypeRow) :
    (extendedRow m e row).app = row.app := by
  simp [extendedRow]

@[simp] theorem extendedRow_fields (m : Manifest) (e : ExtensionDecl) (row : DocTypeRow) :
    (extendedRow m e row).fields
      = row.fields.filter (·.extApp ≠ some m.name) ++ e.fields.map m.extensionField := by
  simp [extendedRow]

@[simp] theorem extendedRow_items (m : Manifest) (e : ExtensionDecl) (row : DocTypeRow) :
    (extendedRow m e row).serverScript.items
      = row.serverScript.items.filter (·.app ≠ some m.name) ++ scriptOf m e := by
  simp [extendedRow]

theorem mem_scriptOf {e : ExtensionDecl} {x : ScriptRow} (h : x ∈ scriptOf m e) :
    x.app = some m.name := by
  unfold scriptOf at h
  split at h
  · cases h
  · rw [List.mem_singleton.mp h]
    rfl

/-- Stripping takes away what an extension of the app added. -/
theorem stripRow_extendedRow (m : Manifest) (e : ExtensionDecl) (row : DocTypeRow) :
    TenantDb.stripRow m.name (extendedRow m e row) = TenantDb.stripRow m.name row := by
  have hfields : (e.fields.map m.extensionField).filter (·.extApp ≠ some m.name) = [] := by
    simp [List.filter_eq_nil_iff, Manifest.extensionField]
  have hscripts : (scriptOf m e).filter (·.app ≠ some m.name) = [] := by
    rw [List.filter_eq_nil_iff]
    intro x hx
    simp [mem_scriptOf hx]
  unfold TenantDb.stripRow
  rw [extendedRow_fields, extendedRow_items, List.filter_append, List.filter_append, hfields,
    hscripts, List.filter_filter, List.filter_filter]
  simp only [extendedRow, withScripts, withFields]
  split <;> simp [TenantDb.stripRow]

/-- Of two extensions of one app the last one stands. -/
theorem extendedRow_extendedRow (hname : m.name = m'.name) (e e' : ExtensionDecl)
    (row : DocTypeRow) : extendedRow m e (extendedRow m' e' row) = extendedRow m e row := by
  show withScripts _ (withFields _ (TenantDb.stripRow m.name (extendedRow m' e' row))) = _
  rw [hname, stripRow_extendedRow, ← hname]
  rfl

/-- What an app added to a record. -/
structure Contribution where
  fields : List StoredField
  scripts : List ScriptRow
  deriving DecidableEq

/-- The fields and the scripts on a record that bear an app's name. -/
def contributionOf (app : String) (row : DocTypeRow) : Contribution :=
  ⟨row.fields.filter (·.extApp = some app), row.serverScript.items.filter (·.app = some app)⟩

/-- An extension leaves just what it adds under the app's name. -/
theorem contributionOf_extendedRow (m : Manifest) (e : ExtensionDecl) (row : DocTypeRow) :
    contributionOf m.name (extendedRow m e row)
      = ⟨e.fields.map m.extensionField, scriptOf m e⟩ := by
  unfold contributionOf
  rw [extendedRow_fields, extendedRow_items, List.filter_append, List.filter_append]
  congr 1
  · simp [List.filter_filter, Manifest.extensionField]
  · rw [List.filter_filter]
    have hown : (scriptOf m e).filter (·.app = some m.name) = scriptOf m e :=
      List.filter_eq_self.mpr fun x hx => by simp [mem_scriptOf hx]
    rw [hown]
    simp

/-- A bundle leaves on its DocTypes what other apps added to them. -/
theorem contributionOf_attachedRow {app : String} (hne : app ≠ m.name) (dt : DocTypeDef)
    (prior : Option DocTypeRow) :
    contributionOf app (attachedRow m dt prior)
      = (prior.map (contributionOf app)).getD ⟨[], []⟩ := by
  have hfields : (m.ownRow dt).fields.filter (·.extApp = some app) = [] := by
    simp [Manifest.ownRow, List.filter_eq_nil_iff]
  have hscripts : (m.serverScriptsFor dt.name).filter (·.app = some app) = [] := by
    rw [List.filter_eq_nil_iff]
    intro x hx
    obtain ⟨s, _, rfl⟩ := List.mem_map.mp hx
    simpa using Ne.symm hne
  unfold contributionOf
  rw [attachedRow_fields, attachedRow_items, List.filter_append, List.filter_append, hfields,
    hscripts]
  cases prior with
  | none => rfl
  | some row =>
      simp only [addedFields_some, foreignScripts_some, List.nil_append, List.filter_filter,
        Option.map_some, Option.getD_some]
      congr 1
      · refine List.filter_congr fun f _ => ?_
        by_cases hf : f.extApp = some app <;> simp [hf]
      · refine List.filter_congr fun x _ => ?_
        by_cases hx : x.app = some app <;> simp [hx, hne]

/-- An extension leaves what other apps added. -/
theorem contributionOf_extendedRow_ne {app : String} (hne : app ≠ m.name) (e : ExtensionDecl)
    (row : DocTypeRow) : contributionOf app (extendedRow m e row) = contributionOf app row := by
  have hfields : (e.fields.map m.extensionField).filter (·.extApp = some app) = [] := by
    simpa [List.filter_eq_nil_iff, Manifest.extensionField] using fun _ _ => Ne.symm hne
  have hscripts : (scriptOf m e).filter (·.app = some app) = [] := by
    rw [List.filter_eq_nil_iff]
    intro x hx
    simpa [mem_scriptOf hx] using Ne.symm hne
  unfold contributionOf
  rw [extendedRow_fields, extendedRow_items, List.filter_append, List.filter_append, hfields,
    hscripts, List.append_nil, List.append_nil, List.filter_filter, List.filter_filter]
  congr 1
  · refine List.filter_congr fun f _ => ?_
    by_cases hf : f.extApp = some app <;> simp [hf, hne]
  · refine List.filter_congr fun x _ => ?_
    by_cases hx : x.app = some app <;> simp [hx, hne]

/-- Taking one app's additions away leaves those of the others. -/
theorem contributionOf_stripRow {app app' : String} (hne : app ≠ app') (row : DocTypeRow) :
    contributionOf app (TenantDb.stripRow app' row) = contributionOf app row := by
  unfold contributionOf
  rw [stripRow_fields, stripRow_items, List.filter_filter, List.filter_filter]
  congr 1
  · refine List.filter_congr fun f _ => ?_
    by_cases hf : f.extApp = some app <;> simp [hf, hne]
  · refine List.filter_congr fun x _ => ?_
    by_cases hx : x.app = some app <;> simp [hx, hne]

/-- Of the DocTypes of a bundle under a name the last one stands. -/
theorem foldl_attachAt (m : Manifest) (name : String) (dts : List DocTypeDef)
    (row : Option DocTypeRow) :
    dts.foldl (m.attachAt name) row
      = match dts.reverse.find? (·.name = name) with
        | some dt => some (attachedRow m dt row)
        | none => row := by
  induction dts using List.reverseRecOn with
  | nil => rfl
  | append_singleton dts dt ih =>
      rw [List.foldl_append, List.reverse_append, ih]
      show m.attachAt name _ dt = match (dt :: dts.reverse).find? (·.name = name) with
        | some dt => some (attachedRow m dt row)
        | none => row
      unfold Manifest.attachAt
      by_cases hdt : dt.name = name
      · rw [if_pos hdt, List.find?_cons_of_pos (by simpa using hdt)]
        -- the records before it are written over
        cases dts.reverse.find? (·.name = name) with
        | none => rfl
        | some dt' =>
            exact congrArg some (attachedRow_congr m dt (addedFields_attachedRow m dt' row)
              (foreignScripts_attachedRow m dt' row))
      · rw [if_neg hdt, List.find?_cons_of_neg (by simpa using hdt)]

/-- Of the extensions of a bundle for a DocType the last one stands. -/
theorem foldl_extendAt (m : Manifest) (name : String) (es : List ExtensionDecl)
    (row : Option DocTypeRow) :
    es.foldl (m.extendAt name) row
      = match es.reverse.find? (·.doctype = name) with
        | some e => row.map (extendedRow m e)
        | none => row := by
  induction es using List.reverseRecOn with
  | nil => rfl
  | append_singleton es e ih =>
      rw [List.foldl_append, List.reverse_append, ih]
      show m.extendAt name _ e = match (e :: es.reverse).find? (·.doctype = name) with
        | some e => row.map (extendedRow m e)
        | none => row
      unfold Manifest.extendAt
      by_cases he : e.doctype = name
      · rw [if_pos he, List.find?_cons_of_pos (by simpa using he)]
        -- the extensions before it are stripped
        cases es.reverse.find? (·.doctype = name) with
        | none => rfl
        | some e' =>
            cases row with
            | none => rfl
            | some row => exact congrArg some (extendedRow_extendedRow rfl e e' row)
      · rw [if_neg he, List.find?_cons_of_neg (by simpa using he)]

theorem doctypeOf_eq_none : m.doctypeOf name = none ↔ name ∉ m.declared := by
  simp [Manifest.doctypeOf, Manifest.declared]

theorem extensionOf_eq_none : m.extensionOf name = none ↔ ∀ e ∈ m.extends, e.doctype ≠ name := by
  simp [Manifest.extensionOf]

theorem mem_of_extensionOf {e : ExtensionDecl} (h : m.extensionOf name = some e) :
    e ∈ m.extends ∧ e.doctype = name := by
  have hmem := List.mem_of_find?_eq_some h
  have hdoctype := List.find?_some h
  exact ⟨List.mem_reverse.mp hmem, of_decide_eq_true hdoctype⟩

theorem mem_of_doctypeOf {dt : DocTypeDef} (h : m.doctypeOf name = some dt) :
    dt ∈ m.doctypes ∧ dt.name = name := by
  have hmem := List.mem_of_find?_eq_some h
  have hname := List.find?_some h
  exact ⟨List.mem_reverse.mp hmem, of_decide_eq_true hname⟩

theorem declared_of_doctypeOf {dt : DocTypeDef} (h : m.doctypeOf name = some dt) :
    name ∈ m.declared :=
  List.mem_map.mpr ⟨dt, (mem_of_doctypeOf h).1, (mem_of_doctypeOf h).2⟩

/-- What a bundle makes of a record: its DocType under the name, then its extension. -/
theorem bundleAt_eq (m : Manifest) (name : String) (row : Option DocTypeRow) :
    m.bundleAt name row
      = match m.extensionOf name with
        | some e => (match m.doctypeOf name with
          | some dt => some (attachedRow m dt row)
          | none => row).map (extendedRow m e)
        | none => match m.doctypeOf name with
          | some dt => some (attachedRow m dt row)
          | none => row := by
  unfold Manifest.bundleAt
  rw [foldl_extendAt, foldl_attachAt]
  rfl

/-! ### What a valid bundle keeps to -/

theorem problem_eq_nil {bad : Bool} {text : String} : problem bad text = [] ↔ bad = false := by
  cases bad <;> simp [problem]

theorem extensionProblems_nil (hvalid : m.validate = []) {e : ExtensionDecl} (he : e ∈ m.extends) :
    m.extensionProblems e = [] := by
  unfold Manifest.validate at hvalid
  simp only [List.append_eq_nil_iff] at hvalid
  exact List.flatMap_eq_nil_iff.mp hvalid.1.1.1.1.1.2 e he

theorem workflowProblems_nil (hvalid : m.validate = []) {w : WorkflowDef} (hw : w ∈ m.workflows) :
    m.workflowProblems w = [] := by
  unfold Manifest.validate at hvalid
  simp only [List.append_eq_nil_iff] at hvalid
  exact List.flatMap_eq_nil_iff.mp hvalid.1.2 w hw

/-- A bundle does not extend what it declares. -/
theorem not_declared_of_extends (hvalid : m.validate = []) {e : ExtensionDecl}
    (he : e ∈ m.extends) : e.doctype ∉ m.declared := by
  have hproblems := extensionProblems_nil hvalid he
  unfold Manifest.extensionProblems at hproblems
  simp only [List.append_eq_nil_iff, problem_eq_nil] at hproblems
  have howns := hproblems.1.1.1.2
  intro hdeclared
  obtain ⟨dt, hdt, hname⟩ := List.mem_map.mp hdeclared
  have : m.owns e.doctype = true := List.any_eq_true.mpr ⟨dt, hdt, by simp [hname]⟩
  rw [howns] at this
  cases this

theorem extensionOf_of_declared (hvalid : m.validate = []) (h : name ∈ m.declared) :
    m.extensionOf name = none := by
  rw [extensionOf_eq_none]
  intro e he hname
  exact not_declared_of_extends hvalid he (hname ▸ h)

/-- An extension adds a field or a script. -/
theorem extension_adds (hvalid : m.validate = []) {e : ExtensionDecl} (he : e ∈ m.extends) :
    e.fields ≠ [] ∨ scriptOf m e ≠ [] := by
  have hproblems := extensionProblems_nil hvalid he
  unfold Manifest.extensionProblems at hproblems
  simp only [List.append_eq_nil_iff, problem_eq_nil] at hproblems
  have hadds := hproblems.1.2
  unfold scriptOf
  cases hscript : (Str.trim e.script == "") with
  | true =>
      rw [hscript, Bool.true_and] at hadds
      left
      rintro hnil
      simp [hnil] at hadds
  | false =>
      right
      simp

end

section

open AppProg

variable {engine : RowEngine} {luck : MigrationPhase → ScopeFaults} {s s' : TenantDb}
  {m : Manifest}

/-! ### Workflows and notifications -/

theorem checkIdent_ok {name : String} (h : checkIdent name = .ok ()) : isIdent name = true := by
  unfold checkIdent at h
  split at h
  · assumption
  · cases h

theorem attachWorkflows_inv {ws : List WorkflowDef}
    (h : (attachWorkflows ws).exec engine luck s = (.ok (), s')) :
    s' = { s with workflows := putAll (·.name) ws s.workflows } := by
  induction ws generalizing s with
  | nil => cases h; rfl
  | cons w ws ih =>
      obtain ⟨_, _, h⟩ := exec_lift_bind_inv h
      obtain ⟨_, _, h⟩ := exec_lift_bind_inv h
      exact ih (s := { s with workflows := put w.name w s.workflows }) h

theorem attachNotifications_inv {ns : List NotificationDef}
    (h : (attachNotifications ns).exec engine luck s = (.ok (), s')) :
    s' = { s with notifications := putAll (·.name) ns s.notifications } := by
  induction ns generalizing s with
  | nil => cases h; rfl
  | cons n ns ih =>
      obtain ⟨_, _, h⟩ := exec_lift_bind_inv h
      exact ih (s := { s with notifications := put n.name n s.notifications }) h

theorem deleteWorkflows_exec (names : List String) (s : TenantDb) :
    (deleteWorkflows names).exec engine luck s
      = (.ok (), { s with workflows := removeAll names s.workflows }) := by
  induction names generalizing s with
  | nil => rfl
  | cons name names ih => exact ih _

theorem deleteNotifications_exec (names : List String) (s : TenantDb) :
    (deleteNotifications names).exec engine luck s
      = (.ok (), { s with notifications := removeAll names s.notifications }) := by
  induction names generalizing s with
  | nil => rfl
  | cons name names ih => exact ih _

theorem detachRemoved_exec (previous next : Manifest) (s : TenantDb) :
    (detachRemovedBundleMetadata previous next).exec engine luck s = (.ok (), { s with
      workflows := removeAll (removedNames (previous.workflows.map (·.name))
        (next.workflows.map (·.name))) s.workflows
      notifications := removeAll (removedNames (previous.notifications.map (·.name))
        (next.notifications.map (·.name))) s.notifications }) :=
  (exec_bind_ok (deleteWorkflows_exec _ _)).trans (deleteNotifications_exec _ _)

@[simp] theorem mem_removedNames {name : String} {previous next : List String} :
    name ∈ removedNames previous next ↔ name ∈ previous ∧ name ∉ next := by
  simp [removedNames]

/-! ### A whole install -/

/-- The workflow that a bundle leaves under a name: its last one, or what was there. -/
def Manifest.workflowAt (m : Manifest) (name : String) (was : Option WorkflowDef) :
    Option WorkflowDef :=
  (m.workflows.reverse.find? (·.name = name)).or was

/-- The notification that a bundle leaves under a name. -/
def Manifest.notificationAt (m : Manifest) (name : String) (was : Option NotificationDef) :
    Option NotificationDef :=
  (m.notifications.reverse.find? (·.name = name)).or was

/-- The workflows of a registered bundle that the next one has no more. -/
def removedWorkflows (existing : Option AppRow) (m : Manifest) : List String :=
  existing.elim [] fun row =>
    removedNames (row.manifest.workflows.map (·.name)) (m.workflows.map (·.name))

/-- The notifications of a registered bundle that the next one has no more. -/
def removedNotifications (existing : Option AppRow) (m : Manifest) : List String :=
  existing.elim [] fun row =>
    removedNames (row.manifest.notifications.map (·.name)) (m.notifications.map (·.name))

/-- What a successful install or update of a bundle does to the metadata. -/
structure InstallEffect (m : Manifest) (s s' : TenantDb) : Prop where
  valid : m.validate = []
  doctypes : ∀ name, s'.doctypes.lookup name = m.bundleAt name (s.doctypes.lookup name)
  targets : ∀ e ∈ m.extends, ∃ row, s.doctypes.lookup e.doctype = some row ∧
    TenantDb.strippable row = true
  workflows : ∀ name, s'.workflows.lookup name =
    if name ∈ removedWorkflows (s.apps.lookup m.name) m then none
    else m.workflowAt name (s.workflows.lookup name)
  notifications : ∀ name, s'.notifications.lookup name =
    if name ∈ removedNotifications (s.apps.lookup m.name) m then none
    else m.notificationAt name (s.notifications.lookup name)
  apps : ∀ app, s'.apps.lookup app =
    if app = m.name then some ⟨m.version, true, m⟩ else s.apps.lookup app

theorem syncExtended_within (syncs : Bool) (m : Manifest) :
    (syncExtended syncs m).Within [.schema, .rows] :=
  Within.ite (sync_within.bind fun _ => Within.done _) (Within.done _)

theorem checkValid_ok (h : m.checkValid = .ok ()) : m.validate = [] := by
  unfold Manifest.checkValid at h
  split at h
  · rename_i hempty
    exact List.isEmpty_iff.mp hempty
  · cases h

/-- The gates let pass what is valid, and read the registry. -/
theorem installGates_inv {acknowledge isUpdate : Bool} {admitted : Admitted}
    (h : (installGates m acknowledge isUpdate).exec engine luck s = (.ok admitted, s')) :
    m.validate = [] ∧ admitted.existing = s.apps.lookup m.name ∧
      checkVersion m (s.apps.lookup m.name) isUpdate = .ok () := by
  obtain ⟨_, hvalid, h⟩ := exec_lift_bind_inv h
  replace h := (exec_bind_ok (exec_sql _ _)).symm.trans h
  obtain ⟨_, hversion, h⟩ := exec_lift_bind_inv h
  obtain ⟨plans, t, _, h⟩ := exec_bind_inv h
  obtain ⟨_, _, h⟩ := exec_lift_bind_inv h
  obtain ⟨casualties, t', _, h⟩ := exec_bind_inv h
  obtain ⟨_, _, h⟩ := exec_lift_bind_inv h
  obtain ⟨_, _, h⟩ := exec_lift_bind_inv h
  cases h
  exact ⟨checkValid_ok hvalid, rfl, hversion⟩

/-- What the bundle's metadata and fixtures leave. -/
theorem attachBundle_inv {syncs : Bool}
    (h : (attachBundle syncs m).exec engine luck s = (.ok (), s')) :
    (∀ name, s'.doctypes.lookup name = m.bundleAt name (s.doctypes.lookup name)) ∧
    (∀ e ∈ m.extends, ∃ row, m.doctypes.foldl (m.attachAt e.doctype) (s.doctypes.lookup e.doctype)
      = some row ∧ TenantDb.strippable row = true) ∧
    s'.workflows = putAll (·.name) m.workflows s.workflows ∧
    s'.notifications = putAll (·.name) m.notifications s.notifications ∧ s'.apps = s.apps := by
  obtain ⟨_, t₃, hmeta, h⟩ := exec_bind_inv h
  obtain ⟨_, t₄, hworkflows, h⟩ := exec_bind_inv h
  obtain ⟨_, t₅, hnotifications, hfixtures⟩ := exec_bind_inv h
  obtain ⟨_, t₁, hown, h⟩ := exec_bind_inv hmeta
  obtain ⟨_, t₂, hext, hsync⟩ := exec_bind_inv h
  obtain ⟨hfound, hextended⟩ := attachEach_inv hext
  replace hworkflows := attachWorkflows_inv hworkflows
  replace hnotifications := attachNotifications_inv hnotifications
  subst hworkflows hnotifications
  -- the statements that are about other parts
  have hown_same (part : Part) (hpart : part ≠ .doctypes) : part.Same t₁ s :=
    (attachDoctypes_within m _).same_of_ok (by simpa using hpart) hown
  have hext_same (part : Part) (hpart : part ≠ .doctypes) : part.Same t₂ t₁ :=
    (attachEach_within m _).same_of_ok (by simpa using hpart) hext
  have hsync_same (part : Part) (hpart : part ∉ [Part.schema, .rows]) : part.Same t₃ t₂ :=
    (syncExtended_within syncs m).same_of_ok hpart hsync
  have hfixtures_same (part : Part) (hpart : part ∉ [Part.provenance, .rows]) :
      part.Same s' _ :=
    (applyFixtures_within m m.fixtures).same_of_ok hpart hfixtures
  have hdoctypes : s'.doctypes = t₂.doctypes :=
    (hfixtures_same .doctypes (by decide)).trans (hsync_same .doctypes (by decide))
  have hbefore (part : Part) (hpart : part ∉ [Part.doctypes, .schema, .rows]) : part.Same t₃ s := by
    refine (hsync_same part (by simp at hpart ⊢; tauto)).trans ?_
    have hne : part ≠ .doctypes := fun h => hpart (h ▸ List.mem_cons_self)
    exact (hext_same part hne).trans (hown_same part hne)
  refine ⟨fun name => ?_, fun e he => ?_, ?_, ?_, ?_⟩
  · rw [hdoctypes, hextended, attachDoctypes_inv hown]
    rfl
  · rw [← attachDoctypes_inv hown]
    exact hfound e he
  · have hsame : t₃.workflows = s.workflows := hbefore .workflows (by decide)
    have hput : s'.workflows = _ := hfixtures_same .workflows (by decide)
    rw [hput, hsame]
  · have hsame : t₃.notifications = s.notifications := hbefore .notifications (by decide)
    have hput : s'.notifications = _ := hfixtures_same .notifications (by decide)
    rw [hput, hsame]
  · exact (hfixtures_same .apps (by decide)).trans (hbefore .apps (by decide))

theorem detachPrevious_inv {existing : Option AppRow}
    (h : (detachPrevious m existing).exec engine luck s = (.ok (), s')) :
    s'.doctypes = s.doctypes ∧ s'.apps = s.apps ∧
    s'.workflows = removeAll (removedWorkflows existing m) s.workflows ∧
    s'.notifications = removeAll (removedNotifications existing m) s.notifications := by
  cases existing with
  | none => cases h; exact ⟨rfl, rfl, rfl, rfl⟩
  | some row =>
      replace h := (exec_bind_ok (detachRemoved_exec _ _ _)).symm.trans h
      have hsame (part : Part) (hpart : part ∉ [Part.provenance]) : part.Same s' _ :=
        (orphanRemovedFixtures_within m _).same_of_ok hpart h
      exact ⟨hsame .doctypes (by decide), hsame .apps (by decide), hsame .workflows (by decide),
        hsame .notifications (by decide)⟩

/-- The registry's row is there; no one else's has changed. -/
theorem register_inv (h : (register m (s.apps.lookup m.name)).exec engine luck s = (.ok (), s')) :
    s'.doctypes = s.doctypes ∧ s'.workflows = s.workflows ∧ s'.notifications = s.notifications ∧
    ∀ app, s'.apps.lookup app = if app = m.name then some ⟨m.version, true, m⟩
      else s.apps.lookup app := by
  unfold register at h
  cases hrow : s.apps.lookup m.name with
  | some row =>
      rw [hrow] at h
      cases h
      refine ⟨rfl, rfl, rfl, fun app => ?_⟩
      simp only [TenantDb.serve, lookup_modify, hrow]
      rfl
  | none =>
      rw [hrow] at h
      replace h : TenantDb.serve engine luck s (.createApp m.name ⟨m.version, true, m⟩) = _ := h
      simp only [TenantDb.serve, hrow] at h
      cases h
      refine ⟨rfl, rfl, rfl, fun app => ?_⟩
      simp

theorem installApp_effect {syncs acknowledge isUpdate : Bool} {report : InstallReport}
    (h : (installApp syncs m acknowledge isUpdate).exec engine luck s = (.ok report, s')) :
    InstallEffect m s s' := by
  obtain ⟨admitted, t, hgates, h⟩ := exec_bind_inv h
  obtain ⟨applied, t', happly, h⟩ := exec_bind_inv h
  cases h
  obtain ⟨hvalid, hexisting, _⟩ := installGates_inv hgates
  obtain ⟨_, t₁, hplan, h⟩ := exec_bind_inv happly
  obtain ⟨_, _, h⟩ := exec_lift_bind_inv h
  obtain ⟨_, t₂, hbundle, h⟩ := exec_bind_inv h
  obtain ⟨_, t₃, hdetach, h⟩ := exec_bind_inv h
  obtain ⟨_, t₄, hregister, h⟩ := exec_bind_inv h
  cases h
  -- the gates and the migration are about the schema only
  have hbefore (part : Part) (hpart : part ∉ [Part.schema]) : part.Same t₁ s :=
    ((planUnchecked_within m _).same_of_ok hpart hplan).trans
      ((installGates_within m _ _).same_of_ok hpart hgates)
  obtain ⟨hdoctypes, htargets, hworkflows, hnotifications, happs⟩ := attachBundle_inv hbundle
  obtain ⟨hdoctypes₃, happs₃, hworkflows₃, hnotifications₃⟩ := detachPrevious_inv hdetach
  have happs_same : t₃.apps = s.apps := happs₃.trans (happs.trans (hbefore .apps (by decide)))
  rw [hexisting, ← happs_same] at hregister
  obtain ⟨hdoctypes₄, hworkflows₄, hnotifications₄, hregistry⟩ := register_inv hregister
  rw [hexisting] at hworkflows₃ hnotifications₃
  constructor
  case valid => exact hvalid
  case doctypes =>
    intro name
    rw [hdoctypes₄, hdoctypes₃, hdoctypes, hbefore .doctypes (by decide)]
  case targets =>
    intro e he
    obtain ⟨row, hrow, hstrippable⟩ := htargets e he
    -- the bundle does not declare what it extends
    rw [foldl_attachAt] at hrow
    have hnone : m.doctypes.reverse.find? (·.name = e.doctype) = none :=
      doctypeOf_eq_none.mpr (not_declared_of_extends hvalid he)
    rw [hnone, hbefore .doctypes (by decide)] at hrow
    exact ⟨row, hrow, hstrippable⟩
  case workflows =>
    intro name
    rw [hworkflows₄, hworkflows₃, lookup_removeAll, hworkflows, lookup_putAll,
      hbefore .workflows (by decide)]
    rfl
  case notifications =>
    intro name
    rw [hnotifications₄, hnotifications₃, lookup_removeAll, hnotifications, lookup_putAll,
      hbefore .notifications (by decide)]
    rfl
  case apps =>
    intro app
    rw [hregistry, happs_same]

/-! ### A whole uninstall -/

/-- What an uninstall makes of a record that it does not delete. -/
def detachRow (app : String) (row : DocTypeRow) : DocTypeRow :=
  if row.app = some app then row else TenantDb.stripRow app row

/-- What a successful uninstall does to the metadata. -/
structure UninstallEffect (name : String) (row : AppRow) (s s' : TenantDb) : Prop where
  registered : s.apps.lookup name = some row
  strippable : ∀ doctype prior, s.doctypes.lookup doctype = some prior →
    doctype ∉ row.manifest.doctypes.map (·.name) →
    prior.app = some name ∨ TenantDb.strippable prior = true
  doctypes : ∀ doctype, s'.doctypes.lookup doctype =
    if doctype ∈ row.manifest.doctypes.map (·.name) then none
    else (s.doctypes.lookup doctype).map (detachRow name)
  workflows : ∀ workflow, s'.workflows.lookup workflow =
    if workflow ∈ row.manifest.workflows.map (·.name) then none else s.workflows.lookup workflow
  notifications : ∀ notification, s'.notifications.lookup notification =
    if notification ∈ row.manifest.notifications.map (·.name) then none
    else s.notifications.lookup notification
  apps : ∀ app, s'.apps.lookup app = if app = name then none else s.apps.lookup app

theorem deleteDoctypes_inv {dts : List DocTypeDef} {retained : List (String × Nat)}
    (h : (deleteDoctypes dts).exec engine luck s = (.ok retained, s')) :
    s' = { s with doctypes := removeAll (dts.map (·.name)) s.doctypes } := by
  induction dts generalizing s retained with
  | nil => cases h; rfl
  | cons dt dts ih =>
      obtain ⟨_, _, h⟩ := exec_lift_bind_inv h
      obtain ⟨more, t, hmore, h⟩ := exec_bind_inv (p := deleteDoctypes dts)
        (s := { s with doctypes := remove dt.name s.doctypes }) h
      cases h
      exact ih hmore

theorem uninstallWorkflows_inv {ws : List WorkflowDef}
    (h : (uninstallWorkflows ws).exec engine luck s = (.ok (), s')) :
    s' = { s with workflows := removeAll (ws.map (·.name)) s.workflows } := by
  induction ws generalizing s with
  | nil => cases h; rfl
  | cons w ws ih =>
      obtain ⟨_, _, h⟩ := exec_lift_bind_inv h
      exact ih (s := { s with workflows := remove w.name s.workflows }) h

theorem uninstallNotifications_inv {ns : List NotificationDef}
    (h : (uninstallNotifications ns).exec engine luck s = (.ok (), s')) :
    s' = { s with notifications := removeAll (ns.map (·.name)) s.notifications } := by
  induction ns generalizing s with
  | nil => cases h; rfl
  | cons n ns ih =>
      obtain ⟨_, _, h⟩ := exec_lift_bind_inv h
      exact ih (s := { s with notifications := remove n.name s.notifications }) h

theorem uninstallApp_effect {name : String} {report : UninstallReport}
    (h : (uninstallApp name).exec engine luck s = (.ok report, s')) :
    ∃ row, UninstallEffect name row s s' := by
  replace h := (exec_bind_ok (exec_sql _ _)).symm.trans h
  cases hrow : s.apps.lookup name with
  | none =>
      rw [hrow] at h
      cases congrArg Prod.fst h
  | some row =>
      rw [hrow] at h
      obtain ⟨retained, t₁, hdoctypes, h⟩ := exec_bind_inv h
      obtain ⟨_, t₂, hworkflows, h⟩ := exec_bind_inv h
      obtain ⟨_, t₃, hnotifications, h⟩ := exec_bind_inv h
      replace hdoctypes := deleteDoctypes_inv hdoctypes
      replace hworkflows := uninstallWorkflows_inv hworkflows
      replace hnotifications := uninstallNotifications_inv hnotifications
      subst hdoctypes hworkflows hnotifications
      obtain ⟨_, t₄, hstrip, h⟩ := exec_bind_inv h
      replace hstrip : TenantDb.serve engine luck _ (.stripOthers name) = _ := hstrip
      simp only [TenantDb.serve] at hstrip
      split at hstrip
      · rename_i hstrippable
        cases hstrip
        -- the last three statements always succeed
        cases h
        refine ⟨row, hrow, fun doctype prior hprior hnot => ?_, fun doctype => ?_,
          fun workflow => ?_, fun notification => ?_, fun app => ?_⟩
        · have hleft : (removeAll (row.manifest.doctypes.map (·.name)) s.doctypes).lookup doctype
              = some prior := by
            rw [lookup_removeAll, if_neg hnot]
            exact hprior
          exact of_decide_eq_true (List.all_eq_true.mp hstrippable _ (mem_of_lookup hleft))
        · simp only [TenantDb.serve]
          rw [lookup_modifyAll, lookup_removeAll]
          split
          · rfl
          · rfl
        · exact lookup_removeAll _ _ _
        · exact lookup_removeAll _ _ _
        · exact lookup_remove _ _ _
      · cases congrArg Prod.fst hstrip

end

/-! ### Runs that succeed -/

/-- Some successful run of an install, or of an update, of a bundle: with any tables, and any
migrations, acknowledged or not. -/
def Installs (syncs : Bool) (m : Manifest) (isUpdate : Bool) (s s' : TenantDb) : Prop :=
  ∃ engine luck acknowledge report,
    (installApp syncs m acknowledge isUpdate).exec engine luck s = (.ok report, s')

/-- Some successful run of an uninstall. -/
def Uninstalls (name : String) (s s' : TenantDb) : Prop :=
  ∃ engine luck report, (uninstallApp name).exec engine luck s = (.ok report, s')

section

variable {syncs isUpdate : Bool} {m : Manifest} {s s' : TenantDb}

theorem Installs.effect (h : Installs syncs m isUpdate s s') : InstallEffect m s s' := by
  obtain ⟨engine, luck, acknowledge, report, h⟩ := h
  exact installApp_effect h

theorem Uninstalls.effect {name : String} (h : Uninstalls name s s') :
    ∃ row, UninstallEffect name row s s' := by
  obtain ⟨engine, luck, report, h⟩ := h
  exact uninstallApp_effect h

theorem Installs.version (h : Installs syncs m isUpdate s s') :
    checkVersion m (s.apps.lookup m.name) isUpdate = .ok () := by
  obtain ⟨engine, luck, acknowledge, report, h⟩ := h
  obtain ⟨admitted, t, hgates, _⟩ := AppProg.exec_bind_inv h
  exact (installGates_inv hgates).2.2

/-- What is installed, and not updated, was not registered. -/
theorem Installs.unregistered (h : Installs syncs m false s s') : s.apps.lookup m.name = none := by
  have hversion := h.version
  cases hrow : s.apps.lookup m.name with
  | none => rfl
  | some row => rw [hrow] at hversion; cases hversion

end

end Frust.Kernel
