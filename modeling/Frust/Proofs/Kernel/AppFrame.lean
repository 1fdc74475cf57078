import Frust.Proofs.Kernel.Installs

/-!
# `Frust.Proofs.Kernel.AppFrame`: what an operation of one app does to the others

A DocType record is stored with its owner's name. A workflow or a notification is an app's when the
app's registered bundle declares it. `Frame` says that an operation leaves what is another's as it
was, up to what the app itself adds to another's record and takes from it again.

Nothing compares a declared name with an owner, at install or at uninstall. `owner_frame_iff` is the
exact condition: what the operation declares and deletes is no one else's.
-/

set_option autoImplicit false

namespace Frust.Kernel

open Frust.Lib Frust.Orm Frust.Rust

/-- An operation of the lifecycle that changes metadata. -/
inductive AppOp where
  | install (m : Manifest)
  | update (m : Manifest)
  | uninstall (name : String)

namespace AppOp

/-- The app that an operation is of. -/
def app : AppOp → String
  | install m | update m => m.name
  | uninstall name => name

/-- A successful run of an operation. -/
def Runs (syncs : Bool) : AppOp → TenantDb → TenantDb → Prop
  | install m => Installs syncs m false
  | update m => Installs syncs m true
  | uninstall name => Uninstalls name

/-- The bundle that an operation brings. -/
def bundle : AppOp → Option Manifest
  | install m | update m => some m
  | uninstall _ => none

/-- The bundle that is registered for the app. -/
def stored (op : AppOp) (s : TenantDb) : Option Manifest := (s.apps.lookup op.app).map (·.manifest)

/-- The workflows that an operation deletes: those that an update has no more, or all. -/
def deletedWorkflows (op : AppOp) (s : TenantDb) : List String :=
  removedNames ((op.stored s).elim [] fun m => m.workflows.map (·.name))
    (op.bundle.elim [] fun m => m.workflows.map (·.name))

/-- The notifications that an operation deletes. -/
def deletedNotifications (op : AppOp) (s : TenantDb) : List String :=
  removedNames ((op.stored s).elim [] fun m => m.notifications.map (·.name))
    (op.bundle.elim [] fun m => m.notifications.map (·.name))

/-- The DocTypes that an operation deletes: those of the bundle that goes. -/
def deletedDoctypes (op : AppOp) (s : TenantDb) : List String :=
  match op with
  | uninstall _ => (op.stored s).elim [] (·.declared)
  | _ => []

/-- The fields that the app adds to a DocType. -/
def addsFields (op : AppOp) (doctype : String) : List StoredField :=
  op.bundle.elim [] fun m =>
    (m.extends.filter (·.doctype = doctype)).flatMap fun e => e.fields.map m.extensionField

/-- The scripts that the app adds to a DocType. -/
def addsScripts (op : AppOp) (doctype : String) : List ScriptRow :=
  op.bundle.elim [] fun m => (m.extends.filter (·.doctype = doctype)).flatMap (scriptOf m)

end AppOp

/-- What is the kernel's own, of all that is stored without an owner. -/
structure KernelNames where
  doctypes : String → Prop
  workflows : String → Prop
  notifications : String → Prop

namespace KernelNames

variable (k : KernelNames) (app : String) (s : TenantDb)

/-- A DocType record is another registered app's, or the kernel's. -/
def ForeignDoctype (doctype : String) (row : DocTypeRow) : Prop :=
  (∃ owner, owner ≠ app ∧ row.app = some owner ∧ (s.apps.lookup owner).isSome = true) ∨
    row.app = none ∧ k.doctypes doctype

/-- A workflow is another registered app's, or the kernel's. -/
def ForeignWorkflow (workflow : String) : Prop :=
  (∃ owner row, owner ≠ app ∧ s.apps.lookup owner = some row ∧
    workflow ∈ row.manifest.workflows.map (·.name)) ∨ k.workflows workflow

/-- A notification is another registered app's, or the kernel's. -/
def ForeignNotification (notification : String) : Prop :=
  (∃ owner row, owner ≠ app ∧ s.apps.lookup owner = some row ∧
    notification ∈ row.manifest.notifications.map (·.name)) ∨ k.notifications notification

end KernelNames

/-- A record is the same up to what an app added to it before, and adds to it now. -/
def SameButFor (app : String) (fields : List StoredField) (scripts : List ScriptRow)
    (row row' : DocTypeRow) : Prop :=
  row' = row ∨
    TenantDb.strippable row = true ∧ TenantDb.strippable row' = true ∧
      TenantDb.stripRow app row' = TenantDb.stripRow app row ∧
      (∀ f ∈ row'.fields, f.extApp = some app → f ∈ row.fields ∨ f ∈ fields) ∧
      ∀ x ∈ row'.serverScript.items, x.app = some app → x ∈ row.serverScript.items ∨ x ∈ scripts

/-- What is another's is there after the operation as it was before. -/
structure Frame (k : KernelNames) (op : AppOp) (s s' : TenantDb) : Prop where
  doctypes : ∀ doctype row, s.doctypes.lookup doctype = some row →
    k.ForeignDoctype op.app s doctype row →
    ∃ row', s'.doctypes.lookup doctype = some row' ∧
      SameButFor op.app (op.addsFields doctype) (op.addsScripts doctype) row row'
  workflows : ∀ name w, s.workflows.lookup name = some w → k.ForeignWorkflow op.app s name →
    s'.workflows.lookup name = some w
  notifications : ∀ name n, s.notifications.lookup name = some n →
    k.ForeignNotification op.app s name → s'.notifications.lookup name = some n

/-- The bundle of the operation declares nothing that is another's. -/
structure DeclaresOwn (k : KernelNames) (op : AppOp) (s : TenantDb) : Prop where
  doctypes : ∀ m ∈ op.bundle, ∀ doctype ∈ m.declared, ∀ row,
    s.doctypes.lookup doctype = some row → ¬ k.ForeignDoctype op.app s doctype row
  workflows : ∀ m ∈ op.bundle, ∀ w ∈ m.workflows, ¬ k.ForeignWorkflow op.app s w.name
  notifications : ∀ m ∈ op.bundle, ∀ n ∈ m.notifications, ¬ k.ForeignNotification op.app s n.name

/-- The operation deletes nothing that is another's. -/
structure DeletesOwn (k : KernelNames) (op : AppOp) (s : TenantDb) : Prop where
  doctypes : ∀ doctype ∈ op.deletedDoctypes s, ∀ row,
    s.doctypes.lookup doctype = some row → ¬ k.ForeignDoctype op.app s doctype row
  workflows : ∀ name ∈ op.deletedWorkflows s, ∀ w,
    s.workflows.lookup name = some w → ¬ k.ForeignWorkflow op.app s name
  notifications : ∀ name ∈ op.deletedNotifications s, ∀ n,
    s.notifications.lookup name = some n → ¬ k.ForeignNotification op.app s name

section

variable {k : KernelNames} {m : Manifest} {s s' : TenantDb} {syncs isUpdate : Bool}

/-! ### Another's record -/

theorem strippable_extendedRow (m : Manifest) (e : ExtensionDecl) (row : DocTypeRow) :
    TenantDb.strippable (extendedRow m e row) = true := by
  unfold extendedRow withScripts
  split <;> rfl

/-- An extension changes nothing but what the app adds. -/
theorem sameButFor_extendedRow {e : ExtensionDecl} {row : DocTypeRow}
    (hstrippable : TenantDb.strippable row = true) {fields : List StoredField}
    {scripts : List ScriptRow} (hfields : ∀ f ∈ e.fields.map m.extensionField, f ∈ fields)
    (hscripts : ∀ x ∈ scriptOf m e, x ∈ scripts) :
    SameButFor m.name fields scripts row (extendedRow m e row) := by
  right
  refine ⟨hstrippable, strippable_extendedRow m e row, stripRow_extendedRow m e row, ?_, ?_⟩
  · intro f hf _
    rw [extendedRow_fields] at hf
    rcases List.mem_append.mp hf with hf | hf
    · exact Or.inl (List.mem_filter.mp hf).1
    · exact Or.inr (hfields f hf)
  · intro x hx _
    rw [extendedRow_items] at hx
    rcases List.mem_append.mp hx with hx | hx
    · exact Or.inl (List.mem_filter.mp hx).1
    · exact Or.inr (hscripts x hx)

/-- Taking an app's additions away changes nothing else. -/
theorem sameButFor_detachRow {app : String} {row : DocTypeRow}
    (hstrippable : row.app = some app ∨ TenantDb.strippable row = true) :
    SameButFor app [] [] row (detachRow app row) := by
  unfold detachRow
  split
  · exact Or.inl rfl
  · rename_i hne
    right
    refine ⟨hstrippable.resolve_left hne, rfl, ?_, ?_, ?_⟩
    · simp [TenantDb.stripRow, ServerScript.items, List.filter_filter]
    · intro f hf _
      exact Or.inl (List.mem_filter.mp hf).1
    · intro x hx _
      exact Or.inl (List.mem_filter.mp hx).1

/-- What a bundle makes of a record that it does not declare. -/
theorem bundleAt_sameButFor {doctype : String} {row : DocTypeRow} {fields : List StoredField}
    {scripts : List ScriptRow} (hnot : doctype ∉ m.declared)
    (hstrippable : ∀ e ∈ m.extends, e.doctype = doctype → TenantDb.strippable row = true)
    (hfields : ∀ e ∈ m.extends, e.doctype = doctype → ∀ f ∈ e.fields.map m.extensionField, f ∈ fields)
    (hscripts : ∀ e ∈ m.extends, e.doctype = doctype → ∀ x ∈ scriptOf m e, x ∈ scripts) :
    ∃ row', m.bundleAt doctype (some row) = some row' ∧
      SameButFor m.name fields scripts row row' := by
  rw [bundleAt_eq, doctypeOf_eq_none.mpr hnot]
  cases he : m.extensionOf doctype with
  | none => exact ⟨row, rfl, Or.inl rfl⟩
  | some e =>
      obtain ⟨hmem, hdoctype⟩ := mem_of_extensionOf he
      exact ⟨_, rfl, sameButFor_extendedRow (hstrippable e hmem hdoctype)
        (hfields e hmem hdoctype) (hscripts e hmem hdoctype)⟩

/-! ### Installs and updates -/

/-- What the bundle of an install or an update leaves of workflows and of notifications, where it
declares none that is another's. -/
theorem named_frame {α : Type} (key : α → String) {vs : List α} {was : Option α} {v : α}
    {name : String} {removed : List String} (hwas : was = some v) (hnot : name ∉ vs.map key)
    (hremoved : name ∉ removed) :
    (if name ∈ removed then none else (vs.reverse.find? (key · = name)).or was) = some v := by
  have hnone : vs.reverse.find? (key · = name) = none := by
    rw [List.find?_eq_none]
    intro v' hv' hkey
    exact hnot (List.mem_map.mpr ⟨v', List.mem_reverse.mp hv', of_decide_eq_true hkey⟩)
  rw [if_neg hremoved, hnone, Option.none_or, hwas]

/-- An install or an update that brings a bundle. -/
theorem install_frame_iff (op : AppOp) (happ : op.app = m.name) (hbundle : op.bundle = some m)
    (hdeletes : op.deletedDoctypes s = []) (heffect : InstallEffect m s s') :
    Frame k op s s' ∧ DeclaresOwn k op s ↔ DeclaresOwn k op s ∧ DeletesOwn k op s := by
  have hworkflows : op.deletedWorkflows s = removedWorkflows (s.apps.lookup m.name) m := by
    unfold AppOp.deletedWorkflows AppOp.stored removedWorkflows
    rw [happ, hbundle]
    cases s.apps.lookup m.name <;> rfl
  have hnotifications : op.deletedNotifications s
      = removedNotifications (s.apps.lookup m.name) m := by
    unfold AppOp.deletedNotifications AppOp.stored removedNotifications
    rw [happ, hbundle]
    cases s.apps.lookup m.name <;> rfl
  constructor
  · rintro ⟨hframe, hown⟩
    -- A foreign definition that is deleted is not left as it was.
    refine ⟨hown, ?_, ?_, ?_⟩
    · rw [hdeletes]
      exact fun doctype h => absurd h List.not_mem_nil
    · intro name hname w hw hforeign
      have hstays := hframe.workflows name w hw hforeign
      rw [heffect.workflows, if_pos (hworkflows ▸ hname)] at hstays
      cases hstays
    · intro name hname n hn hforeign
      have hstays := hframe.notifications name n hn hforeign
      rw [heffect.notifications, if_pos (hnotifications ▸ hname)] at hstays
      cases hstays
  · rintro ⟨hown, hdeleted⟩
    refine ⟨⟨?_, ?_, ?_⟩, hown⟩
    · intro doctype row hrow hforeign
      -- A foreign record is not declared, so it only gets the extensions that are the bundle's to
      -- add.
      have hnot : doctype ∉ m.declared := fun hdeclared =>
        hown.doctypes m hbundle doctype hdeclared row hrow hforeign
      rw [heffect.doctypes, hrow, happ]
      refine bundleAt_sameButFor hnot ?_ ?_ ?_
      · intro e he hdoctype
        obtain ⟨row', hrow', hstrippable⟩ := heffect.targets e he
        rw [hdoctype, hrow] at hrow'
        cases hrow'
        exact hstrippable
      · intro e he hdoctype f hf
        unfold AppOp.addsFields
        rw [hbundle]
        exact List.mem_flatMap.mpr ⟨e, List.mem_filter.mpr ⟨he, by simpa using hdoctype⟩, hf⟩
      · intro e he hdoctype x hx
        unfold AppOp.addsScripts
        rw [hbundle]
        exact List.mem_flatMap.mpr ⟨e, List.mem_filter.mpr ⟨he, by simpa using hdoctype⟩, hx⟩
    · intro name w hw hforeign
      rw [heffect.workflows]
      refine named_frame WorkflowDef.name hw ?_ fun h => ?_
      · intro hdeclared
        obtain ⟨w', hw', rfl⟩ := List.mem_map.mp hdeclared
        exact hown.workflows m hbundle w' hw' hforeign
      · exact hdeleted.workflows name (hworkflows ▸ h) w hw hforeign
    · intro name n hn hforeign
      rw [heffect.notifications]
      refine named_frame NotificationDef.name hn ?_ fun h => ?_
      · intro hdeclared
        obtain ⟨n', hn', rfl⟩ := List.mem_map.mp hdeclared
        exact hown.notifications m hbundle n' hn' hforeign
      · exact hdeleted.notifications name (hnotifications ▸ h) n hn hforeign

/-! ### Uninstalls -/

theorem uninstall_frame_iff {name : String} {row : AppRow}
    (heffect : UninstallEffect name row s s') :
    Frame k (.uninstall name) s s' ∧ DeclaresOwn k (.uninstall name) s ↔
      DeclaresOwn k (.uninstall name) s ∧ DeletesOwn k (.uninstall name) s := by
  -- What is deleted is what the registered bundle declares.
  have hstored : (AppOp.uninstall name).stored s = some row.manifest := by
    show (s.apps.lookup name).map _ = _
    rw [heffect.registered]
    rfl
  have hdoctypes : (AppOp.uninstall name).deletedDoctypes s
      = row.manifest.doctypes.map (·.name) := by
    simp [AppOp.deletedDoctypes, hstored, Manifest.declared]
  have hworkflows : (AppOp.uninstall name).deletedWorkflows s
      = row.manifest.workflows.map (·.name) := by
    simp [AppOp.deletedWorkflows, hstored, AppOp.bundle, removedNames]
  have hnotifications : (AppOp.uninstall name).deletedNotifications s
      = row.manifest.notifications.map (·.name) := by
    simp [AppOp.deletedNotifications, hstored, AppOp.bundle, removedNames]
  constructor
  · rintro ⟨hframe, hown⟩
    refine ⟨hown, ?_, ?_, ?_⟩
    · intro doctype hdoctype prior hprior hforeign
      obtain ⟨row', hrow', _⟩ := hframe.doctypes doctype prior hprior hforeign
      rw [heffect.doctypes, if_pos (hdoctypes ▸ hdoctype)] at hrow'
      cases hrow'
    · intro workflow hworkflow w hw hforeign
      have hstays := hframe.workflows workflow w hw hforeign
      rw [heffect.workflows, if_pos (hworkflows ▸ hworkflow)] at hstays
      cases hstays
    · intro notification hnotification n hn hforeign
      have hstays := hframe.notifications notification n hn hforeign
      rw [heffect.notifications, if_pos (hnotifications ▸ hnotification)] at hstays
      cases hstays
  · rintro ⟨hown, hdeleted⟩
    refine ⟨⟨?_, ?_, ?_⟩, hown⟩
    · intro doctype prior hprior hforeign
      have hnot : doctype ∉ row.manifest.doctypes.map (·.name) := fun h =>
        hdeleted.doctypes doctype (hdoctypes.symm ▸ h) prior hprior hforeign
      -- A record that stays loses what this app had added to it.
      refine ⟨detachRow name prior, ?_, ?_⟩
      · rw [heffect.doctypes, if_neg hnot, hprior]
        rfl
      · exact sameButFor_detachRow (heffect.strippable doctype prior hprior hnot)
    · intro workflow w hw hforeign
      rw [heffect.workflows, if_neg, hw]
      exact fun h => hdeleted.workflows workflow (hworkflows.symm ▸ h) w hw hforeign
    · intro notification n hn hforeign
      rw [heffect.notifications, if_neg, hn]
      exact fun h => hdeleted.notifications notification (hnotifications.symm ▸ h) n hn hforeign

/-- An operation leaves what is another's and declares nothing of it, exactly when neither what it
declares nor what it deletes is another's. -/
theorem owner_frame_iff (k : KernelNames) (op : AppOp) (h : op.Runs syncs s s') :
    Frame k op s s' ∧ DeclaresOwn k op s ↔ DeclaresOwn k op s ∧ DeletesOwn k op s := by
  cases op with
  | install m => exact install_frame_iff (.install m) rfl rfl rfl (Installs.effect h)
  | update m => exact install_frame_iff (.update m) rfl rfl rfl (Installs.effect h)
  | uninstall name =>
      obtain ⟨row, heffect⟩ := Uninstalls.effect h
      exact uninstall_frame_iff heffect

end

/-! ### Two apps with a note -/

/-- The kernel owns nothing. -/
def noKernel : KernelNames := ⟨fun _ => False, fun _ => False, fun _ => False⟩

/-- Another app with a DocType of the same name. -/
def crmNotes : Manifest :=
  { manifestVersion := 1, name := "crm", version := "1.0.0",
    doctypes := [{ name := "note", fields := [] }] }

/-- Another app with a DocType of its own. -/
def crmLeads : Manifest := { crmNotes with doctypes := [{ name := "lead", fields := [] }] }

/-- The bundle of the app that has the note. -/
def ownerNotes : Manifest := { crmNotes with name := "desk" }

/-- A tenant where the note is another app's. -/
def noteTenant : TenantDb :=
  { doctypes := [("note", { app := some "desk", fields := [] })],
    apps := [("desk", ⟨"1.0.0", true, ownerNotes⟩)] }

theorem crmLeads_installs : ∃ schema, Installs true crmLeads false noteTenant { noteTenant with
    doctypes := noteTenant.doctypes ++ [("lead", { app := some "crm", fields := [] })]
    apps := noteTenant.apps ++ [("crm", ⟨"1.0.0", true, crmLeads⟩)]
    schema := schema } := by
  have hready : Ready crmLeads false noteTenant :=
    ⟨by decide +kernel, rfl, ⟨_, rfl⟩, rfl⟩
  exact hready.installs
    (t := { noteTenant with
      doctypes := noteTenant.doctypes ++ [("lead", { app := some "crm", fields := [] })] })
    (u := { noteTenant with
      doctypes := noteTenant.doctypes ++ [("lead", { app := some "crm", fields := [] })] })
    (v := { noteTenant with
      doctypes := noteTenant.doctypes ++ [("lead", { app := some "crm", fields := [] })]
      apps := noteTenant.apps ++ [("crm", ⟨"1.0.0", true, crmLeads⟩)] })
    (fun schema => ⟨schema, rfl⟩) (fun schema => rfl) (fun schema => rfl)

theorem crmNotes_installs : ∃ schema, Installs true crmNotes false noteTenant { noteTenant with
    doctypes := [("note", { app := some "crm", fields := [] })]
    apps := noteTenant.apps ++ [("crm", ⟨"1.0.0", true, crmNotes⟩)]
    schema := schema } := by
  have hready : Ready crmNotes false noteTenant :=
    ⟨by decide +kernel, rfl, ⟨_, rfl⟩, rfl⟩
  exact hready.installs
    (t := { noteTenant with doctypes := [("note", { app := some "crm", fields := [] })] })
    (u := { noteTenant with doctypes := [("note", { app := some "crm", fields := [] })] })
    (v := { noteTenant with
      doctypes := [("note", { app := some "crm", fields := [] })]
      apps := noteTenant.apps ++ [("crm", ⟨"1.0.0", true, crmNotes⟩)] })
    (fun schema => ⟨schema, rfl⟩) (fun schema => rfl) (fun schema => rfl)

theorem owner_frame_lead :
    ∃ s', (AppOp.install crmLeads).Runs true noteTenant s' ∧
      Frame noKernel (.install crmLeads) noteTenant s' := by
  obtain ⟨schema, h⟩ := crmLeads_installs
  refine ⟨_, h, ((owner_frame_iff noKernel (.install crmLeads) h).mpr ⟨⟨?_, ?_, ?_⟩, ?_, ?_, ?_⟩).1⟩
  · intro m hm doctype hdoctype row hrow
    cases hm
    obtain rfl := List.mem_singleton.mp hdoctype
    cases hrow
  · intro m hm w hw
    cases hm
    cases hw
  · intro m hm n hn
    cases hm
    cases hn
  · intro doctype hdoctype
    cases hdoctype
  · intro name hname
    cases hname
  · intro name hname
    cases hname

/-- An install takes the note of another registered app: it is not refused, and afterwards the record
is its own. -/
theorem not_owner_frame : ∃ s', (AppOp.install crmNotes).Runs true noteTenant s' ∧
    (noteTenant.doctypes.lookup "note").bind (·.app) = some "desk" ∧
    (s'.doctypes.lookup "note").bind (·.app) = some "crm" ∧
    ¬ Frame noKernel (.install crmNotes) noteTenant s' ∧
    ¬ DeclaresOwn noKernel (.install crmNotes) noteTenant := by
  obtain ⟨schema, h⟩ := crmNotes_installs
  have hforeign : noKernel.ForeignDoctype "crm" noteTenant "note" { app := some "desk", fields := [] } :=
    Or.inl ⟨"desk", by decide, rfl, rfl⟩
  refine ⟨_, h, rfl, rfl, fun hframe => ?_, fun hown => ?_⟩
  · obtain ⟨row', hrow', hsame⟩ := hframe.doctypes "note" _ rfl hforeign
    cases hrow'
    rcases hsame with hsame | ⟨_, _, hsame, _⟩
    · exact absurd (congrArg DocTypeRow.app hsame) (by decide)
    · exact absurd (congrArg DocTypeRow.app hsame) (by decide)
  · exact hown.doctypes crmNotes rfl "note" (by decide) _ rfl hforeign

end Frust.Kernel
