import Frust.Proofs.Kernel.AppFrame

/-!
# `Frust.Proofs.Kernel.Extensions`: extensions over whole lifecycles

A registered app should have on the record of every DocType that it extends, where there is one, each
field and each hook that its bundle declares. `Attached` says so of a database.

An extension is written when its own app is installed, and it goes with the record when the owner is
uninstalled. So it is missing on a record that an install makes anew. Within a bundle each extension
strips what the one before it added, so only the last one for a DocType stands.
`attached_iff` puts the two together: over every run the extensions stay attached exactly when no
step makes the record of a DocType that another registered app extends, and in every bundle the last
extension for a DocType has all that the others have.
-/

set_option autoImplicit false

namespace Frust.Kernel

open Frust.Lib Frust.Orm Frust.Rust

/-- A record bears what an extension declares, each field and the hook just once. -/
structure Bears (m : Manifest) (e : ExtensionDecl) (row : DocTypeRow) : Prop where
  fields : ∀ f ∈ e.fields, (row.fields.filter fun g =>
    decide (g.field.fieldname = f.fieldname) && decide (g.extApp = some m.name)) = [m.extensionField f]
  script : ∀ x ∈ scriptOf m e, row.serverScript.items.filter (· = x) = [x]

/-- The records bear the extensions of the registered apps. -/
def Attached (s : TenantDb) : Prop :=
  ∀ app row, s.apps.lookup app = some row → ∀ e ∈ row.manifest.extends, ∀ record,
    s.doctypes.lookup e.doctype = some record → Bears row.manifest e record

/-- The last extension of a bundle for a DocType has what each one for it has, and no field twice. -/
def LastStands (m : Manifest) : Prop :=
  ∀ e ∈ m.extends, ∀ last, m.extensionOf e.doctype = some last →
    (∀ f ∈ e.fields, last.fields.filter (·.fieldname = f.fieldname) = [f]) ∧
      ∀ x ∈ scriptOf m e, x ∈ scriptOf m last

/-- The bundle of an operation makes no record of a DocType that another registered app extends. -/
def MakesNone (m : Manifest) (s : TenantDb) : Prop :=
  ∀ doctype ∈ m.declared, s.doctypes.lookup doctype = none →
    ∀ app row, s.apps.lookup app = some row → app ≠ m.name →
      ∀ e ∈ row.manifest.extends, e.doctype ≠ doctype

/-- What keeps the extensions attached over one operation. -/
def KeepsExtensions (op : AppOp) (s : TenantDb) : Prop :=
  ∀ m ∈ op.bundle, LastStands m ∧ MakesNone m s

/-- The registry holds valid bundles, under their names. -/
def Registry (s : TenantDb) : Prop :=
  ∀ app row, s.apps.lookup app = some row → row.manifest.name = app ∧ row.manifest.validate = []

section

variable {m : Manifest} {e last : ExtensionDecl} {row row' : DocTypeRow} {s s' : TenantDb}

/-! ### One record -/

/-- The fields of a name that an app added are in its contribution. -/
theorem filter_fields (row : DocTypeRow) (f : FieldDef) : (row.fields.filter fun g =>
      decide (g.field.fieldname = f.fieldname) && decide (g.extApp = some m.name))
    = (contributionOf m.name row).fields.filter fun g =>
      decide (g.field.fieldname = f.fieldname) := by
  unfold contributionOf
  rw [List.filter_filter]

/-- An extension's script, where a record bears it, is in the app's contribution. -/
theorem filter_items (row : DocTypeRow) {x : ScriptRow} (hx : x ∈ scriptOf m e) :
    row.serverScript.items.filter (· = x)
      = (contributionOf m.name row).scripts.filter (· = x) := by
  unfold contributionOf
  rw [List.filter_filter]
  refine congrArg (List.filter · _) (funext fun y => ?_)
  by_cases hy : y = x
  · simp [hy, mem_scriptOf hx]
  · simp [hy]

/-- What a record bears of an app is in what bears the app's name. -/
theorem bears_congr (h : contributionOf m.name row = contributionOf m.name row') :
    Bears m e row ↔ Bears m e row' := by
  have hfield (f : FieldDef) := (filter_fields (m := m) row f).trans
    (h ▸ (filter_fields row' f).symm)
  have hscript (x : ScriptRow) (hx : x ∈ scriptOf m e) := (filter_items row hx).trans
    (h ▸ (filter_items row' hx).symm)
  constructor
  · intro hc
    exact ⟨fun f hf => hfield f ▸ hc.fields f hf, fun x hx => hscript x hx ▸ hc.script x hx⟩
  · intro hc
    exact ⟨fun f hf => hfield f ▸ hc.fields f hf, fun x hx => hscript x hx ▸ hc.script x hx⟩

/-- Of an app's extensions for a DocType the last one stands: when is another one borne? -/
theorem bears_extendedRow_iff : Bears m e (extendedRow m last row) ↔
    (∀ f ∈ e.fields, last.fields.filter (·.fieldname = f.fieldname) = [f]) ∧
      ∀ x ∈ scriptOf m e, x ∈ scriptOf m last := by
  have hfield (f : FieldDef) : ((extendedRow m last row).fields.filter fun g =>
      decide (g.field.fieldname = f.fieldname) && decide (g.extApp = some m.name))
      = (last.fields.filter (·.fieldname = f.fieldname)).map m.extensionField := by
    rw [filter_fields, contributionOf_extendedRow, List.filter_map]
    rfl
  have hinjective (fs : List FieldDef) (f : FieldDef) :
      fs.map m.extensionField = [m.extensionField f] ↔ fs = [f] := by
    constructor
    · intro h
      obtain ⟨f', rfl, hf'⟩ := List.map_eq_singleton_iff.mp h
      exact congrArg (fun g => [StoredField.field g]) hf'
    · rintro rfl
      rfl
  have hscript (x : ScriptRow) (hx : x ∈ scriptOf m e) :
      (extendedRow m last row).serverScript.items.filter (· = x) = [x] ↔ x ∈ scriptOf m last := by
    rw [filter_items _ hx, contributionOf_extendedRow]
    -- an extension has at most one script
    unfold scriptOf
    split
    · simp
    · by_cases hy : m.extensionScript last = x
      · simp [hy]
      · simp [hy, Ne.symm hy]
  constructor
  · intro hc
    exact ⟨fun f hf => (hinjective _ f).mp (hfield f ▸ hc.fields f hf),
      fun x hx => (hscript x hx).mp (hc.script x hx)⟩
  · rintro ⟨hf, hx⟩
    exact ⟨fun f hmem => (hfield f).trans ((hinjective _ f).mpr (hf f hmem)),
      fun x hmem => (hscript x hmem).mpr (hx x hmem)⟩

/-- A record that bears nothing of an app bears none of its extensions. -/
theorem not_bears_of_nil (hvalid : m.validate = []) (he : e ∈ m.extends)
    (h : contributionOf m.name row = ⟨[], []⟩) : ¬ Bears m e row := by
  obtain ⟨hfields, hscripts⟩ := Contribution.mk.injEq .. ▸ h
  intro hc
  rcases extension_adds hvalid he with hadds | hadds
  · obtain ⟨f, hf⟩ := List.exists_mem_of_ne_nil _ hadds
    have hborne := hc.fields f hf
    rw [← List.filter_filter, hfields] at hborne
    cases hborne
  · obtain ⟨x, hx⟩ := List.exists_mem_of_ne_nil _ hadds
    have hmem : x ∈ row.serverScript.items.filter (· = x) := by
      rw [hc.script x hx]
      exact List.mem_singleton_self x
    have hin : x ∈ row.serverScript.items.filter (·.app = some m.name) :=
      List.mem_filter.mpr ⟨(List.mem_filter.mp hmem).1, by simp [mem_scriptOf hx]⟩
    rw [hscripts] at hin
    cases hin

/-! ### One operation -/

/-- An install or an update registers its bundle; the others stay. -/
theorem registry_install (hs : Registry s) (h : InstallEffect m s s') : Registry s' := by
  intro app row hrow
  rw [h.apps] at hrow
  split at hrow
  · rename_i happ
    cases hrow
    exact ⟨happ.symm, h.valid⟩
  · exact hs app row hrow

theorem registry_uninstall {name : String} {r : AppRow} (hs : Registry s)
    (h : UninstallEffect name r s s') : Registry s' := by
  intro app row hrow
  rw [h.apps] at hrow
  split at hrow
  · cases hrow
  · exact hs app row hrow

/-- What a bundle leaves of another app's share of a record. -/
theorem contributionOf_bundleAt {app name : String} (hne : app ≠ m.name)
    (h : m.bundleAt name (some row) = some row') : contributionOf app row' = contributionOf app row := by
  have hown (dt : DocTypeDef) : contributionOf app (attachedRow m dt (some row))
      = contributionOf app row := contributionOf_attachedRow hne dt (some row)
  rw [bundleAt_eq] at h
  cases he : m.extensionOf name with
  | none =>
      cases hdt : m.doctypeOf name with
      | none =>
          rw [he, hdt] at h
          cases h
          rfl
      | some dt =>
          rw [he, hdt] at h
          cases h
          exact hown dt
  | some e =>
      cases hdt : m.doctypeOf name with
      | none =>
          rw [he, hdt] at h
          cases h
          exact contributionOf_extendedRow_ne hne e row
      | some dt =>
          rw [he, hdt] at h
          cases h
          rw [contributionOf_extendedRow_ne hne, hown]

/-- After an install or an update the extensions are attached exactly when the bundle keeps them. -/
theorem attached_install_iff (hs : Registry s) (hattached : Attached s) (h : InstallEffect m s s') :
    Attached s' ↔ LastStands m ∧ MakesNone m s := by
  constructor
  · intro hafter
    constructor
    · intro e he last hlast
      -- the record that the app extends is what the last extension makes of it
      obtain ⟨row, hrow, _⟩ := h.targets e he
      have hbears := hafter m.name ⟨m.version, true, m⟩ (by rw [h.apps, if_pos rfl]) e he
        (extendedRow m last row) (by
          rw [h.doctypes, hrow, bundleAt_eq, hlast,
            doctypeOf_eq_none.mpr (not_declared_of_extends h.valid he)]
          rfl)
      exact bears_extendedRow_iff.mp hbears
    · intro doctype hdeclared hnone app row hrow hne e he hdoctype
      obtain ⟨hname, hvalid⟩ := hs app row hrow
      obtain ⟨dt, hdt⟩ := Option.ne_none_iff_exists'.mp fun hnot =>
        doctypeOf_eq_none.mp hnot hdeclared
      have hmade : s'.doctypes.lookup e.doctype = some (attachedRow m dt none) := by
        rw [hdoctype, h.doctypes, hnone, bundleAt_eq, extensionOf_of_declared h.valid hdeclared, hdt]
      -- the new record bears nothing of the other app
      refine not_bears_of_nil hvalid he ?_ (hafter app row ?_ e he _ hmade)
      · rw [contributionOf_attachedRow (hname ▸ hne)]
        rfl
      · rw [h.apps, if_neg hne, hrow]
  · rintro ⟨hlast, hnone⟩ app row hrow e he record hrecord
    rw [h.apps] at hrow
    split at hrow
    · rename_i happ
      cases hrow
      obtain ⟨prior, hprior, _⟩ := h.targets e he
      obtain ⟨last, hext⟩ := Option.ne_none_iff_exists'.mp fun hnot =>
        extensionOf_eq_none.mp hnot e he rfl
      rw [h.doctypes, hprior, bundleAt_eq, hext,
        doctypeOf_eq_none.mpr (not_declared_of_extends h.valid he)] at hrecord
      cases hrecord
      exact bears_extendedRow_iff.mpr (hlast e he last hext)
    · rename_i hne
      obtain ⟨hname, _⟩ := hs app row hrow
      rw [h.doctypes] at hrecord
      cases hprior : s.doctypes.lookup e.doctype with
      | some prior =>
          rw [hprior] at hrecord
          refine (bears_congr ?_).mpr (hattached app row hrow e he prior hprior)
          exact contributionOf_bundleAt (hname ▸ hne) hrecord
      | none =>
          -- a record that was not there would be made by the bundle
          exfalso
          by_cases hdeclared : e.doctype ∈ m.declared
          · exact hnone e.doctype hdeclared hprior app row hrow hne e he rfl
          · rw [hprior, bundleAt_eq, doctypeOf_eq_none.mpr hdeclared] at hrecord
            cases hext : m.extensionOf e.doctype <;> rw [hext] at hrecord <;> cases hrecord

/-- An uninstall leaves the extensions of the other apps attached. -/
theorem attached_uninstall {name : String} {r : AppRow} (hs : Registry s) (hattached : Attached s)
    (h : UninstallEffect name r s s') : Attached s' := by
  intro app row hrow e he record hrecord
  rw [h.apps] at hrow
  split at hrow
  · cases hrow
  · rename_i hne
    obtain ⟨hname, _⟩ := hs app row hrow
    rw [h.doctypes] at hrecord
    split at hrecord
    · cases hrecord
    · obtain ⟨prior, hprior, rfl⟩ := Option.map_eq_some_iff.mp hrecord
      refine (bears_congr ?_).mpr (hattached app row hrow e he prior hprior)
      unfold detachRow
      split
      · rfl
      · exact contributionOf_stripRow (hname ▸ hne) prior

end

/-! ### Runs -/

/-- A step of a run is labelled with the operation and the database before it. -/
def LifeStep (syncs : Bool) (s : TenantDb) (label : AppOp × TenantDb) (s' : TenantDb) : Prop :=
  label.2 = s ∧ label.1.Runs syncs s s'

section

variable {syncs : Bool} {s s' s₀ : TenantDb} {labels : List (AppOp × TenantDb)}

theorem registry_step {op : AppOp} (hs : Registry s) (h : op.Runs syncs s s') : Registry s' := by
  cases op with
  | install m | update m => exact registry_install hs (Installs.effect h)
  | uninstall name =>
      obtain ⟨row, heffect⟩ := Uninstalls.effect h
      exact registry_uninstall hs heffect

theorem attached_step_iff {op : AppOp} (hs : Registry s) (hattached : Attached s)
    (h : op.Runs syncs s s') : Attached s' ↔ KeepsExtensions op s := by
  cases op with
  | install m | update m =>
      rw [attached_install_iff hs hattached (Installs.effect h)]
      constructor
      · intro hkeeps m' hm'
        cases hm'
        exact hkeeps
      · intro hkeeps
        exact hkeeps m rfl
  | uninstall name =>
      obtain ⟨row, heffect⟩ := Uninstalls.effect h
      constructor
      · intro _ m hm
        cases hm
      · intro _
        exact attached_uninstall hs hattached heffect

theorem registry_run (h₀ : Registry s₀) (h : Run (LifeStep syncs) s₀ labels s) : Registry s := by
  refine h.invariant h₀ ?_
  rintro t label u ht ⟨rfl, hop⟩
  exact registry_step ht hop

/-- Over every run that starts without registered apps, the extensions are attached in every
database reached exactly when every step keeps them. -/
theorem attached_iff (h₀ : ∀ app, s₀.apps.lookup app = none)
    (h : Run (LifeStep syncs) s₀ labels s) :
    (∀ label ∈ labels, Attached label.2) ∧ Attached s ↔
      ∀ label ∈ labels, KeepsExtensions label.1 label.2 := by
  have hregistry : Registry s₀ := fun app row hrow => by rw [h₀] at hrow; cases hrow
  induction h with
  | nil =>
      refine ⟨fun _ label h => absurd h List.not_mem_nil, fun _ => ⟨by simp, ?_⟩⟩
      intro app row hrow
      rw [h₀] at hrow
      cases hrow
  | @snoc labels t u label hrun hstep ih =>
      obtain ⟨rfl, hop⟩ := hstep
      -- One more step: the registry is well formed before it, so the step is judged alone.
      have hlast := registry_run hregistry hrun
      constructor
      · rintro ⟨hall, hu⟩ label' hlabel'
        have ht : Attached label.2 := hall label (by simp)
        rcases List.mem_append.mp hlabel' with hin | hin
        · exact ih.mp ⟨fun l hl => hall l (List.mem_append_left _ hl), ht⟩ label' hin
        · rw [List.mem_singleton.mp hin]
          exact (attached_step_iff hlast ht hop).mp hu
      · intro hkeeps
        obtain ⟨hall, ht⟩ := ih.mpr fun l hl => hkeeps l (List.mem_append_left _ hl)
        refine ⟨fun l hl => ?_, ?_⟩
        · rcases List.mem_append.mp hl with hin | hin
          · exact hall l hin
          · rw [List.mem_singleton.mp hin]
            exact ht
        · exact (attached_step_iff hlast ht hop).mpr (hkeeps label (by simp))

end

/-! ### An extension of a note -/

/-- The app that extends the note of the other one. -/
def crmExtends : Manifest :=
  { manifestVersion := 1, name := "crm", version := "1.0.0",
    «extends» := [{ doctype := "note", fields := [{ fieldname := "crm_stage", fieldtype := "Data" }] }] }

/-- The note with the other app's field. -/
def stagedNote : DocTypeRow :=
  { app := some "desk", serverScript := .list [],
    fields := [{ field := { fieldname := "crm_stage", fieldtype := "Data" }, extApp := some "crm" }] }

/-- The database with both apps. -/
def stagedTenant : TenantDb :=
  { doctypes := [("note", stagedNote)],
    apps := [("desk", ⟨"1.0.0", true, ownerNotes⟩), ("crm", ⟨"1.0.0", true, crmExtends⟩)] }

/-- A tenant where the owner is installed again. -/
def bareTenant : TenantDb :=
  { doctypes := [("note", { app := some "desk", fields := [] })],
    apps := [("crm", ⟨"1.0.0", true, crmExtends⟩), ("desk", ⟨"1.0.0", true, ownerNotes⟩)] }

theorem ownerNotes_installs :
    ∃ schema, Installs true ownerNotes false {} { noteTenant with schema := schema } := by
  have hready : Ready ownerNotes false {} := ⟨by decide +kernel, rfl, ⟨_, rfl⟩, rfl⟩
  exact hready.installs
    (t := { doctypes := noteTenant.doctypes }) (u := { doctypes := noteTenant.doctypes })
    (v := noteTenant) (fun schema => ⟨schema, rfl⟩) (fun schema => rfl) (fun schema => rfl)

theorem crmExtends_installs (schema : ScopeDb) : ∃ schema', Installs true crmExtends false
    { noteTenant with schema := schema } { stagedTenant with schema := schema' } := by
  have hcompile : Compile [stagedNote.toDef "note"] (rollupTargets [stagedNote.toDef "note"]) := by
    intro dt hdt
    rw [List.mem_singleton.mp hdt]
    exact ⟨_, rfl⟩
  have hbundle := attachBundle_ok noTables clear_noFaults (m := crmExtends) (s := noteTenant) (t := noteTenant)
    (u := { noteTenant with doctypes := [("note", stagedNote)] })
    (v := { noteTenant with doctypes := [("note", stagedNote)] })
    (fun schema => rfl) (fun schema => rfl) hcompile
    (by simp [TenantDb.defs, TenantDb.byName, DocTypeRow.toDef, stagedNote]) (fun schema => rfl)
  have hready : Ready crmExtends false { noteTenant with schema := schema } :=
    ⟨by decide +kernel, rfl, ⟨_, rfl⟩, rfl⟩
  exact hready.installs
    (t := { noteTenant with doctypes := [("note", stagedNote)] })
    (u := { noteTenant with doctypes := [("note", stagedNote)] })
    (v := stagedTenant) hbundle (fun schema => rfl) (fun schema => rfl)

/-- The database between the owner's uninstall and its next install. -/
def crmTenant : TenantDb := { apps := [("crm", ⟨"1.0.0", true, crmExtends⟩)] }

theorem ownerNotes_uninstalls (schema : ScopeDb) : Uninstalls "desk"
    { stagedTenant with schema := schema } { crmTenant with schema := schema } :=
  ⟨fun _ _ _ _ => .ok .null, fun _ => {}, _, rfl⟩

theorem ownerNotes_reinstalls (schema : ScopeDb) : ∃ schema', Installs true ownerNotes false
    { crmTenant with schema := schema } { bareTenant with schema := schema' } := by
  have hready : Ready ownerNotes false { crmTenant with schema := schema } :=
    ⟨by decide +kernel, rfl, ⟨_, rfl⟩, rfl⟩
  exact hready.installs
    (t := { crmTenant with doctypes := noteTenant.doctypes })
    (u := { crmTenant with doctypes := noteTenant.doctypes }) (v := bareTenant)
    (fun schema => ⟨schema, rfl⟩) (fun schema => rfl) (fun schema => rfl)

theorem lastStands_crmExtends : LastStands crmExtends := by
  intro e he last hlast
  rw [List.mem_singleton.mp he] at hlast ⊢
  cases hlast
  exact ⟨by decide, fun x hx => hx⟩

theorem attached_iff_note : ∃ s₁ s₂,
    Run (LifeStep true) {} [(.install ownerNotes, {}), (.install crmExtends, s₁)] s₂ ∧
      Attached s₁ ∧ Attached s₂ := by
  obtain ⟨schema₁, h₁⟩ := ownerNotes_installs
  obtain ⟨schema₂, h₂⟩ := crmExtends_installs schema₁
  have hrun : Run (LifeStep true) {} [(.install ownerNotes, {}),
      (.install crmExtends, { noteTenant with schema := schema₁ })]
      { stagedTenant with schema := schema₂ } :=
    Run.cons ⟨rfl, h₁⟩ (Run.single ⟨rfl, h₂⟩)
  refine ⟨_, _, hrun, ?_⟩
  have hattached := (attached_iff (fun app => rfl) hrun).mpr ?_
  · exact ⟨hattached.1 (.install crmExtends, _) (List.mem_cons_of_mem _ List.mem_cons_self),
      hattached.2⟩
  · intro label hlabel m hm
    simp only [List.mem_cons, List.not_mem_nil, or_false] at hlabel
    rcases hlabel with rfl | rfl
    · cases hm
      exact ⟨fun e he => absurd he List.not_mem_nil, fun _ _ _ app row hrow => by cases hrow⟩
    · cases hm
      exact ⟨lastStands_crmExtends, fun doctype hdoctype => absurd hdoctype List.not_mem_nil⟩

/-- The owner is uninstalled and installed again: the other app is still registered, and its field is
gone. -/
theorem not_attached : ∃ labels s, Run (LifeStep true) {} labels s ∧
    labels.map (·.1) = [.install ownerNotes, .install crmExtends, .uninstall "desk",
      .install ownerNotes] ∧
    s.apps.lookup "crm" = some ⟨"1.0.0", true, crmExtends⟩ ∧
    s.doctypes.lookup "note" = some { app := some "desk", fields := [] } ∧ ¬ Attached s := by
  obtain ⟨schema₁, h₁⟩ := ownerNotes_installs
  obtain ⟨schema₂, h₂⟩ := crmExtends_installs schema₁
  obtain ⟨schema₄, h₄⟩ := ownerNotes_reinstalls schema₂
  have hrun : Run (LifeStep true) {} [(.install ownerNotes, {}),
      (.install crmExtends, { noteTenant with schema := schema₁ }),
      (.uninstall "desk", { stagedTenant with schema := schema₂ }),
      (.install ownerNotes, { crmTenant with schema := schema₂ })]
      { bareTenant with schema := schema₄ } :=
    Run.cons ⟨rfl, h₁⟩ (Run.cons ⟨rfl, h₂⟩ (Run.cons ⟨rfl, ownerNotes_uninstalls schema₂⟩
      (Run.single ⟨rfl, h₄⟩)))
  refine ⟨_, _, hrun, rfl, rfl, rfl, fun hattached => ?_⟩
  have hbears := hattached "crm" ⟨"1.0.0", true, crmExtends⟩ rfl
    { doctype := "note", fields := [{ fieldname := "crm_stage", fieldtype := "Data" }] } (by decide)
    { app := some "desk", fields := [] } rfl
  exact absurd (hbears.fields { fieldname := "crm_stage", fieldtype := "Data" } (by decide))
    (List.cons_ne_nil _ _).symm

end Frust.Kernel
