import Frust.Kernel.Endpoint
import Frust.Proofs.Kernel.Installs

/-!
# `Frust.Proofs.Kernel.Export`: live metadata as a bundle, and the bundle installed

An export makes a manifest of the records that are an app's, and an install writes records from a
manifest. In between a field is a `FieldDef`, which has no `perm_role`: whoever was kept from reading
a field reads it after the round trip. `export_reinstall_iff` says what comes back as it was.

The fields and scripts that another app added to a record are that app's, and not of the bundle.
-/

set_option autoImplicit false

namespace Frust.Kernel

open Frust.Lib Frust.Orm Frust.Rust

/-! ### What the kernel acts on -/

/-- A script on a record is for the app's bundle. -/
def ownEntry (name : String) (row : DocTypeRow) (e : ScriptEntry) : Bool :=
  e.app == some name || row.app.isNone && e.app.isNone

/-- What a script does. -/
def ScriptEntry.act (e : ScriptEntry) : String × HookClass := (e.script, e.hook)

/-- The app's scripts on a record, in the order in which they run. -/
def ownScripts (name : String) (row : DocTypeRow) : List (String × HookClass) :=
  ((loadServerScripts (some row.scriptsJson)).entries.filter (ownEntry name row)).map (·.act)

/-- The app's scripts on a record, in the order in which they are stored. -/
def storedScripts (name : String) (row : DocTypeRow) : List (String × HookClass) :=
  ((scriptEntries row.scriptsJson).filter (ownEntry name row)).map (·.act)

/-- A record without the fields that other apps added. -/
def ownFields (row : DocTypeRow) : DocTypeRow :=
  { row with fields := row.fields.filter (·.extApp.isNone) }

/-- Two records agree on what the kernel acts on, of what is the app's. -/
structure SameMetadata (name doctype : String) (row row' : DocTypeRow) : Prop where
  fields : row'.fields.map (fun f => (f.field, f.permRole))
    = (ownFields row).fields.map fun f => (f.field, f.permRole)
  readable : ∀ role, readableFields (row'.toMeta doctype) role
    = readableFields ((ownFields row).toMeta doctype) role
  issingle : row'.issingle = row.issingle
  submittable : row'.submittable = row.submittable
  aggregates : row'.aggregates = row.aggregates
  clientScript : nonBlank row'.clientScript = nonBlank row.clientScript
  serverScripts : (loadServerScripts (some row'.scriptsJson)).entries.map (·.act)
    = ownScripts name row

/-- A workflow is of the bundle that an app is exported as. -/
def exportsWorkflow (s : TenantDb) (name : String) (includeUnowned : Bool) (row : AppRow)
    (w : WorkflowDef) : Bool :=
  exportsNamed (row.manifest.workflows.map (·.name))
    ((TenantDb.byName s.apps).flatMap fun a => a.2.manifest.workflows.map (·.name))
    (((TenantDb.byName s.doctypes).filter fun e => exports name includeUnowned e.2).map (·.1))
    includeUnowned w.name w.doctype

/-- The same of a notification. -/
def exportsNotification (s : TenantDb) (name : String) (includeUnowned : Bool) (row : AppRow)
    (n : NotificationDef) : Bool :=
  exportsNamed (row.manifest.notifications.map (·.name))
    ((TenantDb.byName s.apps).flatMap fun a => a.2.manifest.notifications.map (·.name))
    (((TenantDb.byName s.doctypes).filter fun e => exports name includeUnowned e.2).map (·.1))
    includeUnowned n.name n.doctype

/-- The metadata of an app, in a database and in another one. -/
structure Survives (name : String) (includeUnowned : Bool) (row : AppRow) (s s' : TenantDb) : Prop where
  doctypes : ∀ e ∈ s.doctypes, exports name includeUnowned e.2 = true →
    ∃ row', s'.doctypes.lookup e.1 = some row' ∧ SameMetadata name e.1 e.2 row'
  workflows : ∀ e ∈ s.workflows, exportsWorkflow s name includeUnowned row e.2 = true →
    s'.workflows.lookup e.1 = some e.2
  notifications : ∀ e ∈ s.notifications, exportsNotification s name includeUnowned row e.2 = true →
    s'.notifications.lookup e.1 = some e.2

/-- Workflows and notifications are stored under their names. -/
structure Keyed (s : TenantDb) : Prop where
  workflows : ∀ e ∈ s.workflows, e.2.name = e.1
  distinctWorkflows : (s.workflows.map (·.1)).Nodup
  notifications : ∀ e ∈ s.notifications, e.2.name = e.1
  distinctNotifications : (s.notifications.map (·.1)).Nodup

section

variable {engine : RowEngine} {luck : MigrationPhase → ScopeFaults} {s s' t : TenantDb}
  {m : Manifest} {name : String} {includeUnowned : Bool} {row : AppRow}

open AppProg

/-! ### The exported manifest -/

/-- What an export answers is valid, and made of what is live. -/
theorem exportApp_inv (hrow : s.apps.lookup name = some row)
    (h : (exportApp name includeUnowned).exec engine luck s = (.ok m, t)) :
    m.validate = [] ∧ ∃ fixtures, m = exportManifest row.manifest includeUnowned
      (TenantDb.byName s.apps) (TenantDb.byName s.doctypes)
      ((TenantDb.byName s.workflows).map (·.2)) ((TenantDb.byName s.notifications).map (·.2))
      fixtures name := by
  replace h := (exec_bind_ok (exec_sql (.app name) s)).symm.trans h
  simp only [hrow] at h
  split at h
  · cases congrArg Prod.fst h
  · replace h := (exec_bind_ok (exec_sql .apps s)).symm.trans h
    replace h := (exec_bind_ok (exec_sql .doctypes s)).symm.trans h
    replace h := (exec_bind_ok (exec_sql .workflows s)).symm.trans h
    replace h := (exec_bind_ok (exec_sql .notifications s)).symm.trans h
    replace h := (exec_bind_ok (exec_sql (.activeFixtures name) s)).symm.trans h
    obtain ⟨fixtures, _, h⟩ := exec_lift_bind_inv h
    rw [exec_lift, Prod.mk.injEq] at h
    unfold checkExport at h
    split at h
    · rename_i hvalid
      cases h.1
      exact ⟨List.isEmpty_iff.mp hvalid, fixtures, rfl⟩
    · cases h.1

theorem mem_byName {α : Type} {rows : List (String × α)} {e : String × α} :
    e ∈ TenantDb.byName rows ↔ e ∈ rows := List.mem_insertionSort _

/-! ### Scripts -/

theorem nonBlank_some (script : String) :
    nonBlank (some script) = if Str.trim script = "" then none else some script := by
  unfold nonBlank
  by_cases hblank : Str.trim script = "" <;> simp [hblank]

theorem toJson_app (x : ScriptRow) : (x.toJson.get "app").bind Json.asStr = x.app := by
  obtain ⟨app, script, hook⟩ := x
  cases app <;> cases script <;> cases hook <;> rfl

theorem toJson_script (x : ScriptRow) : x.toJson.get "script" = x.script.map Json.string := by
  obtain ⟨app, script, hook⟩ := x
  cases app <;> cases script <;> cases hook <;> rfl

theorem toJson_hook (x : ScriptRow) : (x.toJson.get "hook").bind Json.asStr = x.hook := by
  obtain ⟨app, script, hook⟩ := x
  cases app <;> cases script <;> cases hook <;> rfl

/-- An item of `server_script`, read. -/
theorem scriptItem_toJson (owner : Option String) (x : ScriptRow) :
    scriptItem owner x.toJson = (nonBlank x.script).bind fun script =>
      (HookClass.fromWire (x.hook.getD "validate")).map fun hook =>
        ⟨x.app, script, hook, x.app = owner⟩ := by
  unfold scriptItem
  simp only [toJson_app, toJson_script, toJson_hook]
  cases x.script with
  | none => rfl
  | some script =>
      rw [nonBlank_some]
      by_cases hblank : Str.trim script = ""
      · simp [hblank, Json.asStr]
      · have hvalidate : HookClass.fromWire "validate" = some .validate := by decide
        cases x.hook with
        | none => simp [hblank, Json.asStr, hvalidate]
        | some hook => cases h : HookClass.fromWire hook <;> simp [hblank, Json.asStr, h]

/-- The scripts of a record, in stored order. -/
theorem scriptEntries_scriptsJson (row : DocTypeRow) :
    scriptEntries row.scriptsJson = match row.serverScript with
      | .none => []
      | .text script =>
          (nonBlank (some script)).toList.map fun text => ⟨row.app, text, .validate, true⟩
      | .list items => items.filterMap fun x => scriptItem row.app x.toJson := by
  have happ : (row.scriptsJson.get "app").bind Json.asStr = row.app := by
    unfold DocTypeRow.scriptsJson
    cases row.app <;> rfl
  have hscripts : row.scriptsJson.get "server_script" = some row.serverScript.toJson := by
    unfold DocTypeRow.scriptsJson
    cases row.app <;> rfl
  unfold scriptEntries
  rw [happ, hscripts]
  cases row.serverScript with
  | none => rfl
  | text script =>
      by_cases hblank : Str.trim script = "" <;> simp [hblank, nonBlank_some, ServerScript.toJson]
  | list items => simp [ServerScript.toJson, List.filterMap_map]

/-- What a declared script does. -/
def ScriptDecl.act (d : ScriptDecl) : Option (String × HookClass) :=
  (HookClass.fromWire d.hook).map fun hook => (d.script, hook)

/-- What one item of `server_script` does, of the app's, and what the export makes of it. -/
theorem scriptItem_act (name doctype : String) (row : DocTypeRow) (x : ScriptRow) :
    (((scriptItem row.app x.toJson).toList.filter (ownEntry name row)).map (·.act)) =
      if x.app == some name || row.app.isNone && x.app.isNone then
        ((nonBlank x.script).toList.map fun text =>
          (⟨doctype, x.hook.getD "validate", text⟩ : ScriptDecl)).filterMap ScriptDecl.act
      else [] := by
  rw [scriptItem_toJson]
  cases nonBlank x.script with
  | none => simp
  | some script =>
      cases hhook : HookClass.fromWire (x.hook.getD "validate") with
      | none => simp [ScriptDecl.act, hhook]
      | some hook =>
          simp only [Option.bind_some, Option.map_some, Option.toList_some, List.map_cons, List.map_nil,
            List.filterMap_cons, ScriptDecl.act, hhook, List.filterMap_nil]
          by_cases hown : (x.app == some name || row.app.isNone && x.app.isNone) = true
          · have hentry : ownEntry name row ⟨x.app, script, hook, x.app = row.app⟩ = true := hown
            rw [List.filter_cons_of_pos hentry, if_pos hown]
            rfl
          · have hentry : ¬ ownEntry name row ⟨x.app, script, hook, x.app = row.app⟩ = true := hown
            rw [List.filter_cons_of_neg hentry, if_neg hown]
            rfl

/-- The scripts that are exported are those of the app as they are stored, where their hooks are
known. -/
theorem storedScripts_eq (name doctype : String) (row : DocTypeRow) (hown : exports name true row = true) :
    storedScripts name row = (exportServerScripts name doctype row).filterMap ScriptDecl.act := by
  unfold storedScripts exportServerScripts
  rw [scriptEntries_scriptsJson]
  cases row.serverScript with
  | none => rfl
  | text script =>
      -- A single script is the owner's, and it runs at `validate`.
      have happ : ownEntry name row ⟨row.app, script, .validate, true⟩ = true := by
        unfold exports at hown
        unfold ownEntry
        cases happ : row.app with
        | none => simp
        | some app => simpa [happ] using hown
      have hvalidate : HookClass.fromWire "validate" = some .validate := by decide
      by_cases hblank : Str.trim script = ""
      · simp [nonBlank_some, hblank]
      · simp [nonBlank_some, hblank, happ, ScriptDecl.act, ScriptEntry.act, hvalidate]
  | list items =>
      show ((items.filterMap fun x => scriptItem row.app x.toJson).filter (ownEntry name row)).map (·.act)
        = ((items.filter fun x => x.app == some name || row.app.isNone && x.app.isNone).flatMap fun x =>
          (nonBlank x.script).toList.map fun text => ⟨doctype, x.hook.getD "validate", text⟩).filterMap
            ScriptDecl.act
      induction items with
      | nil => rfl
      | cons x items ih =>
          -- An item is exported for one app, or dropped in both lists.
          have hone := scriptItem_act name doctype row x
          have hcons : (x :: items).filterMap (fun x => scriptItem row.app x.toJson)
              = (scriptItem row.app x.toJson).toList ++
                items.filterMap fun x => scriptItem row.app x.toJson := by
            cases h : scriptItem row.app x.toJson <;> simp [h]
          rw [hcons, List.filter_append, List.map_append, hone, ih, List.filter_cons]
          split
          · rw [List.flatMap_cons, List.filterMap_append]
          · rfl

/-- On a record of the app its scripts run in the order in which they are stored. -/
theorem ownScripts_of_owned {row : DocTypeRow} (h : row.app = some name) : ownScripts name row = storedScripts name row := by
  have howner : ∀ e ∈ scriptEntries row.scriptsJson, (e.isOwner = true ↔ ownEntry name row e = true) := by
    intro e he
    rw [scriptEntries_scriptsJson] at he
    cases hscripts : row.serverScript with
    | none =>
        rw [hscripts] at he
        cases he
    | text script =>
        rw [hscripts] at he
        obtain ⟨text, _, rfl⟩ := List.mem_map.mp he
        simp [ownEntry, h]
    | list items =>
        rw [hscripts] at he
        obtain ⟨x, _, hx⟩ := List.mem_filterMap.mp he
        rw [scriptItem_toJson] at hx
        obtain ⟨script, _, hx⟩ := Option.bind_eq_some_iff.mp hx
        obtain ⟨hook, _, rfl⟩ := Option.map_eq_some_iff.mp hx
        simp [ownEntry, h]
  have hown : (scriptEntries row.scriptsJson).filter (·.isOwner)
      = (scriptEntries row.scriptsJson).filter (ownEntry name row) :=
    List.filter_congr fun e he => Bool.eq_iff_iff.mpr (howner e he)
  have hrest : ((scriptEntries row.scriptsJson).filter (!·.isOwner)).filter (ownEntry name row) = [] := by
    rw [List.filter_filter, List.filter_eq_nil_iff]
    intro e he hboth
    rw [Bool.and_eq_true, ← howner e he] at hboth
    simp [hboth.1] at hboth
  unfold ownScripts storedScripts loadServerScripts
  simp only [List.filter_append, hrest, List.append_nil, hown, List.filter_filter, Bool.and_self]

/-- The scripts that an install writes for a DocType run in the order of the manifest. -/
theorem ownRow_entries (m : Manifest) (dt : DocTypeDef)
    (hblank : ∀ d ∈ m.serverScripts, Str.trim d.script ≠ "") :
    (loadServerScripts (some (m.ownRow dt).scriptsJson)).entries.map (·.act)
      = (m.serverScripts.filter (·.doctype = dt.name)).filterMap ScriptDecl.act := by
  have hscripts : scriptEntries (m.ownRow dt).scriptsJson
      = (m.serverScriptsFor dt.name).filterMap fun x => scriptItem (some m.name) x.toJson := by
    rw [scriptEntries_scriptsJson]
    unfold Manifest.ownRow
    simp only
    cases m.serverScriptsFor dt.name <;> rfl
  -- each of them is the owner's
  have howner : ∀ e ∈ scriptEntries (m.ownRow dt).scriptsJson, e.isOwner = true := by
    intro e he
    rw [hscripts] at he
    obtain ⟨x, hx, he⟩ := List.mem_filterMap.mp he
    obtain ⟨d, _, rfl⟩ := List.mem_map.mp hx
    rw [scriptItem_toJson] at he
    obtain ⟨script, _, he⟩ := Option.bind_eq_some_iff.mp he
    obtain ⟨hook, _, rfl⟩ := Option.map_eq_some_iff.mp he
    simp
  have hfirst : (scriptEntries (m.ownRow dt).scriptsJson).filter (·.isOwner)
      = scriptEntries (m.ownRow dt).scriptsJson := List.filter_eq_self.mpr howner
  have hrest : (scriptEntries (m.ownRow dt).scriptsJson).filter (!·.isOwner) = [] := by
    rw [List.filter_eq_nil_iff]
    intro e he
    simp [howner e he]
  unfold loadServerScripts
  simp only [hfirst, hrest, List.append_nil]
  rw [hscripts, List.map_filterMap]
  unfold Manifest.serverScriptsFor
  rw [List.filterMap_map]
  refine List.filterMap_congr fun d hd => ?_
  have hd : Str.trim d.script ≠ "" := hblank d (List.mem_of_mem_filter hd)
  simp only [Function.comp_apply, scriptItem_toJson, nonBlank_some, if_neg hd, Option.bind_some,
    Option.getD_some, ScriptDecl.act, Option.map_map]
  rfl

/-! ### The exported manifest, name by name -/

/-- What stands under a key, where the keys are distinct. -/
theorem find?_reverse_of_nodup {α : Type} {key : α → String} {l : List α} {a : α}
    (hnodup : (l.map key).Nodup) (ha : a ∈ l) : l.reverse.find? (key · = key a) = some a := by
  cases hfind : l.reverse.find? (key · = key a) with
  | none =>
      have hnot := List.find?_eq_none.mp hfind a (List.mem_reverse.mpr ha)
      simp at hnot
  | some b =>
      have hkey : key b = key a := by simpa using List.find?_some hfind
      have hmem : b ∈ l := List.mem_reverse.mp (List.mem_of_find?_eq_some hfind)
      rw [List.inj_on_of_nodup_map hnodup hmem ha hkey]

/-- The scripts for one record among those of all records. -/
theorem filter_flatMap_of_nodup {β : Type} {g : String × β → List ScriptDecl}
    (hg : ∀ e, ∀ d ∈ g e, d.doctype = e.1) {l : List (String × β)} (hnodup : (l.map (·.1)).Nodup)
    {e : String × β} (he : e ∈ l) : (l.flatMap g).filter (·.doctype = e.1) = g e := by
  induction l with
  | nil => exact absurd he List.not_mem_nil
  | cons e' l ih =>
      rw [List.map_cons, List.nodup_cons] at hnodup
      rw [List.flatMap_cons, List.filter_append]
      -- the scripts of another record are for another DocType
      have hother (e'' : String × β) (hne : e''.1 ≠ e.1) :
          (g e'').filter (fun d => decide (d.doctype = e.1)) = [] := by
        rw [List.filter_eq_nil_iff]
        intro d hd hdoctype
        exact hne (hg e'' d hd ▸ of_decide_eq_true hdoctype)
      rcases List.mem_cons.mp he with rfl | he
      · have hself : (g e).filter (fun d => decide (d.doctype = e.1)) = g e :=
          List.filter_eq_self.mpr fun d hd => by simp [hg e d hd]
        have hrest : (l.flatMap g).filter (fun d => decide (d.doctype = e.1)) = [] := by
          rw [List.filter_flatMap, List.flatMap_eq_nil_iff]
          intro e' he'
          refine hother e' fun hsame => hnodup.1 ?_
          exact hsame ▸ List.mem_map_of_mem he'
        rw [hself, hrest, List.append_nil]
      · have hne : e'.1 ≠ e.1 := fun hsame => hnodup.1 (hsame ▸ List.mem_map_of_mem he)
        rw [hother e' hne, List.nil_append, ih hnodup.2 he]

/-- The DocTypes of a valid bundle have distinct names. -/
theorem declared_nodup (hvalid : m.validate = []) : m.declared.Nodup := by
  have hall {dts : List DocTypeDef} {seen : List String} (h : Manifest.doctypeProblems seen dts = []) :
      (dts.map (·.name)).Nodup ∧ ∀ dt ∈ dts, dt.name ∉ seen := by
    induction dts generalizing seen with
    | nil => exact ⟨List.nodup_nil, fun dt hdt => absurd hdt List.not_mem_nil⟩
    | cons dt dts ih =>
        simp only [Manifest.doctypeProblems, List.append_eq_nil_iff, problem_eq_nil] at h
        obtain ⟨hnodup, hseen⟩ := ih h.2
        have hnot : dt.name ∉ seen := by simpa using h.1.1.2
        refine ⟨List.nodup_cons.mpr ⟨fun hmem => ?_, hnodup⟩, List.forall_mem_cons.mpr ⟨hnot, ?_⟩⟩
        · obtain ⟨dt', hdt', hname⟩ := List.mem_map.mp hmem
          exact hseen dt' hdt' (hname ▸ List.mem_cons_self)
        · exact fun dt' hdt' hmem => hseen dt' hdt' (List.mem_cons_of_mem _ hmem)
  unfold Manifest.validate at hvalid
  simp only [List.append_eq_nil_iff] at hvalid
  exact (hall hvalid.1.1.1.1.1.1.1.1.2).1

/-- The server scripts of a valid bundle have a text. -/
theorem serverScripts_text (hvalid : m.validate = []) :
    ∀ d ∈ m.serverScripts, Str.trim d.script ≠ "" := by
  intro d hd
  unfold Manifest.validate at hvalid
  simp only [List.append_eq_nil_iff] at hvalid
  have hproblems := List.flatMap_eq_nil_iff.mp hvalid.1.1.1.1.1.1.2 d hd
  unfold Manifest.scriptProblems at hproblems
  simp only [List.append_eq_nil_iff, problem_eq_nil] at hproblems
  simpa using hproblems.2

theorem exportClientScript_doctype (e : String × DocTypeRow) :
    ∀ d ∈ exportClientScript e.1 e.2, d.doctype = e.1 := by
  intro d hd
  obtain ⟨script, _, rfl⟩ := List.mem_map.mp hd
  rfl

theorem exportServerScripts_doctype (name : String) (e : String × DocTypeRow) :
    ∀ d ∈ exportServerScripts name e.1 e.2, d.doctype = e.1 := by
  intro d hd
  unfold exportServerScripts at hd
  split at hd
  · obtain ⟨x, _, hd⟩ := List.mem_flatMap.mp hd
    obtain ⟨text, _, rfl⟩ := List.mem_map.mp hd
    rfl
  · obtain ⟨text, _, rfl⟩ := List.mem_map.mp hd
    rfl
  · cases hd

/-- The record that an installed export leaves for an exported one. -/
def reinstalled (m : Manifest) (e : String × DocTypeRow) : DocTypeRow :=
  m.ownRow (exportDoctype e.1 e.2)

/-- The reinstalled record has what the export took of the record. -/
theorem reinstalled_scripts {stored : Manifest} {apps : List (String × AppRow)}
    {rows : List (String × DocTypeRow)} {workflows : List WorkflowDef}
    {notifications : List NotificationDef} {fixtures : List FixtureDecl}
    (hm : m = exportManifest stored includeUnowned apps rows workflows notifications fixtures name)
    (hvalid : m.validate = []) {e : String × DocTypeRow} (he : e ∈ rows)
    (hown : exports name includeUnowned e.2 = true) :
    exportDoctype e.1 e.2 ∈ m.doctypes ∧
    (reinstalled m e).clientScript = nonBlank e.2.clientScript ∧
    (loadServerScripts (some (reinstalled m e).scriptsJson)).entries.map (·.act)
      = storedScripts name e.2 := by
  have hmine : e ∈ rows.filter fun e => exports name includeUnowned e.2 :=
    List.mem_filter.mpr ⟨he, hown⟩
  -- The exported names are distinct, so what is filtered for one name is of one record.
  have hnodup : ((rows.filter fun e => exports name includeUnowned e.2).map (·.1)).Nodup := by
    have h := declared_nodup hvalid
    rw [hm] at h
    simpa [Manifest.declared, exportManifest, Function.comp_def, exportDoctype, DocTypeRow.toDef] using h
  refine ⟨?_, ?_, ?_⟩
  · rw [hm]
    exact List.mem_map_of_mem hmine
  · have hscripts : (m.clientScripts.filter (·.doctype = e.1)) = exportClientScript e.1 e.2 := by
      rw [hm]
      exact filter_flatMap_of_nodup exportClientScript_doctype hnodup hmine
    show m.clientScriptFor e.1 = _
    unfold Manifest.clientScriptFor
    rw [← List.head?_filter, hscripts]
    unfold exportClientScript
    cases nonBlank e.2.clientScript <;> rfl
  · have hscripts : (m.serverScripts.filter (·.doctype = e.1))
        = exportServerScripts name e.1 e.2 := by
      rw [hm]
      exact filter_flatMap_of_nodup (exportServerScripts_doctype name) hnodup hmine
    have hwhole : exports name true e.2 = true := by
      unfold exports at hown ⊢
      cases includeUnowned with
      | true => exact hown
      | false => simpa using Or.inl hown
    rw [storedScripts_eq name e.1 e.2 hwhole, ← hscripts]
    exact ownRow_entries m (exportDoctype e.1 e.2) (serverScripts_text hvalid)

theorem nonBlank_nonBlank (script : Option String) : nonBlank (nonBlank script) = nonBlank script := by
  unfold nonBlank
  rw [Option.filter_filter]
  simp

/-- A reinstalled record agrees with the exported one where no field of the app's was kept from
anyone, and where the scripts run as they are stored. -/
theorem sameMetadata_iff {e : String × DocTypeRow}
    (hclient : (reinstalled m e).clientScript = nonBlank e.2.clientScript)
    (hserver : (loadServerScripts (some (reinstalled m e).scriptsJson)).entries.map (·.act)
      = storedScripts name e.2) :
    SameMetadata name e.1 e.2 (reinstalled m e) ↔
      (∀ f ∈ e.2.fields, f.extApp = none → f.permRole = none) ∧
        ownScripts name e.2 = storedScripts name e.2 := by
  -- A declared field has no role, so none is reinstalled.
  have hfields : (reinstalled m e).fields
      = (ownFields e.2).fields.map fun f => ({ field := f.field } : StoredField) := by
    show ((ownFields e.2).fields.map (·.field)).map _ = _
    rw [List.map_map]
    rfl
  constructor
  · intro hsame
    refine ⟨fun f hf hext => ?_, hsame.serverScripts.symm.trans hserver⟩
    have hown : f ∈ (ownFields e.2).fields := List.mem_filter.mpr ⟨hf, by simp [hext]⟩
    have heq := hsame.fields
    rw [hfields, List.map_map] at heq
    have hone := (List.map_inj_left.mp heq) f hown
    exact (congrArg Prod.snd hone).symm
  · rintro ⟨hnone, hscripts⟩
    have hroles : ∀ f ∈ (ownFields e.2).fields, f.permRole = none := fun f hf =>
      hnone f (List.mem_of_mem_filter hf) (by simpa using (List.mem_filter.mp hf).2)
    constructor
    case fields =>
      rw [hfields, List.map_map]
      refine List.map_congr_left fun f hf => ?_
      show (f.field, none) = (f.field, f.permRole)
      rw [hroles f hf]
    case readable =>
      intro role
      have hmeta : (reinstalled m e).toMeta e.1 = (ownFields e.2).toMeta e.1 := by
        unfold DocTypeRow.toMeta
        rw [hfields, List.map_map]
        congr 1
        refine List.map_congr_left fun f hf => ?_
        show FieldMeta.mk _ _ none = FieldMeta.mk _ _ f.permRole
        rw [hroles f hf]
      rw [hmeta]
    case issingle => rfl
    case submittable => rfl
    case aggregates => rfl
    case clientScript => rw [hclient, nonBlank_nonBlank]
    case serverScripts => rw [hserver, hscripts]

/-! ### Reinstalled on an empty tenant -/

/-- A bundle that is installed on an empty tenant extends nothing. -/
theorem extends_nil_of_empty {syncs : Bool} (h : Installs syncs m false {} s') : m.extends = [] := by
  rw [List.eq_nil_iff_forall_not_mem]
  intro e he
  obtain ⟨row, hrow, _⟩ := h.effect.targets e he
  cases hrow

/-- The record of each DocType of a bundle that is installed on an empty tenant. -/
theorem lookup_of_empty {syncs : Bool} (h : Installs syncs m false {} s') {dt : DocTypeDef}
    (hdt : dt ∈ m.doctypes) : s'.doctypes.lookup dt.name = some (m.ownRow dt) := by
  have hdoctype : m.doctypeOf dt.name = some dt :=
    find?_reverse_of_nodup (declared_nodup h.effect.valid) hdt
  have hextension : m.extensionOf dt.name = none := by
    unfold Manifest.extensionOf
    rw [extends_nil_of_empty h]
    rfl
  rw [h.effect.doctypes, bundleAt_eq, hextension, hdoctype]
  show some (attachedRow m dt none) = _
  unfold attachedRow
  simp [foreignScripts, addedFields]

theorem workflow_of_empty {syncs : Bool} (h : Installs syncs m false {} s') (w : WorkflowDef)
    (hnodup : (m.workflows.map (·.name)).Nodup) (hw : w ∈ m.workflows) :
    s'.workflows.lookup w.name = some w := by
  rw [h.effect.workflows]
  show (if w.name ∈ removedWorkflows none m then none else m.workflowAt w.name none) = _
  unfold Manifest.workflowAt
  rw [find?_reverse_of_nodup hnodup hw]
  rfl

theorem notification_of_empty {syncs : Bool} (h : Installs syncs m false {} s') (n : NotificationDef)
    (hnodup : (m.notifications.map (·.name)).Nodup) (hn : n ∈ m.notifications) :
    s'.notifications.lookup n.name = some n := by
  rw [h.effect.notifications]
  show (if n.name ∈ removedNotifications none m then none else m.notificationAt n.name none) = _
  unfold Manifest.notificationAt
  rw [find?_reverse_of_nodup hnodup hn]
  rfl

/-- Names stay distinct in the order of the keys, and among those that are selected. -/
theorem nodup_selected {α : Type} {key : α → String} {rows : List (String × α)}
    (hkeys : ∀ e ∈ rows, key e.2 = e.1) (hnodup : (rows.map (·.1)).Nodup) (p : α → Bool) :
    ((((TenantDb.byName rows).map (·.2)).filter p).map key).Nodup := by
  have hperm : (TenantDb.byName rows).Perm rows := List.perm_insertionSort _ _
  have hbyName : (((TenantDb.byName rows).map (·.2)).map key).Nodup := by
    have hsame : ((TenantDb.byName rows).map (·.2)).map key = (TenantDb.byName rows).map (·.1) := by
      rw [List.map_map]
      exact List.map_congr_left fun e he => hkeys e (mem_byName.mp he)
    rw [hsame]
    exact (hperm.map _).nodup_iff.mpr hnodup
  exact hbyName.sublist (List.filter_sublist.map key)

/-- An exported bundle that is installed on an empty tenant brings back what the kernel acted on, if
and only if no exported field was kept from any role, and the scripts of each exported record that
no app owns run in the order in which they are stored. -/
theorem export_reinstall_iff {syncs : Bool} (hrow : s.apps.lookup name = some row) (hkeyed : Keyed s)
    (hexport : (exportApp name includeUnowned).exec engine luck s = (.ok m, t))
    (hinstall : Installs syncs m false {} s') :
    Survives name includeUnowned row s s' ↔
      ∀ e ∈ s.doctypes, exports name includeUnowned e.2 = true →
        (∀ f ∈ e.2.fields, f.extApp = none → f.permRole = none) ∧
        (e.2.app = none → ownScripts name e.2 = storedScripts name e.2) := by
  obtain ⟨hvalid, fixtures, hm⟩ := exportApp_inv hrow hexport
  -- each exported record, and what is there in its place
  have hrecord (e : String × DocTypeRow) (he : e ∈ s.doctypes)
      (hown : exports name includeUnowned e.2 = true) :
      s'.doctypes.lookup e.1 = some (reinstalled m e) ∧
        (SameMetadata name e.1 e.2 (reinstalled m e) ↔
          (∀ f ∈ e.2.fields, f.extApp = none → f.permRole = none) ∧
            ownScripts name e.2 = storedScripts name e.2) := by
    obtain ⟨hmem, hclient, hserver⟩ := reinstalled_scripts hm hvalid (mem_byName.mpr he) hown
    exact ⟨lookup_of_empty hinstall hmem, sameMetadata_iff hclient hserver⟩
  constructor
  · intro hsurvives e he hown
    obtain ⟨row', hrow', hsame⟩ := hsurvives.doctypes e he hown
    obtain ⟨hlookup, hiff⟩ := hrecord e he hown
    cases hlookup.symm.trans hrow'
    exact ⟨(hiff.mp hsame).1, fun _ => (hiff.mp hsame).2⟩
  · intro hall
    constructor
    case doctypes =>
      intro e he hown
      obtain ⟨hlookup, hiff⟩ := hrecord e he hown
      obtain ⟨hroles, hscripts⟩ := hall e he hown
      refine ⟨_, hlookup, hiff.mpr ⟨hroles, ?_⟩⟩
      cases happ : e.2.app with
      | none => exact hscripts happ
      | some app =>
          -- On a record of the app both orders are the same.
          refine ownScripts_of_owned (happ.trans ?_)
          simpa [exports, happ] using hown
    case workflows =>
      intro e he hexports
      have hmem : e.2 ∈ m.workflows := by
        rw [hm]
        refine List.mem_filter.mpr ⟨List.mem_map_of_mem (mem_byName.mpr he), ?_⟩
        simpa [exportsWorkflow, exportDoctype, DocTypeRow.toDef, Function.comp_def] using hexports
      rw [← hkeyed.workflows e he]
      refine workflow_of_empty hinstall e.2 ?_ hmem
      rw [hm]
      exact nodup_selected hkeyed.workflows hkeyed.distinctWorkflows _
    case notifications =>
      intro e he hexports
      have hmem : e.2 ∈ m.notifications := by
        rw [hm]
        refine List.mem_filter.mpr ⟨List.mem_map_of_mem (mem_byName.mpr he), ?_⟩
        simpa [exportsNotification, exportDoctype, DocTypeRow.toDef, Function.comp_def] using hexports
      rw [← hkeyed.notifications e he]
      refine notification_of_empty hinstall e.2 ?_ hmem
      rw [hm]
      exact nodup_selected hkeyed.notifications hkeyed.distinctNotifications _

end

/-! ### A field that one role reads -/

/-- The field. -/
def marginField : FieldDef := { fieldname := "margin", fieldtype := "Text" }

/-- A bundle with one field. -/
def orderManifest : Manifest :=
  { manifestVersion := 1, name := "shop", version := "1.0.0",
    doctypes := [{ name := "order", app := some "shop", fields := [marginField] }] }

/-- The tenant where it is installed, and where the field was given to a role. -/
def orderTenant (permRole : Option String) : TenantDb :=
  { doctypes := [("order",
      { app := some "shop", fields := [{ field := marginField, permRole := permRole }] })],
    apps := [("shop", ⟨"1.0.0", true, orderManifest⟩)] }

theorem orderManifest_valid : orderManifest.validate = [] := by decide +kernel

/-- Whatever the role, the export is the bundle. -/
theorem orderTenant_exports (permRole : Option String) :
    (exportApp "shop" false).exec noTables noFaults (orderTenant permRole)
      = (.ok orderManifest, orderTenant permRole) := by
  show (checkExport orderManifest, orderTenant permRole) = _
  unfold checkExport
  rw [orderManifest_valid]
  rfl

theorem orderManifest_installs : ∃ schema, Installs true orderManifest false {}
    { orderTenant none with schema := schema } := by
  have hready : Ready orderManifest false {} := ⟨orderManifest_valid, rfl, ⟨_, rfl⟩, rfl⟩
  exact hready.installs (t := { doctypes := (orderTenant none).doctypes })
    (u := { doctypes := (orderTenant none).doctypes }) (v := orderTenant none)
    (fun schema => ⟨schema, rfl⟩) (fun schema => rfl) (fun schema => rfl)

theorem keyed_orderTenant (permRole : Option String) : Keyed (orderTenant permRole) where
  workflows _ h := by cases h
  distinctWorkflows := List.nodup_nil
  notifications _ h := by cases h
  distinctNotifications := List.nodup_nil

theorem export_reinstall_order : ∃ s', Installs true orderManifest false {} s' ∧
    Survives "shop" false ⟨"1.0.0", true, orderManifest⟩ (orderTenant none) s' := by
  obtain ⟨schema, hinstall⟩ := orderManifest_installs
  refine ⟨_, hinstall, ?_⟩
  have hiff := export_reinstall_iff rfl (keyed_orderTenant none) (orderTenant_exports none) hinstall
  refine hiff.mpr fun e he _ => ?_
  rw [List.mem_singleton.mp he]
  exact ⟨fun f hf _ => by rw [List.mem_singleton.mp hf], fun happ => by cases happ⟩

/-- A clerk does not read the margin before the export, and reads it after the reinstall. -/
theorem not_export_reinstall : ∃ s' row',
    (exportApp "shop" false).exec noTables noFaults (orderTenant (some "manager"))
        = (.ok orderManifest, orderTenant (some "manager")) ∧
      Installs true orderManifest false {} s' ∧
      (orderTenant (some "manager")).doctypes.lookup "order" = some row' ∧
      "margin" ∉ readableFields (row'.toMeta "order") "clerk" ∧
      ∃ row'', s'.doctypes.lookup "order" = some row'' ∧
        "margin" ∈ readableFields (row''.toMeta "order") "clerk" := by
  obtain ⟨schema, hinstall⟩ := orderManifest_installs
  exact ⟨_, _, orderTenant_exports _, hinstall, rfl, by decide, _, rfl, by decide⟩

end Frust.Kernel
