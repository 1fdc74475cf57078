import Frust.Kernel.Fixtures

/-!
# `Frust.Kernel.Apps`: the lifecycle of an app

An install validates a bundle, plans it, passes the gates, and only then applies it: the schema, the
DocType records, the workflows, the notifications, the fixtures, and last the registry. An update is
an install over a row of the registry. An uninstall takes the metadata away and leaves the tables,
disabling hides it, and an export makes a bundle of what is live.

The programs are cut where the source goes from one of its functions, or from one stage of
`install_app`, to the next.
-/

set_option autoImplicit false

namespace Frust.Kernel

open Frust.Lib Frust.Orm Frust.Rust

/-- `installed`. -/
def installed (name : String) : AppProg (Option AppRow) := sql (.app name)

/-! ### Planning -/

/-- `InstallPlan`. -/
structure InstallPlan where
  app : String
  version : String
  schema : MigrationReport
  clientScripts : List String
  serverScripts : List String
  routes : List String
  workflows : Nat
  notifications : List String
  fixtures : List String
  deriving DecidableEq

/-- `InstallPlan::destructive`. -/
def InstallPlan.destructive (p : InstallPlan) : List String :=
  p.schema.planned.flatMap (·.destructive)

namespace Manifest

/-- The resources of a bundle, where other DocTypes are there already. -/
def specs (m : Manifest) (existing : List DocTypeDef) : Except BrokerError (List ResourceSpec) :=
  m.doctypes.mapM fun dt => doctypeSpecIn dt (rollupTargets (existing ++ m.doctypes))

/-- The plan around the migrator's report. -/
def installPlan (m : Manifest) (schema : MigrationReport) : InstallPlan where
  app := m.name
  version := m.version
  schema := schema
  clientScripts := m.clientScripts.map (·.doctype)
  serverScripts := m.serverScripts.map (·.doctype)
  routes := m.routes.map fun r => "/app/" ++ m.name ++ "/" ++ r.path
  workflows := m.workflows.length
  notifications := m.notifications.map (·.name)
  fixtures := m.fixtures.map (·.label)

/-- The refusal of a bundle with problems. -/
def checkValid (m : Manifest) : Except BrokerError Unit :=
  if m.validate.isEmpty then .ok ()
  else badValue ("bundle is not installable:\n- " ++ "\n- ".intercalate m.validate)

end Manifest

/-- `plan_unchecked`. -/
def planUnchecked (m : Manifest) (opts : MigrationOptions) : AppProg InstallPlan := do
  let existing ← loadDoctypes.attempt
  let specs ← AppProg.lift (m.specs (existing.toOption.getD []))
  let schema ← sql (.migrate (if opts.dryRun then .plan else .apply) specs opts)
  let schema ← AppProg.lift
    ((schema : Except String MigrationReport).mapError fun e => .db ("bundle migration: " ++ e))
  return m.installPlan schema

/-- The options of a plan: a dry run with the strictest environment. -/
def planOptions : MigrationOptions := { dryRun := true, environment := .prod }

/-- `plan_app`. -/
def planApp (m : Manifest) : AppProg (InstallPlan × FixturePlan) := do
  AppProg.lift m.checkValid
  let plan ← planUnchecked m planOptions
  let fixtures ← planFixtures m
  return (plan, fixtures)

/-! ### The gates -/

/-- What an install asks of the registry. -/
def checkVersion (m : Manifest) (existing : Option AppRow) (isUpdate : Bool) :
    Except BrokerError Unit :=
  match existing, isUpdate with
  | some row, false =>
      badValue ("app '" ++ m.name ++ "' is already installed at " ++ row.version ++ "; use update")
  | none, true => .error (.unknownDoctype ("app " ++ m.name))
  | some row, true =>
      match Manifest.versionGt m.version row.version with
      | some true => .ok ()
      | some false =>
          badValue ("update to " ++ m.version ++ " does not advance the installed version "
            ++ row.version)
      | none =>
          badValue ("version '" ++ row.version ++ "' or '" ++ m.version ++ "' is malformed")
  | none, false => .ok ()

/-- A destructive statement names a field of a DocType, by their letters. -/
def namesField (doctype field destructive : String) : Bool :=
  let d := Str.toAsciiLowercase destructive
  Str.contains (Str.toAsciiLowercase doctype) d && Str.contains (Str.toAsciiLowercase field) d

/-- A destructive statement names a table to be removed, by their letters. -/
def namesTable (doctype destructive : String) : Bool :=
  let d := Str.toAsciiLowercase destructive
  Str.contains "remove table" d && Str.contains (Str.toAsciiLowercase doctype) d

/-- The casualties of one extension of another app. -/
def casualtiesOf (destructive : List String) (other : String) (e : ExtensionDecl) : List String :=
  ((e.fields.filter fun f => destructive.any (namesField e.doctype f.fieldname)).map fun f =>
    "extension of app '" ++ other ++ "' on '" ++ e.doctype ++ "' declares field '" ++ f.fieldname
      ++ "', which this update removes")
    ++ problem (!(Str.trim e.script == "") && destructive.any (namesTable e.doctype))
      ("extension of app '" ++ other ++ "' hooks '" ++ e.doctype ++ "', which this update removes")

/-- The casualties among the extensions of the registered apps. -/
def casualties (m : Manifest) (destructive : List String) (apps : List (String × AppRow)) :
    List String :=
  (apps.filter (·.1 ≠ m.name)).flatMap fun app =>
    (app.2.manifest.extends.filter fun e => m.owns e.doctype).flatMap
      (casualtiesOf destructive app.1)

/-- `extension_casualties`. -/
def extensionCasualties (m : Manifest) (destructive : List String) : AppProg (List String) :=
  if destructive.isEmpty then return []
  else do
    let apps ← sql .apps
    return casualties m destructive apps

/-- The refusal of destructive changes. -/
def destructiveRefusal (destructive : List String) : BrokerError :=
  .invalidValue ("refused: this bundle performs destructive changes and was not acknowledged:\n- "
    ++ "\n- ".intercalate destructive)

/-- The refusal for what other apps declared. -/
def extensionRefusal (casualties : List String) : BrokerError :=
  .invalidValue ("FRUST:E_BREAKS_EXTENSION: refused - this update breaks what other apps declared "
    ++ "against it:\n- " ++ "\n- ".intercalate casualties
    ++ "\nAcknowledge to proceed (their extensions stop working), or ship a version that keeps "
    ++ "the surface.")

/-- A gate that an acknowledgement opens. -/
def gate (found acknowledge : Bool) (refusal : BrokerError) : Except BrokerError Unit :=
  if found && !acknowledge then .error refusal else .ok ()

/-- What the gates let pass. -/
structure Admitted where
  existing : Option AppRow
  destructive : List String
  fixtures : FixturePlan

/-- The stages of `install_app` that come before the first change. -/
def installGates (m : Manifest) (acknowledge isUpdate : Bool) : AppProg Admitted := do
  AppProg.lift m.checkValid
  let existing ← installed m.name
  AppProg.lift (checkVersion m existing isUpdate)
  let plans ← planApp m
  let destructive := plans.1.destructive
  AppProg.lift (gate (!destructive.isEmpty) acknowledge (destructiveRefusal destructive))
  let casualties ← extensionCasualties m destructive
  AppProg.lift (gate (!casualties.isEmpty) acknowledge (extensionRefusal casualties))
  AppProg.lift (gate (!plans.2.overwrites.isEmpty) acknowledge
    (fixtureOverwriteRefusal m plans.2.overwrites))
  return ⟨existing, destructive, plans.2⟩

/-! ### Attaching -/

namespace Manifest

/-- The client script for a DocType: the first one. -/
def clientScriptFor (m : Manifest) (doctype : String) : Option String :=
  (m.clientScripts.find? (·.doctype = doctype)).map (·.script)

/-- The server scripts for a DocType, as they are stored. -/
def serverScriptsFor (m : Manifest) (doctype : String) : List ScriptRow :=
  (m.serverScripts.filter (·.doctype = doctype)).map fun s =>
    ⟨some m.name, some s.script, some s.hook⟩

/-- The record of a DocType as the bundle has it. -/
def ownRow (m : Manifest) (dt : DocTypeDef) : DocTypeRow where
  app := some m.name
  issingle := dt.issingle
  submittable := dt.submittable
  fields := dt.fields.map fun f => { field := f }
  aggregates := dt.aggregates
  clientScript := m.clientScriptFor dt.name
  serverScript :=
    if (m.serverScriptsFor dt.name).isEmpty then .none else .list (m.serverScriptsFor dt.name)

/-- A field of an extension, as it is stored. -/
def extensionField (m : Manifest) (f : FieldDef) : StoredField :=
  { field := f, extApp := some m.name }

/-- The script of an extension, as it is stored. -/
def extensionScript (m : Manifest) (e : ExtensionDecl) : ScriptRow :=
  ⟨some m.name, some e.script, some e.hook⟩

end Manifest

/-- The fields on a record that other apps added. -/
def addedFields (prior : Option DocTypeRow) : List StoredField :=
  ((prior.map (·.fields)).getD []).filter (·.extApp.isSome)

/-- The scripts on a record that are another app's. -/
def foreignScripts (app : String) (prior : Option DocTypeRow) : List ScriptRow :=
  ((prior.map (·.serverScript.items)).getD []).filter fun s => s.app.any (· ≠ app)

/-- Adds fields to a record. -/
def addFields (doctype : String) : List StoredField → AppProg Unit
  | [] => pure ()
  | f :: rest => do
      sql (.addField doctype f)
      addFields doctype rest

/-- Adds scripts to a record. -/
def addScripts (doctype : String) : List ScriptRow → AppProg Unit
  | [] => pure ()
  | s :: rest => do
      sql (.addScript doctype s)
      addScripts doctype rest

/-- Writes the record of a DocType, and puts back what other apps added to it. -/
def attachDoctype (m : Manifest) (dt : DocTypeDef) : AppProg Unit := do
  AppProg.lift (checkIdent dt.name)
  let prior ← sql (.doctype dt.name)
  sql (.upsertDoctype dt.name (m.ownRow dt))
  addFields dt.name (addedFields prior)
  addScripts dt.name (foreignScripts m.name prior)

/-- The loop of `attach_metadata`. -/
def attachDoctypes (m : Manifest) : List DocTypeDef → AppProg Unit
  | [] => pure ()
  | dt :: rest => do
      attachDoctype m dt
      attachDoctypes m rest

/-- Who holds a field on a record. -/
def holder (row : DocTypeRow) (f : StoredField) : String := f.extApp.getD (row.app.getD "the owner")

/-- The refusal of a field that another app has. -/
def extensionConflict (m : Manifest) (e : ExtensionDecl) (f : FieldDef) (holder : String) :
    BrokerError :=
  .invalidValue ("FRUST:E_EXTENSION_CONFLICT: app '" ++ m.name ++ "' cannot add field '"
    ++ f.fieldname ++ "' to '" ++ e.doctype ++ "' — '" ++ holder ++ "' already declares it. "
    ++ "Two apps may not own one field; rename yours (it is namespaced under your app anyway).")

/-- The fields of an extension are no one else's on the record. -/
def checkConflicts (m : Manifest) (e : ExtensionDecl) (row : DocTypeRow) :
    List FieldDef → Except BrokerError Unit
  | [] => .ok ()
  | f :: rest =>
      match (row.fields.find? (·.field.fieldname = f.fieldname)).filter (holder row · ≠ m.name) with
      | some held => .error (extensionConflict m e f (holder row held))
      | none => checkConflicts m e row rest

/-- The refusal of an extension without a record to extend. -/
def missingOwner (m : Manifest) (e : ExtensionDecl) : BrokerError :=
  .invalidValue ("app '" ++ m.name ++ "' extends '" ++ e.doctype
    ++ "', which does not exist — install the owner first")

/-- The script of an extension, if it has one. -/
def scriptOf (m : Manifest) (e : ExtensionDecl) : List ScriptRow :=
  if Str.trim e.script == "" then [] else [m.extensionScript e]

/-- Applies one extension: what the app added before goes, and what it adds now comes. -/
def attachExtension (m : Manifest) (e : ExtensionDecl) : AppProg Unit := do
  AppProg.lift (checkIdent e.doctype)
  let row ← sql (.doctype e.doctype)
  match (row : Option DocTypeRow) with
  | none => AppProg.lift (.error (missingOwner m e))
  | some row => do
      AppProg.lift (checkConflicts m e row e.fields)
      sql (.strip e.doctype m.name)
      addFields e.doctype (e.fields.map m.extensionField)
      addScripts e.doctype (scriptOf m e)

/-- The loop of `attach_extensions`. -/
def attachEach (m : Manifest) : List ExtensionDecl → AppProg Unit
  | [] => pure ()
  | e :: rest => do
      attachExtension m e
      attachEach m rest

/-- The sync that makes columns of the fields of the extensions. -/
def syncExtended (syncs : Bool) (m : Manifest) : AppProg Unit :=
  if !m.extends.isEmpty && syncs then do
    let _ ← sync
    pure ()
  else pure ()

/-- `attach_extensions`; `syncs` is whether there is a sync to run. -/
def attachExtensions (syncs : Bool) (m : Manifest) : AppProg Unit := do
  attachEach m m.extends
  syncExtended syncs m

/-- `attach_metadata`. -/
def attachMetadata (syncs : Bool) (m : Manifest) : AppProg Unit := do
  attachDoctypes m m.doctypes
  attachExtensions syncs m

/-- `attach_workflows`. -/
def attachWorkflows : List WorkflowDef → AppProg Unit
  | [] => pure ()
  | w :: rest => do
      AppProg.lift (checkIdent w.name)
      AppProg.lift (checkIdent w.doctype)
      sql (.upsertWorkflow w)
      attachWorkflows rest

/-- `attach_notifications`. -/
def attachNotifications : List NotificationDef → AppProg Unit
  | [] => pure ()
  | n :: rest => do
      AppProg.lift (checkIdent n.name)
      sql (.upsertNotification n)
      attachNotifications rest

/-! ### Detaching -/

/-- Deletes workflows. -/
def deleteWorkflows : List String → AppProg Unit
  | [] => pure ()
  | name :: rest => do
      sql (.deleteWorkflow name)
      deleteWorkflows rest

/-- Deletes notifications. -/
def deleteNotifications : List String → AppProg Unit
  | [] => pure ()
  | name :: rest => do
      sql (.deleteNotification name)
      deleteNotifications rest

/-- The names that were there and are no more. -/
def removedNames (previous next : List String) : List String :=
  previous.filter fun name => !next.contains name

/-- `detach_removed_bundle_metadata`. -/
def detachRemovedBundleMetadata (previous next : Manifest) : AppProg Unit := do
  deleteWorkflows (removedNames (previous.workflows.map (·.name)) (next.workflows.map (·.name)))
  deleteNotifications
    (removedNames (previous.notifications.map (·.name)) (next.notifications.map (·.name)))

/-! ### Install and update -/

/-- The options of an install. -/
def applyOptions (acknowledge : Bool) : MigrationOptions :=
  { MigrationOptions.defaultFor .dev with
    allowDestructive := acknowledge
    acknowledge := acknowledge }

/-- The refusal of an install whose migration did not go through. -/
def checkApplied (schema : MigrationReport) : Except BrokerError Unit :=
  if schema.errors.isEmpty then .ok ()
  else .error (.db ("bundle apply errors: " ++ debugErrors schema.errors))

/-- The metadata and the fixtures of a bundle. -/
def attachBundle (syncs : Bool) (m : Manifest) : AppProg Unit := do
  attachMetadata syncs m
  attachWorkflows m.workflows
  attachNotifications m.notifications
  applyFixtures m m.fixtures

/-- What an update takes away. -/
def detachPrevious (m : Manifest) : Option AppRow → AppProg Unit
  | none => pure ()
  | some row => do
      detachRemovedBundleMetadata row.manifest m
      orphanRemovedFixtures m row.manifest.fixtures

/-- The registry's row. -/
def register (m : Manifest) (existing : Option AppRow) : AppProg Unit :=
  if existing.isSome then sql (.updateApp m.name m.version m)
  else sql (.createApp m.name ⟨m.version, true, m⟩)

/-- The stages of `install_app` from the first change on; what the migration did. -/
def applyBundle (syncs : Bool) (m : Manifest) (acknowledge : Bool) (existing : Option AppRow) :
    AppProg InstallPlan := do
  let applied ← planUnchecked m (applyOptions acknowledge)
  AppProg.lift (checkApplied applied.schema)
  attachBundle syncs m
  detachPrevious m existing
  register m existing
  return applied

/-- What an install or an update answers. -/
structure InstallReport where
  app : String
  version : String
  updated : Bool
  applied : Nat
  destructive : List String
  fixtures : List FixturePlanRow
  deriving DecidableEq

/-- `install_app`. -/
def installApp (syncs : Bool) (m : Manifest) (acknowledge isUpdate : Bool) :
    AppProg InstallReport := do
  let admitted ← installGates m acknowledge isUpdate
  let applied ← applyBundle syncs m acknowledge admitted.existing
  return {
    app := m.name
    version := m.version
    updated := isUpdate
    applied := applied.schema.applied.length
    destructive := admitted.destructive
    fixtures := admitted.fixtures.rows }

/-! ### Uninstall -/

/-- What an uninstall answers. -/
structure UninstallReport where
  app : String
  metadataRemoved : List String
  routesRemoved : Nat
  fixturesRetained : List String
  dataRetained : List (String × Nat)
  deriving DecidableEq

/-- The refusal of an app that is not registered. -/
def unknownApp (name : String) : BrokerError := .unknownDoctype ("app " ++ name)

/-- Deletes DocType records; the rows that each leaves behind. -/
def deleteDoctypes : List DocTypeDef → AppProg (List (String × Nat))
  | [] => return []
  | dt :: rest => do
      AppProg.lift (checkIdent dt.name)
      let rows : Except BrokerError Nat ← (sql (.count dt.name)).attempt
      sql (.deleteDoctype dt.name)
      let more ← deleteDoctypes rest
      return (dt.name, rows.toOption.getD 0) :: more

/-- The names are good; then each is deleted in turn. -/
def uninstallWorkflows : List WorkflowDef → AppProg Unit
  | [] => pure ()
  | w :: rest => do
      AppProg.lift (checkIdent w.name)
      sql (.deleteWorkflow w.name)
      uninstallWorkflows rest

/-- The same for the notifications. -/
def uninstallNotifications : List NotificationDef → AppProg Unit
  | [] => pure ()
  | n :: rest => do
      AppProg.lift (checkIdent n.name)
      sql (.deleteNotification n.name)
      uninstallNotifications rest

/-- `uninstall_app`. -/
def uninstallApp (name : String) : AppProg UninstallReport := do
  let row ← installed name
  match (row : Option AppRow) with
  | none => AppProg.lift (.error (unknownApp name))
  | some row => do
      let m := row.manifest
      let retained ← deleteDoctypes m.doctypes
      uninstallWorkflows m.workflows
      uninstallNotifications m.notifications
      sql (.stripOthers name)
      sql (.orphanApp name)
      sql (.deleteApp name)
      return {
        app := name
        metadataRemoved := m.doctypes.map (·.name)
        routesRemoved := m.routes.length
        fixturesRetained := m.fixtures.map (·.label)
        dataRetained := retained }

/-! ### Enable and disable -/

/-- The client script of a DocType, set or taken away. Enabling leaves it where there is none. -/
def setClientScript (m : Manifest) (enabled : Bool) (doctype : String) : AppProg Unit :=
  if enabled then
    match m.clientScriptFor doctype with
    | some script => sql (.setClientScript doctype (some script))
    | none => pure ()
  else sql (.setClientScript doctype none)

/-- The client scripts of an app's DocTypes. -/
def setClientScripts (m : Manifest) (enabled : Bool) : List DocTypeDef → AppProg Unit
  | [] => pure ()
  | dt :: rest => do
      AppProg.lift (checkIdent dt.name)
      setClientScript m enabled dt.name
      setClientScripts m enabled rest

/-- What enabling or disabling answers: the DocTypes that were detached. -/
structure EnabledReport where
  app : String
  enabled : Bool
  doctypesDetached : Nat
  deriving DecidableEq

/-- `set_app_enabled`. -/
def setAppEnabled (name : String) (enabled : Bool) : AppProg EnabledReport := do
  let row ← installed name
  match (row : Option AppRow) with
  | none => AppProg.lift (.error (unknownApp name))
  | some row => do
      setClientScripts row.manifest enabled row.manifest.doctypes
      sql (.setEnabled name enabled)
      return ⟨name, enabled, if enabled then 0 else row.manifest.doctypes.length⟩

/-! ### Export -/

/-- The text of an optional script that is not blank. -/
def nonBlank (script : Option String) : Option String := script.filter fun s => !(Str.trim s == "")

/-- A record is the app's to export. -/
def exports (name : String) (includeUnowned : Bool) (row : DocTypeRow) : Bool :=
  row.app == some name || includeUnowned && row.app.isNone

/-- The DocType of a record, without what other apps added. -/
def exportDoctype (doctype : String) (row : DocTypeRow) : DocTypeDef :=
  { row with fields := row.fields.filter (·.extApp.isNone) : DocTypeRow }.toDef doctype

/-- The client script of a record. -/
def exportClientScript (doctype : String) (row : DocTypeRow) : List ScriptDecl :=
  (nonBlank row.clientScript).toList.map fun s => { doctype := doctype, script := s }

/-- The server scripts of a record that are the app's, or no one's on a record that is no one's. -/
def exportServerScripts (name doctype : String) (row : DocTypeRow) : List ScriptDecl :=
  match row.serverScript with
  | .list items =>
      (items.filter fun s => s.app == some name || row.app.isNone && s.app.isNone).flatMap fun s =>
        (nonBlank s.script).toList.map fun text => ⟨doctype, s.hook.getD "validate", text⟩
  | .text source => (nonBlank (some source)).toList.map fun text => ⟨doctype, "validate", text⟩
  | .none => []

/-- An extension as it is live. -/
def exportExtension (name : String) (rows : List (String × DocTypeRow)) (e : ExtensionDecl) :
    ExtensionDecl :=
  match rows.lookup e.doctype with
  | none => e
  | some row =>
      let fields := (row.fields.filter (·.extApp = some name)).map (·.field)
      match row.serverScript.items.find? (·.app = some name) with
      | some s =>
          { e with fields := fields, hook := s.hook.getD "validate", script := s.script.getD "" }
      | none => { e with fields := fields, script := "" }

/-- A workflow or a notification is the app's to export. -/
def exportsNamed (mine claimed doctypes : List String) (includeUnowned : Bool)
    (name doctype : String) : Bool :=
  mine.contains name || includeUnowned && !claimed.contains name && doctypes.contains doctype

/-- A shipped record as a fixture. -/
def exportFixture (p : Provenance) : Except BrokerError FixtureDecl :=
  match p.shipped with
  | .object values => .ok ⟨p.doctype, p.recordKey, values⟩
  | _ => .error (.db ("bad shipped fixture state during export for " ++ p.doctype ++ ":"
      ++ p.recordKey))

/-- The manifest with what is live in its place. -/
def exportManifest (m : Manifest) (includeUnowned : Bool) (apps : List (String × AppRow))
    (rows : List (String × DocTypeRow)) (workflows : List WorkflowDef)
    (notifications : List NotificationDef) (fixtures : List FixtureDecl) (name : String) :
    Manifest :=
  let mine := rows.filter fun e => exports name includeUnowned e.2
  let doctypes := mine.map fun e => exportDoctype e.1 e.2
  let names := doctypes.map (·.name)
  { m with
    doctypes := doctypes
    clientScripts := mine.flatMap fun e => exportClientScript e.1 e.2
    serverScripts := mine.flatMap fun e => exportServerScripts name e.1 e.2
    «extends» := m.extends.map (exportExtension name rows)
    workflows := workflows.filter fun w =>
      exportsNamed (m.workflows.map (·.name))
        (apps.flatMap fun a => a.2.manifest.workflows.map (·.name)) names includeUnowned
        w.name w.doctype
    notifications := notifications.filter fun n =>
      exportsNamed (m.notifications.map (·.name))
        (apps.flatMap fun a => a.2.manifest.notifications.map (·.name)) names includeUnowned
        n.name n.doctype
    fixtures := fixtures }

/-- The refusal of live metadata that makes no bundle. -/
def checkExport (m : Manifest) : Except BrokerError Manifest :=
  if m.validate.isEmpty then .ok m
  else badValue ("live app metadata cannot form an installable bundle:\n- "
    ++ "\n- ".intercalate m.validate)

/-- `export_app`. -/
def exportApp (name : String) (includeUnowned : Bool) : AppProg Manifest := do
  let row ← installed name
  match (row : Option AppRow) with
  | none => AppProg.lift (.error (unknownApp name))
  | some row =>
      if !row.enabled then
        AppProg.lift (badValue ("app '" ++ name
          ++ "' is disabled; enable it before exporting live metadata"))
      else do
        let apps ← sql .apps
        let rows ← sql .doctypes
        let workflows ← sql .workflows
        let notifications ← sql .notifications
        let shipped ← sql (.activeFixtures name)
        let fixtures ← AppProg.lift ((shipped : List Provenance).mapM exportFixture)
        AppProg.lift (checkExport (exportManifest row.manifest includeUnowned apps rows workflows
          notifications fixtures name))

end Frust.Kernel
