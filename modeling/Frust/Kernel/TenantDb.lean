import Frust.Kernel.Manifest
import Frust.Kernel.Store
import Frust.Lib.Entries
import Frust.Orm.Gate

/-!
# `Frust.Kernel.TenantDb`: a tenant's metadata behind the app lifecycle

What installs, updates and uninstalls work on: the DocType records with the marks of the apps that
contributed to them, the workflows, the notifications, the registry of apps, the records shipped as
fixtures with their provenance, and the schema with its history.

A `DbRequest` is one statement. `reply` is its answer and `effect` what it does; what a statement on
user records gives is up to the `RowEngine`, and what a migration meets is a `ScopeFaults`. A DocType
record is its name and its `DocTypeRow`, with all that the kernel reads of it. Time stamps, labels of
DocTypes and the meta generation are left out.
-/

set_option autoImplicit false

namespace Frust.Kernel

open Frust.Lib Frust.Orm

/-! ### Equality of JSON -/

namespace Json

mutual

/-- Equality of JSON values. -/
def same : Json → Json → Bool
  | null, null => true
  | bool a, bool b => a == b
  | int a, int b => a == b
  | float a, float b => a == b
  | string a, string b => a == b
  | array as, array bs => sameItems as bs
  | object as, object bs => sameEntries as bs
  | _, _ => false

/-- `same` on each item. -/
def sameItems : List Json → List Json → Bool
  | [], [] => true
  | a :: as, b :: bs => same a b && sameItems as bs
  | _, _ => false

/-- `same` on each entry. -/
def sameEntries : List (String × Json) → List (String × Json) → Bool
  | [], [] => true
  | (k, a) :: as, (k', b) :: bs => k == k' && same a b && sameEntries as bs
  | _, _ => false

end

mutual

theorem same_iff : (a b : Json) → (same a b = true ↔ a = b)
  | null, b => by cases b <;> simp [same]
  | bool a, b => by cases b <;> simp [same]
  | int a, b => by cases b <;> simp [same]
  | float a, b => by cases b <;> simp [same]
  | string a, b => by cases b <;> simp [same]
  | array as, b => by
      cases b with
      | array bs => rw [same, sameItems_iff as bs, Json.array.injEq]
      | _ => simp [same]
  | object as, b => by
      cases b with
      | object bs => rw [same, sameEntries_iff as bs, Json.object.injEq]
      | _ => simp [same]

theorem sameItems_iff : (as bs : List Json) → (sameItems as bs = true ↔ as = bs)
  | [], bs => by cases bs <;> simp [sameItems]
  | a :: as, bs => by
      cases bs with
      | nil => simp [sameItems]
      | cons b bs =>
          rw [sameItems, Bool.and_eq_true, same_iff a b, sameItems_iff as bs, List.cons.injEq]

theorem sameEntries_iff : (as bs : List (String × Json)) → (sameEntries as bs = true ↔ as = bs)
  | [], bs => by cases bs <;> simp [sameEntries]
  | (k, a) :: as, bs => by
      cases bs with
      | nil => simp [sameEntries]
      | cons b bs =>
          obtain ⟨k', b⟩ := b
          rw [sameEntries, Bool.and_eq_true, Bool.and_eq_true, beq_iff_eq, same_iff a b,
            sameEntries_iff as bs, List.cons.injEq, Prod.mk.injEq]

end

instance : DecidableEq Json := fun a b => decidable_of_iff _ (same_iff a b)

end Json

deriving instance DecidableEq for FixtureDecl
deriving instance DecidableEq for Manifest

/-! ### Records -/

/-- A field on a DocType record: `ext_app` marks what another app added. -/
structure StoredField where
  field : FieldDef
  extApp : Option String := none
  permRole : Option String := none
  deriving DecidableEq

/-- An item of `server_script`. -/
structure ScriptRow where
  app : Option String
  script : Option String
  hook : Option String
  deriving DecidableEq

/-- The attribute `server_script`. A text is the shape before the list. -/
inductive ServerScript where
  | none
  | text (script : String)
  | list (items : List ScriptRow)
  deriving DecidableEq

/-- The items of a list. -/
def ServerScript.items : ServerScript → List ScriptRow
  | list items => items
  | _ => []

/-- A record of the table `doctype`, but for its name. -/
structure DocTypeRow where
  app : Option String := none
  issingle : Bool := false
  submittable : Bool := false
  fields : List StoredField
  aggregates : List AggregateDef := []
  clientScript : Option String := none
  serverScript : ServerScript := .none
  deriving DecidableEq

/-- The DocType that a record is read as. -/
def DocTypeRow.toDef (name : String) (row : DocTypeRow) : DocTypeDef where
  name := name
  app := row.app
  issingle := row.issingle
  submittable := row.submittable
  fields := row.fields.map (·.field)
  aggregates := row.aggregates

/-- What the broker reads of a record. -/
def DocTypeRow.toMeta (name : String) (row : DocTypeRow) : DocTypeMeta where
  name := name
  fields := row.fields.map fun f => ⟨f.field.fieldname, f.field.fieldtype, f.permRole⟩

/-- A record of the registry. -/
structure AppRow where
  version : String
  enabled : Bool
  manifest : Manifest
  deriving DecidableEq

/-- Where a fixture comes from: the app that ships it, the row as it was shipped, and whether the
app still does. -/
structure Provenance where
  doctype : String
  recordKey : String
  app : String
  shipped : Json
  active : Bool
  deriving DecidableEq

/-- A statement on one user record. -/
inductive RowWrite where
  /-- `UPSERT … MERGE`. -/
  | merge (content : List (String × Value))
  /-- `UPDATE … SET field = NONE, …`. -/
  | clear (fields : List String)
  /-- `CREATE … SET status = 'Draft'`. -/
  | seed

/-- What a statement on a user record leaves, by the tables' definitions. -/
abbrev RowEngine :=
  LiveSchema → (doctype : String) → Option Json → RowWrite → Except BrokerError Json

/-- A tenant's database. User records are by table and key, without their ids. -/
structure TenantDb where
  doctypes : List (String × DocTypeRow) := []
  workflows : List (String × WorkflowDef) := []
  notifications : List (String × NotificationDef) := []
  apps : List (String × AppRow) := []
  provenance : List (String × Provenance) := []
  rows : List ((String × String) × Json) := []
  schema : ScopeDb := .empty

/-! ### Statements -/

/-- Which migration a statement belongs to. -/
inductive MigrationPhase where
  | plan | apply | sync
  deriving DecidableEq

/-- A statement, or a migration through the engine. -/
inductive DbRequest where
  /-- `SELECT * FROM doctype ORDER BY name`. -/
  | doctypes
  | doctype (name : String)
  /-- `UPSERT doctype:name CONTENT`. -/
  | upsertDoctype (name : String) (row : DocTypeRow)
  /-- `CREATE doctype:name CONTENT`. -/
  | createDoctype (name : String) (row : DocTypeRow)
  | addField (doctype : String) (field : StoredField)
  | addScript (doctype : String) (script : ScriptRow)
  /-- Takes an app's fields and scripts out of a record. -/
  | strip (doctype app : String)
  /-- Takes them out of all records that are not the app's own. -/
  | stripOthers (app : String)
  | deleteDoctype (name : String)
  | setClientScript (name : String) (script : Option String)
  | workflows
  | upsertWorkflow (workflow : WorkflowDef)
  | deleteWorkflow (name : String)
  | notifications
  | upsertNotification (notification : NotificationDef)
  | deleteNotification (name : String)
  /-- `SELECT * FROM app ORDER BY name`. -/
  | apps
  | app (name : String)
  | createApp (name : String) (row : AppRow)
  | updateApp (name : String) (version : String) (manifest : Manifest)
  | setEnabled (name : String) (enabled : Bool)
  | deleteApp (name : String)
  /-- The last applied fields of each resource, from the history. -/
  | historyFields
  | migrate (phase : MigrationPhase) (specs : List ResourceSpec) (opts : MigrationOptions)
  | row (doctype key : String)
  /-- `SELECT count() … GROUP ALL`. -/
  | count (table : String)
  | writeRow (doctype key : String) (write : RowWrite)
  | provenance (id : String)
  /-- `CREATE ONLY`. -/
  | claim (id : String) (row : Provenance)
  | ship (id : String) (row : Provenance)
  /-- `UPDATE … SET active = false`. -/
  | orphan (id : String)
  | orphanApp (app : String)
  /-- `… WHERE app = … AND active = true ORDER BY doctype, record_key`. -/
  | activeFixtures (app : String)

/-- The answer to a statement that succeeds. -/
def Reply : DbRequest → Type
  | .doctypes => List (String × DocTypeRow)
  | .doctype _ => Option DocTypeRow
  | .workflows => List WorkflowDef
  | .notifications => List NotificationDef
  | .apps => List (String × AppRow)
  | .app _ => Option AppRow
  | .historyFields => List (String × List (String × String))
  | .migrate .. => Except String MigrationReport
  | .row .. => Option Json
  | .count _ => Nat
  | .provenance _ => Option Provenance
  | .activeFixtures _ => List Provenance
  | _ => Unit

/-- Programs over a tenant's database; any statement may fail. -/
abbrev AppProg := Prog BrokerError DbRequest fun q => Except BrokerError (Reply q)

/-- One statement. -/
def sql (q : DbRequest) : AppProg (Reply q) := .ask q .done

/-- A check without a statement. -/
def AppProg.lift {α : Type} (r : Except BrokerError α) : AppProg α := .done r

/-! ### What statements do -/

namespace TenantDb

/-- The records without what an app added to them. -/
def stripRow (app : String) (row : DocTypeRow) : DocTypeRow :=
  { row with
    fields := row.fields.filter (·.extApp ≠ some app)
    serverScript := .list (row.serverScript.items.filter (·.app ≠ some app)) }

/-- An app's scripts can be taken out of a list only. -/
def strippable (row : DocTypeRow) : Bool :=
  match row.serverScript with
  | .text _ => false
  | _ => true

/-- A record with one more field. -/
def addFieldRow (f : StoredField) (row : DocTypeRow) : DocTypeRow :=
  { row with fields := row.fields ++ [f] }

/-- A record with one more script. -/
def addScriptRow (s : ScriptRow) (row : DocTypeRow) : DocTypeRow :=
  { row with serverScript := .list (row.serverScript.items ++ [s]) }

/-- The fields that a snapshot has. -/
def snapshotFields (s : SchemaSnapshot) : List (String × String) :=
  (s.objects.toList.filter fun e => e.2.kind = .field).map fun e => (e.2.name, e.2.defineSql)

/-- `history_fields`, past the read of the rows. -/
def historyFields (db : ScopeDb) : List (String × List (String × String)) :=
  (loadHistory db).toList.map fun e => (e.1, snapshotFields e.2.2)

/-- The rows of a table in the order of their keys. -/
def byName {α : Type} (rows : List (String × α)) : List (String × α) :=
  rows.insertionSort fun a b => a.1 ≤ b.1

/-- The fixtures that an app ships. -/
def shippedBy (s : TenantDb) (app : String) : List Provenance :=
  ((s.provenance.map (·.2)).filter fun p => p.app = app ∧ p.active).insertionSort
    fun a b => a.doctype < b.doctype ∨ a.doctype = b.doctype ∧ a.recordKey ≤ b.recordKey

/-- A migration of the tenant's resources. -/
def migrated (luck : MigrationPhase → ScopeFaults) (phase : MigrationPhase)
    (specs : List ResourceSpec) (opts : MigrationOptions) (db : ScopeDb) :
    ScopeDb × Except String MigrationReport :=
  migrateScope false ⟨"", ""⟩ (tenantSpecs specs) opts "tenant:default" (luck phase) db

/-- What a statement answers, and what it leaves. -/
def serve (engine : RowEngine) (luck : MigrationPhase → ScopeFaults) (s : TenantDb) :
    (q : DbRequest) → Except BrokerError (Reply q) × TenantDb
  | .doctypes => (.ok (byName s.doctypes), s)
  | .doctype name => (.ok (s.doctypes.lookup name), s)
  | .upsertDoctype name row => (.ok (), { s with doctypes := put name row s.doctypes })
  | .createDoctype name row =>
      if (s.doctypes.lookup name).isSome then
        (.error (.db ("Database record 'doctype:" ++ name ++ "' already exists")), s)
      else (.ok (), { s with doctypes := put name row s.doctypes })
  | .addField doctype f => (.ok (), { s with doctypes := modify doctype (addFieldRow f) s.doctypes })
  | .addScript doctype x =>
      (.ok (), { s with doctypes := modify doctype (addScriptRow x) s.doctypes })
  | .strip doctype app =>
      if (s.doctypes.lookup doctype).all strippable then
        (.ok (), { s with doctypes := modify doctype (stripRow app) s.doctypes })
      else (.error (.db "no such method found for the string type"), s)
  | .stripOthers app =>
      if s.doctypes.all fun e => e.2.app = some app ∨ strippable e.2 then
        (.ok (), { s with
          doctypes := modifyAll (fun row => if row.app = some app then row else stripRow app row)
            s.doctypes })
      else (.error (.db "no such method found for the string type"), s)
  | .deleteDoctype name => (.ok (), { s with doctypes := remove name s.doctypes })
  | .setClientScript name script =>
      (.ok (), { s with
        doctypes := modify name (fun row => { row with clientScript := script }) s.doctypes })
  | .workflows => (.ok ((byName s.workflows).map (·.2)), s)
  | .upsertWorkflow w => (.ok (), { s with workflows := put w.name w s.workflows })
  | .deleteWorkflow name => (.ok (), { s with workflows := remove name s.workflows })
  | .notifications => (.ok ((byName s.notifications).map (·.2)), s)
  | .upsertNotification n => (.ok (), { s with notifications := put n.name n s.notifications })
  | .deleteNotification name => (.ok (), { s with notifications := remove name s.notifications })
  | .apps => (.ok (byName s.apps), s)
  | .app name => (.ok (s.apps.lookup name), s)
  | .createApp name row =>
      if (s.apps.lookup name).isSome then
        (.error (.db ("Database record 'app:" ++ name ++ "' already exists")), s)
      else (.ok (), { s with apps := put name row s.apps })
  | .updateApp name version manifest =>
      (.ok (), { s with apps := modify name (fun _ => ⟨version, true, manifest⟩) s.apps })
  | .setEnabled name enabled =>
      (.ok (), { s with apps := modify name (fun row => { row with enabled := enabled }) s.apps })
  | .deleteApp name => (.ok (), { s with apps := remove name s.apps })
  | .historyFields => (.ok (historyFields s.schema), s)
  | .migrate phase specs opts =>
      let (schema, report) := migrated luck phase specs opts s.schema
      (.ok report, { s with schema := schema })
  | .row doctype key => (.ok (s.rows.lookup (doctype, key)), s)
  | .count table => (.ok (s.rows.filter (·.1.1 = table)).length, s)
  | .writeRow doctype key write =>
      match engine s.schema.live doctype (s.rows.lookup (doctype, key)) write with
      | .ok row => (.ok (), { s with rows := put (doctype, key) row s.rows })
      | .error e => (.error e, s)
  | .provenance id => (.ok (s.provenance.lookup id), s)
  | .claim id row =>
      if (s.provenance.lookup id).isSome then
        (.error (.db ("Database record '" ++ id ++ "' already exists")), s)
      else (.ok (), { s with provenance := put id row s.provenance })
  | .ship id row => (.ok (), { s with provenance := modify id (fun _ => row) s.provenance })
  | .orphan id =>
      (.ok (), { s with
        provenance := modify id (fun p => { p with active := false }) s.provenance })
  | .orphanApp app =>
      (.ok (), { s with
        provenance := modifyAll (fun p => if p.app = app then { p with active := false } else p)
          s.provenance })
  | .activeFixtures app => (.ok (s.shippedBy app), s)

end TenantDb

/-- Runs a program against a tenant's database, with no one else at it. -/
def AppProg.exec {α : Type} (engine : RowEngine) (luck : MigrationPhase → ScopeFaults)
    (p : AppProg α) (s : TenantDb) : Except BrokerError α × TenantDb :=
  p.run (TenantDb.serve engine luck) s

end Frust.Kernel
