import Frust.Kernel.Tenancy
import Frust.Lib.Exec

/-!
# `Frust.Kernel.Recovery`: backup and restore

A backup is a directory with a dump and a manifest. It is made in a staging directory, verified
there, and published by one rename. A restore verifies its input, makes a safety backup of the
target, verifies the input again, and only then resets the database.

The procedures are programs that ask the file system, the clock and the database tools. Any of
these may fail at any time. A path is the list of its components, as paths are compared; it is
shown with single slashes. The arguments of the command line are parsed elsewhere. How a file
is hashed and how the manifest is written as JSON are left to `RecoveryWorld`.
-/

set_option autoImplicit false

namespace Frust.Kernel

open Frust.Lib Frust.Rust.Str

namespace Recovery

/-! ### Paths -/

/-- `std::path::Component`. -/
inductive Component where
  | root
  | cur
  | up
  | normal (name : String)
  deriving DecidableEq

/-- A path. -/
abbrev Path := List Component

/-- A component, as shown. -/
def Component.text : Component → String
  | root => ""
  | cur => "."
  | up => ".."
  | normal name => name

/-- `display`. -/
def display (p : Path) : String :=
  if p = [.root] then "/" else "/".intercalate (p.map Component.text)

/-- `file_name`. -/
def fileName (p : Path) : Option String :=
  match p.getLast? with
  | some (.normal name) => some name
  | _ => none

/-- `parent`, or else the current directory. -/
def parentDir (p : Path) : Path :=
  match p.getLast? with
  | none | some .root => [.cur]
  | _ => if p.dropLast = [] then [.cur] else p.dropLast

/-! ### Manifests and targets -/

/-- `FORMAT_VERSION`. -/
def formatVersion : Nat := 1

/-- `DUMP_FILE`. -/
def dumpFile : String := "dump.surql"

/-- `MANIFEST_FILE`. -/
def manifestFile : String := "manifest.json"

/-- `RecoveryError`. -/
abbrev RecoveryError := String

/-- `BackupManifest`. -/
structure BackupManifest where
  formatVersion : Nat
  createdUnixSeconds : Nat
  tenant : String
  topology : String
  ns : String
  database : String
  tenantIsolated : Bool
  dumpFile : String
  dumpBytes : Nat
  dumpSha256 : String
  deriving DecidableEq

/-- `scope`. -/
def BackupManifest.scope (m : BackupManifest) : String := m.ns ++ "/" ++ m.database

/-- `TargetPlan`. -/
structure TargetPlan where
  tenant : String
  topology : String
  ns : String
  database : String
  tenantIsolated : Bool
  deriving DecidableEq

namespace TargetPlan

/-- `from_target`. -/
def fromTarget (target : ResolvedTenant) : Except RecoveryError TargetPlan :=
  let plan := target.strategy.backupPlan target
  match plan.database with
  | none => .error "SurrealDB export/import requires a database-scoped backup plan"
  | some database =>
      .ok ⟨target.tenantId.asStr, target.strategy.name, plan.ns.name.raw, database.name.raw,
        plan.tenantIsolated⟩

/-- `scope`. -/
def scope (plan : TargetPlan) : String := plan.ns ++ "/" ++ plan.database

/-- `matches`. -/
def matchesManifest (plan : TargetPlan) (m : BackupManifest) : Bool :=
  plan.tenant = m.tenant && plan.topology = m.topology && plan.ns = m.ns
    && plan.database = m.database && plan.tenantIsolated = m.tenantIsolated

end TargetPlan

/-! ### Requests -/

/-- What the procedures ask for. A directory's files are the dump and the manifest. -/
inductive Request where
  | isDir (p : Path)
  | fileExists (p : Path)
  | openManifest (dir : Path)
  | readManifest (dir : Path)
  | openDump (dir : Path)
  /-- Reads the dump: its length and its hash. -/
  | hashDump (dir : Path)
  | createDirAll (p : Path)
  | createDir (p : Path)
  /-- Seconds since the Unix epoch. -/
  | clock
  /-- Creates, writes and syncs the manifest. -/
  | writeManifest (dir : Path) (m : BackupManifest)
  | syncDump (dir : Path)
  | rename (src dst : Path)
  | removeDirAll (p : Path)
  | exportDump (target : ResolvedTenant) (dir : Path)
  | resetDatabase (target : ResolvedTenant)
  | importDump (target : ResolvedTenant) (dir : Path)
  | rotateAccess (target : ResolvedTenant)
  | assertKeyguard (target : ResolvedTenant)

/-- The answers. -/
abbrev Answer : Request → Type
  | .isDir _ | .fileExists _ => Bool
  | .readManifest _ => Except RecoveryError BackupManifest
  | .hashDump _ => Except RecoveryError (Nat × String)
  | .clock => Except RecoveryError Nat
  | .openManifest _ | .openDump _ | .createDirAll _ | .createDir _ | .writeManifest _ _
  | .syncDump _ | .rename _ _ | .removeDirAll _ | .exportDump _ _ | .resetDatabase _
  | .importDump _ _ | .rotateAccess _ | .assertKeyguard _ => Except RecoveryError Unit

/-- A procedure. -/
abbrev Procedure := Prog RecoveryError Request Answer

/-- Fails. -/
def fail {α : Type} (detail : String) : Procedure α := .done (.error detail)

/-- Asks a request that may fail. -/
def ask {α : Type} (q : Request) (h : Answer q = Except RecoveryError α) : Procedure α :=
  .ask q fun r => .done (h ▸ r)

/-- `map_err` on a request: the text before the detail. -/
def askOr {α : Type} (before : String) (q : Request) (h : Answer q = Except RecoveryError α) :
    Procedure α := .ask q fun r => .done ((h ▸ r : Except RecoveryError α).mapError (before ++ ·))

/-- `map_err` on a procedure. -/
def orElse {α : Type} (p : Procedure α) (f : String → String) : Procedure α := do
  match ← p.attempt with
  | .ok a => return a
  | .error e => fail (f e)

/-! ### Backups -/

/-- The file of a directory. -/
def fileOf (dir : Path) (name : String) : Path := dir ++ [.normal name]

/-- `hash_file` of the dump. -/
def hashFile (dir : Path) : Procedure (Nat × String) := do
  askOr ("open " ++ display (fileOf dir dumpFile) ++ ": ") (.openDump dir) rfl
  ask (.hashDump dir) rfl

/-- `verify_backup`. -/
def verifyBackup (input : Path) : Procedure BackupManifest :=
  .ask (.isDir input) fun (isDir : Bool) =>
    if !isDir then fail ("backup path is not a directory: " ++ display input)
    else do
      askOr ("open " ++ display (fileOf input manifestFile) ++ ": ") (.openManifest input) rfl
      let manifest ← askOr ("parse " ++ display (fileOf input manifestFile) ++ ": ")
        (.readManifest input) rfl
      if manifest.formatVersion ≠ formatVersion then
        fail ("unsupported backup format " ++ toString manifest.formatVersion
          ++ " (this binary supports " ++ toString formatVersion ++ ")")
      else if manifest.dumpFile ≠ dumpFile then
        fail ("manifest dump_file must be " ++ debugStr dumpFile ++ ", got "
          ++ debugStr manifest.dumpFile)
      else do
        let (bytes, sha256) ← hashFile input
        if bytes = 0 then fail "backup dump is empty"
        else if bytes ≠ manifest.dumpBytes ∨ sha256 ≠ manifest.dumpSha256 then
          fail ("backup integrity mismatch: manifest bytes=" ++ toString manifest.dumpBytes
            ++ " sha256=" ++ manifest.dumpSha256 ++ ", actual bytes=" ++ toString bytes
            ++ " sha256=" ++ sha256)
        else return manifest

/-- `staging_path`, in the process of an id. -/
def stagingPath (pid : Nat) (output : Path) : Except RecoveryError Path :=
  match fileName output with
  | none => .error ("backup output needs a directory name: " ++ display output)
  | some name => .ok (output.dropLast ++ [.normal (name ++ ".partial-" ++ toString pid)])

/-- The part of `create_backup` that fills the staging directory and publishes it. -/
def fillAndPublish (target : ResolvedTenant) (staging output : Path) :
    Procedure BackupManifest := do
  let plan ← Prog.done (TargetPlan.fromTarget target)
  ask (.exportDump target staging) rfl
  let (bytes, sha256) ← hashFile staging
  if bytes = 0 then fail "surreal export produced an empty dump"
  else do
    let created ← askOr "system clock precedes Unix epoch: " .clock rfl
    let manifest : BackupManifest :=
      { formatVersion := formatVersion
        createdUnixSeconds := created
        tenant := plan.tenant
        topology := plan.topology
        ns := plan.ns
        database := plan.database
        tenantIsolated := plan.tenantIsolated
        dumpFile := dumpFile
        dumpBytes := bytes
        dumpSha256 := sha256 }
    ask (.writeManifest staging manifest) rfl
    ask (.syncDump staging) rfl
    let verified ← verifyBackup staging
    askOr ("publish backup " ++ display staging ++ " -> " ++ display output ++ ": ")
      (.rename staging output) rfl
    return verified

/-- The end of `create_backup`: what failed is cleaned up. -/
def cleanUp (staging : Path) (result : Except RecoveryError BackupManifest) :
    Procedure BackupManifest :=
  match result with
  | .ok m => .done (.ok m)
  | .error e =>
      .ask (.fileExists staging) fun (found : Bool) =>
        if !found then fail e
        else .ask (.removeDirAll staging) fun _ => fail e

/-- `create_backup`. -/
def createBackup (pid : Nat) (target : ResolvedTenant) (output : Path) :
    Procedure BackupManifest :=
  .ask (.fileExists output) fun (found : Bool) =>
    if found then
      fail ("backup output already exists; refusing to overwrite: " ++ display output)
    else do
      askOr ("create " ++ display (parentDir output) ++ ": ") (.createDirAll (parentDir output)) rfl
      let staging ← Prog.done (stagingPath pid output)
      .ask (.fileExists staging) fun (found : Bool) =>
        if found then
          fail ("staging path already exists; inspect it instead of overwriting it: "
            ++ display staging)
        else do
          ask (.createDir staging) rfl
          let result ← (fillAndPublish target staging output).attempt
          cleanUp staging result

/-! ### Restore -/

/-- `verify_matches_target`. -/
def verifyMatchesTarget (input : Path) (plan : TargetPlan) : Procedure BackupManifest := do
  let manifest ← verifyBackup input
  if !plan.matchesManifest manifest then
    fail ("backup scope mismatch: backup tenant=" ++ manifest.tenant ++ " topology="
      ++ manifest.topology ++ " target=" ++ manifest.scope ++ "; configured tenant="
      ++ plan.tenant ++ " topology=" ++ plan.topology ++ " target=" ++ plan.scope)
  else return manifest

/-- What `restore` does once it may drop the target. -/
def dropAndImport (target : ResolvedTenant) (input safetyBackup : Path) : Procedure Unit := do
  askOr ("restore target reset failed; safety backup is at " ++ display safetyBackup ++ ": ")
    (.resetDatabase target) rfl
  askOr ("restore import failed after target reset; DO NOT SERVE this target; safety backup is at "
    ++ display safetyBackup ++ ": ") (.importDump target input) rfl
  askOr ("restore imported but signing-key remediation failed; DO NOT SERVE this target; "
    ++ "safety backup is at " ++ display safetyBackup ++ ": ") (.rotateAccess target) rfl
  askOr ("restore imported but failed the signing-key guard; DO NOT SERVE this target; "
    ++ "safety backup is at " ++ display safetyBackup ++ ": ") (.assertKeyguard target) rfl

/-- What `restore` does before it may drop the target. -/
def preflight (pid : Nat) (target : ResolvedTenant) (input safetyBackup : Path)
    (confirmDrop : Option String) : Procedure BackupManifest := do
  let plan ← Prog.done (TargetPlan.fromTarget target)
  if !plan.tenantIsolated then
    fail ("refusing tenant restore for topology " ++ plan.topology ++ ": target " ++ plan.scope
      ++ " contains shared tenant data; use a separately designed whole-database recovery procedure")
  else do
    let manifest ← verifyMatchesTarget input plan
    if confirmDrop ≠ some plan.scope then
      fail ("restore drops and recreates " ++ plan.scope ++ "; repeat with --confirm-drop "
        ++ plan.scope)
    else if input = safetyBackup ∨ input.isPrefixOf safetyBackup then
      fail "--safety-backup must be outside the backup being restored"
    else do
      let _ ← orElse (createBackup pid target safetyBackup)
        ("safety backup failed; live target was not changed: " ++ ·)
      let preDrop ← verifyMatchesTarget input plan
      if preDrop ≠ manifest then
        fail "restore input changed during preflight; live target was not changed"
      else return manifest

/-- `restore`. -/
def restore (pid : Nat) (target : ResolvedTenant) (input safetyBackup : Path)
    (confirmDrop : Option String) : Procedure BackupManifest := do
  let manifest ← preflight pid target input safetyBackup confirmDrop
  dropAndImport target input safetyBackup
  return manifest

/-! ### Commands -/

/-- `RecoveryCommand`, without the binary of the database tool. -/
inductive RecoveryCommand where
  | backup (tenant : String) (output : Path) (dryRun : Bool)
  | verify (input : Path)
  | restore (tenant : String) (input safetyBackup : Path) (confirmDrop : Option String)
      (dryRun : Bool)

/-- The target that a tenant's name resolves to. `describe` shows the error of a name that does
not. -/
def targetOf (describe : BrokerError → String) (tenancy : Option Tenancy) (verb tenant : String) :
    Except RecoveryError ResolvedTenant :=
  match tenancy with
  | none => .error (verb ++ " needs tenancy config")
  | some tenancy => (tenancy.resolve tenant).mapError describe

/-- `run`. -/
def run (pid : Nat) (describe : BrokerError → String) (tenancy : Option Tenancy) :
    RecoveryCommand → Procedure String
  | .verify input => do
      let m ← verifyBackup input
      return "backup verified: tenant=" ++ m.tenant ++ " topology=" ++ m.topology ++ " target="
        ++ m.scope ++ " bytes=" ++ toString m.dumpBytes ++ " sha256=" ++ m.dumpSha256
  | .backup tenant output dryRun => do
      let target ← Prog.done (targetOf describe tenancy "backup" tenant)
      let plan ← Prog.done (TargetPlan.fromTarget target)
      if dryRun then
        return "dry run: backup tenant=" ++ plan.tenant ++ " topology=" ++ plan.topology
          ++ " target=" ++ plan.scope ++ " isolated=" ++ toString plan.tenantIsolated
          ++ " output=" ++ display output
      else do
        let m ← createBackup pid target output
        return "backup complete: tenant=" ++ m.tenant ++ " target=" ++ m.scope ++ " output="
          ++ display output ++ " bytes=" ++ toString m.dumpBytes ++ " sha256=" ++ m.dumpSha256
  | .restore tenant input safetyBackup confirmDrop dryRun => do
      let target ← Prog.done (targetOf describe tenancy "restore" tenant)
      let plan ← Prog.done (TargetPlan.fromTarget target)
      if !plan.tenantIsolated then
        fail ("refusing tenant restore for topology " ++ plan.topology ++ ": target "
          ++ plan.scope ++ " contains shared tenant data")
      else do
        let _ ← verifyMatchesTarget input plan
        .ask (.fileExists safetyBackup) fun (found : Bool) =>
          if found then
            fail ("safety backup output already exists; refusing to overwrite: "
              ++ display safetyBackup)
          else if dryRun then
            return "dry run: restore tenant=" ++ plan.tenant ++ " topology=" ++ plan.topology
              ++ " target=" ++ plan.scope ++ " input=" ++ display input ++ " safety_backup="
              ++ display safetyBackup
              ++ "; steps=verify,safety-export,drop-and-create,import,rotate-access,keyguard"
          else do
            let m ← restore pid target input safetyBackup confirmDrop
            return "restore complete: tenant=" ++ m.tenant ++ " target=" ++ m.scope
              ++ " source=" ++ display input ++ " safety_backup=" ++ display safetyBackup
              ++ "; all sessions invalidated and keyguard passed"

/-! ### The file system and the database -/

/-- A backup directory: the text of its manifest, and its dump. -/
structure BackupDir (β : Type) where
  manifest : Option String
  dump : Option β

/-- Manifests as JSON, the length and the hash of a dump, and what a dump of a database is. -/
structure RecoveryWorld (δ β : Type) where
  parse : String → Except String BackupManifest
  size : β → Nat
  sha256 : β → String
  exports : δ → β → Prop

/-- The directories, the target's database, and the last export with the database as it was. -/
structure RecoveryState (δ β : Type) where
  dirs : Path → Option (BackupDir β)
  live : δ
  exported : Option (δ × β) := none

namespace RecoveryState

variable {δ β : Type}

/-- A directory becomes another. -/
def put (s : RecoveryState δ β) (p : Path) (dir : Option (BackupDir β)) : RecoveryState δ β :=
  { s with dirs := Function.update s.dirs p dir }

/-- The files of a directory that is there become others. -/
def edit (s : RecoveryState δ β) (p : Path) (f : BackupDir β → BackupDir β) : RecoveryState δ β :=
  s.put p ((s.dirs p).map f)

/-- What a request may be answered, and what it does. Where it fails it may have been done in
part. -/
def Effect (world : RecoveryWorld δ β) (s : RecoveryState δ β) :
    (q : Request) → Answer q → RecoveryState δ β → Prop
  | .readManifest p, r, s' => s' = s ∧ ∀ m, r = .ok m →
      ∃ dir text, s.dirs p = some dir ∧ dir.manifest = some text ∧ world.parse text = .ok m
  | .hashDump p, r, s' => s' = s ∧ ∀ x, r = .ok x →
      ∃ dir b, s.dirs p = some dir ∧ dir.dump = some b ∧ x = (world.size b, world.sha256 b)
  | .createDir p, r, s' =>
      (s.dirs p = none ∧ s' = s.put p (some ⟨none, none⟩)) ∨ (s' = s ∧ ∃ e, r = .error e)
  | .writeManifest p _, _, s' => ∃ text, s' = s.edit p fun dir => { dir with manifest := text }
  | .rename src dst, r, s' =>
      (∃ dir, s.dirs src = some dir ∧ s' = (s.put src none).put dst (some dir)) ∨
        (s' = s ∧ ∃ e, r = .error e)
  | .removeDirAll p, _, s' => ∃ dir, s' = s.put p dir
  | .exportDump _ p, r, s' =>
      (∃ b, world.exports s.live b ∧
        s' = { s.edit p fun dir => { dir with dump := some b } with exported := some (s.live, b) }) ∨
      ((∃ dump, s' = s.edit p fun dir => { dir with dump := dump }) ∧ ∃ e, r = .error e)
  | .resetDatabase _, _, s' | .importDump _ _, _, s' | .rotateAccess _, _, s' =>
      ∃ live, s' = { s with live := live }
  | .isDir _, _, s' | .fileExists _, _, s' | .openManifest _, _, s' | .openDump _, _, s'
  | .createDirAll _, _, s' | .clock, _, s' | .syncDump _, _, s' | .assertKeyguard _, _, s' => s' = s

/-- What others do meanwhile: anything to the database, and anything to directories that are not
this procedure's own. -/
def Others (own : Path → Prop) (s s' : RecoveryState δ β) : Prop :=
  (∀ p, own p → s'.dirs p = s.dirs p) ∧ s'.exported = s.exported

/-- The directories that a backup to an output is the only one to write. -/
def Own (pid : Nat) (output p : Path) : Prop := p = output ∨ stagingPath pid output = .ok p

/-- What a request may be answered, and what becomes of the state. -/
def Answers (world : RecoveryWorld δ β) (own : Path → Prop) (s : RecoveryState δ β) (q : Request)
    (r : Answer q) (s' : RecoveryState δ β) : Prop :=
  ∃ s₁, Effect world s q r s₁ ∧ Others own s₁ s'

end RecoveryState

end Recovery

end Frust.Kernel
