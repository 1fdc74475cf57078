import Frust.Lib.Prog
import Frust.Orm.Migrator

/-!
# `Frust.Orm.Artifacts`: migrations written for review

`write_artifacts` writes one `.surql` file for each migration of a report, planned or applied. A file
has a header in comments and the statements in a transaction. It is named by the version and the
name of the resource, in a directory named by the scope.

The file system is asked for two things, and may fail. A path is the list of its parts.
-/

set_option autoImplicit false

namespace Frust.Orm

open Frust.Lib Frust.Rust

/-- `ArtifactEntry`. -/
structure ArtifactEntry where
  version : Int
  name : String
  statements : List String
  destructive : List String
  classifications : FieldChangeReport
  deriving DecidableEq

/-- The migrations of a report. What is applied has nothing destructive to warn of. -/
def MigrationReport.artifacts (report : MigrationReport) : List ArtifactEntry :=
  report.planned.map (fun p =>
    ⟨p.nextVersion, p.name, p.statements, p.destructive, p.classifications⟩) ++
  report.applied.map fun a => ⟨a.version, a.name, a.statements, [], a.classifications⟩

namespace Artifacts

/-- `class_label`. -/
def classLabel : FieldClass → String
  | .safe => "SAFE"
  | .warn => "WARN"
  | .needsBackfill => "NEEDS-BACKFILL"
  | .blocked => "BLOCKED"

/-- `sanitize`. -/
def sanitize (s : String) : String :=
  String.ofList (s.toList.map fun c =>
    if Str.isAsciiAlphanumeric c || c = '-' || c = '_' then c else '_')

/-- What a change of a field did to its type. -/
def transition (e : FieldChangeEntry) : String :=
  match e.fromType, e.toType with
  | some f, some t => e.field ++ ": " ++ f ++ " -> " ++ t
  | none, some t => e.field ++ " added: " ++ t
  | some f, none => e.field ++ " dropped (was " ++ f ++ ")"
  | none, none => e.field

/-- The header about changes of fields. -/
def classificationTexts (r : FieldChangeReport) : List String :=
  if r.entries.isEmpty then []
  else "classifications (advisory; not enforced):"
    :: r.entries.map (fun e => "  [" ++ classLabel e.cls ++ "] " ++ transition e ++ " — " ++ e.reason)
    ++ ["summary: " ++ toString r.summary.safe ++ " safe, " ++ toString r.summary.warn ++ " warn, "
      ++ toString r.summary.needsBackfill ++ " needs-backfill, " ++ toString r.summary.blocked
      ++ " blocked"]

/-- The header, without what begins a comment. -/
def headerTexts (report : MigrationReport) (e : ArtifactEntry) : List String :=
  ["framework-orm-adapter migration artifact (reviewable; not auto-applied)",
    "scope:    " ++ report.scope,
    "ns/db:    " ++ report.namespace ++ "/" ++ report.database,
    "resource: " ++ e.name,
    "version:  " ++ toString e.version]
  ++ (if e.destructive.isEmpty then [] else ["WARNING destructive: " ++ Str.debugStrs e.destructive])
  ++ classificationTexts e.classifications

/-- The header. -/
def header (report : MigrationReport) (e : ArtifactEntry) : String :=
  String.join ((headerTexts report e).map fun t => "-- " ++ t ++ "\n")

/-- The transaction. -/
def transaction (statements : List String) : String :=
  String.join ("\nBEGIN TRANSACTION;\n" :: statements.map (· ++ ";\n") ++ ["COMMIT TRANSACTION;\n"])

/-- `render`. -/
def render (report : MigrationReport) (e : ArtifactEntry) : String :=
  header report e ++ transaction e.statements

/-! ### Writing -/

/-- A path. -/
abbrev FilePath := List String

/-- `join`. -/
def joinPath (p : FilePath) (part : String) : FilePath := if part = "" then p else p ++ [part]

/-- A number, at least four wide. -/
def padded (v : Int) : List Char :=
  if v < 0 then '-' :: List.leftpad 3 '0' (Nat.toDigits 10 v.natAbs)
  else List.leftpad 4 '0' (Nat.toDigits 10 v.natAbs)

/-- The name of a file. -/
def fileName (e : ArtifactEntry) : String :=
  "v" ++ String.ofList (padded e.version) ++ "__" ++ sanitize e.name ++ ".surql"

/-- The directory of a scope. -/
def scopeDir (report : MigrationReport) (outDir : FilePath) : FilePath :=
  joinPath outDir (sanitize report.scope)

/-- The path of a file. -/
def pathOf (report : MigrationReport) (outDir : FilePath) (e : ArtifactEntry) : FilePath :=
  joinPath (scopeDir report outDir) (fileName e)

/-- What is asked of the file system. -/
inductive FileRequest where
  | createDirAll (dir : FilePath)
  | write (path : FilePath) (contents : String)

/-- It succeeds, or it fails with an error. -/
abbrev FileAnswer (_ : FileRequest) : Type := Except String Unit

/-- The loop of `write_artifacts`. -/
def writeEach (report : MigrationReport) (outDir : FilePath) :
    List ArtifactEntry → Prog String FileRequest FileAnswer (List FilePath)
  | [] => return []
  | e :: es => do
      .ask (.write (pathOf report outDir e) (render report e)) .done
      let written ← writeEach report outDir es
      return pathOf report outDir e :: written

/-- By version, then by name. -/
def comesFirst (a b : ArtifactEntry) : Prop :=
  a.version < b.version ∨ (a.version = b.version ∧ a.name ≤ b.name)

instance : DecidableRel comesFirst := fun _ _ => inferInstanceAs (Decidable (_ ∨ _))

/-- `write_artifacts`. -/
def writeArtifacts (report : MigrationReport) (outDir : FilePath) :
    Prog String FileRequest FileAnswer (List FilePath) :=
  if report.artifacts.isEmpty then return []
  else do
    .ask (.createDirAll (scopeDir report outDir)) .done
    writeEach report outDir (report.artifacts.insertionSort comesFirst)

end Artifacts

end Frust.Orm
