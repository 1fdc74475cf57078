import Frust.Kernel.Mail
import Frust.Kernel.Routes

/-!
# `Frust.Kernel.Manifest`: the manifest of an app

An app is a versioned bundle: DocTypes of its own, what it adds to those of others, scripts, routes
and their components, workflows, notifications and records. `validate` lists every problem of a
bundle at once; a bundle without problems is installable as far as its structure goes.
-/

set_option autoImplicit false

namespace Frust.Kernel

open Frust.Rust

/-- `MANIFEST_VERSION`. -/
def manifestVersion : Int := 1

/-- `RESERVED_ROUTE_PATHS`. -/
def reservedRoutePaths : List String := ["enable", "disable", "export"]

/-- `FixtureDecl`. The values come in the order of the map. -/
structure FixtureDecl where
  doctype : String
  key : String
  values : List (String × Json) := []

/-- `doctype:key`. -/
def FixtureDecl.label (f : FixtureDecl) : String := f.doctype ++ ":" ++ f.key

/-- The fields that a fixture sets. -/
def FixtureDecl.keys (f : FixtureDecl) : List String := f.values.map (·.1)

/-- `ExtensionDecl`. -/
structure ExtensionDecl where
  doctype : String
  fields : List FieldDef := []
  hook : String := "validate"
  script : String := ""
  deriving DecidableEq

/-- `ScriptDecl`. -/
structure ScriptDecl where
  doctype : String
  hook : String := "validate"
  script : String
  deriving DecidableEq

/-- `Manifest`. -/
structure Manifest where
  manifestVersion : Int
  name : String
  version : String
  label : String := ""
  doctypes : List DocTypeDef := []
  clientScripts : List ScriptDecl := []
  serverScripts : List ScriptDecl := []
  routes : List RouteDecl := []
  components : List String := []
  workflows : List WorkflowDef := []
  notifications : List NotificationDef := []
  «extends» : List ExtensionDecl := []
  fixtures : List FixtureDecl := []

namespace Manifest

/-- `known_hooks`. -/
def knownHooks : String :=
  ", ".intercalate (HookClass.subscribable.map fun c => "'" ++ c.wire ++ "'")

/-- `is_ident` of a manifest: an identifier that does not begin with a digit. -/
def isIdent (s : String) : Bool :=
  Kernel.isIdent s && s.toList.head?.any fun c => !Str.isAsciiDigit c

/-- `is_semver`. -/
def isSemver (s : String) : Bool :=
  let parts := Str.split '.' s
  parts.length == 3
    && parts.all fun p => !p.toList.isEmpty && p.toList.all Str.isAsciiDigit

/-- `p.parse::<u64>()` of digits. -/
def parseNumber (s : String) : Option Nat :=
  let n := s.toList.foldl (fun n c => 10 * n + (c.toNat - '0'.toNat)) 0
  if n < 2 ^ 64 then some n else none

/-- The numbers of a version. -/
def versionNumbers (s : String) : Option (List Nat) :=
  if isSemver s then (Str.split '.' s).mapM parseNumber else none

/-- `version_gt`. -/
def versionGt (a b : String) : Option Bool := do
  let a ← versionNumbers a
  let b ← versionNumbers b
  return decide (b < a)

/-- The bundle declares the DocType. -/
def owns (m : Manifest) (doctype : String) : Bool := m.doctypes.any (·.name == doctype)

/-! ### Problems -/

/-- The problems of the bundle's own attributes. -/
def headProblems (m : Manifest) : List String :=
  problem (m.manifestVersion != Kernel.manifestVersion)
      ("manifest_version " ++ toString m.manifestVersion ++ " is not supported (this kernel speaks "
        ++ toString Kernel.manifestVersion ++ ")")
    ++ problem (!isIdent m.name) ("app name '" ++ m.name ++ "' is not an identifier")
    ++ problem (!isSemver m.version) ("version '" ++ m.version ++ "' is not MAJOR.MINOR.PATCH")

/-- The problems of the DocTypes; `seen` are the names before them. -/
def doctypeProblems : (seen : List String) → List DocTypeDef → List String
  | _, [] => []
  | seen, dt :: rest =>
      problem (!isIdent dt.name) ("doctype '" ++ dt.name ++ "' is not an identifier")
        ++ problem (seen.contains dt.name) ("doctype '" ++ dt.name ++ "' is declared twice")
        ++ (dt.fields.flatMap fun f =>
          problem (!isIdent f.fieldname)
            (dt.name ++ "." ++ f.fieldname ++ " is not an identifier"))
        ++ doctypeProblems (dt.name :: seen) rest

/-- The problems of one script. -/
def scriptProblems (m : Manifest) (kind : String) (s : ScriptDecl) : List String :=
  problem (!m.owns s.doctype)
      (kind ++ " targets '" ++ s.doctype ++ "', which this bundle does not declare")
    ++ problem (HookClass.fromWire s.hook).isNone
      (kind ++ " on '" ++ s.doctype ++ "' uses hook '" ++ s.hook ++ "'; known hooks are "
        ++ knownHooks)
    ++ problem (Str.trim s.script == "") (kind ++ " on '" ++ s.doctype ++ "' is empty")

/-- The problems of one field of an extension. -/
def extensionFieldProblems (m : Manifest) (e : ExtensionDecl) (f : FieldDef) : List String :=
  if !isIdent f.fieldname then
    ["extension field '" ++ f.fieldname ++ "' is not an identifier"]
  else
    problem (!Str.startsWith (m.name ++ "_") f.fieldname)
      ("extension field '" ++ f.fieldname ++ "' on '" ++ e.doctype ++ "' must be namespaced '"
        ++ m.name ++ "_" ++ "…' — an app may                          only add fields under its own name")

/-- The problems of one extension. -/
def extensionProblems (m : Manifest) (e : ExtensionDecl) : List String :=
  problem (!isIdent e.doctype)
      ("extends targets '" ++ e.doctype ++ "', which is not an identifier")
    ++ problem (m.owns e.doctype)
      ("extends targets '" ++ e.doctype
        ++ "', which this bundle ALSO declares — own it or extend                      it, not both")
    ++ problem (HookClass.fromWire e.hook).isNone
      ("extension on '" ++ e.doctype ++ "' uses hook '" ++ e.hook ++ "'; known hooks are "
        ++ knownHooks)
    ++ problem (Str.trim e.script == "" && e.fields.isEmpty)
      ("extension on '" ++ e.doctype ++ "' adds nothing — no fields and no script")
    ++ e.fields.flatMap (m.extensionFieldProblems e)

/-- The problems of one route. -/
def routeProblems (m : Manifest) (r : RouteDecl) : List String :=
  problem (!isIdent r.path) ("route path '" ++ r.path ++ "' is not an identifier")
    ++ problem (reservedRoutePaths.contains r.path)
      ("route path '" ++ r.path ++ "' is reserved by the app lifecycle surface")
    ++ problem (!m.components.contains r.component)
      ("route '" ++ r.path ++ "' names component '" ++ r.component
        ++ "', which the bundle does not ship")

/-- The problems of one component. -/
def componentProblems (c : String) : List String :=
  problem (!Str.endsWith ".wasm" c || c.toList.contains '/' || c.toList.contains '\\'
      || Str.contains ".." c)
    ("component '" ++ c ++ "' must be a bare .wasm filename")

/-- `validate_fixture_fields`: a fixture sets declared fields, and all required ones. -/
def fixtureFieldProblems (f : FixtureDecl) (dt : DocTypeDef) : List String :=
  (f.keys.flatMap fun field =>
    problem (!(field == "status" || field == "docstatus" && dt.submittable)
        && !dt.fields.any (·.fieldname == field))
      ("fixture '" ++ f.label ++ "' sets undeclared field '" ++ field ++ "'"))
    ++ ((dt.fields.filter (·.required)).flatMap fun required =>
      problem (!f.keys.contains required.fieldname)
        ("fixture '" ++ f.label ++ "' omits required field '" ++ required.fieldname ++ "'"))

/-- The problems of the fixtures; `seen` are the DocTypes and keys before them. -/
def fixtureProblems (m : Manifest) : (seen : List (String × String)) → List FixtureDecl → List String
  | _, [] => []
  | seen, f :: rest =>
      problem (!isIdent f.doctype) ("fixture doctype '" ++ f.doctype ++ "' is not an identifier")
        ++ problem (!isIdent f.key)
          ("fixture '" ++ f.label ++ "' has a key that is not an identifier")
        ++ problem (seen.contains (f.doctype, f.key)) ("fixture '" ++ f.label ++ "' is declared twice")
        ++ (f.keys.flatMap fun field =>
          problem (!isIdent field)
              ("fixture '" ++ f.label ++ "' field '" ++ field ++ "' is not an identifier")
            ++ problem (field == "id" || field == "owner")
              ("fixture '" ++ f.label ++ "' may not set kernel-managed field '" ++ field ++ "'"))
        ++ ((m.doctypes.find? (·.name == f.doctype)).toList.flatMap (fixtureFieldProblems f))
        ++ fixtureProblems m ((f.doctype, f.key) :: seen) rest

/-- The problems of one workflow. -/
def workflowProblems (m : Manifest) (w : WorkflowDef) : List String :=
  let known := w.states.map (·.name)
  problem (!m.owns w.doctype)
      ("workflow '" ++ w.name ++ "' governs '" ++ w.doctype
        ++ "', which this bundle does not declare")
    ++ problem w.states.isEmpty ("workflow '" ++ w.name ++ "' declares no states")
    ++ (w.transitions.flatMap fun t =>
      ([("from", t.fromState), ("to", t.toState)].flatMap fun (which, s) =>
        problem (!known.contains s)
          ("workflow '" ++ w.name ++ "': transition '" ++ t.action ++ "' names an undeclared "
            ++ which ++ "-state '" ++ s ++ "'"))
        ++ problem (Str.trim t.role == "")
          ("workflow '" ++ w.name ++ "': transition '" ++ t.action
            ++ "' has no role — an ungated transition is not a workflow"))
    ++ (w.stateRules.flatMap fun r =>
      problem (!known.contains r.state)
        ("workflow '" ++ w.name ++ "': state rule targets undeclared state '" ++ r.state ++ "'"))

/-- The problems of one notification. -/
def notificationProblems (m : Manifest) (n : NotificationDef) : List String :=
  problem (!m.owns n.doctype)
      ("notification '" ++ n.name ++ "' watches '" ++ n.doctype
        ++ "', which this bundle does not declare")
    ++ n.validate.map fun p => "notification '" ++ n.name ++ "': " ++ p

/-- `Manifest::validate`: every problem of the bundle. -/
def validate (m : Manifest) : List String :=
  m.headProblems
    ++ doctypeProblems [] m.doctypes
    ++ m.clientScripts.flatMap (m.scriptProblems "client_script")
    ++ m.serverScripts.flatMap (m.scriptProblems "server_script")
    ++ m.extends.flatMap m.extensionProblems
    ++ m.routes.flatMap m.routeProblems
    ++ m.components.flatMap componentProblems
    ++ m.fixtureProblems [] m.fixtures
    ++ m.workflows.flatMap m.workflowProblems
    ++ m.notifications.flatMap m.notificationProblems

end Manifest

end Frust.Kernel
