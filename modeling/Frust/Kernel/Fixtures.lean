import Frust.Kernel.SchemaSync

/-!
# `Frust.Kernel.Fixtures`: the records that an app ships

A fixture is a user record with a key. Its provenance says which app ships it and what the row was
when it was last shipped. `planFixtures` compares the two before anything is changed, and
`applyFixtures` first claims the record and then writes the row, and last records it as shipped.
-/

set_option autoImplicit false

namespace Frust.Kernel

open Frust.Lib Frust.Rust

/-! ### Provenance -/

/-- `{:02x}` of a byte. -/
def hexByteText (b : UInt8) : List Char :=
  [Nat.digitChar (b.toNat / 16), Nat.digitChar (b.toNat % 16)]

/-- The bytes of a text in hexadecimal. -/
def hexText (s : String) : List Char := s.toUTF8.data.toList.flatMap hexByteText

/-- `fixture_provenance_id`. -/
def fixtureProvenanceId (doctype key : String) : String :=
  String.ofList (hexText doctype ++ '_' :: hexText key)

/-- `fixture_provenance`. -/
def fixtureProvenance (doctype key : String) : AppProg (Option Provenance) :=
  sql (.provenance (fixtureProvenanceId doctype key))

/-- `fixture_record`. -/
def fixtureRecord (doctype key : String) : AppProg (Option Json) := do
  AppProg.lift (checkIdent doctype)
  AppProg.lift (checkIdent key)
  sql (.row doctype key)

/-- `fixture_values_content`: the values of the statement, if it can be rendered. -/
def fixtureContent (values : List (String × Json)) :
    Except BrokerError (List (String × Value)) := do
  let entries ← values.mapM fun e => do
    let v ← parseValue e.2
    return (e.1, v)
  let _ ← renderValue (.object entries)
  return entries

/-! ### Plans -/

/-- `FixtureOverwrite`. -/
structure FixtureOverwrite where
  doctype : String
  key : String
  code : String
  detail : String
  apps : List String
  deriving DecidableEq

/-- `FixturePlanRow`. -/
structure FixturePlanRow where
  doctype : String
  key : String
  action : String
  deriving DecidableEq

/-- `FixturePlan`. -/
structure FixturePlan where
  rows : List FixturePlanRow
  overwrites : List FixtureOverwrite
  deriving DecidableEq

/-- What a plan collects. -/
structure FixtureFindings where
  invalid : List String := []
  ambiguous : List FixtureOverwrite := []
  rows : List FixturePlanRow := []
  overwrites : List FixtureOverwrite := []
  deriving DecidableEq

/-- What two parts of a plan collect. -/
def FixtureFindings.append (a b : FixtureFindings) : FixtureFindings where
  invalid := a.invalid ++ b.invalid
  ambiguous := a.ambiguous ++ b.ambiguous
  rows := a.rows ++ b.rows
  overwrites := a.overwrites ++ b.overwrites

/-- `fixture_refusal`. -/
def fixtureRefusal (casualties : List FixtureOverwrite) (detail : String → String) : BrokerError :=
  let apps := ((casualties.flatMap (·.apps)).insertionSort (· ≤ ·)).dedup
  let text := detail ("\n- ".intercalate (casualties.map (·.detail)))
  match casualties.head? with
  | some first => .fixtureRefused first.code first.doctype first.key apps text
  | none => .fixtureRefused "" "" "" apps text

/-- `fixture_overwrite_refusal`. -/
def fixtureOverwriteRefusal (m : Manifest) (casualties : List FixtureOverwrite) : BrokerError :=
  fixtureRefusal casualties fun detail =>
    "refused fixture overwrite for app '" ++ m.name ++ "':\n- " ++ detail
      ++ "\nRetry with \"acknowledge\": true to overwrite the named rows."

/-- The code of a fixture that another app ships. -/
def ambiguousOwner : String := "FRUST:E_FIXTURE:AMBIGUOUS_OWNER"

/-- The text of an error in a value. -/
def valueErrorText : BrokerError → String
  | .invalidValue detail => "InvalidValue \x7b detail: " ++ Str.debugStr detail ++ " \x7d"
  | _ => ""

/-- The refusal of a fixture that another app ships. -/
def declaredByBoth (m : Manifest) (f : FixtureDecl) (owner : String) : String :=
  "fixture '" ++ f.label ++ "' is declared by both app '" ++ owner ++ "' and app '" ++ m.name ++ "'"

/-- What is planned for a fixture whose values are good. -/
def planRow (m : Manifest) (f : FixtureDecl) (invalid : List String) (provenance : Option Provenance)
    (current : Option Json) : FixtureFindings :=
  match provenance with
  | some p =>
      { invalid := invalid
        overwrites :=
          if current ≠ some p.shipped then
            [⟨f.doctype, f.key, "FRUST:E_FIXTURE:USER_MODIFIED",
              "app '" ++ m.name ++ "' fixture '" ++ f.label
                ++ "' differs from its recorded shipped state", [m.name]⟩]
          else []
        rows := [⟨f.doctype, f.key, if p.active then "update" else "re-adopt"⟩] }
  | none =>
      { invalid := invalid
        overwrites :=
          if current.isSome then
            [⟨f.doctype, f.key, "FRUST:E_FIXTURE:UNOWNED_ROW",
              "app '" ++ m.name ++ "' fixture '" ++ f.label
                ++ "' would overwrite an existing row with no app provenance", [m.name]⟩]
          else []
        rows := [⟨f.doctype, f.key, if current.isSome then "adopt" else "create"⟩] }

/-- What is planned for one fixture. -/
def planFixture (m : Manifest) (stored : List DocTypeDef) (f : FixtureDecl) :
    AppProg FixtureFindings := do
  let provenance ← fixtureProvenance f.doctype f.key
  match provenance.filter (·.app ≠ m.name) with
  | some other =>
      return { ambiguous :=
        [⟨f.doctype, f.key, ambiguousOwner, declaredByBoth m f other.app, [other.app, m.name]⟩] }
  | none =>
      match (m.doctypes ++ stored).find? (·.name = f.doctype) with
      | none =>
          return { invalid :=
            ["fixture '" ++ f.label ++ "' targets unknown doctype '" ++ f.doctype ++ "'"] }
      | some dt =>
          let invalid := Manifest.fixtureFieldProblems f dt
          match fixtureContent f.values with
          | .error e =>
              return { invalid := invalid ++
                ["fixture '" ++ f.label ++ "' has invalid values: " ++ valueErrorText e] }
          | .ok _ => do
              let current ← fixtureRecord f.doctype f.key
              return planRow m f invalid provenance current

/-- What is planned for the fixtures. -/
def collectFixtures (m : Manifest) (stored : List DocTypeDef) :
    List FixtureDecl → AppProg FixtureFindings
  | [] => return {}
  | f :: rest => do
      let one ← planFixture m stored f
      let more ← collectFixtures m stored rest
      return one.append more

/-- `plan_fixtures`. -/
def planFixtures (m : Manifest) : AppProg FixturePlan := do
  let stored ← loadDoctypes
  let found ← collectFixtures m stored m.fixtures
  if !found.invalid.isEmpty then
    AppProg.lift (badValue ("bundle fixtures are not installable:\n- "
      ++ "\n- ".intercalate found.invalid))
  else if !found.ambiguous.isEmpty then
    AppProg.lift (.error (fixtureRefusal found.ambiguous id))
  else return ⟨found.rows, found.overwrites⟩

/-! ### Shipping -/

/-- The claim of a record that no app ships. -/
def claimFixture (m : Manifest) (f : FixtureDecl) : AppProg Unit := do
  let id := fixtureProvenanceId f.doctype f.key
  let claim ← (sql (.claim id ⟨f.doctype, f.key, m.name, .object [], false⟩)).attempt
  match claim with
  | .ok _ => pure ()
  | .error error => do
      let raced ← fixtureProvenance f.doctype f.key
      match raced with
      | none => AppProg.lift (.error error)
      | some p =>
          if p.app ≠ m.name then
            AppProg.lift (.error (.fixtureRefused ambiguousOwner f.doctype f.key [p.app, m.name]
              ("fixture '" ++ f.label ++ "' was claimed concurrently by app '" ++ p.app
                ++ "' while app '" ++ m.name ++ "' was applying")))
          else pure ()

/-- The claim, where the record has no provenance. -/
def claimUnowned (m : Manifest) (f : FixtureDecl) (provenance : Option Provenance) : AppProg Unit :=
  if provenance.isNone then claimFixture m f else pure ()

/-- The values of a fixture, with those of the engine's fields that were shipped and that it does
not set. -/
def shippedValues (f : FixtureDecl) (provenance : Option Provenance) : List (String × Json) :=
  ["status", "docstatus"].foldl (fun values field =>
    match (provenance.bind (·.shipped.get field)).filter fun _ => !(values.map (·.1)).contains field with
    | some v => values.orderedInsert (fun a b => a.1 ≤ b.1) (field, v)
    | none => values) f.values

/-- The fields of a row that a fixture does not set, but for the engine's. -/
def clearedFields (f : FixtureDecl) (current : Option Json) : List String :=
  (((current.map Json.keys).getD []).filter fun field =>
    !(["owner", "status", "docstatus"].contains field) && !f.keys.contains field).insertionSort (· ≤ ·)

/-- Clears fields of a row. -/
def clearFields (f : FixtureDecl) (fields : List String) : AppProg Unit :=
  if fields.isEmpty then pure () else sql (.writeRow f.doctype f.key (.clear fields))

/-- `apply_fixtures`, for one fixture. -/
def applyFixture (m : Manifest) (f : FixtureDecl) : AppProg Unit := do
  let current ← fixtureRecord f.doctype f.key
  let provenance ← fixtureProvenance f.doctype f.key
  match provenance.filter (·.app ≠ m.name) with
  | some other =>
      AppProg.lift (.error (.fixtureRefused ambiguousOwner f.doctype f.key [other.app, m.name]
        (declaredByBoth m f other.app)))
  | none => do
      claimUnowned m f provenance
      let content ← AppProg.lift (fixtureContent (shippedValues f provenance))
      sql (.writeRow f.doctype f.key (.merge content))
      clearFields f (clearedFields f current)
      let row ← fixtureRecord f.doctype f.key
      match row with
      | none =>
          AppProg.lift (.error (.db ("fixture apply returned no row for " ++ f.label)))
      | some row =>
          sql (.ship (fixtureProvenanceId f.doctype f.key) ⟨f.doctype, f.key, m.name, row, true⟩)

/-- `apply_fixtures`. -/
def applyFixtures (m : Manifest) : List FixtureDecl → AppProg Unit
  | [] => pure ()
  | f :: rest => do
      applyFixture m f
      applyFixtures m rest

/-- Orphans a fixture that the next bundle does not ship. -/
def orphanRemoved (next : Manifest) (old : FixtureDecl) : AppProg Unit :=
  if next.fixtures.any fun new => new.doctype = old.doctype ∧ new.key = old.key then pure ()
  else sql (.orphan (fixtureProvenanceId old.doctype old.key))

/-- `orphan_removed_fixtures`. -/
def orphanRemovedFixtures (next : Manifest) : (previous : List FixtureDecl) → AppProg Unit
  | [] => pure ()
  | old :: rest => do
      orphanRemoved next old
      orphanRemovedFixtures next rest

end Frust.Kernel
