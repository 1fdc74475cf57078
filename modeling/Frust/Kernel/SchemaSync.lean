import Frust.Kernel.TenantDb

/-!
# `Frust.Kernel.SchemaSync`: from DocType records to the schema

A sync compiles every DocType record to a resource and gives them to the migrator, which compares
each with the last snapshot of its history. A column that the history has and no DocType declares is
an orphan: `carryOrphans` puts its definition back, so that nothing is dropped.
-/

set_option autoImplicit false

namespace Frust.Kernel

open Frust.Lib Frust.Orm Frust.Rust

/-- `doctype_spec_in`. -/
def doctypeSpecIn (dt : DocTypeDef) (rollupTargets : List String) : Except BrokerError ResourceSpec := do
  let schema ← doctypeDdlText dt rollupTargets
  return {
    app := dt.app.getD "app"
    name := dt.name
    schema := schema
    deps := ((dt.fields.filter (·.fieldtype = "Link")).filterMap (·.options.head?))
      ++ dt.aggregates.map (·.rollup) }

/-- The tables that the DocTypes name as rollups. -/
def rollupTargets (dts : List DocTypeDef) : List String :=
  dts.flatMap fun dt => dt.aggregates.map (·.rollup)

/-- `load_doctypes`. -/
def loadDoctypes : AppProg (List DocTypeDef) := do
  let rows ← sql .doctypes
  return (rows : List (String × DocTypeRow)).map fun e => e.2.toDef e.1

/-! ### Orphans -/

/-- The field that a nested one belongs to. -/
def fieldBase (field : String) : String := ((Str.split '.' field).head?).getD field

/-- A text that ends its last statement. -/
def terminated (schema : String) : String :=
  if (schema.toList.reverse.dropWhile Str.isWhitespace).head? = some ';' then schema
  else schema ++ ";"

/-- The fields of the history that are not declared. -/
def undeclaredFields (declared : SchemaSnapshot) (reclaiming : Option String)
    (fields : List (String × String)) : List (String × String) :=
  fields.filter fun e =>
    let base := fieldBase e.1
    !("field:" ++ base ∈ declared.objects) && !(reclaiming == some base)

/-- `carry_orphans`: the resource with its orphans, and their names. -/
def carryOrphans (spec : ResourceSpec) (history : List (String × List (String × String)))
    (reclaiming : Option String) : ResourceSpec × List String :=
  match history.lookup spec.key with
  | none => (spec, [])
  | some fields =>
      let declared := SchemaSnapshot.fromSql spec.name spec.schema
      let carried := undeclaredFields declared reclaiming fields
      ({ spec with
        schema := terminated spec.schema ++ String.join (carried.map fun e => e.2 ++ ";") },
       (carried.filter fun e => fieldBase e.1 == e.1).map (·.1))

/-- `is_orphan_refusal`. -/
def isOrphanRefusal (message : String) : Bool :=
  let m := Str.toAsciiLowercase message
  Str.contains "refusing destructive" m && Str.contains "remove field" m

/-- `orphan_fields`, with the rest of the message as characters. -/
def orphanFieldsAux : (fuel : Nat) → List Char → List String
  | 0, _ | _, [] => []
  | fuel + 1, c :: rest =>
      let mark := "REMOVE FIELD ".toList
      if mark.isPrefixOf ((c :: rest).map Char.toUpper) then
        let after := (c :: rest).drop mark.length
        let name := after.takeWhile fun c => Str.isAsciiAlphanumeric c || c = '_'
        (if name.isEmpty then [] else [String.ofList name])
          ++ orphanFieldsAux fuel (after.drop name.length)
      else orphanFieldsAux fuel rest

/-- `orphan_fields`. -/
def orphanFields (message : String) : List String :=
  orphanFieldsAux (message.toList.length + 1) message.toList

/-- What stands before a separator. -/
def beforeSeparator : List Char → List Char
  | '_' :: '_' :: _ => []
  | c :: rest => c :: beforeSeparator rest
  | [] => []

/-- `resource_doctype`: what stands after the last separator. -/
def resourceDoctype (name : String) : String :=
  String.ofList (beforeSeparator name.toList.reverse).reverse

/-! ### The sync -/

/-- `SyncOutcome`. -/
structure SyncOutcome where
  applied : Nat
  orphans : List String
  deriving DecidableEq

/-- The resources of a sync, with the orphans that they carry. -/
def syncSpecs (targets : List String) (history : List (String × List (String × String)))
    (reclaim : Option (String × String)) :
    List DocTypeDef → Except BrokerError (List ResourceSpec × List String)
  | [] => .ok ([], [])
  | dt :: rest =>
      if reclaim.any (·.1 ≠ dt.name) then syncSpecs targets history reclaim rest
      else do
        let spec ← doctypeSpecIn dt targets
        let carried := carryOrphans spec history (reclaim.map (·.2))
        let more ← syncSpecs targets history reclaim rest
        return (carried.1 :: more.1, (carried.2.map fun f => dt.name ++ "." ++ f) ++ more.2)

/-- `seed_single_rows`, for one DocType. -/
def seedSingleRow (dt : DocTypeDef) : AppProg Unit :=
  if !dt.issingle then pure ()
  else if !isIdent dt.name then AppProg.lift (badValue ("bad doctype name: " ++ dt.name))
  else do
    let existing ← sql (.row dt.name dt.name)
    if (existing : Option Json).isNone then sql (.writeRow dt.name dt.name .seed) else pure ()

/-- `seed_single_rows`. -/
def seedSingleRows : List DocTypeDef → AppProg Unit
  | [] => pure ()
  | dt :: rest => do
      seedSingleRow dt
      seedSingleRows rest

/-- What a sync makes of the migrator's report. -/
def syncOutcome (orphans : List String) (report : MigrationReport) :
    Except BrokerError SyncOutcome :=
  let drift := report.errors.filter fun e => isOrphanRefusal e.message
  let fatal := report.errors.filter fun e => !isOrphanRefusal e.message
  if !fatal.isEmpty then .error (.db ("metadata sync errors: " ++ debugErrors fatal))
  else
    let all := orphans ++ drift.flatMap fun e =>
      (orphanFields e.message).map fun f => resourceDoctype e.name ++ "." ++ f
    .ok ⟨report.applied.length, (all.insertionSort (· ≤ ·)).dedup⟩

/-- `sync_inner`. -/
def syncInner (reclaim : Option (String × String)) : AppProg SyncOutcome := do
  let dts ← loadDoctypes
  let history ← sql .historyFields
  let specs ← AppProg.lift (syncSpecs (rollupTargets dts) history reclaim dts)
  if reclaim.isSome && specs.1.isEmpty then
    AppProg.lift (badValue ("unknown doctype '" ++ ((reclaim.map (·.1)).getD "") ++ "'"))
  else
    let report ← sql (.migrate .sync specs.1
      { MigrationOptions.defaultFor .dev with allowDestructive := reclaim.isSome })
    let report ← AppProg.lift
      ((report : Except String MigrationReport).mapError fun e => .db ("metadata sync: " ++ e))
    seedSingleRows dts
    AppProg.lift (syncOutcome specs.2 report)

/-- `MetadataSync::sync`. -/
def sync : AppProg SyncOutcome := syncInner none

/-- `MetadataSync::reclaim`. -/
def reclaim (doctype column : String) : AppProg Unit := do
  let out ← syncInner (some (doctype, column))
  if out.applied = 0 then
    AppProg.lift (.error (.db ("reclaim of '" ++ doctype ++ "." ++ column
      ++ "' applied nothing — the column is not in this DocType's applied schema")))
  else pure ()

/-- `POST /doctype`, for a manager: the record as it was sent, and then the schema. -/
def postDoctype (name : String) (row : DocTypeRow) : AppProg SyncOutcome := do
  AppProg.lift (checkIdent name)
  sql (.createDoctype name row)
  sync

end Frust.Kernel
