import Frust.Orm.Schema

/-!
# `Frust.Orm.Field`: field snapshots and their changes

`FieldSnapshot.parse` reads one `DEFINE FIELD` statement, and
`classifyFieldChange` gives a change between two snapshots a kind, a severity
and a reason. An unrecognised type is opaque: any change that touches it is
`blocked`.
-/

set_option autoImplicit false

namespace Frust.Orm

open Frust.Rust

/-- A field type, as a `TYPE …` clause spells it. -/
inductive SurrealType where
  | string | int | float | bool | datetime | duration | decimal | bytes | uuid | object
  /-- `any`, or no `TYPE` clause. -/
  | any
  /-- `record` (empty target) or `record<target>`. -/
  | record (target : String)
  | array (inner : SurrealType)
  | geometry (kind : String)
  /-- Not recognised. -/
  | other (text : String)
  deriving DecidableEq

namespace SurrealType

/-- The classifier knows nothing about the type. -/
def isOpaque : SurrealType → Bool
  | any => true
  | other _ => true
  | _ => false

/-- The spelling of a type, without an `option<…>` wrapper. -/
def render : SurrealType → String
  | string => "string"
  | int => "int"
  | float => "float"
  | bool => "bool"
  | datetime => "datetime"
  | duration => "duration"
  | decimal => "decimal"
  | bytes => "bytes"
  | uuid => "uuid"
  | object => "object"
  | any => "any"
  | record t => if t.isEmpty then "record" else "record<" ++ t ++ ">"
  | array inner => "array<" ++ inner.render ++ ">"
  | geometry g => "geometry<" ++ g ++ ">"
  | other s => s

/-- The text between `pre` and a closing `>`. -/
def stripAngle (pre s : String) : Option String :=
  (Str.stripPrefix pre s).bind (Str.stripSuffixChar '>')

/-- `parse_inner`, with the nesting of `array<…>` bounded by `fuel`. -/
def parseInnerAux : Nat → String → SurrealType
  | 0, s => other s
  | fuel + 1, raw =>
      let s := Str.trim raw
      match s with
      | "string" => string
      | "int" => int
      | "float" => float
      | "bool" => bool
      | "datetime" => datetime
      | "duration" => duration
      | "decimal" => decimal
      | "bytes" => bytes
      | "uuid" => uuid
      | "object" => object
      | "any" => any
      | "record" => record ""
      | "array" => array any
      | _ =>
          match stripAngle "record<" s with
          | some t => record t
          | none =>
              match stripAngle "array<" s with
              | some inner => array (parseInnerAux fuel inner)
              | none =>
                  match stripAngle "geometry<" s with
                  | some g => geometry g
                  | none => other s

/-- Parses a type without its `option<…>` wrapper. Each `array<…>` costs seven
characters, so the length is enough fuel. -/
def parseInner (s : String) : SurrealType := parseInnerAux (s.length + 1) s

end SurrealType

/-- One field, as its `DEFINE FIELD` statement describes it. -/
structure FieldSnapshot where
  name : String
  table : String
  ty : SurrealType
  /-- `TYPE option<…>`. -/
  optional : Bool
  readonly : Bool
  hasValueOrDefault : Bool
  hasAssert : Bool
  deriving DecidableEq

/-- A word that ends a `TYPE …` clause. -/
def isClauseKeyword (t : String) : Bool :=
  ["VALUE", "DEFAULT", "READONLY", "ASSERT", "PERMISSIONS", "COMMENT", "FLEXIBLE",
    "REFERENCE"].any (Str.eqIgnoreAsciiCase t)

/-- What the clause scan has found so far. -/
structure Clauses where
  typeParts : List String := []
  readonly : Bool := false
  hasValueOrDefault : Bool := false
  hasAssert : Bool := false

/-- Scans the words after the table name. `inType` says that a `TYPE` clause is
open: its words are collected up to the next clause keyword. -/
def scanClauses : List String → (inType : Bool) → Clauses → Clauses
  | [], _, c => c
  | t :: rest, inType, c =>
      if inType && !isClauseKeyword t then
        scanClauses rest true { c with typeParts := c.typeParts ++ [t] }
      else if Str.eqIgnoreAsciiCase t "TYPE" then scanClauses rest true c
      else if Str.eqIgnoreAsciiCase t "READONLY" then
        scanClauses rest false { c with readonly := true }
      else if Str.eqIgnoreAsciiCase t "VALUE" || Str.eqIgnoreAsciiCase t "DEFAULT" then
        scanClauses rest false { c with hasValueOrDefault := true }
      else if Str.eqIgnoreAsciiCase t "ASSERT" then
        scanClauses rest false { c with hasAssert := true }
      else scanClauses rest false c

/-- The nullability and the inner type of a `TYPE` clause's text. -/
def parseType (text : String) : Bool × SurrealType :=
  if text.isEmpty then (true, .any)
  else if Str.startsWith "option<" (Str.toAsciiLowercase text) && text.toList.getLast? == some '>'
  then (true, .parseInner (String.ofList ((text.toList.drop 7).dropLast)))
  else (false, .parseInner text)

/-- Parses a `DEFINE FIELD … ON TABLE …` statement; `none` for any other. -/
def FieldSnapshot.parse (defineSql : String) : Option FieldSnapshot :=
  let stmt := Str.trim (Str.trimEndMatches ';' (Str.trim defineSql))
  match Str.splitWhitespace stmt with
  | define :: field :: rest =>
      if Str.eqIgnoreAsciiCase define "DEFINE" && Str.eqIgnoreAsciiCase field "FIELD" then
        match parseName rest with
        | some (name, on :: tableWord :: table :: clauses) =>
            if Str.eqIgnoreAsciiCase on "ON" && Str.eqIgnoreAsciiCase tableWord "TABLE" then
              let c := scanClauses clauses false {}
              let (optional, ty) := parseType (" ".intercalate c.typeParts)
              some {
                name, table, ty, optional
                readonly := c.readonly
                hasValueOrDefault := c.hasValueOrDefault
                hasAssert := c.hasAssert }
            else none
        | _ => none
      else none
  | _ => none

/-- Severity of a field change. -/
inductive FieldClass where
  | safe | warn | needsBackfill | blocked
  deriving DecidableEq

/-- What happened to a field. -/
inductive FieldChange where
  | noOp | added | dropped | typeWidened | typeNarrowed | becameOptional | becameRequired
  | attributesChanged | conservative
  deriving DecidableEq

/-- A classified change. -/
structure FieldChangeClassification where
  change : FieldChange
  cls : FieldClass
  reason : String
  deriving DecidableEq

/-- The allow-list of widenings. -/
def isWidening : SurrealType → SurrealType → Bool
  | .int, .float => true
  | .int, .decimal => true
  | .float, .decimal => true
  | _, _ => false

/-- A readonly, value or assert clause came or went. -/
def attrsChanged (o n : FieldSnapshot) : Bool :=
  o.readonly != n.readonly || o.hasValueOrDefault != n.hasValueOrDefault ||
    o.hasAssert != n.hasAssert

/-- The change of a field that both snapshots have. -/
def classifyModify (o n : FieldSnapshot) : FieldChangeClassification :=
  let nullNarrows := o.optional && !n.optional
  let nullWidens := !o.optional && n.optional
  if o.ty.isOpaque || n.ty.isOpaque then
    if o = n then ⟨.noOp, .safe, "no meaningful change"⟩
    else ⟨.conservative, .blocked, "unrecognized / flexible field type — manual review"⟩
  else if o.ty = n.ty then
    if nullNarrows then
      ⟨.becameRequired, .needsBackfill, "optional → required — existing NULLs need a backfill"⟩
    else if nullWidens then ⟨.becameOptional, .safe, "required → optional (widening)"⟩
    else if attrsChanged o n then
      ⟨.attributesChanged, .warn, "field attributes changed (assert/value/readonly)"⟩
    else ⟨.noOp, .safe, "no meaningful change"⟩
  else if isWidening o.ty n.ty then
    if nullNarrows then
      ⟨.becameRequired, .needsBackfill,
        "type widened but optional → required — backfill needed"⟩
    else ⟨.typeWidened, .safe, "type widened"⟩
  else
    ⟨.typeNarrowed, .blocked,
      "type narrowed / incompatible — possible data loss or coercion"⟩

/-- Classifies a field-level change. -/
def classifyFieldChange :
    Option FieldSnapshot → Option FieldSnapshot → FieldChangeClassification
  | none, none => ⟨.noOp, .safe, "no field"⟩
  | none, some n =>
      if n.optional || n.hasValueOrDefault then
        ⟨.added, .safe, "added optional/defaulted field"⟩
      else
        ⟨.added, .needsBackfill,
          "added required field without default — existing rows need a value"⟩
  | some _, none => ⟨.dropped, .blocked, "field dropped — data loss"⟩
  | some o, some n => classifyModify o n

end Frust.Orm
