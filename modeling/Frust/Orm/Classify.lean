import Frust.Orm.Field

/-!
# `Frust.Orm.Classify`: the field changes of a diff, and the policy on them

`classifyDiff` walks the field objects of two snapshots. `decide` turns the
tally of severities into a verdict, and `classificationRefusal` is the gate that
both migration paths call: it reads the tally without the dropped fields, which
`allow_destructive` governs alone.
-/

set_option autoImplicit false

namespace Frust.Orm

/-- One classified field change. -/
structure FieldChangeEntry where
  field : String
  change : FieldChange
  cls : FieldClass
  fromType : Option String
  toType : Option String
  reason : String
  deriving DecidableEq

/-- A tally of severities. -/
structure ClassSummary where
  safe : Nat := 0
  warn : Nat := 0
  needsBackfill : Nat := 0
  blocked : Nat := 0
  deriving DecidableEq

namespace ClassSummary

/-- The highest severity present. -/
def worst (s : ClassSummary) : Option FieldClass :=
  if 0 < s.blocked then some .blocked
  else if 0 < s.needsBackfill then some .needsBackfill
  else if 0 < s.warn then some .warn
  else if 0 < s.safe then some .safe
  else none

/-- Counts one more change. -/
def tally (s : ClassSummary) : FieldClass → ClassSummary
  | .safe => { s with safe := s.safe + 1 }
  | .warn => { s with warn := s.warn + 1 }
  | .needsBackfill => { s with needsBackfill := s.needsBackfill + 1 }
  | .blocked => { s with blocked := s.blocked + 1 }

end ClassSummary

/-- The field changes of one resource, with their tally. -/
structure FieldChangeReport where
  entries : List FieldChangeEntry := []
  summary : ClassSummary := {}
  deriving DecidableEq

/-- A field's type with its `option<…>` wrapper. -/
def renderFieldType (fs : FieldSnapshot) : String :=
  if fs.optional then "option<" ++ fs.ty.render ++ ">" else fs.ty.render

namespace FieldChangeReport

/-- The tally without the dropped fields. -/
def nonDropSummary (r : FieldChangeReport) : ClassSummary :=
  r.entries.foldl (fun s e => if e.change = .dropped then s else s.tally e.cls) {}

/-- Adds a classified change. -/
def push (r : FieldChangeReport) (field : String) (c : FieldChangeClassification)
    (old new : Option FieldSnapshot) : FieldChangeReport where
  summary := r.summary.tally c.cls
  entries := r.entries ++ [{
    field, change := c.change, cls := c.cls, reason := c.reason
    fromType := old.map renderFieldType
    toType := new.map renderFieldType }]

/-- Adds a field object that does not parse. -/
def pushConservative (r : FieldChangeReport) (field : String) (hadFrom hadTo : Bool) :
    FieldChangeReport where
  summary := r.summary.tally .blocked
  entries := r.entries ++ [{
    field, change := .conservative, cls := .blocked
    fromType := if hadFrom then some "?" else none
    toType := if hadTo then some "?" else none
    reason := "unparseable field definition — manual review" }]

end FieldChangeReport

/-- The field snapshot of an object. -/
def parseField (o : SchemaObject) : Option FieldSnapshot :=
  FieldSnapshot.parse o.defineSql

/-- The classification of an added field. On a table that is new there is no row
to violate it, so a required field needs no backfill. -/
def classifyAdded (tableIsNew : Bool) (n : FieldSnapshot) : FieldChangeClassification :=
  let c := classifyFieldChange none (some n)
  if tableIsNew && c.cls = .needsBackfill then
    { c with cls := .safe, reason := "added to a newly-created table (no existing rows)" }
  else c

/-- The entry of one object of the new snapshot. -/
def classifyNew (tableIsNew : Bool) (old : SchemaSnapshot) (r : FieldChangeReport)
    (entry : String × SchemaObject) : FieldChangeReport :=
  let (key, obj) := entry
  if obj.kind ≠ .field then r
  else match old.objects[key]? with
    | none =>
        match parseField obj with
        | some n => r.push obj.name (classifyAdded tableIsNew n) none (some n)
        | none => r.pushConservative obj.name false true
    | some prev =>
        if prev.defineSql = obj.defineSql then r
        else match parseField prev, parseField obj with
          | some o, some n =>
              r.push obj.name (classifyFieldChange (some o) (some n)) (some o) (some n)
          | _, _ => r.pushConservative obj.name true true

/-- The entry of one object of the old snapshot, when the new one lacks it. -/
def classifyOld (new : SchemaSnapshot) (r : FieldChangeReport)
    (entry : String × SchemaObject) : FieldChangeReport :=
  let (key, obj) := entry
  if obj.kind ≠ .field then r
  else if key ∈ new.objects then r
  else match parseField obj with
    | some o => r.push obj.name (classifyFieldChange (some o) none) (some o) none
    | none => r.pushConservative obj.name true false

/-- The field-level classification of `old` to `new`. The table is being created
when the old snapshot has no table object. -/
def classifyDiff (old new : SchemaSnapshot) : FieldChangeReport :=
  let tableIsNew := !old.objects.toList.any fun e => e.2.kind = .table
  let added := new.objects.toList.foldl (classifyNew tableIsNew old) {}
  old.objects.toList.foldl (classifyOld new) added

/-! ### The policy -/

/-- Deployment environment. -/
inductive Environment where
  | dev | test | prod
  deriving DecidableEq

namespace Environment

/-- Only `prod` refuses risky changes. -/
def isStrict : Environment → Bool
  | prod => true
  | _ => false

/-- `{:?}` of an environment. -/
def debug : Environment → String
  | dev => "Dev"
  | test => "Test"
  | prod => "Prod"

end Environment

/-- One reason of a verdict. -/
structure DecisionNote where
  severity : FieldClass
  message : String
  deriving DecidableEq

/-- The policy verdict. -/
inductive BootDecision where
  | allow
  | warn (notes : List DecisionNote)
  | refuse (notes : List DecisionNote)
  deriving DecidableEq

/-- The notes of the tiers present, worst first. -/
def notes (s : ClassSummary) : List DecisionNote :=
  (if 0 < s.blocked then
    [⟨.blocked, toString s.blocked ++ " blocked change(s) — data loss / lossy coercion"⟩]
  else []) ++
  (if 0 < s.needsBackfill then
    [⟨.needsBackfill, toString s.needsBackfill ++ " change(s) need a data backfill"⟩]
  else []) ++
  (if 0 < s.warn then [⟨.warn, toString s.warn ++ " change(s) worth review"⟩] else [])

/-- `decide`: the environment, the tally and the operator's acknowledgment give
the verdict. -/
def Environment.decide (env : Environment) (s : ClassSummary) (acknowledge : Bool) :
    BootDecision :=
  match s.worst with
  | none => .allow
  | some .safe => .allow
  | some .warn => .warn (notes s)
  | some .needsBackfill | some .blocked =>
      if env.isStrict && !acknowledge then .refuse (notes s) else .warn (notes s)

/-- The classification gate: the refusal message, or `none` to go on. -/
def classificationRefusal (env : Environment) (acknowledge : Bool) (r : FieldChangeReport) :
    Option String :=
  match env.decide r.nonDropSummary acknowledge with
  | .refuse ns =>
      some (env.debug ++ " policy refuses: " ++ "; ".intercalate (ns.map (·.message)) ++
        " — acknowledge to apply")
  | .allow | .warn _ => none

end Frust.Orm
