import Frust.Kernel.Engine

/-!
# `Frust.Kernel.Sync`: a DocType as table definitions

`doctypeDdlIn` compiles a DocType to the statements that define its table: the
permissions, the engine's own fields and events, and a field for each declared one. A
`Ddl` is a statement before it is printed, and `Ddl.text` is the text that the source
builds with `format!`. Fields with one name are defined one after the other, and the
last definition stands.

Client-side rules and labels do not reach the statements.
-/

set_option autoImplicit false

namespace Frust.Kernel

/-! ### Metadata -/

/-- `MetricSpec`. -/
structure MetricSpec where
  name : String
  field : String
  deriving DecidableEq

/-- `AggregateDef`. -/
structure AggregateDef where
  kind : String
  rollup : String
  key : String := ""
  metrics : List MetricSpec := []
  /-- The handler that maintains a worker's rollup. -/
  handler : Option String := none
  deriving DecidableEq

/-- `Rule`: a declarative client rule, or the condition of a notification. -/
structure Rule where
  field : String
  op : String
  value : Option String := none
  message : Option String := none
  deriving DecidableEq

/-- `FetchFrom`. -/
structure FetchFrom where
  source : String
  doctype : String
  field : String
  deriving DecidableEq

/-- `FieldDef`. -/
structure FieldDef where
  fieldname : String
  fieldtype : String
  required : Bool := false
  options : List String := []
  childStorage : Option String := none
  label : String := ""
  dependsOn : Option Rule := none
  readOnlyWhen : Option Rule := none
  requiredWhen : Option Rule := none
  invalidWhen : Option Rule := none
  fetchFrom : Option FetchFrom := none
  deriving DecidableEq

/-- `DocTypeDef`. -/
structure DocTypeDef where
  name : String
  app : Option String := none
  issingle : Bool := false
  submittable : Bool := false
  fields : List FieldDef
  aggregates : List AggregateDef := []
  deriving DecidableEq

/-! ### Statements -/

/-- The row permissions of a table; `none` is `NONE`. -/
structure Permissions where
  select : Option Expr
  create : Option Expr
  update : Option Expr
  delete : Option Expr
  deriving DecidableEq

/-- `IF cond { THROW 'code' }`. -/
structure Guard where
  cond : Expr
  code : String
  deriving DecidableEq

/-- The body of an event. -/
inductive EventBody where
  /-- Guards, each with its terminator. -/
  | guards (gs : List Guard)
  /-- Guards with separators between them. -/
  | checks (gs : List Guard)
  /-- The counter of an aggregate. -/
  | counter (submittable : Bool) (agg : AggregateDef)
  deriving DecidableEq

/-- A column definition. -/
structure FieldDdl where
  name : String
  type : FieldType
  default : Option Expr := none
  readonly : Bool := false
  assert : Option Expr := none
  deriving DecidableEq

/-- A `DEFINE ... OVERWRITE` statement on a table. -/
inductive Ddl where
  | table (schemafull : Bool) (perms : Permissions) (feed : String)
  | field (f : FieldDdl)
  /-- The elements of an array column. -/
  | elements (name : String)
  | event (name : String) (cond : Expr) (body : EventBody)
  deriving DecidableEq

/-- A guard as text, without a terminator. -/
def Guard.text (g : Guard) : String := "IF " ++ g.cond.text ++ " \x7b THROW '" ++ g.code ++ "'; \x7d"

/-- The body of a counter event on `side`: whether the document counts. -/
def countsText (submittable : Bool) (side : String) : String :=
  if submittable then "$" ++ side ++ ".docstatus = 1" else "$" ++ side ++ ".id != NONE"

/-- The body of a counter event. -/
def counterText (submittable : Bool) (agg : AggregateDef) : String :=
  let k := agg.key
  let r := agg.rollup
  let dec := "n = (n ?? 0) - 1" :: agg.metrics.map fun m =>
    m.name ++ " = (" ++ m.name ++ " ?? 0) - ($before." ++ m.field ++ " ?? 0)"
  let inc := "n = (n ?? 0) + 1" :: agg.metrics.map fun m =>
    m.name ++ " = (" ++ m.name ++ " ?? 0) + ($after." ++ m.field ++ " ?? 0)"
  let keyText (var side : String) :=
    "LET $" ++ var ++ " = IF " ++ countsText submittable side ++ " \x7b $" ++ side ++ "." ++ k
      ++ " \x7d ELSE \x7b NONE \x7d; "
  let upsert (var : String) (sets : List String) :=
    "IF $" ++ var ++ " != NONE \x7b UPSERT type::record('" ++ r ++ "', <string>$" ++ var
      ++ ") SET k = <string>$" ++ var ++ ", " ++ ", ".intercalate sets ++ "; \x7d; "
  keyText "bk" "before" ++ keyText "ak" "after" ++ upsert "bk" dec ++ upsert "ak" inc

/-- An event body as text. -/
def EventBody.text : EventBody → String
  | guards gs => String.join (gs.map fun g => g.text ++ "; ")
  | checks gs => "; ".intercalate (gs.map (·.text)) ++ " "
  | counter submittable agg => counterText submittable agg

/-- A permission clause. -/
def permText : Option Expr → String
  | none => "NONE"
  | some e => "WHERE " ++ e.text

/-- The permissions as text. -/
def Permissions.text (p : Permissions) : String :=
  if p.create.isNone ∧ p.update.isNone ∧ p.delete.isNone then
    "PERMISSIONS FOR select " ++ permText p.select ++ " FOR create, update, delete NONE"
  else
    "PERMISSIONS FOR select " ++ permText p.select ++ " FOR create " ++ permText p.create
      ++ " FOR update " ++ permText p.update ++ " FOR delete " ++ permText p.delete

/-- A statement on table `t` as text. -/
def Ddl.text (t : String) : Ddl → String
  | table schemafull perms feed =>
      "DEFINE TABLE OVERWRITE " ++ t ++ (if schemafull then " SCHEMAFULL " else " SCHEMALESS ")
        ++ perms.text ++ " " ++ feed
  | field f =>
      "DEFINE FIELD OVERWRITE " ++ f.name ++ " ON " ++ t ++ " TYPE " ++ f.type.text
        ++ ((f.default.map fun e => " DEFAULT " ++ e.text).getD "")
        ++ (if f.readonly then " READONLY" else "")
        ++ ((f.assert.map fun e => " ASSERT " ++ e.text).getD "")
  | elements name => "DEFINE FIELD OVERWRITE " ++ name ++ ".* ON " ++ t ++ " TYPE object FLEXIBLE"
  | event name cond body =>
      "DEFINE EVENT OVERWRITE " ++ name ++ " ON TABLE " ++ t ++ " WHEN " ++ cond.text
        ++ " THEN \x7b " ++ body.text ++ "\x7d"

/-! ### Events -/

/-- `DOCSTATUS_DELETE_REFUSAL`. -/
def docstatusDeleteRefusal : String := "FRUST:E_DOCSTATUS:DELETE_REQUIRES_DRAFT"

/-- `SINGLE_DELETE_REFUSAL`. -/
def singleDeleteRefusal : String := "FRUST:E_SINGLE_NO_DELETE"

/-- `$event = 'kind'`. -/
def isEvent (kind : String) : Expr := .cmp .eq .event (.str kind)

/-- `lattice_event`. -/
def latticeEvent : Ddl :=
  .event "docstatus_lattice" (.or (isEvent "UPDATE") (isEvent "DELETE")) <| .guards
    [⟨.and (isEvent "DELETE") (.cmp .ne (.before "docstatus") (.int 0)), docstatusDeleteRefusal⟩,
     ⟨.and (isEvent "UPDATE") (.cmp .eq (.before "docstatus") (.int 2)),
       "FRUST:E_DOCSTATUS:RESURRECTION"⟩,
     ⟨.and (.and (isEvent "UPDATE") (.cmp .eq (.before "docstatus") (.int 1)))
         (.cmp .eq (.after "docstatus") (.int 0)), "FRUST:E_DOCSTATUS:ILLEGAL_TRANSITION_1_0"⟩,
     ⟨.and (.and (isEvent "UPDATE") (.cmp .eq (.before "docstatus") (.int 0)))
         (.cmp .eq (.after "docstatus") (.int 2)), "FRUST:E_DOCSTATUS:ILLEGAL_TRANSITION_0_2"⟩]

/-- `single_record_id`. -/
def singleRecordId (doctype : String) : String := doctype ++ ":" ++ doctype

/-- One check of `single_required_guard`. -/
def requiredCheck (f : FieldDef) : Guard :=
  let absent := Expr.cmp .eq (.after f.fieldname) .none
  let empty :=
    if f.fieldtype = "Currency" ∨ f.fieldtype = "Link" ∨ f.fieldtype = "Table" then absent
    else .or absent (.cmp .eq (.strLen (.castString (.after f.fieldname))) (.int 0))
  ⟨empty, "FRUST:E_SINGLE_REQUIRED:" ++ f.fieldname⟩

/-- `single_required_guard`. -/
def singleRequiredGuard (dt : DocTypeDef) : Option Ddl :=
  let checks := (dt.fields.filter (·.required)).map requiredCheck
  if checks.isEmpty then none
  else some (.event "single_required_guard" (isEvent "UPDATE") (.checks checks))

/-- `single_identity_guard`. -/
def singleIdentityGuard (dt : DocTypeDef) : Ddl :=
  let rid := Expr.record (singleRecordId dt.name)
  .event "single_identity_guard" (.or (isEvent "CREATE") (isEvent "DELETE")) <| .guards
    [⟨.and (isEvent "CREATE") (.cmp .ne (.after "id") rid), "FRUST:E_SINGLE_RECORD"⟩,
     ⟨.and (isEvent "DELETE") (.cmp .eq (.before "id") rid), singleDeleteRefusal⟩]

/-- The identity guard. -/
def identityGuard : Ddl :=
  .event "identity_guard" (isEvent "CREATE") <| .guards
    [⟨.and (.cmp .ne .auth .none) (.cmp .eq (.after "owner") .none),
      "FRUST:E_IDENTITY_UNRESOLVED"⟩]

/-- `validate_agg`. -/
def validateAgg (agg : AggregateDef) : Except BrokerError Unit := do
  if !isIdent agg.rollup then badValue ("bad rollup name: " ++ agg.rollup)
  if agg.kind = "counter" ∧ !isIdent agg.key then
    badValue ("counter on " ++ agg.rollup ++ " needs a valid key field")
  match agg.metrics.find? fun m =>
      !isIdent m.name || !isIdent m.field || m.name ∈ ["k", "n", "id"] with
  | some m => badValue ("bad metric " ++ m.name ++ ":" ++ m.field)
  | none => .ok ()

/-- `counter_event_ddl`. -/
def counterEventDdl (dt : DocTypeDef) (agg : AggregateDef) : Except BrokerError Ddl := do
  validateAgg agg
  return .event ("agg_" ++ agg.rollup) (.cmp .ne .event (.str "SELECT"))
    (.counter dt.submittable agg)

/-! ### Permissions -/

/-- `SelectAccess`. -/
inductive SelectAccess where
  | owned | shared | manager
  deriving DecidableEq

/-- `select_access`. -/
def selectAccess (doctype : String) (rollupTargets : List String) : SelectAccess :=
  if doctype ∈ rollupTargets then .manager
  else if doctype = "workspace" then .shared
  else .owned

/-- `$auth.role = 'manager'`. -/
def isManager : Expr := .cmp .eq .authRole (.str "manager")

/-- `owner != NONE AND owner = $auth.id`. -/
def isOwner : Expr := .and (.cmp .ne (.field "owner") .none) (.cmp .eq (.field "owner") .authId)

/-- `select_clause`. -/
def selectClause : SelectAccess → Expr
  | .shared => .cmp .ne .authId .none
  | .owned => .or (.paren isOwner) isManager
  | .manager => isManager

/-- `update_clause`. -/
def updateClause (submittable : Bool) : Expr :=
  if submittable then
    .or (.paren (.and isOwner (.cmp .eq (.field "docstatus") (.int 0)))) isManager
  else .or (.paren isOwner) isManager

/-- The permissions of an ordinary table. -/
def tablePermissions (dt : DocTypeDef) (access : SelectAccess) : Permissions where
  select := some (selectClause access)
  create := some (.cmp .ne .authId .none)
  update := some (updateClause dt.submittable)
  delete := some isManager

/-! ### Fields -/

/-- `owner`. -/
def ownerField : FieldDdl where
  name := "owner"
  type := .option (.record "app_user")
  default := some .authId
  readonly := true

/-- `status`. -/
def statusField : FieldDdl where
  name := "status"
  type := .string
  default := some (.str "Draft")

/-- `docstatus`. -/
def docstatusField : FieldDdl where
  name := "docstatus"
  type := .int
  default := some (.int 0)

/-- The type and the assert of a declared field that is no table. -/
def fieldClause (f : FieldDef) (dbRequired : Bool) : Except BrokerError (FieldType × Option Expr) :=
  let nonneg := Expr.cmp .gte .value (.dec "0")
  let absent := Expr.cmp .eq .value .none
  let chosen := Expr.cmp .inside .value (.strs f.options)
  if f.fieldtype = "Link" then
    let target := f.options.head?.getD ""
    if isIdent target then .ok (.option (.record target), none)
    else badValue ("field " ++ f.fieldname ++ ": Link needs a valid target doctype")
  else if f.fieldtype = "Currency" then
    if dbRequired then .ok (.decimal, some nonneg)
    else .ok (.option .decimal, some (.or absent nonneg))
  else if f.fieldtype = "Select" ∧ !f.options.isEmpty then
    if dbRequired then .ok (.string, some chosen)
    else .ok (.option .string, some (.or absent chosen))
  else if dbRequired then .ok (.string, some (.cmp .gt (.strLen .value) (.int 0)))
  else .ok (.option .string, none)

/-- The statements of a declared field. -/
def fieldDdl (dt : DocTypeDef) (f : FieldDef) : Except BrokerError (List Ddl) :=
  if !isIdent f.fieldname then badValue ("bad field name: " ++ f.fieldname)
  else if f.fieldtype = "Table" then
    match f.childStorage with
    | none | some "embedded" =>
        .ok [.field { name := f.fieldname, type := .option (.array .object) },
          .elements f.fieldname]
    | some "related" =>
        badValue ("field " ++ f.fieldname ++ ": child_storage 'related' requires promotion tooling"
          ++ " (the flag is immutable, embedded-only in v0)")
    | some other =>
        badValue ("field " ++ f.fieldname ++ ": unknown child_storage '" ++ other ++ "'")
  else do
    let (type, assert) ← fieldClause f (f.required && !dt.issingle)
    return [.field { name := f.fieldname, type := type, assert := assert }]

/-- The statements of the declared fields. -/
def fieldDdls (dt : DocTypeDef) : List FieldDef → Except BrokerError (List Ddl)
  | [] => .ok []
  | f :: rest => do
      let ds ← fieldDdl dt f
      let more ← fieldDdls dt rest
      return ds ++ more

/-- The statements of an aggregate. A worker's rollup is kernel code and has none. -/
def aggregateDdl (dt : DocTypeDef) (agg : AggregateDef) : Except BrokerError (List Ddl) :=
  if agg.kind = "counter" then do
    let d ← counterEventDdl dt agg
    return [d]
  else if agg.kind = "worker" then do
    validateAgg agg
    return []
  else badValue ("unknown aggregate kind '" ++ agg.kind ++ "' on " ++ dt.name)

/-- The statements of the aggregates. -/
def aggregateDdls (dt : DocTypeDef) : List AggregateDef → Except BrokerError (List Ddl)
  | [] => .ok []
  | agg :: rest => do
      let ds ← aggregateDdl dt agg
      let more ← aggregateDdls dt rest
      return ds ++ more

/-- The statements of a submittable DocType. -/
def submittableDdls : List Ddl := [.field docstatusField, latticeEvent]

/-- The statements of a Single. -/
def singleDdls (dt : DocTypeDef) : List Ddl :=
  if dt.issingle then singleIdentityGuard dt :: (singleRequiredGuard dt).toList else []

/-- `doctype_ddl_in`, before it is printed. -/
def doctypeDdlIn (dt : DocTypeDef) (rollupTargets : List String) :
    Except BrokerError (List Ddl) :=
  let access := selectAccess dt.name rollupTargets
  if !isIdent dt.name then badValue ("bad doctype name: " ++ dt.name)
  else if access = .manager then
    .ok [.table false ⟨some isManager, none, none, none⟩ "CHANGEFEED 7d"]
  else do
    let feed :=
      if dt.aggregates.any (·.kind = "worker") then "CHANGEFEED 7d INCLUDE ORIGINAL"
      else "CHANGEFEED 7d"
    let head := [.table true (tablePermissions dt access) feed, .field ownerField,
      .field statusField, identityGuard]
    let fields ← fieldDdls dt dt.fields
    let aggregates ← aggregateDdls dt dt.aggregates
    return head ++ (if dt.submittable then submittableDdls else []) ++ singleDdls dt
      ++ fields ++ aggregates

/-- `doctype_ddl_in`. -/
def doctypeDdlText (dt : DocTypeDef) (rollupTargets : List String) :
    Except BrokerError String := do
  let ds ← doctypeDdlIn dt rollupTargets
  return ";\n".intercalate (ds.map (Ddl.text dt.name))

end Frust.Kernel
