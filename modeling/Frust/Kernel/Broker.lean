import Frust.Kernel.Surql
import Frust.Kernel.Decimal
import Frust.Kernel.Workflow
import Frust.Lib.Prog

/-!
# `Frust.Kernel.Broker`: the document verbs

The broker stands between a caller and the database. A verb is a program whose
requests go to the tenant's metadata, to the database under the caller's own session,
to the hooks, and to the notifications. What these answer is not fixed here.

What goes to the database is a `Query`: a statement with its text. A statement whose
text cannot be rendered is refused before it is sent, so no `Query` exists for it.
Spans, metrics and the query timeout are not modelled.
-/

set_option autoImplicit false

namespace Frust.Kernel

open Frust.Lib

/-- `Caller`. -/
structure Caller where
  user : String
  pass : String
  role : String
  deriving DecidableEq

/-- `FieldMeta`. -/
structure FieldMeta where
  fieldname : String
  fieldtype : String := ""
  permRole : Option String := none
  deriving DecidableEq

/-- `DocTypeMeta`. -/
structure DocTypeMeta where
  name : String
  fields : List FieldMeta
  deriving DecidableEq

/-! ### Statements -/

/-- The statement of `db_read`. -/
structure Select where
  table : String
  noindex : Bool
  filter : Option Filter
  opts : ReadOpts

/-- The statement of `db_aggregate`. -/
structure Aggregate where
  table : String
  filter : Option Filter
  groupBy : List Path
  metrics : List (Metric × Path)

/-- A statement under a caller's session. -/
inductive Statement where
  | select (s : Select)
  | aggregate (a : Aggregate)
  | record (rid : String)
  | create (table : String) (content : Doc)
  | update (rid : String) (content : Doc)

/-- `query_timeout`. -/
def queryTimeout : String := "30s"

/-- The `WHERE` part. -/
def whereText : Option Filter → Except BrokerError String
  | none => .ok ""
  | some f => do
      let text ← renderFilter f
      return " WHERE " ++ text

/-- The text of `db_read`'s statement. -/
def Select.text (s : Select) : Except BrokerError String := do
  let cond ← whereText s.filter
  let order ← match s.opts.orderBy with
    | none => pure ""
    | some (path, dir) => do
        let text ← renderPath path
        pure (" ORDER BY " ++ text ++ match dir with | .asc => " ASC" | .desc => " DESC")
  let limit := (s.opts.limit.map fun l => " LIMIT " ++ toString l).getD ""
  let start := (s.opts.start.map fun n => " START " ++ toString n).getD ""
  return "SELECT * FROM " ++ s.table ++ (if s.noindex then " WITH NOINDEX" else "")
    ++ cond ++ order ++ limit ++ start ++ " TIMEOUT " ++ queryTimeout ++ ";"

/-- A group key. -/
def groupText (i : Nat) (path : Path) : Except BrokerError String := do
  let text ← renderPath path
  return text ++ " AS g" ++ toString i

/-- A metric. -/
def metricText (i : Nat) : Metric × Path → Except BrokerError String
  | (.count, _) => .ok ("count() AS m" ++ toString i)
  | (.sum, path) => wrap "math::sum" path
  | (.min, path) => wrap "math::min" path
  | (.max, path) => wrap "math::max" path
  | (.avg, path) => wrap "math::mean" path
where
  /-- A function of a path. -/
  wrap (f : String) (path : Path) : Except BrokerError String := do
    let text ← renderPath path
    return f ++ "(" ++ text ++ ") AS m" ++ toString i

/-- `mapM` with the index. -/
def mapIdxExcept {α : Type} (f : Nat → α → Except BrokerError String) :
    (i : Nat) → List α → Except BrokerError (List String)
  | _, [] => .ok []
  | i, a :: rest => do
      let text ← f i a
      let texts ← mapIdxExcept f (i + 1) rest
      return text :: texts

/-- The text of `db_aggregate`'s statement. -/
def Aggregate.text (a : Aggregate) : Except BrokerError String := do
  let groups ← mapIdxExcept groupText 0 a.groupBy
  let metrics ← mapIdxExcept metricText 0 a.metrics
  let cond ← whereText a.filter
  let noindex := (a.filter.map filterHasRange).getD false
  let keys := (List.range a.groupBy.length).map fun i => "g" ++ toString i
  return "SELECT " ++ ", ".intercalate (groups ++ metrics) ++ " FROM " ++ a.table
    ++ (if noindex then " WITH NOINDEX" else "") ++ cond
    ++ (if a.groupBy.isEmpty then " GROUP ALL" else " GROUP BY " ++ ", ".intercalate keys)
    ++ " TIMEOUT " ++ queryTimeout ++ ";"

/-- The text of a statement. -/
def Statement.text : Statement → Except BrokerError String
  | .select s => s.text
  | .aggregate a => a.text
  | .record rid => do
      let text ← renderValue (.recordId rid)
      return "SELECT * FROM " ++ text ++ ";"
  | .create table content => do
      let text ← renderValue (.object content)
      return "CREATE " ++ table ++ " CONTENT " ++ text ++ ";"
  | .update rid content => do
      let text ← renderValue (.object content)
      let target ← renderValue (.recordId rid)
      return "UPDATE " ++ target ++ " MERGE " ++ text ++ ";"

/-- A statement with its text. -/
structure Query where
  stmt : Statement
  text : String
  compiled : stmt.text = .ok text

/-- Renders a statement. -/
def Statement.compile (stmt : Statement) : Except BrokerError Query :=
  match h : stmt.text with
  | .ok text => .ok ⟨stmt, text, h⟩
  | .error e => .error e

/-! ### Requests -/

/-- `mail::Trigger`. -/
inductive Trigger where
  | afterInsert | update | submit | cancel
  | transition (action toState : String)
  deriving DecidableEq

/-- What a verb asks of its surroundings. -/
inductive Request where
  /-- `fairness::admit_verb`. -/
  | admitVerb
  | loadDoctype (name : String)
  | loadWorkflow (doctype : String)
  | sqlAs (caller : Caller) (q : Query)
  /-- `HookDispatch::fire_for`. -/
  | fire (hook : HookClass) (doctype : String) (doc : Doc)
  /-- `HookDispatch::validate_for`. -/
  | validate (doctype : String) (doc : Doc)
  /-- `fire_notifications`, which never fails the write. -/
  | notify (doctype : String) (stored : Json) (triggers : List Trigger)

/-- The answers. -/
def Answer : Request → Type
  | .admitVerb => Except BrokerError Unit
  | .loadDoctype _ => Except BrokerError DocTypeMeta
  | .loadWorkflow _ => Except BrokerError (Option WorkflowDef)
  | .sqlAs _ _ => Except BrokerError Json
  | .fire _ _ _ => Except BrokerError Doc
  | .validate _ _ => Except BrokerError Doc
  | .notify _ _ _ => Unit

/-- A verb, or a part of one. -/
abbrev Broker := Prog BrokerError Request Answer

namespace Broker

/-- A check without requests. -/
def lift {α : Type} (r : Except BrokerError α) : Broker α := .done r

/-- `load_doctype`. -/
def loadDoctype (name : String) : Broker DocTypeMeta := .ask (.loadDoctype name) .done

/-- `sync::load_workflow`. -/
def loadWorkflow (doctype : String) : Broker (Option WorkflowDef) :=
  .ask (.loadWorkflow doctype) .done

/-- `sql_as`, past the rendering. -/
def sqlAs (caller : Caller) (stmt : Statement) : Broker Json :=
  match stmt.compile with
  | .ok q => .ask (.sqlAs caller q) .done
  | .error e => .done (.error e)

/-- `fire_for`. -/
def fire (hook : HookClass) (doctype : String) (doc : Doc) : Broker Doc :=
  .ask (.fire hook doctype doc) .done

/-- `validate_for`. -/
def validate (doctype : String) (doc : Doc) : Broker Doc := .ask (.validate doctype doc) .done

/-- `fire_notifications`. -/
def notify (doctype : String) (stored : Json) (triggers : List Trigger) : Broker Unit :=
  .ask (.notify doctype stored triggers) fun r => .done (.ok r)

/-- `instrument`: the door lets the verb in before it runs. -/
def instrument {α : Type} (run : Broker α) : Broker α := do
  .ask .admitVerb .done
  run

end Broker

open Broker

/-! ### Reading -/

/-- `ENGINE_FIELDS`. -/
def engineFields : List String := ["id", "status", "owner", "docstatus"]

/-- `readable_fields`. -/
def readableFields (m : DocTypeMeta) (role : String) : List String :=
  engineFields ++ (m.fields.filter fun f => f.permRole.all (· = role)).map (·.fieldname)

/-- The check on the root of a path. A root that is no `Field` passes. -/
def checkRoot (allowed : List String) : Path → Except BrokerError Unit
  | .field root :: _ => if root ∈ allowed then .ok () else .error (.fieldNotReadable root)
  | _ => .ok ()

/-- The check on a path, with its rendering. -/
def checkPath (allowed : List String) (path : Path) : Except BrokerError String := do
  checkRoot allowed path
  renderPath path

/-- `checkPath` on each path. -/
def checkPaths (allowed : List String) : List Path → Except BrokerError Unit
  | [] => .ok ()
  | path :: rest => do
      let _ ← checkPath allowed path
      checkPaths allowed rest

/-- The requested fields, when some were requested. -/
def projection (fields : List Path) : Option (List String) :=
  if fields.isEmpty then none
  else some (fields.filterMap fun
    | .field f :: _ => some f
    | _ => none)

/-- The envelope filter on one row. -/
def filterRow (allowed : List String) (proj : Option (List String)) : Json → Json
  | .object entries =>
      .object ((entries.filter (·.1 ∈ allowed)).filter fun e =>
        proj.all (e.1 ∈ ·) || e.1 = "id")
  | row => row

/-- `db_read_inner`. -/
def dbReadInner (caller : Caller) (doctype : String) (filter : Option Filter)
    (fields : List Path) (opts : ReadOpts) : Broker (List Json) := do
  let m ← loadDoctype doctype
  let allowed := readableFields m caller.role
  lift (checkPaths allowed fields)
  let range := (filter.map filterHasRange).getD false
  let out ← sqlAs caller (.select ⟨m.name, range && opts.orderBy.isSome, filter, opts⟩)
  return out.rows.map (filterRow allowed (projection fields))

/-- `db_read`. -/
def dbRead (caller : Caller) (doctype : String) (filter : Option Filter) (fields : List Path)
    (opts : ReadOpts) : Broker (List Json) :=
  instrument (dbReadInner caller doctype filter fields opts)

/-- The paths of the metrics that read one. -/
def metricPaths (metrics : List (Metric × Path)) : List Path :=
  (metrics.filter (·.1 ≠ .count)).map (·.2)

/-- `db_aggregate_inner`. -/
def dbAggregateInner (caller : Caller) (doctype : String) (filter : Option Filter)
    (groupBy : List Path) (metrics : List (Metric × Path)) : Broker (List Json) := do
  let m ← loadDoctype doctype
  let allowed := readableFields m caller.role
  lift (checkPaths allowed groupBy)
  lift (checkPaths allowed (metricPaths metrics))
  let out ← sqlAs caller (.aggregate ⟨m.name, filter, groupBy, metrics⟩)
  return out.rows

/-- `db_aggregate`. -/
def dbAggregate (caller : Caller) (doctype : String) (filter : Option Filter)
    (groupBy : List Path) (metrics : List (Metric × Path)) : Broker (List Json) :=
  instrument (dbAggregateInner caller doctype filter groupBy metrics)

end Frust.Kernel
