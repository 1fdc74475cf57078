import Frust.Kernel.Broker
import Frust.Kernel.Row

/-!
# `Frust.Kernel.Write`: writing documents and taking transitions

`dbWriteInner` shows the hooks the full document, and then writes what the caller wrote
or a hook changed, as one statement. `dbTransition` reads the document, judges, and
writes the judged state through `dbWriteInner`. Both return the row that the database
stored.
-/

set_option autoImplicit false

namespace Frust.Kernel

open Frust.Lib Broker

/-! ### The hook chain -/

/-- `HookChain`. -/
abbrev HookChain := List (String × HookClass)

/-- `MAX_HOOK_DEPTH`. -/
def maxHookDepth : Nat := 8

/-- `HookChain::push`. -/
def HookChain.push (chain : HookChain) (record : String) (hook : HookClass) :
    Except BrokerError HookChain :=
  if chain.any fun e => e.1 = record ∧ e.2 = hook then .error (.hookCycle record hook.debug)
  else if chain.length ≥ maxHookDepth then .error (.hookDepthExceeded maxHookDepth)
  else .ok (chain ++ [(record, hook)])

/-! ### Documents -/

/-- `docstatus_of`. -/
def docstatusOf (doc : Doc) : Option Int :=
  match doc.lookup "docstatus" with
  | some (.int i) => some i
  | _ => none

/-- The record id, where the document has none. -/
def withId (rid : String) (doc : Doc) : Doc :=
  if doc.any (·.1 = "id") then doc else doc ++ [("id", .text rid)]

/-- A value as a number, where it reads as one. -/
def asNum : Value → Option Decimal
  | .decimal s | .text s => Decimal.parse s
  | .int i => Decimal.parse (toString i)
  | .float text => Decimal.parse text
  | _ => none

/-- `same_value`. -/
def sameValue (a b : Value) : Bool :=
  match asNum a, asNum b with
  | some x, some y => x.numEq y
  | _, _ => eqValue a b

/-- A stored value, typed from the DocType. -/
def retype (m : DocTypeMeta) (k : String) (v : Json) : Value :=
  match (m.fields.find? (·.fieldname = k)).map (·.fieldtype), v with
  | some "Currency", .string s => .decimal s
  | _, _ => v.toValue

/-- A row as the hooks see it. -/
def hookRow (m : DocTypeMeta) : Json → Doc
  | .object entries => (entries.filter (·.1 ≠ "id")).map fun e => (e.1, retype m e.1 e.2)
  | _ => []

/-! ### `db_write` -/

/-- `record_for_hook`. -/
def recordForHook (caller : Caller) (m : DocTypeMeta) (key : String) : Broker Doc := do
  let out ← sqlAs caller (.record (m.name ++ ":" ++ key))
  return (out.rows.head?.map (hookRow m)).getD []

/-- The docstatus edges, each with its hook. -/
def edges : List (Int × HookClass) := [(1, .onSubmit), (2, .onCancel)]

/-- The hooks of the edges that the write is about to cross. They may refuse. -/
def fireEdges (chain : HookChain) (rid doctype : String) (doc : Doc) (before after : Int) :
    List (Int × HookClass) → Broker Unit
  | [] => .done (.ok ())
  | (target, hook) :: rest => do
      if before ≠ target ∧ after = target then
        let _ ← lift (chain.push rid hook)
        let _ ← fire hook doctype doc
      fireEdges chain rid doctype doc before after rest

/-- What of the hooks' output may be written. -/
def envelope (m : DocTypeMeta) (entries : Doc) : Doc :=
  (entries.filter (·.1 ≠ "id")).filter fun e =>
    m.fields.any (·.fieldname = e.1) || e.1 ∈ engineFields || e.1 = "docstatus"

/-- What of it has changed: what the caller wrote, or a hook changed. -/
def delta (doc hookDoc entries : Doc) : Doc :=
  entries.filter fun e =>
    doc.any (·.1 = e.1) || !hookDoc.any fun h => h.1 = e.1 && sameValue h.2 e.2

/-- The statement of a write. -/
def writeStatement (m : DocTypeMeta) (op : WriteOp) (record : Option String) (content : Doc) :
    Except BrokerError Statement := do
  let _ ← renderValue (.object content)
  match op, record with
  | .create, _ => return .create m.name content
  | .update, some key => return .update (m.name ++ ":" ++ key) content
  | .update, none => badValue "update needs a record"

/-- The answer to a write that stored nothing. -/
def noRows (m : DocTypeMeta) (record : Option String) : WriteOp → BrokerError
  | .update => .permissionDenied
      ("E_WRITE_NO_ROWS: update of " ++ m.name ++ ":" ++ record.getD "?"
        ++ " changed nothing — the record does not exist, or your role may not write it")
  | .create => .permissionDenied
      ("E_WRITE_NO_ROWS: create in " ++ m.name ++ " stored nothing: the table is write-closed"
        ++ " (maintained by the kernel, not by record users), or your role may not create in it")

/-- The lifecycle events of a write, from the baseline and the stored row. -/
def writeTriggers (op : WriteOp) (before : Int) (stored : Json) : List Trigger :=
  let after := ((stored.get "docstatus").bind Json.asInt).getD before
  (match op with | .create => [.afterInsert] | .update => [.update])
    ++ (if before ≠ 1 ∧ after = 1 then [.submit] else [])
    ++ (if before ≠ 2 ∧ after = 2 then [.cancel] else [])

/-- The baseline of a write. -/
def loadBaseline (caller : Caller) (m : DocTypeMeta) : WriteOp → Option String → Broker Doc
  | .update, some key => recordForHook caller m key
  | _, _ => pure []

/-- The document that the hooks see: `before_insert` may change it on a create. -/
def beforeInsert (chain : HookChain) (rid doctype : String) (doc : Doc) : WriteOp → Broker Doc
  | .create => do
      let _ ← lift (chain.push rid .beforeInsert)
      fire .beforeInsert doctype doc
  | .update => pure doc

/-- `db_write_inner`. -/
def dbWriteInner (caller : Caller) (chain : HookChain) (op : WriteOp) (doctype : String)
    (record : Option String) (doc : Doc) : Broker Json := do
  let m ← loadDoctype doctype
  let rid := m.name ++ ":" ++ record.getD "new"
  let _ ← lift (chain.push rid .validate)
  let baseline ← loadBaseline caller m op record
  let hookDoc ← beforeInsert chain rid doctype (withId rid (overlay baseline doc)) op
  let before := (docstatusOf baseline).getD 0
  fireEdges chain rid doctype hookDoc before ((docstatusOf hookDoc).getD before) edges
  let validated ← validate doctype hookDoc
  let entries := envelope m validated
  let content := match op with
    | .update => delta doc hookDoc entries
    | .create => entries
  let stmt ← lift (writeStatement m op record content)
  let out ← sqlAs caller stmt
  match out.rows.head? with
  | none => .done (.error (noRows m record op))
  | some stored => do
      notify doctype stored (writeTriggers op before stored)
      return stored

/-- `db_write`. -/
def dbWrite (caller : Caller) (chain : HookChain) (op : WriteOp) (doctype : String)
    (record : Option String) (doc : Doc) : Broker Json :=
  instrument (dbWriteInner caller chain op doctype record doc)

/-! ### `db_transition` -/

/-- The filter on one record. -/
def recordFilter (rid : String) : Filter := .cmp [.field "id"] .eq (.recordId rid)

/-- The state that a document is judged from. -/
def currentState (wf : WorkflowDef) (doc : Json) : String :=
  wf.stateOrInitial ((doc.get stateField).bind Json.asStr)

/-- What a judged transition writes. -/
def judgedDoc (j : Judged) : Doc := [(stateField, .text j.toState), ("docstatus", .int j.docstatus)]

/-- The write of a judged transition, and its own notification. -/
def takeTransition (caller : Caller) (chain : HookChain) (doctype record : String)
    (j : Judged) : Broker Json := do
  let stored ← dbWriteInner caller chain .update doctype (some record) (judgedDoc j)
  notify doctype stored [.transition j.action j.toState]
  return stored

/-- `db_transition`. -/
def dbTransition (caller : Caller) (chain : HookChain) (doctype record action : String) :
    Broker Json := instrument do
  match ← loadWorkflow doctype with
  | none => .done (.error (.workflowDenied "FRUST:E_WORKFLOW:UNMANAGED"
      ("'" ++ doctype ++ "' has no workflow")))
  | some wf => do
      let key := doctype ++ ":" ++ record
      let rows ← dbRead caller doctype (some (recordFilter key)) [] {}
      match rows.head? with
      | none => .done (.error (.unknownDoctype key))
      | some doc => do
          let j ← lift (wf.judge (currentState wf doc) action caller.role)
          takeTransition caller chain doctype record j

end Frust.Kernel
