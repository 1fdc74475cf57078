import Frust.Kernel.Apps
import Frust.Kernel.Metadata
import Frust.Kernel.Session

/-!
# `Frust.Kernel.Endpoint`: which arm a URL is for, and what acts on a write

A request goes by the segments of its path: the method gate first, then the arms without a tenant,
then those of `dispatch`, in their order. The routes that apps declare share their shape,
`/app/{app}/{path}`, with the lifecycle of apps, and come after it. What an arm does is elsewhere;
here an arm is what it takes from the path, and whether it is for managers only.

The kernel finds what an app contributed where it stores it: the server scripts on the record of the
DocType, the workflow and the notifications in their tables, and a route through the registry. This
module reads the tenant's database as `load_server_scripts`, `load_workflow`, `load_notifications`
and `serve_app_route` do.
-/

set_option autoImplicit false

namespace Frust.Kernel

open Frust.Lib Frust.Rust

/-! ### Server scripts -/

/-- An optional attribute of a record. -/
def optional (key : String) (value : Option String) : List (String × Json) :=
  (value.map fun v => (key, Json.string v)).toList

/-- An item of `server_script`, as it is stored. -/
def ScriptRow.toJson (x : ScriptRow) : Json :=
  .object (optional "app" x.app ++ optional "script" x.script ++ optional "hook" x.hook)

/-- `server_script`, as it is stored. -/
def ServerScript.toJson : ServerScript → Json
  | .none => .null
  | .text script => .string script
  | .list items => .array (items.map ScriptRow.toJson)

/-- `SELECT app, server_script, fields`, of the fields their names. -/
def DocTypeRow.scriptsJson (row : DocTypeRow) : Json :=
  .object (optional "app" row.app ++
    [("server_script", row.serverScript.toJson),
      ("fields", .array (row.fields.map fun f =>
        .object [("fieldname", .string f.field.fieldname)]))])

namespace TenantDb

/-- `load_server_scripts`. -/
def serverScripts (s : TenantDb) (doctype : String) : HookPlan :=
  loadServerScripts ((s.doctypes.lookup doctype).map DocTypeRow.scriptsJson)

/-! ### Workflows and notifications -/

/-- `load_workflow`: the first one. -/
def loadWorkflow (s : TenantDb) (doctype : String) : Option WorkflowDef :=
  ((byName s.workflows).map (·.2)).find? (·.doctype = doctype)

/-- `load_notifications`. -/
def loadNotifications (s : TenantDb) (doctype : String) : List NotificationDef :=
  ((byName s.notifications).map (·.2)).filter (·.doctype = doctype)

/-! ### Routes -/

/-- What a route reads of the registry. -/
def routesOf (s : TenantDb) (app : String) : Option InstalledApp :=
  (s.apps.lookup app).map fun row => ⟨row.enabled, .ok row.manifest.routes⟩

end TenantDb

/-! ### Arms -/

/-- The arms of the process, with what each takes from the path. -/
inductive Endpoint where
  | metrics
  | health
  | ready
  | login
  | logout
  | revoke (user : String)
  | doctypes
  | doctypeMeta (doctype : String)
  | saveDoctype
  | saveScript (doctype : String)
  | saveNotification
  | reclaim (doctype : String)
  | mailOutbox
  | workflow (doctype key : String)
  | transition (doctype key : String)
  | apps
  | planApp
  | installApp
  | updateApp
  | disableApp (name : String)
  | enableApp (name : String)
  | uninstallApp (name : String)
  | exportApp (name : String)
  | appRoute (app path : String)
  | audit (doctype key : String)
  | lag (rollup : String)
  | subscribe (doctype : String)
  | events (sub : String)
  | unsubscribe (sub : String)
  | read (doctype : String)
  | single (doctype : String)
  | writeSingle (doctype : String)
  | write (doctype : String)
  | deleteDoc (doctype key : String)
  | aggregate (doctype : String)
  | enqueue (kind : String)
  | noRoute (segs : List String)
  deriving DecidableEq

/-- An operation of the app lifecycle. -/
def Endpoint.isLifecycle : Endpoint → Bool
  | apps | planApp | installApp | updateApp => true
  | disableApp _ | enableApp _ | uninstallApp _ | exportApp _ => true
  | _ => false

/-- An arm that begins with `require_manager`. -/
def Endpoint.managerOnly : Endpoint → Bool
  | revoke _ | saveDoctype | saveScript _ | saveNotification | reclaim _ | mailOutbox => true
  | apps | planApp | installApp | updateApp => true
  | disableApp _ | enableApp _ | uninstallApp _ | exportApp _ => true
  | audit _ _ => true
  | _ => false

/-- The last arm, which answers `no route`. -/
def Endpoint.isFallback : Endpoint → Bool
  | noRoute _ => true
  | _ => false

/-- An arm that writes or consumes what the process or its databases hold. The code of an app may. -/
def Endpoint.stateful : Endpoint → Bool
  | login | logout | revoke _ => true
  | saveDoctype | saveScript _ | saveNotification | reclaim _ | transition _ _ => true
  | installApp | updateApp | disableApp _ | enableApp _ | uninstallApp _ | appRoute _ _ => true
  | subscribe _ | events _ | unsubscribe _ => true
  | writeSingle _ | write _ | deleteDoc _ _ | enqueue _ => true
  | _ => false

/-! ### The path -/

/-- `url.split('?').next()`. -/
def urlPath (url : String) : List Char := url.toList.takeWhile (· ≠ '?')

/-- The segments of the path, past the slashes at its ends. -/
def segmentsOf (url : String) : List String :=
  Str.split '/' (String.ofList (Str.trimMatches (· == '/') (urlPath url)))

/-- The arms of one segment. -/
def endpointOne : String → Endpoint
  | "health" => .health
  | "ready" => .ready
  | "login" => .login
  | "logout" => .logout
  | "meta" => .doctypes
  | "doctype" => .saveDoctype
  | "notification" => .saveNotification
  | "app" => .apps
  | seg => .noRoute [seg]

/-- The arms of two segments. -/
def endpointTwo : String → String → Endpoint
  | "revoke", user => .revoke user
  | "meta", doctype => .doctypeMeta doctype
  | "mail", "outbox" => .mailOutbox
  | "app", "plan" => .planApp
  | "app", "install" => .installApp
  | "app", "update" => .updateApp
  | "lag", rollup => .lag rollup
  | "subscribe", doctype => .subscribe doctype
  | "events", sub => .events sub
  | "unsubscribe", sub => .unsubscribe sub
  | "read", doctype => .read doctype
  | "single", doctype => .single doctype
  | "write", doctype => .write doctype
  | "aggregate", doctype => .aggregate doctype
  | "enqueue", kind => .enqueue kind
  | a, b => .noRoute [a, b]

/-- The arms of three segments. -/
def endpointThree : String → String → String → Endpoint
  | "doctype", doctype, "script" => .saveScript doctype
  | "doctype", doctype, "reclaim" => .reclaim doctype
  | "workflow", doctype, key => .workflow doctype key
  | "transition", doctype, key => .transition doctype key
  | "app", name, "disable" => .disableApp name
  | "app", name, "enable" => .enableApp name
  | "app", name, "uninstall" => .uninstallApp name
  | "app", name, "export" => .exportApp name
  | "app", app, path => .appRoute app path
  | "audit", doctype, key => .audit doctype key
  | "single", doctype, "write" => .writeSingle doctype
  | "doc", doctype, key => .deleteDoc doctype key
  | a, b, c => .noRoute [a, b, c]

/-- The arm, by the number of segments and then in the order of `route` and `dispatch`. -/
def endpointOf : List String → Endpoint
  | [a] => endpointOne a
  | [a, b] => endpointTwo a b
  | [a, b, c] => endpointThree a b c
  | segs => .noRoute segs

/-! ### The method gate -/

/-- `MethodGate`. A policy is the methods that it allows. -/
inductive MethodGate where
  | dispatch
  | options (allowed : List String)
  | methodNotAllowed (allowed : List String)
  | unknownRoute
  deriving DecidableEq

/-- `GET`. -/
def getPolicy : List String := ["GET", "HEAD", "OPTIONS"]

/-- `STATEFUL_GET`. -/
def statefulGetPolicy : List String := ["GET", "OPTIONS"]

/-- `POST`. -/
def postPolicy : List String := ["POST", "OPTIONS"]

/-- `DELETE`. -/
def deletePolicy : List String := ["DELETE", "OPTIONS"]

/-- `APP_ROUTE`. -/
def appRoutePolicy : List String := ["GET", "POST", "OPTIONS"]

/-- `policy_for`, of one segment. -/
def policyOne : String → Option (List String)
  | "health" | "metrics" | "ready" => some getPolicy
  | "login" | "logout" => some postPolicy
  | "meta" => some getPolicy
  | "doctype" | "notification" => some postPolicy
  | "app" => some getPolicy
  | _ => none

/-- `policy_for`, of two segments. -/
def policyTwo : String → String → Option (List String)
  | "revoke", _ => some postPolicy
  | "meta", _ => some getPolicy
  | "subscribe", _ | "unsubscribe", _ | "read", _ | "single", _ | "write", _ => some postPolicy
  | "aggregate", _ | "enqueue", _ => some postPolicy
  | "mail", "outbox" | "lag", _ => some getPolicy
  | "events", _ => some statefulGetPolicy
  | "app", "plan" | "app", "install" | "app", "update" => some postPolicy
  | _, _ => none

/-- `policy_for`, of three segments. -/
def policyThree : String → String → String → Option (List String)
  | "doc", _, _ => some deletePolicy
  | "doctype", _, "script" | "doctype", _, "reclaim" | "transition", _, _ => some postPolicy
  | "single", _, "write" => some postPolicy
  | "workflow", _, _ | "audit", _, _ | "app", _, "export" => some getPolicy
  | "app", _, "disable" | "app", _, "enable" | "app", _, "uninstall" => some postPolicy
  | "app", _, _ => some appRoutePolicy
  | _, _, _ => none

/-- `policy_for`. -/
def policyFor : List String → Option (List String)
  | [a] => policyOne a
  | [a, b] => policyTwo a b
  | [a, b, c] => policyThree a b c
  | _ => none

/-- `gate`. -/
def methodGate (method url : String) : MethodGate :=
  match policyFor (segmentsOf url) with
  | none => .unknownRoute
  | some allowed =>
      if method = "OPTIONS" then .options allowed
      else if allowed.contains method then .dispatch
      else .methodNotAllowed allowed

/-! ### The request -/

/-- What a request of an authenticated caller comes to: the arm that runs for the caller. `none` is an
answer of the gate. -/
def requestArm (method url : String) (caller : Caller) : Option (Except BrokerError Endpoint) :=
  match methodGate method url with
  | .options _ | .methodNotAllowed _ => none
  | .dispatch | .unknownRoute =>
      if urlPath url = "/metrics".toList then some (.ok .metrics)
      else
        let arm := endpointOf (segmentsOf url)
        if arm.managerOnly then some ((Session.requireManager caller).map fun _ => arm)
        else some (.ok arm)

/-- The arm for a URL that the gate lets through: `handle` first, then `route` and `dispatch`. -/
def armOf (url : String) : Endpoint :=
  if urlPath url = "/metrics".toList then .metrics else endpointOf (segmentsOf url)

/-- The arm for a caller: past `require_manager`, where it begins with that. -/
def Endpoint.admitCaller (arm : Endpoint) (caller : Caller) : Except BrokerError Endpoint :=
  if arm.managerOnly then (Session.requireManager caller).map fun _ => arm else .ok arm

/-- What `serve_app_route` is asked, on the database of the tenant. -/
def TenantDb.routeRequest {β : Type} (s : TenantDb) (ctx : TenantContext β) (caller : Caller)
    (app path : String) : RouteRequest β where
  ctx := ctx
  caller := caller
  app := app
  path := path
  installed := .ok (s.routesOf app)

end Frust.Kernel
