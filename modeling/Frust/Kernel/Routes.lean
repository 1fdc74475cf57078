import Frust.Kernel.Tenancy
import Frust.Kernel.Broker

/-!
# `Frust.Kernel.Routes`: routes that apps declare

A route is guest code. It reaches data through the door only: a broker and a caller that the
host binds for one call. `hostFor` keeps one host for each component file and process, with
the broker that it was loaded with.

A component file is what `GuestWorld` loads it as. What a guest reads, and what it does with
the answers, is its own matter. Spans, metrics and the limits on time and memory are left out.
-/

set_option autoImplicit false

namespace Frust.Kernel

open Frust.Lib

/-- `RouteDecl`. -/
structure RouteDecl where
  path : String
  component : String
  deriving DecidableEq

/-- An installed app: whether it is enabled, and the routes of its manifest. -/
structure InstalledApp where
  enabled : Bool
  routes : Except BrokerError (List RouteDecl)

/-- `db-read`, as a guest calls it. -/
structure ReadCall where
  doctype : String
  filter : String
  fields : List String
  deriving DecidableEq

/-- A handler: from path, query and body to a status and a body, or to a trap. -/
abbrev Handler :=
  String → String → String → Prog String ReadCall (fun _ => Except String String) (Nat × String)

/-- A read that goes to a broker. -/
structure DoorRead (β : Type) where
  broker : β
  caller : Caller
  doctype : String
  filter : Option Filter
  fields : List Path
  opts : ReadOpts

/-- The component files, the texts that are filters, and what brokers answer. -/
structure GuestWorld (β : Type) where
  load : String → Except BrokerError Handler
  parseFilter : String → Except String Filter
  /-- `Broker::db_read`, as the guest gets it. -/
  read : DoorRead β → Except String String

/-- `RouteHost`. -/
structure RouteHost (β : Type) where
  handler : Handler
  broker : β

/-- The hosts of the process, by component file. -/
abbrev Hosts (β : Type) := List (String × RouteHost β)

section

variable {β : Type} (world : GuestWorld β)

/-- The filter of a call. -/
def callFilter (raw : String) : Except String (Option Filter) :=
  let text := Frust.Rust.Str.trim raw
  if text = "" ∨ text = "null" then .ok none
  else
    match world.parseFilter text with
    | .ok f => .ok (some f)
    | .error e => .error ("FRUST:E_BAD_FILTER: filter must be a structured filter object, not query"
        ++ " text (" ++ e ++ ")")

/-- `db_read` of the host, with what it reads. -/
def hostRead (door : Option (β × Caller)) (call : ReadCall) :
    Except String String × List (DoorRead β) :=
  match door with
  | none => (.error "FRUST:E_NO_DOOR: db-read is not available in this context", [])
  | some (broker, caller) =>
      match callFilter world call.filter with
      | .error e => (.error e, [])
      | .ok filter =>
          let r : DoorRead β :=
            ⟨broker, caller, call.doctype, filter, call.fields.map fun f => [.field f], {}⟩
          (world.read r, [r])

/-- `RouteHost::handle`, with the reads of the guest. -/
def RouteHost.handle (host : RouteHost β) (caller : Caller) (path query body : String) :
    Except BrokerError (Nat × String) × List (DoorRead β) :=
  let door := some (host.broker, caller)
  let out := (host.handler path query body).run
    (fun reads call => ((hostRead world door call).1, reads ++ (hostRead world door call).2)) []
  (out.1.mapError (.hookRejected "route"), out.2)

/-- `host_for`: the host of the component, and the hosts after. -/
def hostFor (component : String) (broker : β) (hosts : Hosts β) :
    Except BrokerError (RouteHost β) × Hosts β :=
  match hosts.lookup component with
  | some host => (.ok host, hosts)
  | none =>
      match world.load component with
      | .error e => (.error e, hosts)
      | .ok handler => (.ok ⟨handler, broker⟩, (component, ⟨handler, broker⟩) :: hosts)

/-- A request for a route, with what the tenant's budget and its database say of it. -/
structure RouteRequest (β : Type) where
  /-- The context of the tenant whose token came with the request. -/
  ctx : TenantContext β
  caller : Caller
  app : String
  path : String
  query : String := ""
  body : String := ""
  /-- `fairness::admit_verb`. -/
  admitted : Except BrokerError Unit := .ok ()
  /-- `installed`. -/
  installed : Except BrokerError (Option InstalledApp)

/-- `ident`. -/
def checkIdent (s : String) : Except BrokerError Unit :=
  if isIdent s then .ok () else badValue ("bad identifier: " ++ s)

/-- The declaration that a request is for. -/
def RouteRequest.declared (req : RouteRequest β) : Except BrokerError RouteDecl := do
  checkIdent req.app
  checkIdent req.path
  req.admitted
  match ← req.installed with
  | none => .error (.unknownDoctype ("app " ++ req.app))
  | some app => do
      let unknown := BrokerError.unknownDoctype ("route /app/" ++ req.app ++ "/" ++ req.path)
      if !app.enabled then .error unknown
      else
        match (← app.routes).find? (·.path = req.path) with
        | some decl => return decl
        | none => .error unknown

/-- What became of a request. -/
structure Served (β : Type) where
  result : Except BrokerError (Nat × String)
  reads : List (DoorRead β)
  hosts : Hosts β

/-- `serve_app_route`. -/
def serveAppRoute (req : RouteRequest β) (hosts : Hosts β) : Served β :=
  match req.declared with
  | .error e => ⟨.error e, [], hosts⟩
  | .ok decl =>
      match hostFor world decl.component req.ctx.broker hosts with
      | (.error e, hosts') => ⟨.error e, [], hosts'⟩
      | (.ok host, hosts') =>
          let out := host.handle world req.caller req.path req.query req.body
          ⟨out.1, out.2, hosts'⟩

end

end Frust.Kernel
