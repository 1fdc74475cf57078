import Frust.Kernel.Session

/-!
# `Frust.Kernel.Realtime`: live subscriptions

One `Realtime` holds the live subscriptions of every tenant of the process in one map, by id.
Each has a connection of its own to the database, which buffers what it is notified of. A drain
hands the buffer over, an unsubscribe takes the subscription out of the map and closes its
connection, and `reap` does so with every subscription that has died or was not drained for a
while.

Each critical section is one request, and so is each call to the database: other calls run
between any two of them. A connection is its place in the list of all that were ever made, and
its buffer, the time of its last drain and whether it is alive stand there, as they are shared
between the map and whoever has looked a subscription up. The answers of the database and the
ids of subscriptions are any. Gauges and logs are left out.
-/

set_option autoImplicit false

namespace Frust.Kernel

open Frust.Lib

/-- `LIVE_SUB_BUDGET_PER_TABLE`. -/
def liveSubBudgetPerTable : Nat := 20

/-- `IDLE_REAP`, in milliseconds. -/
def idleReap : Nat := 30000

/-- `TICK_BUFFER_CAP`. -/
def tickBufferCap : Nat := 512

/-- `Subscription`. -/
structure Subscription where
  user : String
  table : String
  tenant : String
  conn : Nat
  deriving DecidableEq

/-- The map of subscriptions. -/
abbrev Subscriptions := List (String × Subscription)

namespace Subscriptions

/-- `get`. -/
def get (subs : Subscriptions) (id : String) : Option Subscription := subs.lookup id

/-- `remove`. -/
def erase (subs : Subscriptions) (id : String) : Subscriptions := subs.filter (·.1 ≠ id)

/-- `insert`. -/
def insert (subs : Subscriptions) (id : String) (sub : Subscription) : Subscriptions :=
  (id, sub) :: subs.erase id

/-- `count_for_table`. -/
def countForTable (subs : Subscriptions) (tenant table : String) : Nat :=
  subs.countP fun entry => entry.2.table = table ∧ entry.2.tenant = tenant

/-- The critical section of `unsubscribe`. -/
def removeOwn (subs : Subscriptions) (id user : String) :
    Except BrokerError (Option Subscription) × Subscriptions :=
  match subs.get id with
  | some s =>
      if s.user = user then (.ok (some s), subs.erase id)
      else (.error (.permissionDenied "not your subscription"), subs)
  | none => (.ok none, subs)

end Subscriptions

/-- What the calls ask for. -/
inductive LiveRequest where
  /-- `SELECT VALUE jwt` of the token's session row. -/
  | selectJwt (tenant token : String)
  | countForTable (tenant table : String)
  /-- `WsRpc::connect`. -/
  | connect
  /-- `WsRpc::call`. -/
  | call (conn : Nat) (method : String) (params : Json)
  /-- `TraceId::new`. -/
  | traceId
  | now
  | insert (id : String) (sub : Subscription) (lastPolled : Nat)
  /-- Puts a tick into the buffer of a connection. -/
  | push (conn : Nat) (tick : Json)
  | get (id : String)
  /-- `last_polled` becomes now. -/
  | poll (conn : Nat)
  /-- Empties the buffer of a connection. -/
  | take (conn : Nat)
  | isAlive (conn : Nat)
  | removeOwn (id user : String)
  /-- `WsRpc::close`. -/
  | close (conn : Nat)
  /-- The first critical section of `reap`. -/
  | doomed
  /-- The second. -/
  | removeAll (doomed : Subscriptions)

/-- The answers. -/
abbrev LiveAnswer : LiveRequest → Type
  | .selectJwt _ _ => Except BrokerError Json
  | .countForTable _ _ => Nat
  | .connect => Except BrokerError Nat
  | .call _ _ _ => Except BrokerError Json
  | .traceId => String
  | .now => Nat
  | .get _ => Option Subscription
  | .take _ => List Json
  | .isAlive _ => Bool
  | .removeOwn _ _ => Except BrokerError (Option Subscription)
  | .doomed => Subscriptions
  | .insert _ _ _ | .push _ _ | .poll _ | .close _ | .removeAll _ => Unit

/-- A call's program. -/
abbrev LiveProg := Prog BrokerError LiveRequest LiveAnswer

namespace Realtime

/-- `session_jwt`. -/
def sessionJwt (target : ResolvedTenant) (token : Option String) : LiveProg String :=
  match token with
  | none => .done (.error Session.unauthenticated)
  | some t =>
      if !TenantRouter.isSecret t then .done (.error Session.unauthenticated)
      else
        .ask (.selectJwt target.tenantId.asStr t) fun (v : Except BrokerError Json) => .done do
          match ← v with
          | .array (.string jwt :: _) => return jwt
          | _ => .error Session.unauthenticated

/-- One RPC of the subscriber's connection. -/
def rpc (conn : Nat) (method : String) (params : Json) : LiveProg Json :=
  .ask (.call conn method params) .done

/-- `render_live_select`. -/
def renderLiveSelect (table : String) : Except BrokerError String :=
  if !isIdent table then badValue ("bad table: " ++ table)
  else .ok ("LIVE SELECT * FROM " ++ table ++ ";")

/-- `subscribe`, from the critical section of the count on. -/
def openLive (user jwt : String) (target : ResolvedTenant) (table : String) : LiveProg String :=
  let tenant := target.tenantId.asStr
  .ask .connect fun (conn : Except BrokerError Nat) => do
    let conn ← Prog.done conn
    let _ ← rpc conn "authenticate" (.array [.string jwt])
    let _ ← rpc conn "use"
      (.array [.string target.placement.ns.name.raw, .string target.placement.database.name.raw])
    let live ← Prog.done (renderLiveSelect table)
    let _ ← rpc conn "query" (.array [.string live])
    .ask .traceId fun (id : String) =>
      .ask .now fun (now : Nat) =>
        .ask (.insert id ⟨user, table, tenant, conn⟩ now) fun _ => .done (.ok id)

/-- `subscribe`. -/
def subscribe (user jwt : String) (target : ResolvedTenant) (table : String) : LiveProg String :=
  if !isIdent table then .done (badValue ("bad table: " ++ table))
  else
    .ask (.countForTable target.tenantId.asStr table) fun (count : Nat) =>
      if liveSubBudgetPerTable ≤ count then
        .done (.error (.db ("FRUST:E_SUB_BUDGET: table " ++ table ++ " at its live budget (" ++
          toString liveSubBudgetPerTable ++ "); poll instead")))
      else openLive user jwt target table

/-- What a notification is buffered as. -/
def tickOf (msg : Json) : Option Json := do
  let result ← msg.get "result"
  let action := ((result.get "action").bind Json.asStr).getD ""
  if action = "" then none
  else
    let rid := ((result.get "result").bind (Json.get · "id")).getD .null
    return .object [("action", .string action), ("id", rid)]

/-- The sink that `subscribe` connects with. -/
def sink (conn : Nat) (msg : Json) : LiveProg Unit :=
  match tickOf msg with
  | none => .done (.ok ())
  | some tick => .ask (.push conn tick) fun _ => .done (.ok ())

/-- `drain`. -/
def drain (subId user : String) : LiveProg (List Json × Bool) :=
  .ask (.get subId) fun (sub : Option Subscription) =>
    match sub with
    | none => .done (.error (.unknownDoctype ("subscription " ++ subId)))
    | some sub =>
        if sub.user ≠ user then .done (.error (.permissionDenied "not your subscription"))
        else
          .ask (.poll sub.conn) fun _ =>
            .ask (.take sub.conn) fun (events : List Json) =>
              .ask (.isAlive sub.conn) fun (alive : Bool) => .done (.ok (events, alive))

/-- `unsubscribe`. -/
def unsubscribe (subId user : String) : LiveProg Unit :=
  .ask (.removeOwn subId user) fun (sub : Except BrokerError (Option Subscription)) =>
    match sub with
    | .error e => .done (.error e)
    | .ok none => .done (.ok ())
    | .ok (some s) => .ask (.close s.conn) fun _ => .done (.ok ())

/-- `reap`. -/
def reap : LiveProg Unit :=
  .ask .doomed fun (doomed : Subscriptions) =>
    if doomed.isEmpty then .done (.ok ())
    else .ask (.removeAll doomed) fun _ => .done (.ok ())

/-- Who a request comes from: a user of a tenant. -/
structure Party where
  target : ResolvedTenant
  user : String

/-- What the process runs: the three doors, the sinks of the connections, and the serve tick. -/
inductive Call where
  | subscribe (party : Party) (token : Option String) (doctype : String)
  | events (party : Party) (sub : String)
  | unsubscribe (party : Party) (sub : String)
  | notify (conn : Nat) (msg : Json)
  | reap

/-- What a drain answers. -/
def eventsReply (events : List Json) (alive : Bool) : Json :=
  .object [("alive", .bool alive), ("events", .array events)]

/-- What a call runs, with the reply of its door. -/
def Call.program : Call → LiveProg Json
  | .subscribe party token doctype => do
      Prog.done (checkIdent doctype)
      let jwt ← sessionJwt party.target token
      let sub ← Realtime.subscribe party.user jwt party.target doctype
      .done (.ok (.object [("budget", .int liveSubBudgetPerTable), ("sub", .string sub)]))
  | .events party sub => do
      let (ticks, alive) ← drain sub party.user
      .done (.ok (eventsReply ticks alive))
  | .unsubscribe party sub => do
      Realtime.unsubscribe sub party.user
      .done (.ok (.object [("ok", .bool true)]))
  | .notify conn msg => do
      sink conn msg
      .done (.ok .null)
  | .reap => do
      Realtime.reap
      .done (.ok .null)

end Realtime

/-! ### The process -/

/-- A connection, with the buffer and the time of the last drain of its subscription. -/
structure LiveLine where
  ticks : List Json := []
  lastPolled : Nat := 0
  alive : Bool := true

namespace LiveLine

/-- The sink's push. A full buffer loses its oldest tick. -/
def push (line : LiveLine) (tick : Json) : LiveLine :=
  let kept := if line.ticks.length = tickBufferCap then line.ticks.tail else line.ticks
  { line with ticks := kept ++ [tick] }

/-- Dead, or not drained for too long. -/
def idle (line : LiveLine) (now : Nat) : Bool := !line.alive || idleReap < now - line.lastPolled

end LiveLine

/-- The map, all connections that were ever made, and the clock. -/
structure LiveState where
  subs : Subscriptions := []
  lines : List LiveLine := []
  now : Nat := 0

namespace LiveState

/-- Changes a connection. -/
def onLine (s : LiveState) (conn : Nat) (f : LiveLine → LiveLine) : LiveState :=
  { s with lines := s.lines.modify conn f }

/-- The subscriptions that `reap` finds idle or dead. -/
def doomed (s : LiveState) : Subscriptions :=
  s.subs.filter fun entry => (s.lines[entry.2.conn]?).any (·.idle s.now)

/-- The second critical section of `reap`. -/
def removeAll (s : LiveState) (doomed : Subscriptions) : LiveState :=
  doomed.foldl (fun s entry =>
    { s with subs := s.subs.erase entry.1 }.onLine entry.2.conn fun line =>
      { line with alive := false, ticks := [] }) s

/-- What a request is answered where nothing fails, and what it does. Subscriptions are
numbered. -/
def answer (s : LiveState) (q : LiveRequest) : LiveAnswer q × LiveState :=
  match q with
  | .selectJwt _ _ => (.ok (.array [.string "jwt"]), s)
  | .countForTable tenant table => (s.subs.countForTable tenant table, s)
  | .connect => (.ok s.lines.length, { s with lines := s.lines ++ [{}] })
  | .call _ _ _ => (.ok .null, s)
  | .traceId => (toString (s.subs.length + 1), s)
  | .now => (s.now, s)
  | .insert id sub lastPolled =>
      ((), { s with subs := s.subs.insert id sub }.onLine sub.conn ({ · with lastPolled }))
  | .push conn tick => ((), s.onLine conn (·.push tick))
  | .get id => (s.subs.get id, s)
  | .poll conn => ((), s.onLine conn ({ · with lastPolled := s.now }))
  | .take conn =>
      (((s.lines[conn]?).map (·.ticks)).getD [], s.onLine conn ({ · with ticks := [] }))
  | .isAlive conn => ((s.lines[conn]?).any (·.alive), s)
  | .removeOwn id user =>
      let r := s.subs.removeOwn id user
      (r.1, { s with subs := r.2 })
  | .close conn => ((), s.onLine conn ({ · with alive := false }))
  | .doomed => (s.doomed, s)
  | .removeAll doomed => ((), s.removeAll doomed)

/-- What may be answered, and what it does: the database may refuse, and ids are any. -/
def Effect (s : LiveState) : (q : LiveRequest) → LiveAnswer q → LiveState → Prop
  | .selectJwt _ _, _, s' | .call _ _ _, _, s' | .traceId, _, s' => s' = s
  | .connect, r, s' =>
      (∃ e, r = .error e ∧ s' = s) ∨
        (r = .ok s.lines.length ∧ s' = { s with lines := s.lines ++ [{}] })
  | q, r, s' => (r, s') = s.answer q

/-- What happens meanwhile: time passes, and connections die. -/
def Meanwhile (s s' : LiveState) : Prop :=
  s'.subs = s.subs ∧ s.now ≤ s'.now ∧
    List.Forall₂ (fun line line' => line'.ticks = line.ticks ∧
      line'.lastPolled = line.lastPolled ∧ (line'.alive → line.alive)) s.lines s'.lines

/-- What a request may be answered, and what becomes of the state. -/
def Answers (s : LiveState) (q : LiveRequest) (r : LiveAnswer q) (s' : LiveState) : Prop :=
  ∃ s₁, Effect s q r s₁ ∧ Meanwhile s₁ s'

end LiveState

end Frust.Kernel
