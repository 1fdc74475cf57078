import Frust.Kernel.Routes
import Frust.Lib.GenCache

/-!
# `Frust.Kernel.Session`: who a token is

A sign-in stores a row with a new secret. A request that carries the secret is admitted as the
row's user, by the row itself or by the session cache of the process. A logout and a revocation
delete rows first and bump the tenant's session generation then.

The programs below are the requests of one process, as far as they touch sessions. The tenant
of a token is found before (`Frust.Kernel.Tenancy`). What the kernel does for an admitted
request is the one request `serve`, a sign-in's access check is `signin`, and the secrets are
the database's own.
-/

set_option autoImplicit false

namespace Frust.Kernel

open Frust.Lib

/-- A row of the session table. -/
structure SessionRow where
  token : String
  user : Option String
  role : Option String
  jwt : Option String
  deriving DecidableEq

/-- The session table of a tenant, and the secrets that rows were ever created with. -/
structure SessionTable where
  rows : List SessionRow
  minted : List String

namespace SessionTable

/-- The row that carries a secret. -/
def find (table : SessionTable) (token : String) : Option SessionRow :=
  table.rows.find? (·.token = token)

/-- `DELETE ... WHERE token`. -/
def deleteToken (token : String) (table : SessionTable) : SessionTable :=
  { table with rows := table.rows.filter (·.token ≠ token) }

/-- `DELETE ... WHERE user`. -/
def deleteUser (user : String) (table : SessionTable) : SessionTable :=
  { table with rows := table.rows.filter (·.user ≠ some user) }

/-- `CREATE`. -/
def create (row : SessionRow) (table : SessionTable) : SessionTable :=
  ⟨table.rows ++ [row], row.token :: table.minted⟩

end SessionTable

/-- The key of the session cache. -/
structure SessionKey where
  tenant : String
  token : String
  deriving DecidableEq

/-- What the session cache keeps, but for the generation. Times are in milliseconds. -/
structure SessionEntry where
  since : Nat
  caller : Caller
  jwt : String
  deriving DecidableEq

/-- `SESSION_TTL`. -/
def sessionTtl : Nat := 5000

/-- What the requests of a process ask for. -/
inductive SessionRequest where
  | generation (tenant : String)
  | lookup (k : SessionKey)
  | now
  /-- `SELECT user, role, jwt ... LIMIT 1`. No row, and no such table, are no session. -/
  | select (k : SessionKey)
  | insert (k : SessionKey) (gen : Nat) (entry : SessionEntry)
  /-- `seed_token`. -/
  | seedToken (tenant user jwt : String)
  /-- The rest of the kernel serves the request under the caller. -/
  | serve (k : SessionKey) (caller : Caller)
  | deleteToken (k : SessionKey)
  /-- Answers with the number of rows. -/
  | deleteUser (tenant user : String)
  /-- `invalidate_sessions`. -/
  | bump (tenant : String)
  /-- `signin`. -/
  | signin (tenant user pass : String)
  /-- `status` and `role` of a user. -/
  | appUser (tenant user : String)
  /-- `rand::string(64)`. -/
  | mint (tenant : String)
  | create (tenant : String) (row : SessionRow)

/-- The answers. -/
abbrev SessionAnswer : SessionRequest → Type
  | .generation _ => Nat
  | .lookup _ => Option (Nat × SessionEntry)
  | .now => Nat
  | .select _ => Except BrokerError (Option SessionRow)
  | .serve _ _ => Except BrokerError Unit
  | .deleteToken _ => Except BrokerError Unit
  | .deleteUser _ _ => Except BrokerError Nat
  | .signin _ _ _ => Except BrokerError String
  | .appUser _ _ => Except BrokerError (Option String × Option String)
  | .mint _ => Except BrokerError String
  | .create _ _ => Except BrokerError Unit
  | .insert _ _ _ | .seedToken _ _ _ | .bump _ => Unit

/-- A program of the process. -/
abbrev SessionProg := Prog BrokerError SessionRequest SessionAnswer

namespace Session

/-- Asks a request that may fail. -/
def ask {α : Type} (q : SessionRequest) (h : SessionAnswer q = Except BrokerError α) :
    SessionProg α := .ask q fun r => .done (h ▸ r)

/-- `unauthenticated`. -/
def unauthenticated : BrokerError := .permissionDenied "E_UNAUTHENTICATED"

/-- The principal of a row. Its password stays empty. -/
def callerOf (row : SessionRow) : Caller := ⟨row.user.getD "", "", row.role.getD "guest"⟩

/-- The part of `session_caller` that reads the row. -/
def readRow (k : SessionKey) (gen : Nat) : SessionProg Caller := do
  match ← ask (.select k) rfl with
  | none => .done (.error unauthenticated)
  | some row =>
      let caller := callerOf row
      let jwt := row.jwt.getD ""
      let kept : SessionProg Caller :=
        .ask .now fun (now : Nat) => .ask (.insert k gen ⟨now, caller, jwt⟩) fun _ =>
          .done (.ok caller)
      if jwt = "" then kept
      else .ask (.seedToken k.tenant caller.user jwt) fun _ => kept

/-- `session_caller`. -/
def sessionCaller (k : SessionKey) : SessionProg Caller :=
  if !TenantRouter.isSecret k.token then .done (.error unauthenticated)
  else
    .ask (.generation k.tenant) fun (gen : Nat) =>
      .ask (.lookup k) fun (cached : Option (Nat × SessionEntry)) =>
        match cached with
        | none => readRow k gen
        | some (g, entry) =>
            .ask .now fun (now : Nat) =>
              if g = gen ∧ now - entry.since < sessionTtl then
                .ask (.seedToken k.tenant entry.caller.user entry.jwt) fun _ =>
                  .done (.ok entry.caller)
              else readRow k gen

/-- `require_manager`. -/
def requireManager (caller : Caller) : Except BrokerError Unit :=
  if caller.role = "manager" then .ok () else .error (.permissionDenied "manager role required")

/-- What an admitted request is for. -/
inductive Action where
  | logout
  | revoke (user : String)
  | other
  deriving DecidableEq

/-- `dispatch`, as far as sessions go. -/
def dispatch (k : SessionKey) (caller : Caller) : Action → SessionProg Unit
  | .logout => do
      ask (.deleteToken k) rfl
      .ask (.bump k.tenant) fun _ => .done (.ok ())
  | .revoke user => do
      Prog.done (requireManager caller)
      Prog.done (checkIdent user)
      let _ ← ask (.deleteUser k.tenant user) rfl
      .ask (.bump k.tenant) fun _ => .done (.ok ())
  | .other => ask (.serve k caller) rfl

/-- `login`. -/
def login (tenant user pass : String) : SessionProg Unit :=
  if user = "" then .done (badValue "login needs user + pass")
  else do
    let jwt ← ask (.signin tenant user pass) rfl
    let (status, role) ← ask (.appUser tenant user) rfl
    if status.any (· ≠ "active") then .done (.error (.permissionDenied "account disabled"))
    else
      let secret ← ask (.mint tenant) rfl
      if !TenantRouter.isSecret secret then .done (.error (.db "token mint failed"))
      else ask (.create tenant ⟨secret, some user, some (role.getD "guest"), some jwt⟩) rfl

/-- A request of the process. -/
inductive Thread where
  | login (tenant user pass : String)
  | request (k : SessionKey) (action : Action)

/-- What a request runs. -/
def Thread.prog : Thread → SessionProg Unit
  | .login tenant user pass => Session.login tenant user pass
  | .request k action => do
      let caller ← sessionCaller k
      dispatch k caller action

end Session

/-! ### The process -/

/-- The tenants' session tables and generations, and the session cache. -/
abbrev SessionState := GenCache String SessionKey SessionTable fun _ => SessionEntry

namespace SessionState

/-- A process that has just started. -/
def start (rows : String → List SessionRow) : SessionState where
  version _ := 0
  content t _ := ⟨rows t, (rows t).map (·.token)⟩
  gen _ := 0
  began _ _ := 0
  cache _ := none

/-- What a request may be answered, and what becomes of the state. A statement may fail, with an
effect or without, and a clock may show any time. -/
def Answers (s : SessionState) : (q : SessionRequest) → SessionAnswer q → SessionState → Prop
  | .generation t, g, s' => g = s.gen t ∧ s' = s
  | .lookup k, entry, s' => entry = s.cache k ∧ s' = s
  | .select k, r, s' => s' = s ∧
      ((∃ e, r = .error e) ∨ r = .ok none ∨ r = .ok ((s.current k.tenant).find k.token))
  | .insert k g entry, _, s' => s' = s.insert k g entry
  | .deleteToken k, r, s' =>
      s' = s.commit k.tenant (.deleteToken k.token) ∨ (s' = s ∧ ∃ e, r = .error e)
  | .deleteUser t user, r, s' => s' = s.commit t (.deleteUser user) ∨ (s' = s ∧ ∃ e, r = .error e)
  | .bump t, _, s' => s' = s.bump t
  | .create t row, r, s' => s' = s.commit t (.create row) ∨ (s' = s ∧ ∃ e, r = .error e)
  | .now, _, s' | .seedToken _ _ _, _, s' | .serve _ _, _, s' | .signin _ _ _, _, s'
  | .appUser _ _, _, s' | .mint _, _, s' => s' = s

/-- The answers where nothing fails, at one time, to users whose accounts are active. -/
def answer (now : Nat) (s : SessionState) (q : SessionRequest) : SessionAnswer q × SessionState :=
  match q with
  | .generation t => (s.gen t, s)
  | .lookup k => (s.cache k, s)
  | .now => (now, s)
  | .select k => (.ok ((s.current k.tenant).find k.token), s)
  | .insert k g entry => ((), s.insert k g entry)
  | .seedToken _ _ _ => ((), s)
  | .serve _ _ => (.ok (), s)
  | .deleteToken k => (.ok (), s.commit k.tenant (.deleteToken k.token))
  | .deleteUser t user =>
      (.ok ((s.current t).rows.countP (·.user = some user)), s.commit t (.deleteUser user))
  | .bump t => ((), s.bump t)
  | .signin _ _ _ => (.ok "jwt", s)
  | .appUser _ _ => (.ok (some "active", some "manager"), s)
  | .mint _ => (.ok "secret", s)
  | .create t row => (.ok (), s.commit t (.create row))

/-- Who a token is, to a request that no other step comes in between. -/
def callerNow (now : Nat) (s : SessionState) (k : SessionKey) : Except BrokerError Caller :=
  ((Session.sessionCaller k).run (answer now) s).1

end SessionState

end Frust.Kernel
