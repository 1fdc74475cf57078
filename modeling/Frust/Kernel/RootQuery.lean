import Frust.Kernel.Contract
import Frust.Lib.Pool
import Frust.Rust.Str

/-!
# `Frust.Kernel.RootQuery`: a query as root

A batch is sent over HTTP, and the answer has one entry for each statement. The batch is sent again
when an entry has the wording of a write conflict, and once more with a fresh token when the error
reads as a rejected one. The n-th send is answered by the n-th of the replies.

Waiting between the sends, gauges and logs are left out. So is what a credential looks like: it is
a token or the password. The token of an endpoint is shared by all calls (`RootAuth`), and each
critical section on it is one request.
-/

set_option autoImplicit false

namespace Frust.Kernel

open Frust.Rust Frust.Lib

/-- The entry of a statement. An error's text is its printed `result`. -/
inductive StatementReply where
  | ok (result : Json)
  | err (text : String)

/-- The error of a statement. -/
def StatementReply.error? : StatementReply → Option String
  | .ok _ => none
  | .err text => some text

/-- The answer to one send. -/
inductive SqlReply where
  /-- No JSON came back: `transport`, `http` or `parse`, with what it says. -/
  | failed (detail : String)
  /-- JSON that is no array, printed. -/
  | other (text : String)
  | statements (ss : List StatementReply)

/-- `CONFLICT_RETRIES`. -/
def conflictRetries : Nat := 5

/-- `is_conflict`. -/
def isConflict (detail : String) : Bool :=
  Str.contains "Transaction conflict" detail || Str.contains "can be retried" detail

/-- `is_auth_failure`. Only ASCII letters are lowered to those of the word it looks for. -/
def isAuthFailure : BrokerError → Bool
  | .permissionDenied _ => true
  | .db detail =>
      Str.contains "401" detail || Str.contains "unauthor" (Str.toAsciiLowercase detail)
  | _ => false

/-- Some statement has an error with the wording of a conflict. -/
def SqlReply.conflicts : SqlReply → Bool
  | .statements ss => (ss.filterMap (·.error?)).any isConflict
  | _ => false

/-- What is returned of an answer without a conflict. -/
def SqlReply.answer : SqlReply → Except BrokerError Json
  | .failed detail => .error (.db detail)
  | .other text => .error (.db ("unexpected response: " ++ text))
  | .statements ss =>
      let errors := ss.filterMap (·.error?)
      match (errors.find? fun e => !Str.contains "not executed due to" e).or errors.head? with
      | some raw =>
          if Str.contains "Not enough permissions" raw then .error (.permissionDenied raw)
          else if Str.contains "FRUST:E_IDENTITY_UNRESOLVED" raw then .error .identityUnresolved
          else .error (.db raw)
      | none =>
          match ss.getLast? with
          | some (.ok result) => .ok result
          | _ => .ok .null

section

variable (replies : Nat → SqlReply)

/-- `sql_with_auth_inner`, from the n-th send on and with so many retries left. With the result
comes the number of the next send. -/
def sqlWithAuthInner : (left n : Nat) → Except BrokerError Json × Nat
  | left, n =>
      if (replies n).conflicts then
        match left with
        | left + 1 => sqlWithAuthInner left (n + 1)
        | 0 => (.error (.writeConflictExhausted (conflictRetries + 1)), n + 1)
      else ((replies n).answer, n + 1)

/-- `with_root_retry`. A password is not minted again. -/
def withRootRetry (bearer : Bool) (run : Nat → Except BrokerError Json × Nat) :
    Except BrokerError Json × Nat :=
  match run 0 with
  | (.error e, n) => if isAuthFailure e && bearer then run n else (.error e, n)
  | first => first

/-- `sql_root`: the result, and how many times the batch was sent. -/
def Db.sqlRoot (bearer : Bool) : Except BrokerError Json × Nat :=
  withRootRetry bearer (sqlWithAuthInner replies conflictRetries)

end

/-! ### The root token -/

/-- What is sent as the root user: a token, or the password. -/
inductive RootCredential where
  | basic
  | bearer (token : String)
  deriving DecidableEq

/-- `CachedRoot`. -/
structure CachedRoot where
  token : String
  refreshAt : Nat
  deriving DecidableEq

/-- What is done to the token of an endpoint: a sign-in, which mints one or fails, or the token is
given up. -/
inductive RootEvent where
  | signin (at_ : Nat) (minted : Option CachedRoot)
  | invalidated
  deriving DecidableEq

/-- `RootAuth`, with the time and what was done to it so far, the last first. `force_jwt` is set by
tests only. -/
structure RootAuth where
  now : Nat := 0
  cached : Option CachedRoot := none
  basicOnly : Bool := false
  log : List RootEvent := []

/-- What the calls of an endpoint ask. -/
inductive RootRequest where
  /-- The critical section of the fast path. -/
  | trusted
  /-- That of the slow path, with the sign-in. -/
  | mint
  /-- `invalidate_root_token`. -/
  | invalidate
  /-- `sql_as_root`. -/
  | send (credential : RootCredential)

/-- The answers. -/
abbrev RootAnswer : RootRequest → Type
  | .trusted => Option RootCredential
  | .mint => RootCredential
  | .invalidate => Unit
  | .send _ => Except BrokerError Json

namespace RootAuth

/-- A call's program. -/
abbrev RootProg := Prog BrokerError RootRequest RootAnswer

/-- `root_auth`, where `FRUST_ROOT_AUTH` is `jwt` or not. -/
def rootAuth (jwt : Bool) : RootProg RootCredential :=
  if !jwt then .done (.ok .basic)
  else
    .ask .trusted fun (r : Option RootCredential) =>
      match r with
      | some credential => .done (.ok credential)
      | none => .ask .mint fun (credential : RootCredential) => .done (.ok credential)

/-- `with_root_retry`, of a query. -/
def withRootRetry (jwt : Bool) : RootProg Json := do
  let auth ← rootAuth jwt
  .ask (.send auth) fun (first : Except BrokerError Json) =>
    match first, auth with
    | .error e, .bearer _ =>
        if isAuthFailure e then
          .ask .invalidate fun _ => do
            let fresh ← rootAuth jwt
            .ask (.send fresh) .done
        else .done first
    | _, _ => .done first

/-- The credential that is handed out without a sign-in. -/
def trusted (s : RootAuth) : Option RootCredential :=
  if s.basicOnly then some .basic
  else (s.cached.filter (s.now < ·.refreshAt)).map (.bearer ·.token)

section

-- `token_lifetime`
variable (lifetime : String → Nat)

/-- After a sign-in that was answered with a token or not. -/
def signedIn (s : RootAuth) (now : Nat) : Option String → RootCredential × RootAuth
  | some token =>
      let cached := some ⟨token, now + lifetime token⟩
      (.bearer token, { s with now, cached, log := .signin s.now cached :: s.log })
  | none => (.basic, { s with now, basicOnly := true, log := .signin s.now none :: s.log })

/-- Serves a request, with the time that a sign-in takes and what the store says to it and to a
query. -/
def serve (took : Nat) (token : Option String) (reply : RootCredential → Except BrokerError Json)
    (s : RootAuth) : (q : RootRequest) → RootAnswer q × RootAuth
  | .trusted => (s.trusted, s)
  | .mint =>
      match s.trusted with
      | some credential => (credential, s)
      | none => s.signedIn lifetime (s.now + took) token
  | .invalidate => ((), { s with cached := none, log := .invalidated :: s.log })
  | .send credential => (reply credential, s)

/-- What a request may be answered, and what it does. Any time may have passed before. -/
def Answers (s : RootAuth) (q : RootRequest) (r : RootAnswer q) (s' : RootAuth) : Prop :=
  ∃ now took token reply, s.now ≤ now ∧ { s with now }.serve lifetime took token reply q = (r, s')

end

end RootAuth

end Frust.Kernel
