import Frust.Kernel.RootQuery
import Frust.Kernel.Wire

/-!
# `Frust.Kernel.Keyguard`: the guard against a restored key

A dump has the placeholder `[REDACTED]` in the place of the key that signs sessions, and a restore
makes that the key. So before a kernel serves, it sends a query with a token that is signed with the
placeholder. A store that takes the token is refused.

The answer is read from the error of the query, as a text. What the token says is left out: it is for
nobody, and only its signature matters. How a body is read as JSON is a parameter, and so are the
answers to the sends; the n-th send is answered by the n-th.
-/

set_option autoImplicit false

namespace Frust.Kernel

open Frust.Rust

/-- A status, which has three digits. -/
structure HttpStatus where
  code : Nat
  three : 100 ≤ code ∧ code < 1000

/-- `(200..300).contains`. -/
def HttpStatus.isSuccess (status : HttpStatus) : Bool := 200 ≤ status.code && status.code < 300

/-- What comes of a request. -/
inductive HttpReply where
  /-- No answer came. -/
  | transport (text : String)
  /-- An answer came, and its body could not be read. -/
  | unreadable (status : HttpStatus) (text : String)
  | response (status : HttpStatus) (body : String)

/-- The text that a SurrealDB error has under a key. -/
def messageAt (body : Json) (key : String) : Option String :=
  match (body.get key).bind Json.asStr with
  | some s => if s ≠ "" then some s else none
  | none => none

/-- `surreal_message`. -/
def surrealMessage (body : Json) : String :=
  (["information", "details", "description"].findSome? (messageAt body)).getD body.text

section

variable (parse : String → Except String Json)

/-- `surreal_message_of`. -/
def surrealMessageOf (text : String) : String :=
  match parse text with
  | .error _ => Str.trim text
  | .ok v => surrealMessage v

/-- `send` and `read_json`. -/
def HttpReply.readJson : HttpReply → Except String Json
  | .transport text => .error ("transport: " ++ text)
  | .unreadable _ text => .error ("read body: " ++ text)
  | .response status body =>
      if !status.isSuccess then
        .error ("http " ++ toString status.code ++ ": " ++ surrealMessageOf parse body)
      else
        match parse body with
        | .error e => .error ("parse: " ++ e)
        | .ok v => .ok v

/-- The entry of a statement in the answer. -/
def statementReply (stmt : Json) : StatementReply :=
  if (stmt.get "status").bind Json.asStr = some "OK" then .ok ((stmt.get "result").getD .null)
  else .err (((stmt.get "result").map Json.text).getD "")

/-- The answer to a query. -/
def HttpReply.sqlReply (r : HttpReply) : SqlReply :=
  match r.readJson parse with
  | .error detail => .failed detail
  | .ok (.array items) => .statements (items.map statementReply)
  | .ok other => .other other.text

end

/-- The text of an error that is taken for a refusal of the token. Only ASCII letters are lowered to
those of the word. -/
def readsAsRefusal (detail : String) : Bool :=
  Str.contains "401" detail || Str.contains "unauthor" (Str.toAsciiLowercase detail)

/-- `store_accepts_key`, by the result of the query. -/
def storeAcceptsKey : Except BrokerError Json → Except BrokerError Bool
  | .ok _ => .ok true
  | .error (.permissionDenied _) => .ok false
  | .error (.db detail) => if readsAsRefusal detail then .ok false else .error (.db detail)
  | .error e => .error e

/-- `REDACTED_KEY`. -/
def redactedKey : String := "[REDACTED]"

/-- `restored_key_remediation_ddl`. -/
def restoredKeyRemediationDdl : String :=
  "DEFINE ACCESS OVERWRITE <access-name> ON DATABASE TYPE RECORD "
    ++ "SIGNIN (SELECT * FROM app_user WHERE name = $name AND crypto::argon2::compare(pass, $pass)) "
    ++ "WITH JWT ALGORITHM HS512 KEY '<a fresh high-entropy secret>' "
    ++ "DURATION FOR TOKEN 1h, FOR SESSION 12h;"

/-- The refusal of a store that takes the token. -/
def restoredKeyText (access : String) : String :=
  "FRUST:E_RESTORED_ACCESS_KEY: this database accepts tokens signed with SurrealDB's export placeholder"
    ++ " key ('" ++ redactedKey ++ "'), so ANY party can forge a session for ANY user. This is what a"
    ++ " \u0060surreal import\u0060 of an exported dump leaves behind — the key is redacted on export and"
    ++ " restored literally.\nREMEDY: re-issue the record access (yours is named '" ++ access
    ++ "') with a fresh secret before serving —\n  " ++ restoredKeyRemediationDdl
    ++ "\nUse OVERWRITE: the IF-NOT-EXISTS form is a no-op against an existing access and fixes"
    ++ " nothing. Existing sessions do not survive a restore in any case. There is deliberately no flag"
    ++ " to serve anyway."

/-- `assert_access_key_is_not_redacted`. -/
def assertAccessKeyIsNotRedacted (access : String) (parse : String → Except String Json)
    (replies : Nat → HttpReply) : Except BrokerError Unit :=
  match storeAcceptsKey
      (sqlWithAuthInner (fun n => (replies n).sqlReply parse) conflictRetries 0).1 with
  | .error e => .error e
  | .ok true => .error (.permissionDenied (restoredKeyText access))
  | .ok false => .ok ()

end Frust.Kernel
