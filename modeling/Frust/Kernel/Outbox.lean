import Frust.Kernel.Job
import Frust.Kernel.Store

/-!
# `Frust.Kernel.Outbox`: the mail outbox and its worker

A message to be sent is a row of `_frust_mail`. The worker claims a queued row with a
conditional `UPDATE`, which moves it to `sending`, gives it to the mailer, and then writes
what became of it. The result of that last write is ignored.

The mailer and the transport behind it are not modelled: a delivery is a request, and its
answer is a receipt or a `Failure`. An `OutboxWorld` is the table with the time and the
deliveries so far.
-/

set_option autoImplicit false

namespace Frust.Kernel

open Frust.Lib

/-- `MAX_ATTEMPTS`. -/
def maxMailAttempts : Int := 5

/-- How many ids a pass asks for. -/
def mailPassLimit : Nat := 200

/-- `Failure`. -/
inductive Failure where
  | transient (reason : String)
  | permanent (reason : String)
  deriving DecidableEq

/-- `Failure::reason`. -/
def Failure.reason : Failure → String
  | transient m => m
  | permanent m => m

/-! ### Rows -/

/-- The `status` column. -/
inductive MailStatus where
  | queued | sending | sent | dead
  deriving DecidableEq

/-- The text of a status. -/
def MailStatus.text : MailStatus → String
  | queued => "queued"
  | sending => "sending"
  | sent => "sent"
  | dead => "dead"

/-- A row of `_frust_mail`. Whoever writes a message writes its attempts, from 0 on. -/
structure OutboxRow where
  notification : Value := .null
  doctype : Value := .null
  record : Value := .null
  /-- `to`. -/
  recipients : Value := .null
  subject : Value := .null
  body : Value := .null
  tenant : Value := .null
  trace : Value := .null
  enqueuedAt : Time := 0
  status : MailStatus := .queued
  attempts : Int := 0
  claimedBy : Option String := none
  claimedAt : Option Time := none
  receipt : Option String := none
  sentAt : Option Time := none
  lastError : Option String := none
  finishedAt : Option Time := none

/-- A message: its record id and its row. -/
abbrev OutboxRecord := String × OutboxRow

/-- The outbox of a tenant's database. -/
abbrev OutboxTable := List OutboxRecord

/-- `MailRow`. -/
structure MailRow where
  id : String
  notification : String
  /-- `to`. -/
  recipients : List String
  subject : String
  body : String
  attempts : Int
  trace : Option String
  deriving DecidableEq

/-- The texts of an array. -/
def textsOf : Json → List String
  | .array items => items.filterMap Json.asStr
  | _ => []

/-- The claimed row, as the worker reads it. -/
def mailRowOf (id : String) (row : OutboxRow) : MailRow :=
  let text (v : Value) := v.toJson.asStr
  { id := id
    notification := (text row.notification).getD ""
    recipients := textsOf row.recipients.toJson
    subject := (text row.subject).getD ""
    body := (text row.body).getD ""
    attempts := row.attempts
    trace := text row.trace }

/-! ### Statements -/

/-- An assignment to a column. -/
inductive MailSet where
  | status (s : MailStatus)
  | claimedBy (worker : Option String)
  | claimedNow
  | receipt (s : String)
  | sentNow
  /-- One more attempt. -/
  | attempted
  | attempts (n : Int)
  | lastError (s : String)
  | finishedNow
  deriving DecidableEq

namespace MailSet

/-- The text of an assignment. -/
def text : MailSet → String
  | status s => "status = '" ++ s.text ++ "'"
  | claimedBy worker => "claimed_by = " ++ JobSet.literal worker
  | claimedNow => "claimed_at = time::now()"
  | receipt s => "receipt = '" ++ escapeStr s ++ "'"
  | sentNow => "sent_at = time::now()"
  | attempted => "attempts = attempts + 1"
  | attempts n => "attempts = " ++ toString n
  | lastError s => "last_error = '" ++ escapeStr s ++ "'"
  | finishedNow => "finished_at = time::now()"

/-- An assignment, at a time. -/
def apply (now : Time) (row : OutboxRow) : MailSet → OutboxRow
  | status s => { row with status := s }
  | claimedBy worker => { row with claimedBy := worker }
  | claimedNow => { row with claimedAt := some now }
  | receipt s => { row with receipt := some s }
  | sentNow => { row with sentAt := some now }
  | attempted => { row with attempts := row.attempts + 1 }
  | attempts n => { row with attempts := n }
  | lastError s => { row with lastError := some s }
  | finishedNow => { row with finishedAt := some now }

end MailSet

/-- A statement on `_frust_mail`. -/
inductive MailStatement where
  /-- The queued messages. -/
  | queuedIds
  /-- `UPDATE` of a record, if it is queued or in any case. -/
  | update (rid : String) (sets : List MailSet) (ifQueued : Bool)

namespace MailStatement

/-- The text of a statement. -/
def text : MailStatement → Except BrokerError String
  | queuedIds => .ok ("SELECT id, enqueued_at FROM _frust_mail WHERE status = 'queued' "
      ++ "ORDER BY enqueued_at LIMIT " ++ toString mailPassLimit ++ ";")
  | update rid sets ifQueued => do
      let target ← renderValue (.recordId rid)
      return "UPDATE " ++ target ++ " SET " ++ ", ".intercalate (sets.map MailSet.text)
        ++ (if ifQueued then " WHERE status = 'queued'" else "") ++ ";"

/-- What a statement answers. -/
def Rows : MailStatement → Type
  | queuedIds => List String
  | update _ _ _ => List OutboxRecord

end MailStatement

/-- The claim of a message. -/
def claimMailSql (id workerId : String) : MailStatement :=
  .update id [.status .sending, .claimedBy (some workerId), .claimedNow] true

/-- What `mark_sent` writes. -/
def markSent (receipt : String) : List MailSet :=
  [.status .sent, .receipt receipt, .sentNow, .attempted]

/-- What `mark_retry` writes. -/
def markRetry (attempts : Int) (detail : String) : List MailSet :=
  [.status .queued, .claimedBy none, .attempts attempts, .lastError detail]

/-- What `mark_dead` writes. -/
def markDead (attempts : Int) (detail : String) : List MailSet :=
  [.status .dead, .attempts attempts, .lastError detail, .finishedNow]

/-- `Failure::Permanent`. -/
def Failure.isPermanent : Failure → Bool
  | transient _ => false
  | permanent _ => true

/-- What is written of a message that was claimed after this many attempts. -/
def outcomeSets (attempts : Int) : Except Failure String → List MailSet
  | .ok receipt => markSent receipt
  | .error failure =>
      if failure.isPermanent || maxMailAttempts ≤ attempts + 1 then
        markDead (attempts + 1) failure.reason
      else markRetry (attempts + 1) failure.reason

/-- The write of a message's outcome. -/
def markSql (row : MailRow) (result : Except Failure String) : MailStatement :=
  .update row.id (outcomeSets row.attempts result) false

/-! ### The worker -/

/-- What a mail worker asks: a statement, or a delivery. The mailer is given the addresses,
the subject and the body. -/
inductive MailRequest where
  | sql (stmt : MailStatement)
  | deliver (row : MailRow)

/-- The answers. -/
def MailAnswer : MailRequest → Type
  | .sql stmt => Except BrokerError stmt.Rows
  | .deliver _ => Except Failure String

/-- What a mail worker does, or a part of it. -/
abbrev MailWork := Prog BrokerError MailRequest MailAnswer

namespace MailWork

/-- A request that does not fail. -/
def ask (q : MailRequest) : MailWork (MailAnswer q) := Prog.ask q fun r => .done (.ok r)

/-- A statement whose failure is looked at. -/
def trySql (stmt : MailStatement) : MailWork (Except BrokerError stmt.Rows) :=
  match stmt.text with
  | .ok _ => ask (.sql stmt)
  | .error e => pure (.error e)

/-- `sql_root`. -/
def sqlRoot (stmt : MailStatement) : MailWork stmt.Rows := do
  let r ← trySql stmt
  .done r

end MailWork

open MailWork

/-- `MailWorker`. -/
structure MailWorker where
  workerId : String
  deriving DecidableEq

namespace MailWorker

/-- `queued_ids`. -/
def queuedIds : MailWork (List String) := sqlRoot .queuedIds

variable (w : MailWorker)

/-- `try_claim_mail`. -/
def tryClaimMail (id : String) : MailWork (Option MailRow) := do
  let rows ← sqlRoot (claimMailSql id w.workerId)
  return (List.head? (α := OutboxRecord) rows).map fun record => mailRowOf id record.2

/-- `send_one`: whether the message was delivered. -/
def sendOne (row : MailRow) : MailWork Bool := do
  let result ← ask (.deliver row)
  -- whatever becomes of the write
  let _ ← trySql (markSql row result)
  return Except.isOk (ε := Failure) result

/-- The messages of a pass, and how many were delivered. -/
def drainIds : List String → MailWork Nat
  | [] => pure 0
  | id :: rest => do
      match ← w.tryClaimMail id with
      | none => drainIds rest
      | some row => do
          let delivered ← sendOne row
          let sent ← drainIds rest
          return (if delivered then 1 else 0) + sent

/-- `drain`. -/
def drain : MailWork Nat := do
  let ids ← queuedIds
  w.drainIds ids

/-- Passes, one after the other. One that fails ends; the next one is made all the same. -/
def passes : (count : Nat) → MailWork Unit
  | 0 => pure ()
  | count + 1 => do
      let _ ← w.drain.attempt
      passes count

end MailWorker

/-! ### Workers side by side on one outbox -/

/-- The outbox and what was given to the mailer. -/
structure OutboxWorld where
  now : Time
  rows : OutboxTable
  /-- The deliveries: the message, and what became of it. -/
  sends : List (String × Except Failure String)

namespace OutboxTable

/-- The `UPDATE` takes a message. -/
def hits (rid : String) (ifQueued : Bool) (record : OutboxRecord) : Bool :=
  rid = record.1 && (!ifQueued || record.2.status = .queued)

/-- One message after an `UPDATE`. -/
def updated (now : Time) (rid : String) (sets : List MailSet) (ifQueued : Bool)
    (record : OutboxRecord) : OutboxRecord :=
  if hits rid ifQueued record then (record.1, sets.foldl (MailSet.apply now) record.2) else record

/-- The outbox after an `UPDATE`. -/
def update (now : Time) (rid : String) (sets : List MailSet) (ifQueued : Bool)
    (table : OutboxTable) : OutboxTable := table.map (updated now rid sets ifQueued)

/-- What an `UPDATE` answers: the rows that it took, afterwards. -/
def updatedRows (now : Time) (rid : String) (sets : List MailSet) (ifQueued : Bool)
    (table : OutboxTable) : List OutboxRecord :=
  (table.filter (hits rid ifQueued)).map fun record =>
    (record.1, sets.foldl (MailSet.apply now) record.2)

/-- The queued messages. -/
def queued (table : OutboxTable) : OutboxTable := table.filter fun record => record.2.status = .queued

/-- The first queued messages, by the time they were enqueued. -/
def Lists (table : OutboxTable) (ids : List String) : Prop :=
  ∃ sorted : OutboxTable, sorted.Perm table.queued ∧
    sorted.Pairwise (fun a b => a.2.enqueuedAt ≤ b.2.enqueuedAt) ∧
    ids = (sorted.take mailPassLimit).map (·.1)

end OutboxTable

namespace OutboxWorld

/-- What a statement may answer, and what becomes of the world. A statement that fails may
have taken effect. -/
def Executes (w : OutboxWorld) : (stmt : MailStatement) → Except BrokerError stmt.Rows →
    OutboxWorld → Prop
  | .queuedIds, r, w' => w' = w ∧ ∀ ids, r = .ok ids → w.rows.Lists ids
  | .update rid sets ifQueued, r, w' =>
      (r = .ok (w.rows.updatedRows w.now rid sets ifQueued) ∧
          w' = { w with rows := w.rows.update w.now rid sets ifQueued }) ∨
        ∃ e, r = .error e ∧ (w' = w ∨ w' = { w with rows := w.rows.update w.now rid sets ifQueued })

/-- What a request may be answered. Any time may have passed before a statement, and a
delivery may end in any way. -/
def Answers (w : OutboxWorld) : (q : MailRequest) → MailAnswer q → OutboxWorld → Prop
  | .sql stmt, r, w' => ∃ now, w.now ≤ now ∧ Executes { w with now := now } stmt r w'
  | .deliver row, r, w' => w' = { w with sends := (row.id, r) :: w.sends }

/-- Serves a worker, where no statement fails. -/
def serve (deliver : MailRow → Except Failure String) (w : OutboxWorld) :
    (q : MailRequest) → MailAnswer q × OutboxWorld
  | .sql .queuedIds =>
      (.ok (((w.rows.queued.insertionSort fun a b => a.2.enqueuedAt ≤ b.2.enqueuedAt).take
        mailPassLimit).map (·.1)), w)
  | .sql (.update rid sets ifQueued) =>
      (.ok (w.rows.updatedRows w.now rid sets ifQueued),
        { w with rows := w.rows.update w.now rid sets ifQueued })
  | .deliver row => (deliver row, { w with sends := (row.id, deliver row) :: w.sends })

end OutboxWorld

end Frust.Kernel
