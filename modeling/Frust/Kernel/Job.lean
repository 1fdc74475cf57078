import Frust.Kernel.Surql
import Mathlib.Algebra.Group.Int.Defs

/-!
# `Frust.Kernel.Job`: the job table

A job is a record, and the state of the queue is data. `JobRow` has the columns that the
workers read and write; what a job's handler owns is kept as it was stored. A condition
and an assignment have both a text and a meaning, so that a statement is the query that is
sent and says what it does. `NONE` sorts below everything else, which the comparisons of
`attempts` and `lease_expires_at` rely on.

`JobTable.update` is one `UPDATE` statement. It is atomic: it takes the rows that satisfy
its condition, and answers with them as they are afterwards.
-/

set_option autoImplicit false

namespace Frust.Kernel

/-- `JOB_LEASE_SECONDS`. -/
def jobLeaseSeconds : Nat := 300

/-- `MAX_JOB_ATTEMPTS`. -/
def maxJobAttempts : Nat := 5

/-- `HEAD_PER_TENANT`. -/
def headPerTenant : Nat := 10

/-- A point in time, in nanoseconds. -/
abbrev Time := Nat

/-- The time `s` seconds later. -/
def Time.plusSecs (t : Time) (s : Nat) : Time := t + s * 10 ^ 9

/-! ### Rows -/

/-- The `status` column. -/
inductive JobStatus where
  | queued | running | done | denied | dead
  deriving DecidableEq

/-- The text of a status. -/
def JobStatus.text : JobStatus → String
  | queued => "queued"
  | running => "running"
  | done => "done"
  | denied => "denied"
  | dead => "dead"

/-- A row of `job`. -/
structure JobRow where
  kind : Value := .null
  payload : Value := .null
  requestedBy : Value := .null
  tenant : Value := .null
  trace : Value := .null
  enqueuedAt : Option Time := none
  status : JobStatus := .queued
  attempts : Option Int := some 0
  claimedBy : Option String := none
  claimToken : Option String := none
  claimedAt : Option Time := none
  leaseExpiresAt : Option Time := none
  finishedAt : Option Time := none
  terminalReason : Option String := none
  lastError : Option String := none
  detail : Option String := none

/-- A job: its record id and its row. -/
abbrev JobRecord := String × JobRow

/-! ### Conditions -/

/-- A condition on a row of `job`. -/
inductive JobCond where
  | status (s : JobStatus)
  | attemptsNone
  /-- Attempts are left. -/
  | attemptsBelow
  /-- No attempts are left. -/
  | attemptsSpent
  | leased
  | expired
  | claimedBy (worker : String)
  | claimToken (token : String)
  | and (a b : JobCond)
  | or (a b : JobCond)
  | paren (a : JobCond)
  deriving DecidableEq

namespace JobCond

/-- The text of a condition. -/
def text : JobCond → String
  | status s => "status = '" ++ s.text ++ "'"
  | attemptsNone => "attempts = NONE"
  | attemptsBelow => "attempts < " ++ toString maxJobAttempts
  | attemptsSpent => "attempts >= " ++ toString maxJobAttempts
  | leased => "lease_expires_at != NONE"
  | expired => "lease_expires_at <= time::now()"
  | claimedBy worker => "claimed_by = '" ++ escapeStr worker ++ "'"
  | claimToken token => "claim_token = '" ++ escapeStr token ++ "'"
  | and a b => a.text ++ " AND " ++ b.text
  | or a b => a.text ++ " OR " ++ b.text
  | paren a => "(" ++ a.text ++ ")"

/-- A condition on a row, at a time. -/
def holds (now : Time) (row : JobRow) : JobCond → Bool
  | status s => row.status = s
  | attemptsNone => row.attempts.isNone
  | attemptsBelow => row.attempts.all (· < (maxJobAttempts : Int))
  | attemptsSpent => row.attempts.any ((maxJobAttempts : Int) ≤ ·)
  | leased => row.leaseExpiresAt.isSome
  | expired => row.leaseExpiresAt.all (· ≤ now)
  | claimedBy worker => row.claimedBy = some worker
  | claimToken token => row.claimToken = some token
  | and a b => a.holds now row && b.holds now row
  | or a b => a.holds now row || b.holds now row
  | paren a => a.holds now row

end JobCond

/-- `ClaimSource`. -/
inductive ClaimSource where
  | queued | expiredLease
  deriving DecidableEq

/-- `ClaimSource::predicate`. -/
def ClaimSource.predicate : ClaimSource → JobCond
  | queued => .and (.status .queued) (.paren (.or .attemptsNone .attemptsBelow))
  | expiredLease => .and (.and (.and (.status .running) .leased) .expired) .attemptsBelow

/-- `eligible_predicate`. -/
def eligiblePredicate : JobCond :=
  .paren (.or (.paren ClaimSource.queued.predicate) (.paren ClaimSource.expiredLease.predicate))

/-- The condition of `reap_exhausted`. -/
def exhaustedPredicate : JobCond :=
  .and .attemptsSpent
    (.paren (.or (.status .queued) (.paren (.and (.and (.status .running) .leased) .expired))))

/-! ### Assignments -/

/-- An assignment to a column. -/
inductive JobSet where
  | status (s : JobStatus)
  | claimedBy (worker : Option String)
  | claimToken (token : Option String)
  | claimedNow
  | unclaimed
  /-- A lease from now on. -/
  | leased
  | unleased
  /-- One more attempt. -/
  | attempted
  | finishedNow
  | terminalReason (s : String)
  | lastError (s : String)
  | detail (s : String)
  deriving DecidableEq

namespace JobSet

/-- A text literal, or `NONE`. -/
def literal : Option String → String
  | some s => "'" ++ escapeStr s ++ "'"
  | none => "NONE"

/-- The text of an assignment. -/
def text : JobSet → String
  | status s => "status = '" ++ s.text ++ "'"
  | claimedBy worker => "claimed_by = " ++ literal worker
  | claimToken token => "claim_token = " ++ literal token
  | claimedNow => "claimed_at = time::now()"
  | unclaimed => "claimed_at = NONE"
  | leased => "lease_expires_at = time::now() + " ++ toString jobLeaseSeconds ++ "s"
  | unleased => "lease_expires_at = NONE"
  | attempted => "attempts = IF attempts = NONE \x7b 1 \x7d ELSE \x7b attempts + 1 \x7d"
  | finishedNow => "finished_at = time::now()"
  | terminalReason s => "terminal_reason = '" ++ escapeStr s ++ "'"
  | lastError s => "last_error = '" ++ escapeStr s ++ "'"
  | detail s => "detail = '" ++ escapeStr s ++ "'"

/-- An assignment, at a time. -/
def apply (now : Time) (row : JobRow) : JobSet → JobRow
  | status s => { row with status := s }
  | claimedBy worker => { row with claimedBy := worker }
  | claimToken token => { row with claimToken := token }
  | claimedNow => { row with claimedAt := some now }
  | unclaimed => { row with claimedAt := none }
  | leased => { row with leaseExpiresAt := some (now.plusSecs jobLeaseSeconds) }
  | unleased => { row with leaseExpiresAt := none }
  | attempted => { row with attempts := some (row.attempts.elim 1 (· + 1)) }
  | finishedNow => { row with finishedAt := some now }
  | terminalReason s => { row with terminalReason := some s }
  | lastError s => { row with lastError := some s }
  | detail s => { row with detail := some s }

end JobSet

/-- The assignments of a `SET`, one after the other. -/
def applySets (now : Time) (sets : List JobSet) (row : JobRow) : JobRow :=
  sets.foldl (JobSet.apply now) row

/-! ### Statements -/

/-- A statement on `job`. -/
inductive JobStatement where
  /-- `UPDATE ... SET ... WHERE ...`, of one record or of the whole table. -/
  | update (rid : Option String) (sets : List JobSet) (cond : JobCond)
  /-- The tenants with eligible jobs. -/
  | tenants
  /-- The first eligible jobs of a tenant. -/
  | heads (tenant : String)

/-- The text of a statement. -/
def JobStatement.text : JobStatement → Except BrokerError String
  | update rid sets cond => do
      let target ← match rid with
        | some rid => renderValue (.recordId rid)
        | none => pure "job"
      return "UPDATE " ++ target ++ " SET " ++ ", ".intercalate (sets.map JobSet.text)
        ++ " WHERE " ++ cond.text ++ ";"
  | tenants => .ok ("SELECT tenant FROM job WHERE " ++ eligiblePredicate.text
      ++ " GROUP BY tenant;")
  | heads tenant => .ok ("SELECT id, enqueued_at, status FROM job WHERE "
      ++ eligiblePredicate.text ++ " AND tenant = '" ++ escapeStr tenant
      ++ "' ORDER BY enqueued_at LIMIT " ++ toString headPerTenant ++ ";")

/-- What a statement answers. -/
def JobStatement.Rows : JobStatement → Type
  | update _ _ _ => List JobRecord
  | tenants => List Value
  | heads _ => List JobRecord

/-- What a claim writes. -/
def claimSets (workerId token : String) : List JobSet :=
  [.status .running, .claimedBy (some workerId), .claimToken (some token), .claimedNow,
    .leased, .attempted]

/-- `claim_sql`. -/
def claimSql (jobId workerId token : String) (source : ClaimSource) : JobStatement :=
  .update (some jobId) (claimSets workerId token) source.predicate

/-- The statement of `reap_exhausted`. -/
def reapSql : JobStatement :=
  .update none
    [.status .dead, .terminalReason "attempts_exhausted",
      .lastError "claim lease expired after final attempt", .finishedNow, .claimedBy none,
      .claimToken none, .unleased]
    exhaustedPredicate

/-! ### The table -/

/-- The jobs of a tenant's database. -/
abbrev JobTable := List JobRecord

namespace JobTable

/-- The `UPDATE` takes a job. -/
def hits (now : Time) (rid : Option String) (cond : JobCond) (job : JobRecord) : Bool :=
  rid.all (· = job.1) && cond.holds now job.2

/-- One job after an `UPDATE`. -/
def updated (now : Time) (rid : Option String) (sets : List JobSet) (cond : JobCond)
    (job : JobRecord) : JobRecord :=
  if hits now rid cond job then (job.1, applySets now sets job.2) else job

/-- The table after an `UPDATE`. -/
def update (now : Time) (rid : Option String) (sets : List JobSet) (cond : JobCond)
    (table : JobTable) : JobTable := table.map (updated now rid sets cond)

/-- What an `UPDATE` answers: the rows that it took, afterwards. -/
def updatedRows (now : Time) (rid : Option String) (sets : List JobSet) (cond : JobCond)
    (table : JobTable) : List JobRecord :=
  (table.filter (hits now rid cond)).map fun job => (job.1, applySets now sets job.2)

/-- The eligible jobs. -/
def eligible (now : Time) (table : JobTable) : JobTable :=
  table.filter fun job => eligiblePredicate.holds now job.2

/-- The eligible jobs of a tenant. -/
def eligibleOf (now : Time) (tenant : String) (table : JobTable) : JobTable :=
  (table.eligible now).filter fun job => eqValue job.2.tenant (.text tenant)

end JobTable

end Frust.Kernel
