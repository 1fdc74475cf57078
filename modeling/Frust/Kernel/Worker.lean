import Frust.Kernel.Job
import Frust.Kernel.Store

/-!
# `Frust.Kernel.Worker`: claiming and running jobs

A worker is a program on the job table. It claims a job with one conditional `UPDATE`,
runs it under the authority of the one who asked for it, and writes the outcome back with
an `UPDATE` that is conditional on its lease. `claimNext` looks for the next job through
the tenants that have one; `tick` claims and runs until there is none.

What a worker asks is a `JobRequest`: statements, claim tokens, the fairness state of the
process, the authority of a principal, and the effect of the job. Metrics and log lines
are left out; the span that a run begins is kept, as `JobRequest.span`.

`fair_round` orders the heads of the queue round-robin by tenant. Its input is the jobs
with their tenants. `groupByTenant` collects the jobs of each tenant, the tenants in the
order in which they come first; the round starts at another tenant each time; and each
tenant is given at most its share. The rate limits of the broker's door are not modelled
here.

A `JobHost` is what stays fixed while workers run: the tenants' shares, and in which order
the database lists what it finds. Its laws are those of `GROUP BY` and `ORDER BY`: every
tenant once, and the first jobs by the time they were enqueued. A `JobWorld` is the table
with the time, the tokens that were issued, the count of rounds, and the runs begun.

A statement reads the clock when it is executed, and any time may have passed before. It
may fail, and then its effect may have taken place or not. What a principal may do, and
what becomes of a job's effect, is not fixed here.
-/

set_option autoImplicit false

namespace Frust.Kernel

open Frust.Lib Frust.Rust.Str

/-! ### The order of a claim round -/

/-- Puts a job with its tenant's. -/
def addToTenant (job tenant : String) : List (String × List String) → List (String × List String)
  | [] => [(tenant, [job])]
  | (t, jobs) :: rest =>
      if t = tenant then (t, jobs ++ [job]) :: rest else (t, jobs) :: addToTenant job tenant rest

/-- `by_tenant`. -/
def groupByTenant (queued : List (String × String)) : List (String × List String) :=
  queued.foldl (fun acc e => addToTenant e.1 e.2 acc) []

/-- The jobs of a tenant in a round: its cap, and how many were taken. -/
structure Share where
  jobs : List String
  cap : Nat
  taken : Nat := 0
  deriving DecidableEq

/-- The job that a pass takes. -/
def Share.next (s : Share) : Option String := if s.taken < s.cap then s.jobs[s.taken]? else none

/-- A share after a pass. -/
def Share.advance (s : Share) : Share := if s.next.isSome then { s with taken := s.taken + 1 } else s

/-- `while progressed`: passes over the shares. A pass that takes a job is one of at most
as many as there are jobs, so `fuel` is their number. -/
def takePasses : (fuel : Nat) → List Share → List String
  | 0, _ => []
  | fuel + 1, shares =>
      let out := shares.filterMap Share.next
      if out.isEmpty then [] else out ++ takePasses fuel (shares.map Share.advance)

/-! ### The text of an error -/

/-- `{:?}` of a variant with fields. -/
def debugVariant (name : String) (fields : List (String × String)) : String :=
  name ++ " \x7b " ++ ", ".intercalate (fields.map fun f => f.1 ++ ": " ++ f.2) ++ " \x7d"

/-- `Display` of `BrokerError`, which is its `{:?}`. -/
def BrokerError.text : BrokerError → String
  | unknownDoctype name => debugVariant "UnknownDoctype" [("name", debugStr name)]
  | fieldNotReadable field => debugVariant "FieldNotReadable" [("field", debugStr field)]
  | pathTooDeep max => debugVariant "PathTooDeep" [("max", toString max)]
  | invalidValue detail => debugVariant "InvalidValue" [("detail", debugStr detail)]
  | fixtureRefused code doctype key apps detail =>
      debugVariant "FixtureRefused" [("code", debugStr code), ("doctype", debugStr doctype),
        ("key", debugStr key), ("apps", debugStrs apps), ("detail", debugStr detail)]
  | deleteRefused code detail =>
      debugVariant "DeleteRefused" [("code", debugStr code), ("detail", debugStr detail)]
  | hookCycle record hook =>
      debugVariant "HookCycle" [("record", debugStr record), ("hook", debugStr hook)]
  | hookDepthExceeded max => debugVariant "HookDepthExceeded" [("max", toString max)]
  | hookRejected stage message =>
      debugVariant "HookRejected" [("stage", debugStr stage), ("message", debugStr message)]
  | permissionDenied detail => debugVariant "PermissionDenied" [("detail", debugStr detail)]
  | identityUnresolved => "IdentityUnresolved"
  | tenantThrottled ms => debugVariant "TenantThrottled" [("retry_after_ms", toString ms)]
  | workflowDenied code detail =>
      debugVariant "WorkflowDenied" [("code", debugStr code), ("detail", debugStr detail)]
  | writeConflictExhausted attempts =>
      debugVariant "WriteConflictExhausted" [("attempts", toString attempts)]
  | db detail => debugVariant "Db" [("detail", debugStr detail)]

/-! ### Jobs and leases -/

/-- `MAX_TENANTS_PER_ROUND`. -/
def maxTenantsPerRound : Nat := 32

/-- `JobLease`. -/
structure JobLease where
  claimedBy : String
  token : String
  attempt : Nat
  expiresAt : Time
  deriving DecidableEq

/-- `Job`. -/
structure Job where
  id : String
  kind : String
  requestedBy : String
  payload : Json
  trace : Option String
  lease : JobLease

/-- `JobOutcome`. -/
inductive JobOutcome where
  | done
  | denied (detail : String)
  | retry (detail : String)
  deriving DecidableEq

/-- A column that a claimed job must have. -/
def requiredColumn {α : Type} (field : String) : Option α → Except BrokerError α
  | some v => .ok v
  | none => .error (.db ("claimed job is missing lease field '" ++ field ++ "'"))

/-- The attempt that a claim began. -/
def attemptOf (attempts : Option Int) : Except BrokerError Nat :=
  match attempts.filter fun n => 0 < n ∧ n < 2 ^ 32 with
  | some n => .ok n.toNat
  | none => .error (.db "claimed job has invalid attempt count")

/-- `decode_job`. -/
def decodeJob (record : JobRecord) : Except BrokerError Job := do
  let row := record.2
  let text (v : Value) := v.toJson.asStr
  let attempt ← attemptOf row.attempts
  let claimedBy ← requiredColumn "claimed_by" (row.claimedBy.filter (· ≠ ""))
  let token ← requiredColumn "claim_token" (row.claimToken.filter (· ≠ ""))
  let expiresAt ← requiredColumn "lease_expires_at" row.leaseExpiresAt
  return {
    id := record.1
    kind := (text row.kind).getD ""
    requestedBy := (text row.requestedBy).getD ""
    payload := row.payload.toJson
    trace := text row.trace
    lease := ⟨claimedBy, token, attempt, expiresAt⟩ }

/-- `fenced_update_sql`. -/
def fencedUpdateSql (job : Job) (sets : List JobSet) : JobStatement :=
  .update (some job.id) sets
    (.and (.and (.status .running) (.claimedBy job.lease.claimedBy)) (.claimToken job.lease.token))

/-- `retry_update`. -/
def retryUpdate (attempt : Nat) (detail : String) : Bool × List JobSet :=
  if maxJobAttempts ≤ attempt then
    (true, [.status .dead, .terminalReason "attempts_exhausted", .lastError detail, .finishedNow,
      .claimedBy none, .claimToken none, .unleased])
  else
    (false, [.status .queued, .claimedBy none, .claimToken none, .unclaimed, .unleased,
      .lastError detail])

/-- What `finish_with` writes. -/
def finishUpdate (status : JobStatus) (detail : String) : List JobSet :=
  [.status status, .detail detail, .terminalReason status.text, .finishedNow, .claimedBy none,
    .claimToken none, .unleased]

/-! ### Requests -/

/-- What a worker asks of its surroundings. -/
inductive JobRequest where
  /-- `next_claim_token`. -/
  | nextClaimToken
  /-- `sql_root`. -/
  | sql (stmt : JobStatement)
  /-- `ROUND.fetch_add`. -/
  | nextRound
  /-- `policy_for`, of which the jobs for a round are used. -/
  | jobsPerRound (tenant : String)
  /-- The span `job_run` begins. -/
  | span (job : Job)
  /-- `AuthorityResolver::caller_for`. -/
  | callerFor (principal : String)
  /-- `Broker::db_write` of a new document. -/
  | dbWrite (caller : Caller) (doctype : String) (doc : Doc)

/-- The answers. -/
def JobAnswer : JobRequest → Type
  | .nextClaimToken => String
  | .sql stmt => Except BrokerError stmt.Rows
  | .nextRound => Nat
  | .jobsPerRound _ => Nat
  | .span _ => Unit
  | .callerFor _ => Option Caller
  | .dbWrite _ _ _ => Except BrokerError Json

/-- What a worker does, or a part of it. -/
abbrev Work := Prog BrokerError JobRequest JobAnswer

namespace Work

/-- A check without requests. -/
def lift {α : Type} (r : Except BrokerError α) : Work α := .done r

/-- A request that does not fail. -/
def ask (q : JobRequest) : Work (JobAnswer q) := Prog.ask q fun r => .done (.ok r)

/-- A statement whose failure is looked at. -/
def trySql (stmt : JobStatement) : Work (Except BrokerError stmt.Rows) :=
  match stmt.text with
  | .ok _ => ask (.sql stmt)
  | .error e => pure (.error e)

/-- `sql_root`. -/
def sqlRoot (stmt : JobStatement) : Work stmt.Rows := do
  let r ← trySql stmt
  lift r

end Work

open Work

/-! ### Claiming -/

/-- `Worker`. -/
structure Worker where
  workerId : String
  tenantId : String
  /-- A worker without a broker claims and does not run effects. -/
  hasBroker : Bool := true
  deriving DecidableEq

namespace Worker

variable (w : Worker)

/-- `try_claim_from`. -/
def tryClaimFrom (jobId : String) (source : ClaimSource) : Work (Option Job) := do
  let token ← ask .nextClaimToken
  let rows ← sqlRoot (claimSql jobId w.workerId token source)
  match List.head? (α := JobRecord) rows with
  | none => return none
  | some row => do
      let job ← lift (decodeJob row)
      return some job

/-- `try_claim`. -/
def tryClaim (jobId : String) : Work (Option Job) := do
  match ← w.tryClaimFrom jobId .queued with
  | some job => return some job
  | none => w.tryClaimFrom jobId .expiredLease

/-- `renew_lease`. -/
def renewLease (job : Job) : Work Bool := do
  let rows ← sqlRoot (fencedUpdateSql job [.leased])
  return !List.isEmpty (α := JobRecord) rows

/-- `reap_exhausted`. -/
def reapExhausted : Work Unit := do
  let _ ← sqlRoot reapSql
  return ()

/-- The name of a tenant of the grouping: the database's own where there is no text. -/
def tenantName (group : Value) : String := (group.toJson.asStr).getD w.tenantId

/-- A candidate of a round: its id, its tenant and where it is claimed from. -/
structure Candidate where
  id : String
  tenant : String
  source : ClaimSource
  deriving DecidableEq

/-- A row of `heads` as a candidate. -/
def candidate (tenant : String) (row : JobRecord) : Candidate :=
  ⟨row.1, tenant, if row.2.status = .running then .expiredLease else .queued⟩

/-- The heads of the tenants. -/
def headsOf : List String → Work (List Candidate)
  | [] => pure []
  | tenant :: rest => do
      let rows ← sqlRoot (.heads tenant)
      let more ← headsOf rest
      return List.map (α := JobRecord) (candidate tenant) rows ++ more

/-- `sources`: where a job is claimed from. Of several entries the last one counts. -/
def sourceOf (candidates : List Candidate) (id : String) : ClaimSource :=
  ((candidates.reverse.find? (·.id = id)).map (·.source)).getD .queued

/-- The caps of tenants. -/
def capsOf : List String → Work (List Nat)
  | [] => pure []
  | tenant :: rest => do
      let cap ← ask (.jobsPerRound tenant)
      let more ← capsOf rest
      return (show Nat from cap) :: more

/-- `fair_round`. -/
def fairRound (queued : List (String × String)) : Work (List String) := do
  let byTenant := groupByTenant queued
  let start ← if byTenant.length > 1 then ask .nextRound else pure (0 : Nat)
  let rotated := byTenant.rotateLeft ((show Nat from start) % byTenant.length)
  let caps ← capsOf (rotated.map (·.1))
  return takePasses queued.length
    (List.zipWith (fun e cap => { jobs := e.2, cap := cap }) rotated caps)

/-- Claims the first job that can be claimed. -/
def claimFirst (candidates : List Candidate) : List String → Work (Option Job)
  | [] => pure none
  | id :: rest => do
      match ← w.tryClaimFrom id (sourceOf candidates id) with
      | some job => return some job
      | none => claimFirst candidates rest

/-- `claim_next`. -/
def claimNext : Work (Option Job) := do
  reapExhausted
  let groups ← sqlRoot .tenants
  let names := (List.map (α := Value) w.tenantName groups).take maxTenantsPerRound
  let candidates ← headsOf names
  let order ← fairRound (candidates.map fun c => (c.id, c.tenant))
  w.claimFirst candidates order

/-! ### Running -/

/-- `apply_fenced`: the update, whatever becomes of it. -/
def applyFenced (job : Job) (sets : List JobSet) : Work Bool := do
  let r ← trySql (fencedUpdateSql job sets)
  return match r with
    | .ok rows => !List.isEmpty (α := JobRecord) rows
    | .error _ => false

/-- `finish_with`. -/
def finishWith (job : Job) (status : JobStatus) (detail : String) : Work Unit := do
  let _ ← applyFenced job (finishUpdate status detail)
  return ()

/-- `requeue`. -/
def requeue (job : Job) (detail : String) : Work Unit := do
  let _ ← applyFenced job (retryUpdate job.lease.attempt detail).2
  return ()

/-- The outcome of `db_write`. -/
def writeOutcome : Except BrokerError Json → JobOutcome
  | .ok _ => .done
  | .error (.permissionDenied detail) => .denied detail
  | .error (.hookRejected _ message) => .denied message
  | .error e => .retry e.text

/-- `run_create_doc`. -/
def runCreateDoc (job : Job) (caller : Caller) : Work JobOutcome :=
  let doctype := ((job.payload.get "doctype").bind Json.asStr).getD ""
  match job.payload.get "doc" with
  | some (.object fields) =>
      if w.hasBroker then do
        let r ← ask (.dbWrite caller doctype (fields.map fun e => (e.1, e.2.toValue)))
        return writeOutcome r
      else pure (.denied "worker has no broker to run effects")
  | _ => pure (.denied "payload.doc missing")

/-- The job's effect. -/
def effect (job : Job) (caller : Caller) : Work JobOutcome :=
  if job.kind = "create_doc" then w.runCreateDoc job caller
  else pure (.denied ("unknown job kind '" ++ job.kind ++ "'"))

/-- Writes the outcome back. -/
def settle (job : Job) : JobOutcome → Work Unit
  | .done => finishWith job .done ""
  | .denied detail => finishWith job .denied detail
  | .retry detail => requeue job detail

/-- `run_traced`. -/
def runTraced (job : Job) : Work JobOutcome := do
  match ← ask (.callerFor job.requestedBy) with
  | none => do
      finishWith job .denied ""
      return .denied ("principal '" ++ job.requestedBy ++ "' no longer exists")
  | some caller => do
      let outcome ← w.effect job caller
      settle job outcome
      return outcome

/-- `run`. -/
def run (job : Job) : Work JobOutcome := do
  let _ ← ask (.span job)
  w.runTraced job

/-- `ResidentWorker::tick`: how many jobs ran, if `fuel` claims were enough. -/
def tick : (fuel : Nat) → Work (Option Nat)
  | 0 => pure none
  | fuel + 1 => do
      match ← w.claimNext with
      | none => return some 0
      | some job => do
          let _ ← w.run job
          let ran ← tick fuel
          return ran.map (· + 1)

end Worker

/-! ### Workers side by side -/

/-- `a` was enqueued no later than `b`; no time at all comes first. -/
def JobRow.NoLater (a b : JobRow) : Prop :=
  ∀ t, a.enqueuedAt = some t → ∃ u, b.enqueuedAt = some u ∧ t ≤ u

/-- What workers run against and do not change. -/
structure JobHost where
  /-- `jobs_per_round`. -/
  policies : String → Nat
  /-- The tenants with eligible jobs, as the database groups them. -/
  tenants : Time → JobTable → List Value
  /-- The first eligible jobs of a tenant. -/
  heads : Time → String → JobTable → List JobRecord
  tenants_distinct : ∀ now table, (tenants now table).Pairwise fun a b => eqValue a b = false
  tenants_found : ∀ now table, ∀ v ∈ tenants now table, ∃ job ∈ table.eligible now, job.2.tenant = v
  tenants_complete : ∀ now table, ∀ job ∈ table.eligible now,
    ∃ v ∈ tenants now table, v = job.2.tenant ∨ eqValue v job.2.tenant = true
  heads_eq : ∀ now tenant table, ∃ sorted : JobTable,
    sorted.Perm (table.eligibleOf now tenant) ∧ sorted.Pairwise (fun a b => a.2.NoLater b.2) ∧
    heads now tenant table = sorted.take headPerTenant

/-- The job table and what the workers of a process share. -/
structure JobWorld where
  now : Time
  jobs : JobTable
  /-- The claim tokens that were issued. -/
  issued : List String
  /-- `ROUND`. -/
  round : Nat
  /-- The runs begun: the job and its attempt. -/
  spans : List (String × Nat)

namespace JobHost

variable (host : JobHost)

/-- What a statement answers, and the world after it. -/
def exec (w : JobWorld) : (stmt : JobStatement) → stmt.Rows × JobWorld
  | .update rid sets cond =>
      (w.jobs.updatedRows w.now rid sets cond, { w with jobs := w.jobs.update w.now rid sets cond })
  | .tenants => (host.tenants w.now w.jobs, w)
  | .heads tenant => (host.heads w.now tenant w.jobs, w)

/-- What a statement may answer at a time, and what becomes of the world. -/
def Executes (w : JobWorld) (stmt : JobStatement) (r : Except BrokerError stmt.Rows)
    (w' : JobWorld) : Prop :=
  (∃ e, r = .error e ∧ (w' = w ∨ w' = (host.exec w stmt).2)) ∨
    (r = .ok (host.exec w stmt).1 ∧ w' = (host.exec w stmt).2)

/-- What a request may be answered, and what becomes of the world. -/
def Answers (w : JobWorld) : (q : JobRequest) → JobAnswer q → JobWorld → Prop
  | .nextClaimToken, token, w' =>
      token ≠ "" ∧ token ∉ w.issued ∧ w' = { w with issued := token :: w.issued }
  | .sql stmt, r, w' => ∃ now, w.now ≤ now ∧ host.Executes { w with now := now } stmt r w'
  | .nextRound, round, w' => round = w.round ∧ w' = { w with round := (w.round + 1) % 2 ^ 64 }
  | .jobsPerRound tenant, cap, w' => cap = host.policies tenant ∧ w' = w
  | .span job, _, w' => w' = { w with spans := (job.id, job.lease.attempt) :: w.spans }
  | .callerFor _, _, w' | .dbWrite _ _ _, _, w' => w' = w

/-- Serves a worker at one instant, where no statement fails. -/
def serve (callers : String → Option Caller)
    (effects : Caller → String → Doc → Except BrokerError Json) (w : JobWorld) :
    (q : JobRequest) → JobAnswer q × JobWorld
  | .nextClaimToken =>
      -- longer than every token before
      let token := String.ofList (List.replicate ((w.issued.map String.length).foldr max 0 + 1) 't')
      (token, { w with issued := token :: w.issued })
  | .sql stmt => (.ok (host.exec w stmt).1, (host.exec w stmt).2)
  | .nextRound => (w.round, { w with round := (w.round + 1) % 2 ^ 64 })
  | .jobsPerRound tenant => (host.policies tenant, w)
  | .span job => ((), { w with spans := (job.id, job.lease.attempt) :: w.spans })
  | .callerFor principal => (callers principal, w)
  | .dbWrite caller doctype doc => (effects caller doctype doc, w)

end JobHost

end Frust.Kernel
