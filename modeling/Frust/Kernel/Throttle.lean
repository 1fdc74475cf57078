import Frust.Kernel.Contract
import Mathlib.Data.Rat.Floor

/-!
# `Frust.Kernel.Throttle`: the door for verbs

`admit_verb` spends a token of the tenant's bucket, or refuses with the time to wait. `set_policy`
installs a policy, with a new bucket. Numbers are exact here: a `Limit` is a rational number or
`f64::INFINITY`, and an instant is the number of seconds from some start. What is counted for
telemetry is left out.
-/

set_option autoImplicit false

namespace Frust.Kernel

/-- A number of the source's policies. -/
inductive Limit where
  | finite (q : ℚ)
  | infinite
  deriving DecidableEq

namespace Limit

/-- `+`. -/
def plus (q : ℚ) : Limit → Limit
  | finite a => finite (a + q)
  | infinite => infinite

/-- `min`. -/
def min : Limit → Limit → Limit
  | finite a, finite b => finite (Min.min a b)
  | finite a, infinite => finite a
  | infinite, l => l

end Limit

/-- `Policy`. -/
structure Policy where
  verbsPerSec : Limit := .infinite
  verbBurst : Limit := .infinite
  jobsPerRound : Nat := 2 ^ 64 - 1
  deriving DecidableEq

/-- `Bucket`. -/
structure Bucket where
  tokens : Limit
  last : ℚ
  policy : Policy
  deriving DecidableEq

namespace Bucket

/-- `Bucket::new`. -/
def new (policy : Policy) (now : ℚ) : Bucket := ⟨policy.verbBurst, now, policy⟩

/-- The tokens, refilled by elapsed time. An instant before the last one counts as no time. -/
def refilled (b : Bucket) (rate now : ℚ) : Limit :=
  (b.tokens.plus (max 0 (now - b.last) * rate)).min b.policy.verbBurst

/-- The seconds until there is a token. Of a rate of zero the quotient is infinite. -/
def wait (rate tokens : ℚ) : Limit := if rate = 0 then .infinite else .finite ((1 - tokens) / rate)

/-- `Bucket::take`. -/
def take (b : Bucket) (now : ℚ) : Except Limit Unit × Bucket :=
  match b.policy.verbsPerSec with
  | .infinite => (.ok (), b)
  | .finite rate =>
      match b.refilled rate now with
      | .infinite => (.ok (), { b with tokens := .infinite, last := now })
      | .finite tokens =>
          if 1 ≤ tokens then (.ok (), { b with tokens := .finite (tokens - 1), last := now })
          else (.error (wait rate tokens), { b with tokens := .finite tokens, last := now })

end Bucket

/-- `(retry_after * 1000.0).ceil() as u64`, which saturates. -/
def retryAfterMs : Limit → Nat
  | .infinite => 2 ^ 64 - 1
  | .finite q => min ⌈q * 1000⌉.toNat (2 ^ 64 - 1)

/-- `State`. -/
structure DoorState where
  buckets : String → Option Bucket
  policies : String → Option Policy

namespace DoorState

/-- `set_policy`. -/
def setPolicy (s : DoorState) (tenant : String) (policy : Policy) (now : ℚ) : DoorState where
  policies := Function.update s.policies tenant (some policy)
  buckets := Function.update s.buckets tenant (some (.new policy now))

/-- `entry(tenant).or_insert_with`. -/
def bucket (s : DoorState) (tenant : String) (now : ℚ) : Bucket :=
  (s.buckets tenant).getD (.new ((s.policies tenant).getD {}) now)

/-- `admit_verb`. -/
def admitVerb (s : DoorState) (tenant : String) (now : ℚ) : Except BrokerError Unit × DoorState :=
  let taken := (s.bucket tenant now).take now
  (taken.1.mapError fun wait => .tenantThrottled (retryAfterMs wait),
    { s with buckets := Function.update s.buckets tenant (some taken.2) })

end DoorState

/-- What happens at the door. -/
inductive DoorEvent where
  | setPolicy (tenant : String) (policy : Policy)
  | admitVerb (tenant : String)
  deriving DecidableEq

/-- The verdict of an event, if it is a call, and the state after it. -/
def DoorState.step (s : DoorState) (now : ℚ) :
    DoorEvent → Option (String × Except BrokerError Unit) × DoorState
  | .setPolicy tenant policy => (none, s.setPolicy tenant policy now)
  | .admitVerb tenant => (some (tenant, (s.admitVerb tenant now).1), (s.admitVerb tenant now).2)

/-- The verdicts on the calls of a tenant in a run, each with its time. -/
def DoorState.verdicts (tenant : String) : DoorState → List (ℚ × DoorEvent) →
    List (ℚ × Except BrokerError Unit)
  | _, [] => []
  | s, (now, event) :: rest =>
      (((s.step now event).1.filter (·.1 = tenant)).map fun v => (now, v.2)).toList
        ++ (s.step now event).2.verdicts tenant rest

end Frust.Kernel
