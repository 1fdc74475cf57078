import Frust.Kernel.Contract
import Frust.Lib.StealLock
import Frust.Orm.Duration

/-!
# `Frust.Orm.Lock`: the two advisory locks

The migrator and the kernel's boot each keep one lock row. `lockAcquire` and
`bootLockAcquire` are the two `lock_acquire` functions as programs of statements,
past the `DEFINE TABLE` that both begin with. The migrator tries to steal once and
then gives up; the boot goes round a loop of tries, with a sleep or a steal at the
end of each.

`lockIsStale` is the migrator's `lock_is_stale`, on the rows that the database answers. The boot
has its own copy (`Frust.Kernel.Boot`). A `Printed` duration is what the database may answer:
groups of a number and a unit, in any order and of any size, and its `secs` are what it says.
-/

set_option autoImplicit false

namespace Frust.Orm

open Frust.Lib.StealLock

/-- `LOCK_STALE_SECS` of the migrator. -/
def lockStaleSecs : Nat := 300

/-- `lock_acquire` of the migrator. -/
def lockAcquire : Acquire := .create (.check .refused (.create .refused))

/-- `LOCK_STALE_SECS` of the boot. -/
def bootLockStaleSecs : Nat := 60

/-- `LOCK_WAIT_TRIES` of the boot. -/
def lockWaitTries : Nat := 100

/-- The loop of the boot's `lock_acquire`, with `tries` left. -/
def bootLockLoop : (tries : Nat) → Acquire
  | 0 => .refused
  | tries + 1 =>
      -- the sleep after a fresh row is time that passes
      .create (.check (bootLockLoop tries) (bootLockLoop tries))

/-- `lock_acquire` of the boot. -/
def bootLockAcquire : Acquire := bootLockLoop lockWaitTries

/-! ### The age of the lock row -/

/-- `lock_is_stale` of the migrator. No row, or none that can be read, is stale. -/
def lockIsStale (rows : Kernel.Json) : Bool :=
  let age := ((rows.rows.head?.bind (Kernel.Json.get · "age")).bind Kernel.Json.asStr).getD ""
  if age = "" then true else lockStaleSecs < durationSecs age

/-! ### What the database prints -/

/-- A group of a number and a unit. The number has digits, and may have more behind a point; a
microsecond is spelled in two ways. -/
structure PrintedGroup where
  whole : List Char
  frac : List Char
  unit : DurationUnit
  unitText : List Char
  whole_ne : whole ≠ []
  digits : ∀ c ∈ whole ++ frac, c.isDigit = true
  spelled : unitText = unit.text ∨ unit = .us ∧ unitText = ['u', 's']

namespace PrintedGroup

/-- The number as it is printed. -/
def num (g : PrintedGroup) : List Char :=
  g.whole ++ if g.frac = [] then [] else '.' :: g.frac

/-- The number. -/
def value (g : PrintedGroup) : ℚ :=
  Nat.ofDigitChars 10 g.whole 0 + Nat.ofDigitChars 10 g.frac 0 / 10 ^ g.frac.length

/-- The group in seconds. -/
def secs (g : PrintedGroup) : ℚ := g.value * (g.unit.nanos / 1000000000)

end PrintedGroup

/-- A duration as the database prints it: at least one group. -/
structure Printed where
  first : PrintedGroup
  rest : List PrintedGroup

namespace Printed

/-- The groups. -/
def groups (d : Printed) : List PrintedGroup := d.first :: d.rest

/-- The text. -/
def text (d : Printed) : String := String.ofList (d.groups.flatMap fun g => g.num ++ g.unitText)

/-- The duration in seconds. -/
def secs (d : Printed) : ℚ := (d.groups.map PrintedGroup.secs).sum

/-- The years in it: the groups that count in years. -/
def years (d : Printed) : List PrintedGroup := d.groups.filter (·.unit = .y)

end Printed

/-- A group with a whole number. -/
def PrintedGroup.ofNat (g : Nat × DurationUnit) : PrintedGroup where
  whole := Nat.toDigits 10 g.1
  frac := []
  unit := g.2
  unitText := g.2.text
  whole_ne := Nat.toDigits_ne_nil
  digits c hc := by
    rw [List.append_nil] at hc
    exact Nat.isDigit_of_mem_toDigits (by decide) (by decide) hc
  spelled := .inl rfl

/-- The duration whose text `durationText` is. -/
def Printed.ofAge (age : Nat) : Printed :=
  match (splitAge DurationUnit.all age).filter (·.1 ≠ 0) with
  | [] => { first := .ofNat (0, .ns), rest := [] }
  | g :: gs => { first := .ofNat g, rest := gs.map .ofNat }

end Frust.Orm
