import Frust.Rust.Str
import Mathlib.Algebra.Order.Field.Rat

/-!
# `Frust.Orm.Duration`: the age of a lock row

The database prints an age as number-unit groups (`5m1s`), largest unit first, and
`durationSecs` reads the text back. `durationText` is the printing, as the database
documents it; `durationSecs` follows `duration_secs`, which the migrator and the boot
path both have. It runs over exact rationals in place of `f64`.

A unit it does not know counts as zero. `y` is one of them, so the result can be
less than the age, and never more (`Frust.Proofs.Orm.Duration`).
-/

set_option autoImplicit false

namespace Frust.Orm

open Frust.Rust

/-! ### The database's text -/

/-- The units of a printed duration. -/
inductive DurationUnit where
  | y | w | d | h | m | s | ms | us | ns
  deriving DecidableEq

namespace DurationUnit

/-- The unit as it is printed. -/
def text : DurationUnit → List Char
  | y => ['y']
  | w => ['w']
  | d => ['d']
  | h => ['h']
  | m => ['m']
  | s => ['s']
  | ms => ['m', 's']
  | us => ['µ', 's']
  | ns => ['n', 's']

/-- The unit in nanoseconds; a year has 365 days. -/
def nanos : DurationUnit → Nat
  | y => 31536000000000000
  | w => 604800000000000
  | d => 86400000000000
  | h => 3600000000000
  | m => 60000000000
  | s => 1000000000
  | ms => 1000000
  | us => 1000
  | ns => 1

/-- All units, largest first. -/
def all : List DurationUnit := [y, w, d, h, m, s, ms, us, ns]

end DurationUnit

/-- Splits `age` over the units, each as often as it goes into what is left. -/
def splitAge : List DurationUnit → Nat → List (Nat × DurationUnit)
  | [], _ => []
  | u :: rest, age => (age / u.nanos, u) :: splitAge rest (age % u.nanos)

/-- The groups of a printed duration: those that are not zero, and `0ns` when all
are. -/
def durationGroups (age : Nat) : List (Nat × DurationUnit) :=
  match (splitAge DurationUnit.all age).filter (·.1 ≠ 0) with
  | [] => [(0, .ns)]
  | groups => groups

/-- The text of one group. -/
def groupText (g : Nat × DurationUnit) : List Char := Nat.toDigits 10 g.1 ++ g.2.text

/-- `<string>` of a duration of `age` nanoseconds. -/
def durationText (age : Nat) : String := String.ofList ((durationGroups age).flatMap groupText)

/-! ### Reading it back -/

/-- A digit or a decimal point. -/
def isNumChar (c : Char) : Bool := c.isDigit || c = '.'

/-- `str::parse::<f64>` of a text of digits and points: at most one point, and at
least one digit. -/
def parseNum (num : List Char) : Option ℚ :=
  let whole := num.takeWhile (· ≠ '.')
  let frac := (num.dropWhile (· ≠ '.')).drop 1
  if (whole.isEmpty && frac.isEmpty) || '.' ∈ frac then none
  else some (Nat.ofDigitChars 10 (whole ++ frac) 0 / 10 ^ frac.length)

/-- The seconds of a unit; an unknown unit has none. -/
def unitSecs (unit : List Char) : ℚ :=
  if unit = ['n', 's'] then 1 / 1000000000
  else if unit = ['u', 's'] ∨ unit = ['µ', 's'] then 1 / 1000000
  else if unit = ['m', 's'] then 1 / 1000
  else if unit = ['s'] ∨ unit = [] then 1
  else if unit = ['m'] then 60
  else if unit = ['h'] then 3600
  else if unit = ['d'] then 86400
  else if unit = ['w'] then 604800
  else 0

/-- Adds a group to the total. -/
def flush (num unit : List Char) (total : ℚ) : ℚ :=
  match parseNum num with
  | some v => total + v * unitSecs unit
  | none => total

/-- The scan: `num` and `unit` are the group being read. -/
def scanDuration : List Char → (num unit : List Char) → (total : ℚ) → ℚ
  | [], num, unit, total => flush num unit total
  | c :: rest, num, unit, total =>
      if isNumChar c then
        if unit.isEmpty then scanDuration rest (num ++ [c]) unit total
        else scanDuration rest [c] [] (flush num unit total)
      else scanDuration rest num (unit ++ [c]) total

/-- `duration_secs`. -/
def durationSecs (s : String) : ℚ := scanDuration s.toList [] [] 0

/-- The verdict of `lock_is_stale` on a row of the given age in nanoseconds. -/
def isStaleAge (staleSecs : ℚ) (age : Nat) : Bool := staleSecs < durationSecs (durationText age)

end Frust.Orm
