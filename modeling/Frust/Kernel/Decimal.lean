import Frust.Kernel.Contract
import Frust.Rust.Str
import Mathlib.Data.Rat.Defs
import Mathlib.Algebra.Group.Int.Defs

/-!
# `Frust.Kernel.Decimal`: exact decimals

A decimal is a mantissa over a power of ten. Equality is numeric: both sides are
brought to the larger scale, with the saturation of the 128-bit mantissa.

Arithmetic that the source does not check itself wraps in a release build. In a build that checks,
it panics: `rescaled?` and its like are what is left there, and nothing where it panics.
-/

set_option autoImplicit false

namespace Frust.Kernel

open Frust.Rust.Str

/-- `Decimal`: `mantissa * 10^-scale`. -/
structure Decimal where
  mantissa : Int
  scale : Nat
  deriving DecidableEq

namespace Decimal

/-- `i128::MAX`. -/
def maxMantissa : Int := 2 ^ 127 - 1

/-- `i128::MIN`. -/
def minMantissa : Int := -2 ^ 127

/-- `Decimal::parse`. -/
def parse (s : String) : Option Decimal :=
  let cs := (trim s).toList
  if cs.isEmpty then none
  else
    let (neg, body) := match cs with
      | '-' :: rest => (true, rest)
      | _ => (false, cs)
    match body.splitOn '.' with
    | [int] => digits neg int []
    | [int, frac] => digits neg int frac
    | _ => none
where
  /-- The checks on the two parts, and the mantissa. -/
  digits (neg : Bool) (int frac : List Char) : Option Decimal :=
    if int.isEmpty || !int.all isAsciiDigit || !frac.all isAsciiDigit then none
    else
      let mantissa : Int := Nat.ofDigitChars 10 (int ++ frac) 0
      if mantissa ≤ maxMantissa then
        some ⟨if neg then -mantissa else mantissa, frac.length % 2 ^ 32⟩
      else none

/-- `10i128.pow(n)`, which wraps. -/
def pow10 (n : Nat) : Int := ((10 : Int) ^ n).bmod (2 ^ 128)

/-- `rescaled`. -/
def rescaled (d : Decimal) (scale : Nat) : Decimal :=
  if scale ≤ d.scale then d
  else ⟨max minMantissa (min maxMantissa (d.mantissa * pow10 (scale - d.scale))), scale⟩

/-- `ZERO`. -/
def zero : Decimal := ⟨0, 0⟩

/-- Saturation to the range of the mantissa. -/
def saturate (m : Int) : Int := max minMantissa (min maxMantissa m)

/-- `add`. -/
def add (a b : Decimal) : Decimal :=
  let scale := max a.scale b.scale
  ⟨saturate ((a.rescaled scale).mantissa + (b.rescaled scale).mantissa), scale⟩

/-- `neg`, which wraps. -/
def neg (d : Decimal) : Decimal := ⟨(-d.mantissa).bmod (2 ^ 128), d.scale⟩

/-- `Mode`. -/
inductive Mode where
  | halfEven | halfUp | down
  deriving DecidableEq

/-- `MoneyError`. -/
inductive MoneyError where
  | overflow | divByZero
  deriving DecidableEq

/-- `checked_mul`. -/
def checkedMul (a b : Int) : Except MoneyError Int :=
  if minMantissa ≤ a * b ∧ a * b ≤ maxMantissa then .ok (a * b) else .error .overflow

/-- The function `pow10`: `10i128.checked_pow(n)`. -/
def checkedPow10 (n : Nat) : Except MoneyError Int :=
  if (10 : Int) ^ n ≤ maxMantissa then .ok (10 ^ n) else .error .overflow

/-- `mul`. The sum of the scales wraps. -/
def mul (a b : Decimal) : Except MoneyError Decimal := do
  let mantissa ← checkedMul a.mantissa b.mantissa
  return ⟨mantissa, (a.scale + b.scale) % 2 ^ 32⟩

/-- `apply_rounding`. -/
def applyRounding (q r unit : Nat) (mode : Mode) : Except MoneyError Nat :=
  if r = 0 then .ok q
  else if mode = .down then .ok q
  else if 2 ^ 128 ≤ r * 2 then .error .overflow
  else
    let roundUp := match compare (r * 2) unit with
      | .lt => false
      | .gt => true
      | .eq => match mode with
        | .halfUp => true
        | .halfEven => q % 2 == 1
        | .down => false
    if roundUp then (if q + 1 < 2 ^ 128 then .ok (q + 1) else .error .overflow) else .ok q

/-- A magnitude as a mantissa with a sign. -/
def signed (neg : Bool) (m : Nat) : Int := if neg then -m else m

/-- The numerator and the denominator of `div_round`, brought to the scale. The exponent is cut to
32 bits. -/
def scaledQuotient (n d : Decimal) (scale : Nat) : Except MoneyError (Int × Int) :=
  let p : Int := scale + d.scale - n.scale
  if 0 ≤ p then do
    let factor ← checkedPow10 (p.toNat % 2 ^ 32)
    let num ← checkedMul n.mantissa factor
    return (num, d.mantissa)
  else do
    let factor ← checkedPow10 ((-p).toNat % 2 ^ 32)
    let den ← checkedMul d.mantissa factor
    return (n.mantissa, den)

/-- `div_round`. -/
def divRound (n d : Decimal) (scale : Nat) (mode : Mode) : Except MoneyError Decimal :=
  if d.mantissa = 0 then .error .divByZero
  else do
    let (num, den) ← scaledQuotient n d scale
    let q := num.natAbs / den.natAbs
    let r := num.natAbs % den.natAbs
    let m ← applyRounding q r den.natAbs mode
    if (m : Int) ≤ maxMantissa then
      return ⟨signed (decide (num < 0) != decide (den < 0)) m, scale⟩
    else .error .overflow

/-- `round`. -/
def round (d : Decimal) (target : Nat) (mode : Mode) : Decimal :=
  if d.scale ≤ target then d.rescaled target
  else
    match checkedPow10 (d.scale - target) with
    | .error _ => d
    | .ok factor =>
        let q := d.mantissa.natAbs / factor.natAbs
        let r := d.mantissa.natAbs % factor.natAbs
        let m := match applyRounding q r factor.natAbs mode with
          | .ok m => m
          | .error _ => q
        ⟨signed (decide (d.mantissa < 0)) (min m maxMantissa.toNat), target⟩

/-- `to_plain_string`. -/
def toPlainString (d : Decimal) : String :=
  let digits := (toString d.mantissa.natAbs).toList
  let body :=
    if d.scale = 0 then digits
    else if d.scale < digits.length then
      digits.take (digits.length - d.scale) ++ '.' :: digits.drop (digits.length - d.scale)
    else '0' :: '.' :: (List.replicate (d.scale - digits.length) '0' ++ digits)
  String.ofList (if d.mantissa < 0 then '-' :: body else body)

/-- `cmp`. -/
def cmp (a b : Decimal) : Ordering :=
  let scale := max a.scale b.scale
  compare (a.rescaled scale).mantissa (b.rescaled scale).mantissa

/-! ### A build that checks arithmetic -/

/-- `rescaled`. -/
def rescaled? (d : Decimal) (scale : Nat) : Option Decimal :=
  if scale ≤ d.scale then some d
  else if (10 : Int) ^ (scale - d.scale) ≤ maxMantissa then some (d.rescaled scale)
  else none

/-- `add`. -/
def add? (a b : Decimal) : Option Decimal := do
  let _ ← a.rescaled? (max a.scale b.scale)
  let _ ← b.rescaled? (max a.scale b.scale)
  return a.add b

/-- `neg`. -/
def neg? (d : Decimal) : Option Decimal := if d.mantissa = minMantissa then none else some d.neg

/-- `mul`. -/
def mul? (a b : Decimal) : Option (Except MoneyError Decimal) :=
  match checkedMul a.mantissa b.mantissa with
  | .error e => some (.error e)
  | .ok _ => if a.scale + b.scale < 2 ^ 32 then some (a.mul b) else none

/-- `round`. -/
def round? (d : Decimal) (target : Nat) (mode : Mode) : Option Decimal :=
  if d.scale ≤ target then d.rescaled? target else some (d.round target mode)

/-- `cmp`. -/
def cmp? (a b : Decimal) : Option Ordering := do
  let _ ← a.rescaled? (max a.scale b.scale)
  let _ ← b.rescaled? (max a.scale b.scale)
  return a.cmp b

/-! ### Values -/

/-- `from_json`. -/
def fromJson : Option Json → Decimal
  | some (.string s) | some (.float s) => (parse s).getD zero
  | some (.int i) => (parse (toString i)).getD zero
  | _ => zero

/-- The number. -/
def value (d : Decimal) : ℚ := d.mantissa / 10 ^ d.scale

/-- `==`. -/
def numEq (a b : Decimal) : Bool :=
  let scale := max a.scale b.scale
  (a.rescaled scale).mantissa = (b.rescaled scale).mantissa

end Decimal

end Frust.Kernel
