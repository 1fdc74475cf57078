import Frust.Kernel.Decimal
import Frust.Proofs.Rust.Str
import Mathlib.Tactic.FieldSimp
import Mathlib.Tactic.Ring
import Mathlib.Tactic.NormNum

/-!
# `Frust.Proofs.Kernel.Decimal`: decimals and the numbers that they stand for

`numeral` reads a text as a number, of any size, where `Decimal.parse` reads a mantissa of
128 bits (`numeral_of_parse`). Two decimals are equal exactly when their numbers are, as long
as the common scale keeps their mantissas in range (`numEq_iff`).
-/

set_option autoImplicit false

namespace Frust.Kernel

open Frust.Rust.Str

namespace Decimal

/-- The mantissa is exact at the scale. -/
def Fits (d : Decimal) (scale : Nat) : Prop :=
  scale - d.scale ≤ 38 ∧
    minMantissa ≤ d.mantissa * 10 ^ (scale - d.scale) ∧
    d.mantissa * 10 ^ (scale - d.scale) ≤ maxMantissa

theorem pow10_eq {n : Nat} (h : n ≤ 38) : pow10 n = 10 ^ n := by
  have hle : (10 : Int) ^ n ≤ 10 ^ 38 := by
    exact_mod_cast Nat.pow_le_pow_right (by norm_num) h
  have hpos : (0 : Int) ≤ 10 ^ n := by positivity
  unfold pow10
  rw [Int.bmod_eq_of_le] <;> omega

theorem rescaled_mantissa {d : Decimal} {scale : Nat} (h : d.Fits scale) :
    (d.rescaled scale).mantissa = d.mantissa * 10 ^ (scale - d.scale) := by
  obtain ⟨hscale, hmin, hmax⟩ := h
  unfold rescaled
  split
  · rename_i hle
    rw [Nat.sub_eq_zero_of_le hle, pow_zero, mul_one]
  · show max minMantissa (min maxMantissa (d.mantissa * pow10 (scale - d.scale))) = _
    rw [pow10_eq hscale, min_eq_right hmax, max_eq_right hmin]

theorem value_eq {d : Decimal} {scale : Nat} (h : d.scale ≤ scale) :
    d.value = (d.mantissa * 10 ^ (scale - d.scale) : Int) / 10 ^ scale := by
  have hsplit : (10 : ℚ) ^ scale = 10 ^ d.scale * 10 ^ (scale - d.scale) := by
    rw [← pow_add, Nat.add_sub_cancel' h]
  unfold value
  rw [hsplit]
  push_cast
  field_simp

/-- Decimals are compared as numbers. -/
theorem numEq_iff {a b : Decimal} (ha : a.Fits (max a.scale b.scale))
    (hb : b.Fits (max a.scale b.scale)) : a.numEq b = true ↔ a.value = b.value := by
  have hpos : (10 : ℚ) ^ max a.scale b.scale ≠ 0 := by positivity
  unfold numEq
  rw [decide_eq_true_iff, rescaled_mantissa ha, rescaled_mantissa hb,
    value_eq (le_max_left a.scale b.scale), value_eq (le_max_right a.scale b.scale),
    div_left_inj' hpos, Int.cast_inj]

/-! ### Sums -/

/-- A number has a mantissa in range at a scale. -/
def Room (scale : Nat) (q : ℚ) : Prop :=
  (minMantissa : ℚ) ≤ q * 10 ^ scale ∧ q * 10 ^ scale ≤ (maxMantissa : ℚ)

theorem mantissa_of_room {d : Decimal} {scale : Nat} (hle : d.scale ≤ scale)
    (h : Room scale d.value) :
    minMantissa ≤ d.mantissa * 10 ^ (scale - d.scale) ∧
      d.mantissa * 10 ^ (scale - d.scale) ≤ maxMantissa := by
  have hpos : (10 : ℚ) ^ scale ≠ 0 := by positivity
  unfold Room at h
  rw [value_eq hle, div_mul_cancel₀ _ hpos] at h
  exact_mod_cast h

/-- Rescaling is exact where there is room. -/
theorem rescaled_of_room {d : Decimal} {scale : Nat} (hle : d.scale ≤ scale)
    (h : Room scale d.value) :
    (d.rescaled scale).mantissa = d.mantissa * 10 ^ (scale - d.scale) := by
  obtain ⟨hmin, hmax⟩ := mantissa_of_room hle h
  by_cases hzero : d.mantissa = 0
  · unfold rescaled
    split
    · rw [hzero, zero_mul]
    · show max minMantissa (min maxMantissa (d.mantissa * pow10 (scale - d.scale))) = _
      rw [hzero, zero_mul, zero_mul]
      decide
  · refine rescaled_mantissa ⟨?_, hmin, hmax⟩
    -- a mantissa that is not zero has no room for 39 more digits
    by_contra hlarge
    have hten : (10 : Int) ^ 39 ≤ 10 ^ (scale - d.scale) :=
      pow_le_pow_right₀ (by norm_num) (by omega)
    have hbig : maxMantissa + 1 < (10 : Int) ^ 39 := by decide
    have hmm : minMantissa = -(maxMantissa + 1) := by decide
    rcases lt_or_gt_of_ne hzero with hneg | hpos
    · have : d.mantissa * 10 ^ (scale - d.scale) ≤ -1 * 10 ^ (scale - d.scale) :=
        mul_le_mul_of_nonneg_right (by omega) (by positivity)
      omega
    · have : 1 * 10 ^ (scale - d.scale) ≤ d.mantissa * 10 ^ (scale - d.scale) :=
        mul_le_mul_of_nonneg_right (by omega) (by positivity)
      omega

/-- A sum is exact where there is room for both numbers and for the sum. -/
theorem add_value {a b : Decimal} (ha : Room (max a.scale b.scale) a.value)
    (hb : Room (max a.scale b.scale) b.value)
    (hab : Room (max a.scale b.scale) (a.value + b.value)) :
    (a.add b).value = a.value + b.value := by
  have hpos : (10 : ℚ) ^ max a.scale b.scale ≠ 0 := by positivity
  have hla := le_max_left a.scale b.scale
  have hlb := le_max_right a.scale b.scale
  have hsum : a.value + b.value = ((a.mantissa * 10 ^ (max a.scale b.scale - a.scale)
      + b.mantissa * 10 ^ (max a.scale b.scale - b.scale) : Int) : ℚ)
        / 10 ^ max a.scale b.scale := by
    rw [value_eq hla, value_eq hlb, ← add_div]
    push_cast
    rfl
  have hrange : minMantissa ≤ a.mantissa * 10 ^ (max a.scale b.scale - a.scale)
      + b.mantissa * 10 ^ (max a.scale b.scale - b.scale) ∧
      a.mantissa * 10 ^ (max a.scale b.scale - a.scale)
        + b.mantissa * 10 ^ (max a.scale b.scale - b.scale) ≤ maxMantissa := by
    unfold Room at hab
    rw [hsum, div_mul_cancel₀ _ hpos] at hab
    exact_mod_cast hab
  rw [hsum]
  unfold add saturate value
  dsimp only
  rw [rescaled_of_room hla ha, rescaled_of_room hlb hb, min_eq_right hrange.2,
    max_eq_right hrange.1]

/-- A negation is exact where there is room for its result. -/
theorem neg_value {d : Decimal} {scale : Nat} (hle : d.scale ≤ scale)
    (h : Room scale (-d.value)) : d.neg.value = -d.value := by
  have hvalue : (-d.value) = (⟨-d.mantissa, d.scale⟩ : Decimal).value := by
    unfold value
    rw [← neg_div]
    push_cast
    rfl
  rw [hvalue] at h
  obtain ⟨hmin, hmax⟩ := mantissa_of_room (d := ⟨-d.mantissa, d.scale⟩) hle h
  have hten : (1 : Int) ≤ 10 ^ (scale - d.scale) := one_le_pow₀ (by norm_num)
  dsimp only at hmin hmax
  have hrange : minMantissa ≤ -d.mantissa ∧ -d.mantissa ≤ maxMantissa := by
    have hmax0 : (0 : Int) ≤ maxMantissa := by decide
    have hmin0 : minMantissa ≤ (0 : Int) := by decide
    rcases le_total 0 (-d.mantissa) with hpos | hneg
    · have hgrow := le_mul_of_one_le_right hpos hten
      exact ⟨hmin0.trans hpos, hgrow.trans hmax⟩
    · have hgrow := mul_le_of_one_le_right hneg hten
      exact ⟨hmin.trans hgrow, hneg.trans hmax0⟩
  have hneg : (-d.mantissa).bmod (2 ^ 128) = -d.mantissa := by
    unfold minMantissa maxMantissa at hrange
    rw [Int.bmod_eq_of_le] <;> omega
  rw [hvalue]
  unfold neg
  rw [hneg]

end Decimal

/-- The sign of a numeral, and the rest. -/
def signed (cs : List Char) : Bool × List Char :=
  match cs with
  | '-' :: rest => (true, rest)
  | _ => (false, cs)

/-- The number that a text stands for. -/
def numeral (s : String) : Option ℚ :=
  let (neg, body) := signed (trim s).toList
  match body.splitOn '.' with
  | [int] => digits neg int []
  | [int, frac] => digits neg int frac
  | _ => none
where
  /-- The number of the two parts. -/
  digits (neg : Bool) (int frac : List Char) : Option ℚ :=
    if int.isEmpty || !int.all isAsciiDigit || !frac.all isAsciiDigit then none
    else
      let n : ℚ := Nat.ofDigitChars 10 (int ++ frac) 0 / 10 ^ frac.length
      some (if neg then -n else n)

theorem digits_of_parse {neg : Bool} {int frac : List Char} {d : Decimal}
    (hlength : frac.length < 2 ^ 32) (h : Decimal.parse.digits neg int frac = some d) :
    numeral.digits neg int frac = some d.value := by
  simp only [Decimal.parse.digits] at h
  simp only [numeral.digits]
  split at h
  · cases h
  · rename_i hdigits
    rw [if_neg hdigits]
    split at h
    · have hd := Option.some.inj h
      subst hd
      rw [Nat.mod_eq_of_lt hlength]
      cases neg <;> simp [Decimal.value, neg_div]
    · cases h

/-- What is read as a decimal is read as its number, if its scale is not cut. -/
theorem numeral_of_parse {s : String} {d : Decimal} (hlength : s.length < 2 ^ 32)
    (h : Decimal.parse s = some d) : numeral s = some d.value := by
  have htrim : (trim s).toList.length < 2 ^ 32 := by
    have hle := length_trimMatches_le isWhitespace s.toList
    rw [String.length_toList] at hle
    rw [trim, String.toList_ofList]
    exact hle.trans_lt hlength
  unfold Decimal.parse at h
  unfold numeral
  generalize (trim s).toList = cs at h htrim ⊢
  dsimp only at h
  split at h
  · cases h
  change (match (signed cs).2.splitOn '.' with
    | [int] => Decimal.parse.digits (signed cs).1 int []
    | [int, frac] => Decimal.parse.digits (signed cs).1 int frac
    | _ => none) = some d at h
  split at h
  · rename_i hsplit
    simp only [hsplit]
    exact digits_of_parse (by decide) h
  · rename_i int frac hsplit
    simp only [hsplit]
    refine digits_of_parse ?_ h
    -- the fraction is a part of the text
    have hbody : (signed cs).2.length ≤ cs.length := by
      unfold signed
      split <;> simp
    rw [(splitOn_eq_two_iff.mp hsplit).1, List.length_append, List.length_cons] at hbody
    omega
  · cases h

end Frust.Kernel
