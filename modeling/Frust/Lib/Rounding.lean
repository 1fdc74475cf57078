import Mathlib.Algebra.Order.Field.Basic
import Mathlib.Tactic.FieldSimp
import Mathlib.Tactic.Linarith
import Mathlib.Tactic.Ring

/-!
# `Frust.Lib.Rounding`: rounding a rational number to an integer

`Rounds rule x n` says that `n` is the rational `x` rounded by a rule: to the nearest integer, with
ties to the even one or away from zero, or toward zero. An integer is rounded to itself
(`rounds_int_iff`), what a number is rounded to is less than one away (`Rounds.abs_sub_lt`), and the
rules are the same on both sides of zero (`Rounds.neg`).

`roundQuotient` decides by the remainder of a division, and it is the rounded quotient
(`rounds_roundQuotient`).
-/

set_option autoImplicit false

namespace Frust.Lib

/-- How a number between two integers is rounded. -/
inductive RoundingRule where
  /-- To the nearest one, a tie to the even one. -/
  | halfEven
  /-- To the nearest one, a tie away from zero. -/
  | halfAway
  /-- Toward zero. -/
  | towardZero
  deriving DecidableEq

/-- The integer is at most half away, and in a tie the condition holds. -/
def Nearest (tie : Prop) (x : ℚ) (n : ℤ) : Prop := |x - n| ≤ 1 / 2 ∧ (|x - n| = 1 / 2 → tie)

/-- The integer is the number, rounded by the rule. -/
def Rounds : RoundingRule → ℚ → ℤ → Prop
  | .halfEven, x, n => Nearest (Even n) x n
  | .halfAway, x, n => Nearest (|x| < |(n : ℚ)|) x n
  | .towardZero, x, n => |(n : ℚ)| ≤ |x| ∧ |x| < |(n : ℚ)| + 1 ∧ 0 ≤ x * n

section

variable {rule : RoundingRule} {x : ℚ} {n n' : ℤ}

/-- An integer is rounded to itself. -/
theorem rounds_int (rule : RoundingRule) (n : ℤ) : Rounds rule n n := by
  cases rule with
  | halfEven => simp [Rounds, Nearest]
  | halfAway => simp [Rounds, Nearest]
  | towardZero =>
      refine ⟨le_rfl, by linarith, ?_⟩
      exact mul_self_nonneg _

/-- What a number is rounded to is less than one away. -/
theorem Rounds.abs_sub_lt (h : Rounds rule x n) : |x - n| < 1 := by
  cases rule with
  | halfEven => exact h.1.trans_lt (by norm_num)
  | halfAway => exact h.1.trans_lt (by norm_num)
  | towardZero =>
      obtain ⟨hle, hlt, hsign⟩ := h
      rw [abs_lt]
      -- the two are on one side of zero, so their distance is that of their magnitudes
      rcases le_total 0 (n : ℚ) with hn | hn
      · rw [abs_of_nonneg hn] at hle hlt
        rcases le_total 0 x with hx | hx
        · rw [abs_of_nonneg hx] at hle hlt
          constructor <;> linarith
        · rw [abs_of_nonpos hx] at hle hlt
          have hzero : (n : ℚ) = 0 ∨ x = 0 := by
            by_contra hne
            push Not at hne
            have hxn : x * n < 0 := mul_neg_of_neg_of_pos (lt_of_le_of_ne hx hne.2)
              (lt_of_le_of_ne hn hne.1.symm)
            linarith
          rcases hzero with hzero | hzero <;> constructor <;> linarith
      · rw [abs_of_nonpos hn] at hle hlt
        rcases le_total 0 x with hx | hx
        · rw [abs_of_nonneg hx] at hle hlt
          have hzero : (n : ℚ) = 0 ∨ x = 0 := by
            by_contra hne
            push Not at hne
            have hxn : x * n < 0 := mul_neg_of_pos_of_neg (lt_of_le_of_ne hx hne.2.symm)
              (lt_of_le_of_ne hn hne.1)
            linarith
          rcases hzero with hzero | hzero <;> constructor <;> linarith
        · rw [abs_of_nonpos hx] at hle hlt
          constructor <;> linarith

/-- An integer is rounded to itself, and to no other. -/
theorem rounds_int_iff {m : ℤ} : Rounds rule m n ↔ m = n := by
  constructor
  · intro h
    have hlt : |((m - n : ℤ) : ℚ)| < 1 := by
      push_cast
      exact h.abs_sub_lt
    rw [← Int.cast_abs] at hlt
    have hzero : |m - n| < 1 := by exact_mod_cast hlt
    exact sub_eq_zero.mp (Int.abs_lt_one_iff.mp hzero)
  · rintro rfl
    exact rounds_int rule m

/-- The rules are the same on both sides of zero. -/
theorem Rounds.neg (h : Rounds rule x n) : Rounds rule (-x) (-n) := by
  have habs : |(-x) - ((-n : ℤ) : ℚ)| = |x - n| := by
    rw [← abs_neg]
    push_cast
    ring_nf
  cases rule with
  | halfEven =>
      simp only [Rounds, Nearest] at h ⊢
      rw [habs, even_neg]
      exact h
  | halfAway =>
      simp only [Rounds, Nearest] at h ⊢
      rw [habs, abs_neg]
      push_cast
      rw [abs_neg]
      exact h
  | towardZero =>
      simp only [Rounds] at h ⊢
      push_cast
      rw [abs_neg, abs_neg, neg_mul_neg]
      exact h

end

/-! ### Rounding a division -/

/-- The quotient, or the next one, by the remainder. -/
def roundQuotient (rule : RoundingRule) (q r unit : ℕ) : ℕ :=
  match rule with
  | .halfEven => if unit < 2 * r ∨ 2 * r = unit ∧ q % 2 = 1 then q + 1 else q
  | .halfAway => if unit ≤ 2 * r then q + 1 else q
  | .towardZero => q

theorem roundQuotient_le (rule : RoundingRule) (q r unit : ℕ) :
    roundQuotient rule q r unit ≤ q + 1 := by
  unfold roundQuotient
  split
  · split <;> omega
  · split <;> omega
  · omega

/-- A division without a remainder is not rounded. -/
theorem roundQuotient_zero (rule : RoundingRule) (q : ℕ) {unit : ℕ} (hunit : 0 < unit) :
    roundQuotient rule q 0 unit = q := by
  unfold roundQuotient
  split
  · rw [if_neg (by omega)]
  · rw [if_neg (by omega)]
  · rfl

/-- A quotient of natural numbers and its remainder are those of the rational quotient. -/
theorem quotient_eq {a unit : ℕ} (hunit : 0 < unit) :
    (a : ℚ) / unit = (a / unit : ℕ) + (a % unit : ℕ) / (unit : ℚ) := by
  have hne : (unit : ℚ) ≠ 0 := by positivity
  have hsplit : (a : ℚ) = (a / unit : ℕ) * unit + (a % unit : ℕ) := by
    exact_mod_cast (Nat.div_add_mod' a unit).symm
  field_simp
  linarith

/-- `roundQuotient` is the rounded quotient. -/
theorem rounds_roundQuotient (rule : RoundingRule) {a unit : ℕ} (hunit : 0 < unit) :
    Rounds rule ((a : ℚ) / unit) (roundQuotient rule (a / unit) (a % unit) unit : ℕ) := by
  have hpos : (0 : ℚ) < unit := by exact_mod_cast hunit
  have hlt : ((a % unit : ℕ) : ℚ) / unit < 1 := by
    rw [div_lt_one hpos]
    exact_mod_cast Nat.mod_lt a hunit
  have hnonneg : 0 ≤ ((a % unit : ℕ) : ℚ) / unit := div_nonneg (Nat.cast_nonneg _) hpos.le
  -- The remainder against one half, in whole numbers.
  have hhalf : ((a % unit : ℕ) : ℚ) / unit < 1 / 2 ↔ 2 * (a % unit) < unit := by
    rw [div_lt_iff₀ hpos]
    constructor
    · intro h
      have : (2 * (a % unit : ℕ) : ℚ) < unit := by linarith
      exact_mod_cast this
    · intro h
      have : (2 * (a % unit : ℕ) : ℚ) < unit := by exact_mod_cast h
      linarith
  have htie : ((a % unit : ℕ) : ℚ) / unit = 1 / 2 ↔ 2 * (a % unit) = unit := by
    rw [div_eq_iff hpos.ne']
    constructor
    · intro h
      have : (2 * (a % unit : ℕ) : ℚ) = unit := by linarith
      exact_mod_cast this
    · intro h
      have : (2 * (a % unit : ℕ) : ℚ) = unit := by exact_mod_cast h
      linarith
  rw [quotient_eq hunit]
  -- From here on the fraction is only known to be in [0, 1), and where it stands to one half.
  generalize ((a % unit : ℕ) : ℚ) / unit = t at hlt hnonneg hhalf htie ⊢
  generalize a % unit = r at hhalf htie ⊢
  generalize a / unit = q
  have hq : (0 : ℚ) ≤ q := by positivity
  have hdown : |(q : ℚ) + t - q| = t := by rw [add_sub_cancel_left, abs_of_nonneg hnonneg]
  have hup : |(q : ℚ) + t - (q + 1)| = 1 - t := by
    rw [abs_of_nonpos (by linarith)]
    ring
  cases rule with
  | halfEven =>
      simp only [Rounds, Nearest, roundQuotient, Int.cast_natCast, Int.even_coe_nat]
      split
      · rename_i hdecide
        push_cast
        rw [hup]
        have hge : ¬ 2 * r < unit := by omega
        rw [← hhalf] at hge
        refine ⟨by linarith, fun heq => ?_⟩
        have hties : 2 * r = unit := htie.mp (by linarith)
        exact Nat.even_add_one.mpr (by rw [Nat.not_even_iff]; omega)
      · rename_i hdecide
        rw [hdown]
        have hle : t ≤ 1 / 2 := by
          by_cases hlt : 2 * r < unit
          · exact (hhalf.mpr hlt).le
          · exact (htie.mpr (by omega)).le
        refine ⟨hle, fun heq => ?_⟩
        have hties : 2 * r = unit := htie.mp heq
        rw [Nat.even_iff]
        omega
  | halfAway =>
      simp only [Rounds, Nearest, roundQuotient, Int.cast_natCast]
      rw [abs_of_nonneg (by linarith : (0 : ℚ) ≤ q + t)]
      split
      · rename_i hdecide
        push_cast
        rw [hup, abs_of_nonneg (by linarith : (0 : ℚ) ≤ q + 1)]
        have hge : ¬ 2 * r < unit := by omega
        rw [← hhalf] at hge
        exact ⟨by linarith, fun _ => by linarith⟩
      · rename_i hdecide
        have hlt : t < 1 / 2 := hhalf.mpr (by omega)
        rw [hdown]
        exact ⟨hlt.le, fun heq => by linarith⟩
  | towardZero =>
      simp only [Rounds, roundQuotient, Int.cast_natCast]
      rw [abs_of_nonneg hq, abs_of_nonneg (by linarith : (0 : ℚ) ≤ q + t)]
      exact ⟨by linarith, by linarith, mul_nonneg (by linarith) hq⟩

/-- The sign of a quotient of integers is put back after its magnitude is rounded. -/
theorem rounds_signed (rule : RoundingRule) (num : ℤ) {den : ℤ} (hden : den ≠ 0) :
    Rounds rule ((num : ℚ) / den) (if (num < 0) ≠ (den < 0)
      then -(roundQuotient rule (num.natAbs / den.natAbs) (num.natAbs % den.natAbs) den.natAbs : ℤ)
      else roundQuotient rule (num.natAbs / den.natAbs) (num.natAbs % den.natAbs) den.natAbs) := by
  have hmagnitude := rounds_roundQuotient rule (a := num.natAbs) (Int.natAbs_pos.mpr hden)
  generalize (roundQuotient rule (num.natAbs / den.natAbs) (num.natAbs % den.natAbs) den.natAbs : ℤ)
    = m at hmagnitude ⊢
  have habs (i : ℤ) : ((i.natAbs : ℕ) : ℚ) = |(i : ℚ)| := by
    rw [← Int.cast_abs, Int.abs_eq_natAbs, Int.cast_natCast]
  rw [habs, habs] at hmagnitude
  rcases lt_or_ge num 0 with hnum | hnum <;> rcases lt_or_ge den 0 with hd | hd
  · rw [if_neg (by simp [hnum, hd])]
    rwa [abs_of_neg (by exact_mod_cast hnum), abs_of_neg (by exact_mod_cast hd), neg_div_neg_eq]
      at hmagnitude
  · rw [if_pos (by simp [hnum, not_lt.mpr hd])]
    rw [abs_of_neg (by exact_mod_cast hnum), abs_of_nonneg (by exact_mod_cast hd), neg_div]
      at hmagnitude
    simpa using hmagnitude.neg
  · rw [if_pos (by simp [not_lt.mpr hnum, hd])]
    rw [abs_of_nonneg (by exact_mod_cast hnum), abs_of_neg (by exact_mod_cast hd), div_neg]
      at hmagnitude
    simpa using hmagnitude.neg
  · rw [if_neg (by simp [not_lt.mpr hnum, not_lt.mpr hd])]
    rwa [abs_of_nonneg (by exact_mod_cast hnum), abs_of_nonneg (by exact_mod_cast hd)] at hmagnitude

end Frust.Lib
