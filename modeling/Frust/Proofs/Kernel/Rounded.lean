import Frust.Proofs.Kernel.Money

/-!
# `Frust.Proofs.Kernel.Rounded`: quotients and rounded decimals

`div_round` and `round` share `apply_rounding`, which is `roundQuotient` on what the two give it
(`applyRounding_eq`). A quotient is rounded as its mode says unless its exponent is cut to 32 bits
(`divRounded_iff`), and `round` delivers the scale unless it has to saturate or cannot hold the
power of ten (`roundDelivers_iff`). `arithmetic_exact_iff` says of the five operations together
where they are exact.
-/

set_option autoImplicit false

namespace Frust.Kernel

open Frust.Lib

namespace Decimal

/-- The rule that a mode stands for. -/
def Mode.rule : Mode → RoundingRule
  | .halfEven => .halfEven
  | .halfUp => .halfAway
  | .down => .towardZero

/-- `apply_rounding` rounds the quotient, where twice the remainder has 128 bits. -/
theorem applyRounding_eq {q r unit : Nat} (hr : r < unit) (hunit : unit ≤ 2 ^ 127)
    (hq : q + 1 < 2 ^ 128) (mode : Mode) :
    applyRounding q r unit mode = .ok (roundQuotient mode.rule q r unit) := by
  unfold applyRounding
  by_cases hzero : r = 0
  · rw [if_pos hzero]
    subst hzero
    cases mode with
    | halfEven => rw [Mode.rule, roundQuotient, if_neg (by omega)]
    | halfUp => rw [Mode.rule, roundQuotient, if_neg (by omega)]
    | down => rfl
  · rw [if_neg hzero]
    have htwice : ¬ 2 ^ 128 ≤ r * 2 := by omega
    cases mode with
    | down => rfl
    | halfUp =>
        rw [if_neg (by decide), if_neg htwice, Mode.rule, roundQuotient]
        rcases lt_trichotomy (r * 2) unit with hlt | heq | hgt
        · rw [compare_lt_iff_lt.mpr hlt, if_neg (by omega : ¬ unit ≤ 2 * r)]
          rfl
        · rw [compare_eq_iff_eq.mpr heq, if_pos (by omega : unit ≤ 2 * r)]
          exact if_pos hq
        · rw [compare_gt_iff_gt.mpr hgt, if_pos (by omega : unit ≤ 2 * r)]
          exact if_pos hq
    | halfEven =>
        rw [if_neg (by decide), if_neg htwice, Mode.rule, roundQuotient]
        rcases lt_trichotomy (r * 2) unit with hlt | heq | hgt
        · rw [compare_lt_iff_lt.mpr hlt,
            if_neg (by omega : ¬ (unit < 2 * r ∨ 2 * r = unit ∧ q % 2 = 1))]
          rfl
        · rw [compare_eq_iff_eq.mpr heq]
          -- the tie is the one case that looks at the quotient
          rcases Nat.mod_two_eq_zero_or_one q with heven | hodd
          · rw [if_neg (by omega : ¬ (unit < 2 * r ∨ 2 * r = unit ∧ q % 2 = 1))]
            simp [heven]
          · rw [if_pos (by omega : unit < 2 * r ∨ 2 * r = unit ∧ q % 2 = 1)]
            simp only [hodd, beq_self_eq_true, if_true]
            exact if_pos hq
        · rw [compare_gt_iff_gt.mpr hgt,
            if_pos (by omega : unit < 2 * r ∨ 2 * r = unit ∧ q % 2 = 1)]
          exact if_pos hq

theorem natAbs_le_of_inRange {m : Int} (h : InRange m) : m.natAbs ≤ 2 ^ 127 := by
  unfold InRange minMantissa maxMantissa at h
  omega

theorem abs_le_of_inRange {m : Int} (h : InRange m) : |m| ≤ 2 ^ 127 := by
  unfold InRange minMantissa maxMantissa at h
  exact abs_le.mpr (by omega)

/-- The rounded magnitude of a quotient, which `div_round` and `round` compute. -/
theorem applyRounding_quotient {num den : Int} (hnum : InRange num) (hden : InRange den)
    (hzero : den ≠ 0) (mode : Mode) :
    applyRounding (num.natAbs / den.natAbs) (num.natAbs % den.natAbs) den.natAbs mode
      = .ok (roundQuotient mode.rule (num.natAbs / den.natAbs) (num.natAbs % den.natAbs)
        den.natAbs) := by
  have hle : num.natAbs / den.natAbs ≤ num.natAbs := Nat.div_le_self _ _
  have hrange := natAbs_le_of_inRange hnum
  exact applyRounding_eq (Nat.mod_lt _ (Int.natAbs_pos.mpr hzero)) (natAbs_le_of_inRange hden)
    (by omega) mode

/-- With its sign the rounded magnitude is the rounded quotient. -/
theorem rounds_signed_magnitude (rule : RoundingRule) (num : Int) {den : Int} (hzero : den ≠ 0) :
    Rounds rule ((num : ℚ) / den) (signed (decide (num < 0) != decide (den < 0))
      (roundQuotient rule (num.natAbs / den.natAbs) (num.natAbs % den.natAbs) den.natAbs)) := by
  have hrounds := rounds_signed rule num hzero
  have hsign : (decide (num < 0) != decide (den < 0)) = true ↔ (num < 0) ≠ (den < 0) := by
    rw [bne_iff_ne, ne_eq, decide_eq_decide, ne_eq, eq_iff_iff]
  unfold signed
  simp only [hsign]
  exact hrounds

/-! ### Division -/

/-- The exponent that brings a quotient to the scale. -/
def exponent (n d : Decimal) (scale : Nat) : Int := scale + d.scale - n.scale

theorem quotient_of_nonneg {n d : Decimal} {scale : Nat} (hd : d.mantissa ≠ 0)
    (hp : 0 ≤ exponent n d scale) :
    n.value / d.value * 10 ^ scale
      = ((n.mantissa * 10 ^ (exponent n d scale).toNat : Int) : ℚ) / d.mantissa := by
  have hsum : n.scale + (exponent n d scale).toNat = scale + d.scale := by
    unfold exponent at hp ⊢
    omega
  have hpow : (10 : ℚ) ^ n.scale * 10 ^ (exponent n d scale).toNat = 10 ^ scale * 10 ^ d.scale := by
    rw [← pow_add, ← pow_add, hsum]
  have hne : (d.mantissa : ℚ) ≠ 0 := by exact_mod_cast hd
  have hn : (10 : ℚ) ^ n.scale ≠ 0 := by positivity
  unfold value
  push_cast
  field_simp
  rw [mul_assoc, mul_assoc, hpow, mul_comm ((10 : ℚ) ^ scale)]

theorem quotient_of_neg {n d : Decimal} {scale : Nat} (hd : d.mantissa ≠ 0)
    (hp : exponent n d scale < 0) :
    n.value / d.value * 10 ^ scale
      = (n.mantissa : ℚ) / (d.mantissa * 10 ^ (-exponent n d scale).toNat : Int) := by
  have hsum : n.scale = scale + d.scale + (-exponent n d scale).toNat := by
    unfold exponent at hp ⊢
    omega
  have hne : (d.mantissa : ℚ) ≠ 0 := by exact_mod_cast hd
  unfold value
  rw [hsum, pow_add, pow_add]
  push_cast
  field_simp

theorem checkedPow10_inv {k : Nat} {factor : Int} (h : checkedPow10 k = .ok factor) :
    k ≤ 38 ∧ factor = 10 ^ k := by
  unfold checkedPow10 at h
  split at h
  · rename_i hle
    cases h
    exact ⟨ten_pow_le_max_iff.mp hle, rfl⟩
  · cases h

theorem checkedPow10_ok {k : Nat} (h : k ≤ 38) : checkedPow10 k = .ok (10 ^ k) :=
  if_pos (ten_pow_le_max_iff.mpr h)

/-- What is left of an exponent that is not negative. -/
def cutExponent (n d : Decimal) (scale : Nat) : Nat := (exponent n d scale).toNat % 2 ^ 32

/-- Where the exponent has 32 bits the two integers have the quotient that is asked for. -/
theorem scaledQuotient_inv {n d : Decimal} {scale : Nat} {num den : Int} (hn : n.Stored)
    (hd : d.Stored) (hzero : d.mantissa ≠ 0) (h : scaledQuotient n d scale = .ok (num, den)) :
    InRange num ∧ InRange den ∧ den ≠ 0 ∧
      (0 ≤ exponent n d scale → num = n.mantissa * 10 ^ cutExponent n d scale ∧ den = d.mantissa) ∧
      (exponent n d scale < 2 ^ 32 → (num : ℚ) / den = n.value / d.value * 10 ^ scale) := by
  unfold scaledQuotient at h
  dsimp only at h
  split at h
  · rename_i hp
    obtain ⟨factor, hfactor, h⟩ := bind_eq_ok h
    obtain ⟨num', hnum, h⟩ := bind_eq_ok h
    obtain ⟨rfl, rfl⟩ := Prod.mk.inj (Except.ok.inj h)
    obtain ⟨hrange, rfl⟩ := checkedMul_inv hnum
    obtain ⟨-, rfl⟩ := checkedPow10_inv hfactor
    refine ⟨hrange, hd.mantissa, hzero, fun _ => ⟨rfl, rfl⟩, fun hlt => ?_⟩
    -- The exponent is cut to 32 bits, and has no more.
    have hcut : (exponent n d scale).toNat % 2 ^ 32 = (exponent n d scale).toNat :=
      Nat.mod_eq_of_lt (by omega)
    rw [quotient_of_nonneg hzero hp, ← hcut]
    rfl
  · rename_i hp
    obtain ⟨factor, hfactor, h⟩ := bind_eq_ok h
    obtain ⟨den', hden, h⟩ := bind_eq_ok h
    obtain ⟨rfl, rfl⟩ := Prod.mk.inj (Except.ok.inj h)
    obtain ⟨hrange, rfl⟩ := checkedMul_inv hden
    obtain ⟨-, rfl⟩ := checkedPow10_inv hfactor
    refine ⟨hn.mantissa, hrange, mul_ne_zero hzero (by positivity), fun h => absurd h hp,
      fun _ => ?_⟩
    have hscale := hn.scale
    -- With a negative exponent the divisor is the one that is scaled.
    have hneg : exponent n d scale < 0 := not_le.mp hp
    have hcut : (-exponent n d scale).toNat % 2 ^ 32 = (-exponent n d scale).toNat := by
      refine Nat.mod_eq_of_lt ?_
      unfold exponent
      omega
    rw [quotient_of_neg hzero hneg, ← hcut]
    rfl

theorem divRound_eq {n d : Decimal} {scale : Nat} {num den : Int} (hn : n.Stored) (hd : d.Stored)
    (hzero : d.mantissa ≠ 0) (h : scaledQuotient n d scale = .ok (num, den)) (mode : Mode) :
    n.divRound d scale mode =
      if (roundQuotient mode.rule (num.natAbs / den.natAbs) (num.natAbs % den.natAbs)
          den.natAbs : Int) ≤ maxMantissa
        then .ok ⟨signed (decide (num < 0) != decide (den < 0)) (roundQuotient mode.rule
          (num.natAbs / den.natAbs) (num.natAbs % den.natAbs) den.natAbs), scale⟩
        else .error .overflow := by
  obtain ⟨hnum, hden, hne, -⟩ := scaledQuotient_inv hn hd hzero h
  unfold divRound
  rw [if_neg hzero, h]
  simp only [bind, Except.bind]
  rw [applyRounding_quotient hnum hden hne mode]
  rfl

/-- The rounded magnitude is a mantissa, but for the smallest one over one. -/
theorem roundQuotient_le_max_iff (rule : RoundingRule) {num den : Int} (hnum : InRange num)
    (hne : den ≠ 0) :
    (roundQuotient rule (num.natAbs / den.natAbs) (num.natAbs % den.natAbs) den.natAbs : Int)
      ≤ maxMantissa ↔ ¬ (num = minMantissa ∧ den.natAbs = 1) := by
  have hrange := natAbs_le_of_inRange hnum
  have hpos : 0 < den.natAbs := Int.natAbs_pos.mpr hne
  by_cases hone : den.natAbs = 1
  · rw [hone, Nat.div_one, Nat.mod_one, roundQuotient_zero rule _ one_pos]
    unfold InRange at hnum
    unfold minMantissa maxMantissa at *
    omega
  · have hle := roundQuotient_le rule (num.natAbs / den.natAbs) (num.natAbs % den.natAbs) den.natAbs
    have hdiv : num.natAbs / den.natAbs ≤ 2 ^ 127 / 2 :=
      Nat.div_le_div hrange (by omega) (by decide)
    refine iff_of_true ?_ fun h => hone h.2
    unfold maxMantissa
    omega

/-- What `div_round` returns is the rounded quotient of the two integers. -/
theorem divRound_inv {n d v : Decimal} {scale : Nat} {mode : Mode} (hn : n.Stored) (hd : d.Stored)
    (h : n.divRound d scale mode = .ok v) :
    d.mantissa ≠ 0 ∧ InRange v.mantissa ∧ v.scale = scale ∧
      ∃ num den, scaledQuotient n d scale = .ok (num, den) ∧
        ¬ (num = minMantissa ∧ den.natAbs = 1) ∧ Rounds mode.rule ((num : ℚ) / den) v.mantissa := by
  by_cases hzero : d.mantissa = 0
  · unfold divRound at h
    rw [if_pos hzero] at h
    cases h
  · cases hquotient : scaledQuotient n d scale with
    | error e =>
        unfold divRound at h
        rw [if_neg hzero, hquotient] at h
        cases h
    | ok quotient =>
        obtain ⟨num, den⟩ := quotient
        obtain ⟨hnum, hden, hne, -⟩ := scaledQuotient_inv hn hd hzero hquotient
        rw [divRound_eq hn hd hzero hquotient] at h
        split at h
        · rename_i hmax
          cases h
          exact ⟨hzero, inRange_signed hmax _, rfl, num, den, rfl,
            (roundQuotient_le_max_iff _ hnum hne).mp hmax, rounds_signed_magnitude _ num hne⟩
        · cases h

/-- A decimal that `div_round` returns has the scale, and it is the quotient, rounded by the
mode. -/
def QuotientRounded (n d : Decimal) (scale : Nat) (mode : Mode) : Prop :=
  ∀ v, n.divRound d scale mode = .ok v →
    v.scale = scale ∧ Rounds mode.rule (n.value / d.value * 10 ^ scale) v.mantissa

/-- The exponent has 32 bits, or a zero is divided, or what is left of the exponent makes an
overflow all the same. -/
def ExponentFits (n d : Decimal) (scale : Nat) : Prop :=
  exponent n d scale < 2 ^ 32 ∨ n.mantissa = 0 ∨ d.mantissa = 0 ∨
    ¬ InRange (n.mantissa * 10 ^ cutExponent n d scale) ∨
    n.mantissa * 10 ^ cutExponent n d scale = minMantissa ∧ d.mantissa.natAbs = 1

theorem quotientRounded_of_fits {n d : Decimal} {scale : Nat} {mode : Mode} (hn : n.Stored)
    (hd : d.Stored) (h : ExponentFits n d scale) : QuotientRounded n d scale mode := by
  intro v hv
  obtain ⟨hzero, -, hscale, num, den, hquotient, hmin, hrounds⟩ := divRound_inv hn hd hv
  obtain ⟨hnum, -, -, hcut, hvalue⟩ := scaledQuotient_inv hn hd hzero hquotient
  refine ⟨hscale, ?_⟩
  by_cases hexponent : exponent n d scale < 2 ^ 32
  · rwa [hvalue hexponent] at hrounds
  · obtain ⟨rfl, rfl⟩ := hcut (by omega)
    rcases h with hlt | hn0 | hd0 | hrange | hmin'
    · exact absurd hlt hexponent
    · have hvalue0 : n.value = 0 := by
        unfold value
        rw [hn0, Int.cast_zero, zero_div]
      rw [hn0, zero_mul, Int.cast_zero, zero_div] at hrounds
      rwa [hvalue0, zero_div, zero_mul]
    · exact absurd hd0 hzero
    · exact absurd hnum hrange
    · exact absurd hmin' hmin

/-- A quotient whose exponent is cut is far beyond every mantissa. -/
theorem lt_abs_quotient {n d : Decimal} {scale : Nat} (hd : d.Stored) (hn0 : n.mantissa ≠ 0)
    (hd0 : d.mantissa ≠ 0) (hexponent : 2 ^ 32 ≤ exponent n d scale) :
    2 ^ 128 ≤ |n.value / d.value * 10 ^ scale| := by
  rw [quotient_of_nonneg hd0 (by omega), abs_div, ← Int.cast_abs, ← Int.cast_abs]
  have hpos : (0 : ℚ) < (|d.mantissa| : Int) := by exact_mod_cast abs_pos.mpr hd0
  rw [le_div_iff₀ hpos]
  have hden := abs_le_of_inRange hd.mantissa
  have hten : (10 : Int) ^ 77 ≤ 10 ^ (exponent n d scale).toNat :=
    pow_le_pow_right₀ (by norm_num) (by omega)
  have hnum : (10 : Int) ^ 77 ≤ |n.mantissa * 10 ^ (exponent n d scale).toNat| := by
    rw [abs_mul, abs_of_nonneg (by positivity : (0 : Int) ≤ 10 ^ (exponent n d scale).toNat)]
    have hone : 1 ≤ |n.mantissa| := Int.one_le_abs hn0
    exact hten.trans (le_mul_of_one_le_left (by positivity) hone)
  have hbig : (2 : Int) ^ 128 * 2 ^ 127 ≤ 10 ^ 77 := by decide
  have hint : (2 : Int) ^ 128 * |d.mantissa| ≤ |n.mantissa * 10 ^ (exponent n d scale).toNat| := by
    omega
  exact_mod_cast hint

/-- A quotient is rounded as its mode says exactly where its exponent is not cut, or where the cut
does not show. -/
theorem quotientRounded_iff {n d : Decimal} {scale : Nat} {mode : Mode} (hn : n.Stored)
    (hd : d.Stored) : QuotientRounded n d scale mode ↔ ExponentFits n d scale := by
  refine ⟨fun h => ?_, quotientRounded_of_fits hn hd⟩
  by_contra hfits
  unfold ExponentFits at hfits
  push Not at hfits
  obtain ⟨hexponent, hn0, hd0, hrange, hmin⟩ := hfits
  -- what is left of the exponent makes two integers, and so a result
  have hcut : cutExponent n d scale ≤ 38 := by
    by_contra hlarge
    have hten : (10 : Int) ^ 39 ≤ 10 ^ cutExponent n d scale :=
      pow_le_pow_right₀ (by norm_num) (by omega)
    have hnum : (10 : Int) ^ 39 ≤ |n.mantissa * 10 ^ cutExponent n d scale| := by
      rw [abs_mul, abs_of_nonneg (by positivity : (0 : Int) ≤ 10 ^ cutExponent n d scale)]
      exact hten.trans (le_mul_of_one_le_left (by positivity) (Int.one_le_abs hn0))
    have hle := abs_le_of_inRange hrange
    have hbig : (2 : Int) ^ 127 < 10 ^ 39 := by decide
    omega
  have hquotient : scaledQuotient n d scale
      = .ok (n.mantissa * 10 ^ cutExponent n d scale, d.mantissa) := by
    unfold scaledQuotient
    dsimp only
    rw [if_pos (by unfold exponent at hexponent; omega)]
    show (do
      let factor ← checkedPow10 (cutExponent n d scale)
      let num ← checkedMul n.mantissa factor
      return (num, d.mantissa)) = _
    rw [checkedPow10_ok hcut]
    show (do
      let num ← checkedMul n.mantissa (10 ^ cutExponent n d scale)
      return (num, d.mantissa)) = _
    rw [checkedMul_ok hrange]
    rfl
  have hmax := (roundQuotient_le_max_iff mode.rule hrange hd0).mpr fun hone => hmin hone.1 hone.2
  have hv := divRound_eq hn hd hd0 hquotient mode
  rw [if_pos hmax] at hv
  obtain ⟨-, hrounds⟩ := h _ hv
  have hclose := hrounds.abs_sub_lt
  have hbig := lt_abs_quotient hd hn0 hd0 hexponent
  generalize n.value / d.value * 10 ^ scale = x at hclose hbig
  have hsmall := abs_le_of_inRange
    (inRange_signed hmax (decide (n.mantissa * 10 ^ cutExponent n d scale < 0)
      != decide (d.mantissa < 0)))
  generalize signed _ _ = m at hclose hsmall
  have habs : |(m : ℚ)| ≤ 2 ^ 127 := by
    rw [← Int.cast_abs]
    exact_mod_cast hsmall
  have htriangle := abs_sub_abs_le_abs_sub x m
  linarith

theorem value_eq_zero_iff (d : Decimal) : d.value = 0 ↔ d.mantissa = 0 := by
  unfold value
  rw [div_eq_zero_iff, Int.cast_eq_zero]
  have hne : (10 : ℚ) ^ d.scale ≠ 0 := by positivity
  simp [hne]

/-- The two integers fail with an overflow. -/
theorem scaledQuotient_error {n d : Decimal} {scale : Nat} {e : MoneyError}
    (h : scaledQuotient n d scale = .error e) : e = .overflow := by
  have hmul {a b : Int} {e : MoneyError} (h : checkedMul a b = .error e) : e = .overflow := by
    unfold checkedMul at h
    split at h
    · cases h
    · exact (Except.error.inj h).symm
  have hpow {k : Nat} {e : MoneyError} (h : checkedPow10 k = .error e) : e = .overflow := by
    unfold checkedPow10 at h
    split at h
    · cases h
    · exact (Except.error.inj h).symm
  -- Both branches multiply one mantissa by a power of ten.
  have hboth {k : Nat} {m : Int} {f : Int → Int × Int}
      (h : (do let factor ← checkedPow10 k
               let product ← checkedMul m factor
               return f product : Except MoneyError (Int × Int)) = .error e) : e = .overflow := by
    cases hfactor : checkedPow10 k with
    | error e' =>
        rw [hfactor] at h
        cases h
        exact hpow hfactor
    | ok factor =>
        rw [hfactor] at h
        cases hproduct : checkedMul m factor with
        | error e' =>
            simp only [bind, Except.bind, hproduct] at h
            cases h
            exact hmul hproduct
        | ok product =>
            simp only [bind, Except.bind, hproduct] at h
            cases h
  unfold scaledQuotient at h
  dsimp only at h
  split at h
  · exact hboth h
  · exact hboth h

/-- A division by anything but zero reports an overflow, if an error at all. -/
theorem divRound_ne_divByZero {n d : Decimal} (scale : Nat) (mode : Mode) (hn : n.Stored)
    (hd : d.Stored) (hzero : d.mantissa ≠ 0) : n.divRound d scale mode ≠ .error .divByZero := by
  cases hquotient : scaledQuotient n d scale with
  | ok quotient =>
      rw [divRound_eq hn hd hzero hquotient]
      split <;> simp
  | error e =>
      unfold divRound
      rw [if_neg hzero, hquotient, scaledQuotient_error hquotient]
      simp [bind, Except.bind]

/-- `div_round` reports a division by zero exactly where there is one, and what it returns is the
rounded quotient. -/
structure DivRounded (n d : Decimal) (scale : Nat) (mode : Mode) : Prop where
  divByZero : n.divRound d scale mode = .error .divByZero ↔ d.value = 0
  quotient : ∀ v, n.divRound d scale mode = .ok v →
    v.scale = scale ∧ Rounds mode.rule (n.value / d.value * 10 ^ scale) v.mantissa

/-- `div_round` is correctly rounded exactly where its exponent is not cut, or where the cut does
not show. -/
theorem divRounded_iff {n d : Decimal} {scale : Nat} (mode : Mode) (hn : n.Stored)
    (hd : d.Stored) : DivRounded n d scale mode ↔ ExponentFits n d scale := by
  have hquotient : QuotientRounded n d scale mode ↔ ExponentFits n d scale :=
    quotientRounded_iff hn hd
  rw [← hquotient]
  constructor
  · intro h
    exact h.quotient
  · intro h
    refine ⟨?_, h⟩
    rw [value_eq_zero_iff]
    constructor
    · intro herror
      by_contra hzero
      exact divRound_ne_divByZero scale mode hn hd hzero herror
    · intro hzero
      -- The divisor is asked for zero before anything else.
      unfold divRound
      exact if_pos hzero

/-- Ten over three, and a quotient whose exponent is negative. -/
theorem divRounded_thirds :
    DivRounded ⟨10, 0⟩ ⟨3, 0⟩ 2 .halfEven ∧ DivRounded ⟨-12345, 5⟩ ⟨7, 0⟩ 1 .halfUp :=
  ⟨(divRounded_iff .halfEven ⟨by decide, by decide⟩ ⟨by decide, by decide⟩).mpr
      (.inl (by decide)),
    (divRounded_iff .halfUp ⟨by decide, by decide⟩ ⟨by decide, by decide⟩).mpr (.inl (by decide))⟩

/-- One over a tenth has an exponent of 33 bits, and it is returned as the least decimal of the
scale. -/
theorem not_divRounded_cut :
    divRound ⟨1, 0⟩ ⟨1, 1⟩ 4294967295 .halfEven = .ok ⟨1, 4294967295⟩ ∧
      ∃ n d, parse "1" = some n ∧ parse "0.1" = some d ∧
        ¬ DivRounded n d 4294967295 .halfEven := by
  refine ⟨by decide, ⟨1, 0⟩, ⟨1, 1⟩, by decide, by decide, ?_⟩
  intro h
  have hfits := (quotientRounded_iff ⟨by decide, by decide⟩ ⟨by decide, by decide⟩).mp h.quotient
  unfold ExponentFits at hfits
  revert hfits
  decide

/-! ### Rounding to a scale -/

/-- `round` delivers the scale and the rounded number, and once more changes nothing. It does not
panic in a build that checks. -/
def RoundDelivers (d : Decimal) (target : Nat) (mode : Mode) : Prop :=
  ∃ r, d.round? target mode = some r ∧ r.scale = target ∧
    Rounds mode.rule (d.value * 10 ^ target) r.mantissa ∧
    (d.scale ≤ target → r.value = d.value) ∧ r.round? target mode = some r

/-- The value is kept, or it is rounded at the scale. -/
def RoundKeeps (d : Decimal) (target : Nat) (mode : Mode) : Prop :=
  ∃ r, d.round? target mode = some r ∧
    (r.value = d.value ∨ r.scale = target ∧ Rounds mode.rule (d.value * 10 ^ target) r.mantissa)

/-- A scale that is smaller by at most 38 digits is delivered. -/
theorem round_of_narrow {d : Decimal} {target : Nat} (mode : Mode) (hd : d.Stored)
    (hlt : target < d.scale) (hgap : d.scale - target ≤ 38) :
    (d.round target mode).scale = target ∧
      Rounds mode.rule (d.value * 10 ^ target) (d.round target mode).mantissa := by
  have hten : InRange ((10 : Int) ^ (d.scale - target)) := by
    have hle := ten_pow_le_max_iff.mpr hgap
    have hpos : (0 : Int) ≤ 10 ^ (d.scale - target) := by positivity
    exact ⟨le_trans (by decide) hpos, hle⟩
  have hne : (10 : Int) ^ (d.scale - target) ≠ 0 := by positivity
  have hnatAbs : ((10 : Int) ^ (d.scale - target)).natAbs ≠ 1 := by
    rw [Int.natAbs_pow]
    have hlarge : 1 < 10 ^ (d.scale - target) := Nat.one_lt_pow (by omega) (by omega)
    exact hlarge.ne'
  -- The quotient of a mantissa in range by more than one is in range.
  have hmax := (roundQuotient_le_max_iff mode.rule hd.mantissa hne).mpr fun h => hnatAbs h.2
  -- So no step of the rounding fails.
  have hround : d.round target mode = ⟨signed (decide (d.mantissa < 0))
      (roundQuotient mode.rule (d.mantissa.natAbs / ((10 : Int) ^ (d.scale - target)).natAbs)
        (d.mantissa.natAbs % ((10 : Int) ^ (d.scale - target)).natAbs)
        ((10 : Int) ^ (d.scale - target)).natAbs), target⟩ := by
    unfold round
    rw [if_neg (by omega), checkedPow10_ok hgap]
    dsimp only
    rw [applyRounding_quotient hd.mantissa hten hne mode]
    dsimp only
    rw [min_eq_left (by omega)]
  -- Scaled by the target, the value is the quotient that was rounded.
  have hvalue : d.value * 10 ^ target = (d.mantissa : ℚ) / ((10 : Int) ^ (d.scale - target) : Int) := by
    have hsplit : (10 : ℚ) ^ d.scale = 10 ^ (d.scale - target) * 10 ^ target := by
      rw [← pow_add, Nat.sub_add_cancel hlt.le]
    unfold value
    rw [hsplit]
    push_cast
    field_simp
  have hrounds := rounds_signed_magnitude mode.rule d.mantissa hne
  have hsign : decide ((10 : Int) ^ (d.scale - target) < 0) = false :=
    decide_eq_false (not_lt.mpr (by positivity))
  rw [hsign, Bool.bne_false] at hrounds
  rw [hround, hvalue]
  exact ⟨rfl, hrounds⟩

theorem round_of_wide {d : Decimal} {target : Nat} (mode : Mode) (hle : d.scale ≤ target) :
    d.round? target mode = if target - d.scale ≤ 38 then some (d.rescaled target) else none := by
  unfold round?
  rw [if_pos hle, rescaled?_eq]

theorem rescaled_scale {d : Decimal} {target : Nat} (hle : d.scale ≤ target) :
    (d.rescaled target).scale = target := by
  unfold rescaled
  split
  · omega
  · rfl

/-- At a larger scale the number is the mantissa at that scale, so rounding does not change it. -/
theorem rescaled_value_iff {d : Decimal} {target : Nat} (hd : d.Stored) (hle : d.scale ≤ target)
    (hgap : target - d.scale ≤ 38) :
    (d.rescaled target).value = d.value ↔ d.Fits target := by
  have hpos : (10 : ℚ) ^ target ≠ 0 := by positivity
  rw [value_eq hle]
  unfold value
  rw [rescaled_scale hle, div_left_inj' hpos, Int.cast_inj, rescaled_mantissa_eq hd.mantissa hgap]
  constructor
  · intro h
    have hrange := inRange_saturate (d.mantissaAt target)
    rw [h] at hrange
    exact ⟨hgap, hrange⟩
  · intro h
    exact saturate_of_inRange h.2

theorem round?_self {d : Decimal} (mode : Mode) : d.round? d.scale mode = some d := by
  rw [round_of_wide mode le_rfl, if_pos (by omega), rescaled, if_pos le_rfl]

/-- At a larger scale, what is rounded is the number itself. -/
theorem rounds_rescaled_iff {d r : Decimal} {target : Nat} {rule : RoundingRule}
    (hle : d.scale ≤ target) (hscale : r.scale = target) :
    Rounds rule (d.value * 10 ^ target) r.mantissa ↔ r.value = d.value := by
  have hpos : (10 : ℚ) ^ target ≠ 0 := by positivity
  rw [value_eq hle, div_mul_cancel₀ _ hpos, rounds_int_iff]
  unfold value
  rw [hscale, div_left_inj' hpos, Int.cast_inj, eq_comm]

theorem round?_of_narrow {d : Decimal} {target : Nat} (mode : Mode) (hlt : target < d.scale) :
    d.round? target mode = some (d.round target mode) := by
  unfold round?
  rw [if_neg (by omega)]

/-- A decimal with more digits to drop than a power of ten can hold is returned as it is. -/
theorem round_of_far {d : Decimal} {target : Nat} (mode : Mode) (hlt : target < d.scale)
    (hgap : ¬ d.scale - target ≤ 38) : d.round target mode = d := by
  unfold round checkedPow10
  rw [if_neg (by omega), if_neg (by rw [ten_pow_le_max_iff]; exact hgap)]

/-- `round` delivers the scale where it has not to saturate, and where it drops no more digits than
a power of ten can hold. -/
theorem roundDelivers_iff {d : Decimal} {target : Nat} (mode : Mode) (hd : d.Stored) :
    RoundDelivers d target mode ↔
      d.scale ≤ target ∧ d.Fits target ∨ target < d.scale ∧ d.scale - target ≤ 38 := by
  unfold RoundDelivers
  rcases le_or_gt d.scale target with hle | hlt
  · -- To a wider scale the digits are kept, as far as the power of ten goes.
    rw [round_of_wide mode hle]
    by_cases hgap : target - d.scale ≤ 38
    · simp only [if_pos hgap, Option.some.injEq, exists_eq_left']
      have hscale := rescaled_scale hle
      rw [rounds_rescaled_iff hle hscale, rescaled_value_iff hd hle hgap]
      constructor
      · rintro ⟨-, hfits, -⟩
        exact .inl ⟨hle, hfits⟩
      · rintro (⟨-, hfits⟩ | ⟨hlt, -⟩)
        · refine ⟨hscale, hfits, fun _ => hfits, ?_⟩
          have hself := round?_self (d := d.rescaled target) mode
          rwa [hscale] at hself
        · omega
    · simp only [if_neg hgap]
      constructor
      · rintro ⟨r, hr, -⟩
        cases hr
      · rintro (⟨-, hfits⟩ | ⟨hlt, -⟩)
        · exact absurd hfits.1 hgap
        · omega
  · -- To a narrower scale digits are cut, at most 38 of them.
    rw [round?_of_narrow mode hlt]
    simp only [Option.some.injEq, exists_eq_left']
    by_cases hgap : d.scale - target ≤ 38
    · obtain ⟨hscale, hrounds⟩ := round_of_narrow mode hd hlt hgap
      refine iff_of_true ⟨hscale, hrounds, fun h => absurd h (by omega), ?_⟩ (.inr ⟨hlt, hgap⟩)
      have hself := round?_self (d := d.round target mode) mode
      rwa [hscale] at hself
    · constructor
      · rintro ⟨hscale, -⟩
        rw [round_of_far mode hlt hgap] at hscale
        omega
      · rintro (⟨hle, -⟩ | ⟨-, hle⟩) <;> omega

/-- Three digits are rounded to two, and two are widened to four. -/
theorem roundDelivers_money :
    RoundDelivers ⟨-12345, 3⟩ 2 .halfEven ∧ RoundDelivers ⟨1050, 2⟩ 4 .down :=
  ⟨(roundDelivers_iff .halfEven ⟨by decide, by decide⟩).mpr (.inr ⟨by decide, by decide⟩),
    (roundDelivers_iff .down ⟨by decide, by decide⟩).mpr
      (.inl ⟨by decide, by decide, by decide, by decide⟩)⟩

/-- The largest mantissa is a hundredth of itself when it is widened to two digits, and a decimal
with 40 digits after the point is not rounded to one. -/
theorem not_roundDelivers : round ⟨maxMantissa, 0⟩ 2 .halfEven = ⟨maxMantissa, 2⟩ ∧
    round ⟨15, 40⟩ 1 .halfEven = ⟨15, 40⟩ ∧
    ¬ RoundDelivers ⟨maxMantissa, 0⟩ 2 .halfEven ∧ ¬ RoundDelivers ⟨15, 40⟩ 1 .halfEven := by
  refine ⟨by decide, by decide, ?_, ?_⟩
  · rintro ⟨r, hr, -, -, hvalue, -⟩
    have hr' : r = ⟨maxMantissa, 2⟩ := Option.some.inj (hr.symm.trans (by decide))
    have heq := hvalue (by decide)
    subst hr'
    unfold value maxMantissa at heq
    norm_num at heq
  · rintro ⟨r, hr, hscale, -⟩
    have hr' : r = ⟨15, 40⟩ := Option.some.inj (hr.symm.trans (by decide))
    subst hr'
    exact absurd hscale (by decide)

/-! ### The operations together -/

/-- `round` keeps or rounds the value unless it widens past the range. -/
theorem roundKeeps_iff {d : Decimal} {target : Nat} (mode : Mode) (hd : d.Stored) :
    RoundKeeps d target mode ↔ (d.scale ≤ target → d.Fits target) := by
  unfold RoundKeeps
  rcases le_or_gt d.scale target with hle | hlt
  · rw [round_of_wide mode hle]
    by_cases hgap : target - d.scale ≤ 38
    · simp only [if_pos hgap, Option.some.injEq, exists_eq_left']
      have hscale := rescaled_scale hle
      rw [rounds_rescaled_iff hle hscale, rescaled_value_iff hd hle hgap]
      simp only [hscale, true_and, or_self, hle, true_imp_iff]
    · simp only [if_neg hgap]
      refine iff_of_false (fun ⟨r, hr, _⟩ => by cases hr) fun h => hgap (h hle).1
  · refine iff_of_true ?_ fun h => absurd h (by omega)
    rw [round?_of_narrow mode hlt]
    refine ⟨_, rfl, ?_⟩
    by_cases hgap : d.scale - target ≤ 38
    · exact .inr (round_of_narrow mode hd hlt hgap)
    · rw [round_of_far mode hlt hgap]
      exact .inl rfl

/-- Where the operations on reachable decimals are exact, or rounded as they are asked to, or
report an error. Elsewhere they panic, wrap or saturate. -/
theorem arithmetic_exact_iff {a b : Decimal} (ha : Reachable a) (hb : Reachable b) (scale : Nat)
    (mode : Mode) :
    (AddExact a b ↔ a.Fits (max a.scale b.scale) ∧ b.Fits (max a.scale b.scale) ∧
      InRange (a.mantissaAt (max a.scale b.scale) + b.mantissaAt (max a.scale b.scale))) ∧
    (NegExact a ↔ a.mantissa ≠ minMantissa) ∧
    (MulExact a b ↔ a.scale + b.scale < 2 ^ 32 ∨ ¬ InRange (a.mantissa * b.mantissa)) ∧
    (QuotientRounded a b scale mode ↔ ExponentFits a b scale) ∧
    (RoundKeeps a scale mode ↔ (a.scale ≤ scale → a.Fits scale)) :=
  ⟨addExact_iff ha.stored hb.stored, negExact_iff ha.stored, mulExact_iff a b,
    quotientRounded_iff ha.stored hb.stored, roundKeeps_iff mode ha.stored⟩

/-- A price and a tax. -/
theorem addExact_prices : ∃ a b, parse "10.50" = some a ∧ parse "-0.125" = some b ∧
    AddExact a b ∧ NegExact a ∧ MulExact a b := by
  have ha : parse "10.50" = some ⟨1050, 2⟩ := by decide
  have hb : parse "-0.125" = some ⟨-125, 3⟩ := by decide
  obtain ⟨hadd, hneg, hmul, -⟩ := arithmetic_exact_iff (.parse ha) (.parse hb) 2 .halfEven
  exact ⟨_, _, ha, hb,
    hadd.mpr ⟨⟨by decide, by decide, by decide⟩, ⟨by decide, by decide, by decide⟩, by decide⟩,
    hneg.mpr (by decide), hmul.mpr (.inl (by decide))⟩

/-- The largest mantissa and one have a sum that is cut to the largest mantissa. -/
theorem not_addExact_max : ∃ a b,
    parse "170141183460469231731687303715884105727" = some a ∧ parse "1" = some b ∧
    a.add b = a ∧ ¬ AddExact a b := by
  refine ⟨⟨maxMantissa, 0⟩, ⟨1, 0⟩, by decide, by decide, by decide, ?_⟩
  rw [addExact_iff ⟨by decide, by decide⟩ ⟨by decide, by decide⟩]
  rintro ⟨-, -, hrange⟩
  revert hrange
  decide

end Decimal

end Frust.Kernel
