import Frust.Lib.Prog
import Frust.Lib.Rounding
import Frust.Proofs.Kernel.Decimal

/-!
# `Frust.Proofs.Kernel.Money`: exact decimal arithmetic

A `Reachable` decimal is one that the public operations make, so its mantissa has 128 bits and its
scale 32 (`Reachable.stored`). Within these ranges the operations are those of the rationals, but
not up to their ends: rescaling saturates or overflows, the sum of two scales wraps, an exponent is
cut to 32 bits. One `iff` for each operation says where it is exact, and what is exact does not
panic in a build that checks arithmetic either.
-/

set_option autoImplicit false

namespace Frust.Kernel

open Frust.Lib

namespace Decimal

/-! ### Decimals as they are stored -/

/-- A mantissa of 128 bits. -/
def InRange (m : Int) : Prop := minMantissa ≤ m ∧ m ≤ maxMantissa

instance (m : Int) : Decidable (InRange m) := inferInstanceAs (Decidable (_ ∧ _))

/-- A mantissa of 128 bits and a scale of 32. -/
structure Stored (d : Decimal) : Prop where
  mantissa : InRange d.mantissa
  scale : d.scale < 2 ^ 32

/-- A decimal that the public operations make. -/
inductive Reachable : Decimal → Prop
  | parse {s : String} {d : Decimal} (h : parse s = some d) : Reachable d
  | add {a b : Decimal} (ha : Reachable a) (hb : Reachable b) : Reachable (a.add b)
  | neg {d : Decimal} (hd : Reachable d) : Reachable d.neg
  | mul {a b d : Decimal} (ha : Reachable a) (hb : Reachable b) (h : a.mul b = .ok d) : Reachable d
  | divRound {n d v : Decimal} {scale : Nat} {mode : Mode} (hn : Reachable n) (hd : Reachable d)
      (hscale : scale < 2 ^ 32) (h : n.divRound d scale mode = .ok v) : Reachable v
  | round {d : Decimal} {target : Nat} {mode : Mode} (hd : Reachable d) (htarget : target < 2 ^ 32) :
      Reachable (d.round target mode)

theorem inRange_saturate (m : Int) : InRange (saturate m) := by
  unfold InRange saturate minMantissa maxMantissa
  omega

theorem saturate_of_inRange {m : Int} (h : InRange m) : saturate m = m := by
  unfold InRange minMantissa maxMantissa at h
  unfold saturate minMantissa maxMantissa
  omega

/-- A magnitude that is no more than the largest mantissa is one with either sign. -/
theorem inRange_signed {m : Nat} (h : (m : Int) ≤ maxMantissa) (neg : Bool) :
    InRange (signed neg m) := by
  unfold maxMantissa at h
  unfold InRange signed minMantissa maxMantissa
  cases neg <;> simp only [if_true, if_false, Bool.false_eq_true] <;> omega

theorem checkedMul_inv {a b m : Int} (h : checkedMul a b = .ok m) : InRange m ∧ m = a * b := by
  unfold checkedMul at h
  split at h
  · rename_i hrange
    cases h
    exact ⟨hrange, rfl⟩
  · cases h

theorem checkedMul_ok {a b : Int} (h : InRange (a * b)) : checkedMul a b = .ok (a * b) := if_pos h

theorem checkedMul_error {a b : Int} (h : ¬ InRange (a * b)) :
    checkedMul a b = .error .overflow := if_neg h

theorem mul_ok {a b : Decimal} (h : InRange (a.mantissa * b.mantissa)) :
    a.mul b = .ok ⟨a.mantissa * b.mantissa, (a.scale + b.scale) % 2 ^ 32⟩ := by
  unfold mul
  rw [checkedMul_ok h]
  rfl

theorem stored_rescaled {d : Decimal} (h : d.Stored) {scale : Nat} (hscale : scale < 2 ^ 32) :
    (d.rescaled scale).Stored := by
  unfold rescaled
  split
  · exact h
  · exact ⟨inRange_saturate _, hscale⟩

/-- The digits are a mantissa before the sign is put to them. -/
theorem stored_of_digits {neg : Bool} {int frac : List Char} {d : Decimal}
    (h : parse.digits neg int frac = some d) : d.Stored := by
  simp only [parse.digits] at h
  split at h
  · cases h
  · split at h
    · rename_i hmax
      cases h
      exact ⟨inRange_signed hmax neg, Nat.mod_lt _ (by decide)⟩
    · cases h

theorem stored_of_parse {s : String} {d : Decimal} (h : parse s = some d) : d.Stored := by
  simp only [parse] at h
  split at h
  · cases h
  · split at h
    · exact stored_of_digits h
    · exact stored_of_digits h
    · cases h

theorem stored_neg {d : Decimal} (h : d.Stored) : d.neg.Stored := by
  have hle : -2 ^ 127 ≤ (-d.mantissa).bmod (2 ^ 128) := Int.le_bmod (by decide)
  have hlt : (-d.mantissa).bmod (2 ^ 128) < 2 ^ 127 := Int.bmod_lt (by decide)
  refine ⟨⟨hle, ?_⟩, h.scale⟩
  simp only [neg, maxMantissa]
  omega

/-- What the operations make is stored as the source has it. -/
theorem Reachable.stored {d : Decimal} (h : Reachable d) : d.Stored := by
  induction h with
  | parse h => exact stored_of_parse h
  | add _ _ iha ihb => exact ⟨inRange_saturate _, max_lt iha.scale ihb.scale⟩
  | neg _ ih => exact stored_neg ih
  | mul _ _ h =>
      obtain ⟨m, hm, h⟩ := bind_eq_ok h
      cases h
      exact ⟨(checkedMul_inv hm).1, Nat.mod_lt _ (by decide)⟩
  | divRound _ _ hscale h =>
      simp only [Decimal.divRound] at h
      split at h
      · cases h
      · obtain ⟨⟨num, den⟩, _, h⟩ := bind_eq_ok h
        obtain ⟨m, _, h⟩ := bind_eq_ok h
        split at h
        · rename_i hmax
          cases h
          exact ⟨inRange_signed hmax _, hscale⟩
        · cases h
  | round _ htarget ih =>
      simp only [Decimal.round]
      split
      · exact stored_rescaled ih htarget
      · split
        · exact ih
        · refine ⟨inRange_signed ?_ _, htarget⟩
          unfold maxMantissa
          omega

/-! ### Rescaling -/

/-- The mantissa at a scale, of any size. -/
def mantissaAt (d : Decimal) (scale : Nat) : Int := d.mantissa * 10 ^ (scale - d.scale)

/-- The largest power of ten that is a mantissa. -/
theorem ten_pow_le_max_iff {n : Nat} : (10 : Int) ^ n ≤ maxMantissa ↔ n ≤ 38 := by
  constructor
  · intro h
    by_contra hlarge
    have hpow : (10 : Int) ^ 39 ≤ 10 ^ n := pow_le_pow_right₀ (by norm_num) (by omega)
    have hmax : maxMantissa < (10 : Int) ^ 39 := by decide
    omega
  · intro h
    have hpow : (10 : Int) ^ n ≤ 10 ^ 38 := pow_le_pow_right₀ (by norm_num) h
    have hmax : (10 : Int) ^ 38 ≤ maxMantissa := by decide
    omega

theorem rescaled?_eq (d : Decimal) (scale : Nat) :
    d.rescaled? scale = if scale - d.scale ≤ 38 then some (d.rescaled scale) else none := by
  unfold rescaled?
  by_cases hle : scale ≤ d.scale
  · rw [if_pos hle, if_pos (by omega), rescaled, if_pos hle]
  · rw [if_neg hle]
    simp only [ten_pow_le_max_iff]

/-- Rescaling saturates where the mantissa has no room. -/
theorem rescaled_mantissa_eq {d : Decimal} (h : InRange d.mantissa) {scale : Nat}
    (hgap : scale - d.scale ≤ 38) :
    (d.rescaled scale).mantissa = saturate (d.mantissaAt scale) := by
  unfold rescaled mantissaAt
  split
  · rename_i hle
    rw [Nat.sub_eq_zero_of_le hle, pow_zero, mul_one, saturate_of_inRange h]
  · rw [pow10_eq hgap]
    rfl

/-- One of two decimals has the common scale, so its mantissa is in range there. -/
theorem inRange_mantissaAt_max {a b : Decimal} (ha : a.Stored) (hb : b.Stored) :
    InRange (a.mantissaAt (max a.scale b.scale)) ∨
      InRange (b.mantissaAt (max a.scale b.scale)) := by
  unfold mantissaAt
  rcases le_total a.scale b.scale with hle | hle
  · rw [max_eq_right hle, Nat.sub_self, pow_zero, mul_one]
    exact .inr hb.mantissa
  · rw [max_eq_left hle, Nat.sub_self, pow_zero, mul_one]
    exact .inl ha.mantissa

/-! ### Sums, negations and products -/

/-- `add` returns the sum, in a build that checks too. -/
def AddExact (a b : Decimal) : Prop := ∃ r, a.add? b = some r ∧ r.value = a.value + b.value

/-- `neg` returns the negation, in a build that checks too. -/
def NegExact (d : Decimal) : Prop := ∃ r, d.neg? = some r ∧ r.value = -d.value

/-- `mul` returns the product or reports an overflow, in a build that checks too. -/
def MulExact (a b : Decimal) : Prop :=
  a.mul? b = some (.error .overflow) ∨
    ∃ r, a.mul? b = some (.ok r) ∧ r.value = a.value * b.value

/-- Two saturated numbers have a saturated sum that is exact only if nothing is cut, where one of
the numbers is not. -/
theorem saturate_add_iff {x y : Int} (h : InRange x ∨ InRange y) :
    saturate (saturate x + saturate y) = x + y ↔ InRange x ∧ InRange y ∧ InRange (x + y) := by
  unfold InRange minMantissa maxMantissa at *
  unfold saturate minMantissa maxMantissa
  omega

theorem add?_eq (a b : Decimal) :
    a.add? b = if max a.scale b.scale - a.scale ≤ 38 ∧ max a.scale b.scale - b.scale ≤ 38
      then some (a.add b) else none := by
  unfold add?
  rw [rescaled?_eq, rescaled?_eq]
  by_cases ha : max a.scale b.scale - a.scale ≤ 38
  · by_cases hb : max a.scale b.scale - b.scale ≤ 38
    · simp [ha, hb]
    · simp [ha, hb]
  · simp [ha]

/-- A sum is exact where both mantissas and their sum are in range at the common scale. -/
theorem addExact_iff {a b : Decimal} (ha : a.Stored) (hb : b.Stored) :
    AddExact a b ↔ a.Fits (max a.scale b.scale) ∧ b.Fits (max a.scale b.scale) ∧
      InRange (a.mantissaAt (max a.scale b.scale) + b.mantissaAt (max a.scale b.scale)) := by
  have hone := inRange_mantissaAt_max ha hb
  have hla := le_max_left a.scale b.scale
  have hlb := le_max_right a.scale b.scale
  have hpos : (10 : ℚ) ^ max a.scale b.scale ≠ 0 := by positivity
  -- At the common scale the sum of the values is the sum of the mantissas.
  have hsum : a.value + b.value
      = ((a.mantissaAt (max a.scale b.scale) + b.mantissaAt (max a.scale b.scale) : Int) : ℚ)
        / 10 ^ max a.scale b.scale := by
    rw [value_eq hla, value_eq hlb, ← add_div, Int.cast_add]
    rfl
  unfold AddExact
  rw [add?_eq, hsum]
  by_cases hgap : max a.scale b.scale - a.scale ≤ 38 ∧ max a.scale b.scale - b.scale ≤ 38
  · -- What is computed saturates three times, and each time changes a number out of range.
    have hvalue : (a.add b).value
        = ((saturate (saturate (a.mantissaAt (max a.scale b.scale))
          + saturate (b.mantissaAt (max a.scale b.scale))) : Int) : ℚ)
          / 10 ^ max a.scale b.scale := by
      rw [← rescaled_mantissa_eq ha.mantissa hgap.1, ← rescaled_mantissa_eq hb.mantissa hgap.2]
      rfl
    simp only [if_pos hgap, Option.some.injEq, exists_eq_left']
    rw [hvalue, div_left_inj' hpos, Int.cast_inj, saturate_add_iff hone]
    constructor
    · rintro ⟨hra, hrb, hrab⟩
      exact ⟨⟨hgap.1, hra⟩, ⟨hgap.2, hrb⟩, hrab⟩
    · rintro ⟨hfa, hfb, hrab⟩
      exact ⟨hfa.2, hfb.2, hrab⟩
  · simp only [if_neg hgap]
    constructor
    · rintro ⟨r, hr, -⟩
      cases hr
    · rintro ⟨hfa, hfb, -⟩
      exact absurd ⟨hfa.1, hfb.1⟩ hgap

/-- Every mantissa but the smallest has a negation. -/
theorem negExact_iff {d : Decimal} (hd : d.Stored) :
    NegExact d ↔ d.mantissa ≠ minMantissa := by
  unfold NegExact neg?
  by_cases hmin : d.mantissa = minMantissa
  · simp [hmin]
  · have hneg : (-d.mantissa).bmod (2 ^ 128) = -d.mantissa := by
      have hrange := hd.mantissa
      unfold InRange minMantissa maxMantissa at hrange
      unfold minMantissa at hmin
      rw [Int.bmod_eq_of_le] <;> omega
    rw [if_neg hmin]
    refine iff_of_true ⟨_, rfl, ?_⟩ hmin
    unfold neg value
    rw [hneg, ← neg_div, Int.cast_neg]

/-- A product is exact where the scales have a sum of 32 bits, unless the mantissas overflow. -/
theorem mulExact_iff (a b : Decimal) :
    MulExact a b ↔ a.scale + b.scale < 2 ^ 32 ∨ ¬ InRange (a.mantissa * b.mantissa) := by
  unfold MulExact mul?
  by_cases hrange : InRange (a.mantissa * b.mantissa)
  · rw [checkedMul_ok hrange]
    simp only [hrange, not_true_eq_false, or_false]
    by_cases hscale : a.scale + b.scale < 2 ^ 32
    · rw [if_pos hscale]
      refine iff_of_true (.inr ⟨_, congrArg some (mul_ok hrange), ?_⟩) hscale
      show ((a.mantissa * b.mantissa : Int) : ℚ) / 10 ^ ((a.scale + b.scale) % 2 ^ 32) = _
      rw [Nat.mod_eq_of_lt hscale, pow_add, Int.cast_mul, mul_div_mul_comm]
      rfl
    · rw [if_neg hscale]
      refine iff_of_false ?_ hscale
      rintro (h | ⟨r, h, -⟩) <;> cases h
  · rw [checkedMul_error hrange]
    exact iff_of_true (.inl rfl) (.inr hrange)

/-! ### Comparison -/

/-- `cmp` is a total order of these decimals, and it is that of their numbers. -/
structure OrderOn (S : Set Decimal) : Prop where
  /-- A comparison ends, in a build that checks too, with the order of the numbers. -/
  exact : ∀ a ∈ S, ∀ b ∈ S, a.cmp? b = some (compare a.value b.value)
  swap : ∀ a ∈ S, ∀ b ∈ S, b.cmp a = (a.cmp b).swap
  trans : ∀ a ∈ S, ∀ b ∈ S, ∀ c ∈ S, a.cmp b ≠ .gt → b.cmp c ≠ .gt → a.cmp c ≠ .gt
  /-- `==` is consistent with `cmp`. -/
  eq : ∀ a ∈ S, ∀ b ∈ S, a.numEq b = true ↔ a.cmp b = .eq
  /-- Decimals with different numbers are not equal. -/
  distinct : ∀ a ∈ S, ∀ b ∈ S, a.value ≠ b.value → a.cmp b ≠ .eq

/-- The powers of ten are mantissas, and the two mantissas are not past one end of the range, unless
they are the same. -/
def Comparable (a b : Decimal) : Prop :=
  max a.scale b.scale - a.scale ≤ 38 ∧ max a.scale b.scale - b.scale ≤ 38 ∧
    (a.mantissaAt (max a.scale b.scale) ≠ b.mantissaAt (max a.scale b.scale) →
      ¬ (maxMantissa ≤ a.mantissaAt (max a.scale b.scale) ∧
          maxMantissa ≤ b.mantissaAt (max a.scale b.scale)) ∧
        ¬ (a.mantissaAt (max a.scale b.scale) ≤ minMantissa ∧
          b.mantissaAt (max a.scale b.scale) ≤ minMantissa))

instance (a b : Decimal) : Decidable (Comparable a b) :=
  inferInstanceAs (Decidable (_ ∧ _ ∧ (_ → _)))

/-- Saturation keeps the order, except that it may make two numbers equal. -/
theorem compare_saturate_iff {x y : Int} :
    compare (saturate x) (saturate y) = compare x y ↔ (saturate x = saturate y → x = y) := by
  constructor
  · intro h heq
    rw [compare_eq_iff_eq.mpr heq] at h
    exact compare_eq_iff_eq.mp h.symm
  · intro h
    rcases lt_trichotomy (saturate x) (saturate y) with hlt | heq | hgt
    · have hxy : x < y := by
        unfold saturate at hlt
        omega
      rw [compare_lt_iff_lt.mpr hlt, compare_lt_iff_lt.mpr hxy]
    · rw [compare_eq_iff_eq.mpr heq, compare_eq_iff_eq.mpr (h heq)]
    · have hxy : y < x := by
        unfold saturate at hgt
        omega
      rw [compare_gt_iff_gt.mpr hgt, compare_gt_iff_gt.mpr hxy]

/-- Two numbers saturate to one where both are past one end. -/
theorem saturate_inj_iff {x y : Int} :
    (saturate x = saturate y → x = y) ↔ (x ≠ y → ¬ (maxMantissa ≤ x ∧ maxMantissa ≤ y) ∧
      ¬ (x ≤ minMantissa ∧ y ≤ minMantissa)) := by
  unfold saturate minMantissa maxMantissa
  omega

/-- Numbers over one power of ten are in the order of their mantissas. -/
theorem compare_value (a b : Decimal) :
    compare a.value b.value
      = compare (a.mantissaAt (max a.scale b.scale)) (b.mantissaAt (max a.scale b.scale)) := by
  have hmono : StrictMono fun m : Int => (m : ℚ) / 10 ^ max a.scale b.scale := by
    intro m m' hlt
    have hcast : (m : ℚ) < m' := by exact_mod_cast hlt
    exact div_lt_div_of_pos_right hcast (by positivity)
  rw [value_eq (le_max_left a.scale b.scale), value_eq (le_max_right a.scale b.scale),
    ← cmp_eq_compare, ← cmp_eq_compare]
  exact hmono.cmp_map_eq _ _

theorem cmp?_eq (a b : Decimal) :
    a.cmp? b = if max a.scale b.scale - a.scale ≤ 38 ∧ max a.scale b.scale - b.scale ≤ 38
      then some (a.cmp b) else none := by
  unfold cmp?
  rw [rescaled?_eq, rescaled?_eq]
  by_cases ha : max a.scale b.scale - a.scale ≤ 38
  · by_cases hb : max a.scale b.scale - b.scale ≤ 38
    · simp [ha, hb]
    · simp [ha, hb]
  · simp [ha]

/-- Two decimals are compared as their numbers where they are `Comparable`. -/
theorem cmp?_iff {a b : Decimal} (ha : a.Stored) (hb : b.Stored) :
    a.cmp? b = some (compare a.value b.value) ↔ Comparable a b := by
  rw [cmp?_eq, compare_value]
  unfold Comparable
  by_cases hgap : max a.scale b.scale - a.scale ≤ 38 ∧ max a.scale b.scale - b.scale ≤ 38
  · have hcmp : a.cmp b = compare (saturate (a.mantissaAt (max a.scale b.scale)))
        (saturate (b.mantissaAt (max a.scale b.scale))) := by
      rw [← rescaled_mantissa_eq ha.mantissa hgap.1, ← rescaled_mantissa_eq hb.mantissa hgap.2]
      rfl
    rw [if_pos hgap, Option.some_inj, hcmp, compare_saturate_iff, saturate_inj_iff]
    simp only [hgap.1, hgap.2, true_and]
  · rw [if_neg hgap]
    refine iff_of_false (by simp) ?_
    rintro ⟨hga, hgb, -⟩
    exact hgap ⟨hga, hgb⟩

theorem cmp_of_comparable {a b : Decimal} (ha : a.Stored) (hb : b.Stored) (h : Comparable a b) :
    a.cmp b = compare a.value b.value := by
  have hcmp := (cmp?_iff ha hb).mpr h
  rw [cmp?_eq, if_pos ⟨h.1, h.2.1⟩] at hcmp
  exact Option.some.inj hcmp

/-- `==` is `cmp` with the answer `Equal`, of any decimals. -/
theorem numEq_iff_cmp (a b : Decimal) : a.numEq b = true ↔ a.cmp b = .eq := by
  unfold numEq cmp
  rw [decide_eq_true_iff, compare_eq_iff_eq]

/-- `cmp` is the order of the numbers on decimals that are pairwise `Comparable`, and on no
others. -/
theorem orderOn_iff {S : Set Decimal} (hparse : ∀ d ∈ S, ∃ s, parse s = some d) :
    OrderOn S ↔ ∀ a ∈ S, ∀ b ∈ S, Comparable a b := by
  have hstored : ∀ d ∈ S, d.Stored := by
    intro d hd
    obtain ⟨s, hs⟩ := hparse d hd
    exact stored_of_parse hs
  constructor
  · intro h a ha b hb
    exact (cmp?_iff (hstored a ha) (hstored b hb)).mp (h.exact a ha b hb)
  · intro h
    -- Comparable decimals are compared as their values are, and values are ordered.
    have hcmp : ∀ a ∈ S, ∀ b ∈ S, a.cmp b = compare a.value b.value := fun a ha b hb =>
      cmp_of_comparable (hstored a ha) (hstored b hb) (h a ha b hb)
    exact {
      exact := fun a ha b hb => (cmp?_iff (hstored a ha) (hstored b hb)).mpr (h a ha b hb)
      swap := by
        intro a ha b hb
        rw [hcmp a ha b hb, hcmp b hb a ha, ← cmp_eq_compare, ← cmp_eq_compare, cmp_swap]
      trans := by
        intro a ha b hb c hc
        rw [hcmp a ha b hb, hcmp b hb c hc, hcmp a ha c hc]
        simp only [ne_eq, compare_gt_iff_gt, not_lt]
        exact le_trans
      eq := fun a _ b _ => numEq_iff_cmp a b
      distinct := by
        intro a ha b hb hne
        rw [hcmp a ha b hb, ne_eq, compare_eq_iff_eq]
        exact hne }

/-- Money with two and with three digits after the point. -/
theorem orderOn_money : OrderOn {⟨1050, 2⟩, ⟨-10500, 3⟩} := by
  refine (orderOn_iff ?_).mpr ?_
  · rintro d (rfl | rfl)
    · exact ⟨"10.50", by decide⟩
    · exact ⟨"-10.500", by decide⟩
  · rintro a (rfl | rfl) b (rfl | rfl) <;> decide

/-- The largest mantissa is equal to a tenth of it. -/
theorem not_orderOn_max : ∃ a b,
    parse "170141183460469231731687303715884105727" = some a ∧
    parse "17014118346046923173168730371588410572.7" = some b ∧
    a.cmp b = .eq ∧ a.value ≠ b.value ∧ ¬ OrderOn {a, b} := by
  refine ⟨⟨maxMantissa, 0⟩, ⟨maxMantissa, 1⟩, by decide, by decide, by decide, ?_, ?_⟩
  · unfold value maxMantissa
    norm_num
  · intro h
    have hdistinct := h.distinct ⟨maxMantissa, 0⟩ (by simp) ⟨maxMantissa, 1⟩ (by simp)
    exact hdistinct (by unfold value maxMantissa; norm_num) (by decide)

end Decimal

end Frust.Kernel
