import Mathlib.Algebra.Order.Field.Rat
import Mathlib.Tactic.FieldSimp
import Mathlib.Tactic.Ring

/-!
# `Frust.Lib.Fixed`: numbers with finitely many decimals

A `Fixed` is an integer over a power of ten. Its text has no zeros at its end, and is read back as its
value (`read_text`).
-/

set_option autoImplicit false

namespace Frust.Lib

/-- A number is read back from its digits. -/
theorem ofDigitChars_leftpad (n k : Nat) :
    Nat.ofDigitChars 10 (List.leftpad k '0' (Nat.toDigits 10 n)) 0 = n := by
  rw [List.leftpad, Nat.ofDigitChars_append, Nat.ofDigitChars_replicate_zero, Nat.mul_zero,
    Nat.ofDigitChars_ten_toDigits]

theorem isDigit_leftpad {n k : Nat} {c : Char} (h : c ∈ List.leftpad k '0' (Nat.toDigits 10 n)) :
    c.isDigit = true := by
  rcases List.mem_append.mp h with h | h
  · rw [List.eq_of_mem_replicate h]
    decide
  · exact Nat.isDigit_of_mem_toDigits (by decide) (by decide) h

/-- `mantissa` over ten to the `scale`. -/
structure Fixed where
  mantissa : Int
  scale : Nat
  deriving DecidableEq

namespace Fixed

def value (x : Fixed) : ℚ := x.mantissa / 10 ^ x.scale

/-- The exact sum. -/
def add (x y : Fixed) : Fixed :=
  ⟨x.mantissa * 10 ^ y.scale + y.mantissa * 10 ^ x.scale, x.scale + y.scale⟩

theorem add_value (x y : Fixed) : (x.add y).value = x.value + y.value := by
  unfold value add
  push_cast
  rw [pow_add]
  field_simp

/-- The same number without zeros at the end. -/
def trimmed : Int → Nat → Fixed
  | m, 0 => ⟨m, 0⟩
  | m, scale + 1 => if m % 10 = 0 then trimmed (m / 10) scale else ⟨m, scale + 1⟩

theorem value_trimmed (m : Int) (scale : Nat) : (trimmed m scale).value = value ⟨m, scale⟩ := by
  induction scale generalizing m with
  | zero => rfl
  | succ scale ih =>
      unfold trimmed
      split
      · rename_i hzero
        rw [ih]
        have hm : (m : ℚ) = 10 * ((m / 10 : Int) : ℚ) := by
          have hdiv : m = 10 * (m / 10) := by omega
          exact_mod_cast hdiv
        show ((m / 10 : Int) : ℚ) / 10 ^ scale = (m : ℚ) / 10 ^ (scale + 1)
        rw [hm, pow_succ]
        field_simp
      · rfl

/-- The digits, at least one of them before the point. -/
def digits (m scale : Nat) : List Char := List.leftpad (scale + 1) '0' (Nat.toDigits 10 m)

/-- The text of a number. -/
def text (x : Fixed) : List Char :=
  let t := trimmed x.mantissa x.scale
  let ds := digits t.mantissa.natAbs t.scale
  (if t.mantissa < 0 then ['-'] else []) ++ ds.take (ds.length - t.scale) ++
    if t.scale = 0 then [] else '.' :: ds.drop (ds.length - t.scale)

/-- Reads digits, with a point among them or without. -/
def readDigits (cs : List Char) : Option ℚ :=
  match cs.splitOn '.' with
  | [whole] =>
      if whole ≠ [] ∧ whole.all Char.isDigit then some ((Nat.ofDigitChars 10 whole 0 : Nat) : ℚ)
      else none
  | [whole, frac] =>
      if whole ++ frac ≠ [] ∧ (whole ++ frac).all Char.isDigit then
        some (((Nat.ofDigitChars 10 (whole ++ frac) 0 : Nat) : ℚ) / 10 ^ frac.length)
      else none
  | _ => none

/-- Reads a number. -/
def read : List Char → Option ℚ
  | '-' :: rest => (readDigits rest).map (- ·)
  | cs => readDigits cs

theorem length_digits (m scale : Nat) : scale < (digits m scale).length := by
  unfold digits
  rw [List.length_leftpad]
  omega

theorem point_not_mem {cs : List Char} (h : ∀ c ∈ cs, c.isDigit = true) : '.' ∉ cs :=
  fun hmem => absurd (h _ hmem) (by decide)

theorem readDigits_whole {whole : List Char} (hne : whole ≠ []) (h : ∀ c ∈ whole, c.isDigit = true) :
    readDigits whole = some ((Nat.ofDigitChars 10 whole 0 : Nat) : ℚ) := by
  have hdigits : whole ≠ [] ∧ whole.all Char.isDigit := ⟨hne, List.all_eq_true.mpr h⟩
  unfold readDigits
  rw [List.splitOn_eq_singleton (point_not_mem h)]
  exact if_pos hdigits

theorem readDigits_point {whole frac : List Char} (hne : whole ++ frac ≠ [])
    (h : ∀ c ∈ whole ++ frac, c.isDigit = true) : readDigits (whole ++ '.' :: frac) =
      some (((Nat.ofDigitChars 10 (whole ++ frac) 0 : Nat) : ℚ) / 10 ^ frac.length) := by
  have hdigits : whole ++ frac ≠ [] ∧ (whole ++ frac).all Char.isDigit :=
    ⟨hne, List.all_eq_true.mpr h⟩
  unfold readDigits
  have hwhole := point_not_mem fun c hc => h c (List.mem_append_left _ hc)
  have hfrac := point_not_mem fun c hc => h c (List.mem_append_right _ hc)
  rw [List.splitOn_append_cons_self_of_not_mem hwhole, List.splitOn_eq_singleton hfrac]
  exact if_pos hdigits

/-- What begins with a digit has no sign. -/
theorem read_of_digit {cs : List Char} (h : ∀ c, cs.head? = some c → c.isDigit = true) :
    read cs = readDigits cs := by
  unfold read
  split
  · exact absurd (h _ rfl) (by decide)
  · rfl

/-- Digits, signs and points. -/
def isNumeric (c : Char) : Bool := c.isDigit || c = '-' || c = '.'

theorem isNumeric_text (x : Fixed) : ∀ c ∈ x.text, isNumeric c = true := by
  unfold text
  generalize trimmed x.mantissa x.scale = t
  have hdigit : ∀ c ∈ digits t.mantissa.natAbs t.scale, isNumeric c = true := fun c hc => by
    simp [isNumeric, isDigit_leftpad hc]
  intro c hc
  rcases List.mem_append.mp hc with hc | hc
  · rcases List.mem_append.mp hc with hc | hc
    · split at hc
      · rw [List.mem_singleton.mp hc]
        decide
      · cases hc
    · exact hdigit c (List.mem_of_mem_take hc)
  · split at hc
    · cases hc
    · rcases List.mem_cons.mp hc with rfl | hc
      · decide
      · exact hdigit c (List.mem_of_mem_drop hc)

/-- A number is read back from its text. -/
theorem read_text (x : Fixed) : read x.text = some x.value := by
  have hvalue : x.value = (trimmed x.mantissa x.scale).value := (value_trimmed _ _).symm
  rw [hvalue]
  unfold text
  generalize trimmed x.mantissa x.scale = t
  obtain ⟨m, scale⟩ := t
  let ds := digits m.natAbs scale
  let whole := ds.take (ds.length - scale)
  let frac := ds.drop (ds.length - scale)
  have hlength : scale < ds.length := length_digits _ _
  have hds : whole ++ frac = ds := List.take_append_drop _ _
  have hdigit : ∀ c ∈ ds, c.isDigit = true := fun c => isDigit_leftpad
  have hwhole : whole ≠ [] := by
    intro hnil
    have := congrArg List.length hnil
    rw [List.length_take, List.length_nil] at this
    omega
  have hfrac : frac.length = scale := by
    rw [List.length_drop]
    omega
  -- the digits without the sign are read as the absolute value
  have habs : readDigits (whole ++ if scale = 0 then [] else '.' :: frac)
      = some ((m.natAbs : ℚ) / 10 ^ scale) := by
    have hnumber : Nat.ofDigitChars 10 ds 0 = m.natAbs := ofDigitChars_leftpad _ _
    split
    · rename_i hzero
      subst hzero
      rw [List.length_eq_zero_iff.mp hfrac, List.append_nil] at hds
      rw [List.append_nil, hds, readDigits_whole (hds ▸ hwhole) hdigit, hnumber, pow_zero, div_one]
    · rw [readDigits_point (by rw [hds]; exact List.ne_nil_of_length_pos (by omega))
        (by rw [hds]; exact hdigit), hds, hnumber, hfrac]
  show read ((if m < 0 then ['-'] else []) ++ whole ++ if scale = 0 then [] else '.' :: frac) = _
  rw [List.append_assoc]
  split
  · rename_i hneg
    show (readDigits (whole ++ if scale = 0 then [] else '.' :: frac)).map (- ·) = _
    rw [habs]
    have hm : (m : ℚ) = -(m.natAbs : ℚ) := by
      rw [← Int.cast_natCast, Int.ofNat_natAbs_of_nonpos (le_of_lt hneg)]
      push_cast
      ring
    show some (-((m.natAbs : ℚ) / 10 ^ scale)) = some ((m : ℚ) / 10 ^ scale)
    rw [hm, neg_div]
  · rename_i hnonneg
    rw [List.nil_append, read_of_digit, habs]
    · have hm : (m : ℚ) = (m.natAbs : ℚ) := by
        rw [← Int.cast_natCast, Int.natAbs_of_nonneg (not_lt.mp hnonneg)]
      show _ = some ((m : ℚ) / 10 ^ scale)
      rw [hm]
    · intro c hc
      obtain ⟨d, rest, hcons⟩ := List.exists_cons_of_ne_nil hwhole
      rw [hcons] at hc
      obtain rfl : d = c := Option.some.inj hc
      have hmem : d ∈ whole := hcons ▸ List.mem_cons_self
      exact hdigit d (List.mem_of_mem_take hmem)

theorem read_nil : read [] = none := by
  simp [read, readDigits]

/-- An integer is read back from its digits. -/
theorem read_toDigits (n : Nat) : read (Nat.toDigits 10 n) = some (n : ℚ) := by
  have hdigit : ∀ c ∈ Nat.toDigits 10 n, c.isDigit = true :=
    fun c hc => Nat.isDigit_of_mem_toDigits (by decide) (by decide) hc
  rw [read_of_digit fun c hc => hdigit c (List.mem_of_mem_head? hc),
    readDigits_whole Nat.toDigits_ne_nil hdigit, Nat.ofDigitChars_ten_toDigits]

theorem isNumeric_toDigits (n : Nat) : ∀ c ∈ Nat.toDigits 10 n, isNumeric c = true := fun c hc => by
  simp [isNumeric, Nat.isDigit_of_mem_toDigits (by decide) (by decide) hc]

end Fixed

end Frust.Lib
