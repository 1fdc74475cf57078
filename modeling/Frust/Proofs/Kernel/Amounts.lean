import Frust.Proofs.Kernel.Literals
import Mathlib.Data.List.TakeWhile

/-!
# `Frust.Proofs.Kernel.Amounts`: amounts that a rollup reads

`Decimal::from_json` prints a JSON number and parses the text as a decimal. What does not parse
counts as zero, and nobody is told. `Held` is the number that a field holds, with the exponent that
a float is printed with where it is large or small. `fromJson_value_iff` says which amounts are read
as what they are: those whose text is a numeral that the parser has room for, and zero.
-/

set_option autoImplicit false

namespace Frust.Kernel

open Frust.Rust.Str

/-- The integer that is written as an exponent. -/
def Numeral.integer (n : Numeral) : Int := Decimal.signed (n.sign == some '-') n.magnitude

/-- A JSON number as it is printed, and the number that it is. -/
inductive JsonNumber (cs : List Char) : ℚ → Prop
  | plain {n : Numeral} (h : n.Writes cs) (hplain : n.Plain) : JsonNumber cs n.value
  | exponent {n k : Numeral} {mantissa exponent : List Char} {e : Char} (he : e = 'e' ∨ e = 'E')
      (hcs : cs = mantissa ++ e :: exponent) (hn : n.Writes mantissa) (hplain : n.Plain)
      (hk : k.Writes exponent) (hint : k.frac = none) : JsonNumber cs (n.value * 10 ^ k.integer)

/-- The number that a field holds: a JSON number, or a decimal as a string. -/
inductive Held : Json → ℚ → Prop
  | int (i : Int) : Held (.int i) i
  | float {text : String} {q : ℚ} (h : JsonNumber text.toList q) : Held (.float text) q
  | string {s : String} {n : Numeral} (h : n.Writes s.toList) (hplain : n.Plain) :
      Held (.string s) n.value

/-- The text that is parsed. -/
def Json.amountText : Json → String
  | .int i => toString i
  | .float text => text
  | .string s => s
  | _ => ""

/-- The text of an amount is a numeral without an exponent, with a mantissa and a scale that the
parser has room for. -/
def Representable (v : Json) : Prop := ∃ n : Numeral, n.Writes v.amountText.toList ∧ n.Portable

variable {v : Json} {q : ℚ}

/-! ### Texts with an exponent -/

theorem mem_trim {s : String} {c : Char} (hc : c ∈ s.toList) (hspace : isWhitespace c = false) :
    c ∈ (trim s).toList := by
  have hdrop {l : List Char} (h : c ∈ l) : c ∈ l.dropWhile isWhitespace := by
    rw [← List.takeWhile_append_dropWhile (p := isWhitespace) (l := l)] at h
    refine (List.mem_append.mp h).resolve_left fun htake => ?_
    rw [List.mem_takeWhile_imp htake] at hspace
    cases hspace
  unfold trim trimMatches
  rw [String.toList_ofList, List.mem_reverse]
  exact hdrop (List.mem_reverse.mpr (hdrop hc))

/-- No numeral is a text with an exponent. -/
theorem not_writes_exponent {s : String} {e : Char} (he : e = 'e' ∨ e = 'E') (hmem : e ∈ s.toList)
    (n : Numeral) : ¬ n.Writes (trim s).toList := by
  rintro ⟨hwf, htext⟩
  have hspace : isWhitespace e = false := by
    rcases he with rfl | rfl <;> decide
  have hin := mem_trim hmem hspace
  rw [htext] at hin
  rcases Numeral.mem_text hwf hin with rfl | rfl | rfl | hdigit
  · exact absurd he (by decide)
  · exact absurd he (by decide)
  · exact absurd he (by decide)
  · rcases he with rfl | rfl <;> exact absurd hdigit (by decide)

/-! ### What is read -/

theorem Numeral.value_eq_zero_iff {n : Numeral} : n.value = 0 ↔ n.magnitude = 0 := by
  unfold Numeral.value Decimal.signed
  rw [div_eq_zero_iff]
  constructor
  · rintro (h | h)
    · split at h <;> simpa using h
    · exact absurd h (by positivity)
  · intro h
    rw [h]
    split <;> simp

/-- A numeral is read as what it is if the parser has room for it, or if it is zero. -/
theorem value_parse_iff {s : String} {n : Numeral} (hwrites : n.Writes s.toList)
    (hplain : n.Plain) :
    ((Decimal.parse s).getD .zero).value = n.value ↔ n.Portable ∨ n.value = 0 := by
  obtain ⟨hplus, hint, hfrac⟩ := hplain
  have htrim : n.Writes (trim s).toList := (trim_of_writes hwrites).symm ▸ hwrites
  by_cases hmax : (n.magnitude : Int) ≤ Decimal.maxMantissa
  · have hparse := (parse_eq_some_iff s _).mpr ⟨n, htrim, hplus, hint, hmax, rfl⟩
    rw [hparse, Option.getD_some, value_of_parse_iff hwrites.1 hplus]
    constructor
    · exact fun hscale => .inl ⟨hplus, hint, hfrac, hmax, hscale⟩
    · rintro (hportable | hvalue)
      · exact hportable.scale
      · exact .inr (Numeral.value_eq_zero_iff.mp hvalue)
  · -- what is not parsed counts as zero
    have hparse : Decimal.parse s = none := by
      cases hd : Decimal.parse s with
      | none => rfl
      | some d =>
          obtain ⟨n', hn', -, -, hmax', -⟩ := (parse_eq_some_iff s d).mp hd
          obtain rfl := htrim.unique hn'
          exact absurd hmax' hmax
    rw [hparse, Option.getD_none, show Decimal.zero.value = 0 by simp [Decimal.zero, Decimal.value]]
    constructor
    · exact fun h => .inr h.symm
    · rintro (hportable | hvalue)
      · exact absurd hportable.mantissa hmax
      · exact hvalue.symm

/-- A text with an exponent counts as zero. -/
theorem parse_of_exponent {s : String} {e : Char} (he : e = 'e' ∨ e = 'E') (hmem : e ∈ s.toList) :
    Decimal.parse s = none := by
  cases hd : Decimal.parse s with
  | none => rfl
  | some d =>
      obtain ⟨n, hn, -⟩ := (parse_eq_some_iff s d).mp hd
      exact absurd hn (not_writes_exponent he hmem n)

theorem fromJson_of_held (h : Held v q) :
    Decimal.fromJson (some v) = (Decimal.parse v.amountText).getD .zero := by
  cases h <;> rfl

theorem representable_iff {n : Numeral} (h : n.Writes v.amountText.toList) :
    Representable v ↔ n.Portable := by
  constructor
  · rintro ⟨n', hn', hportable⟩
    exact h.unique hn' ▸ hportable
  · exact fun hportable => ⟨n, h, hportable⟩

theorem fromJson_value_of_writes {n : Numeral} (hheld : Held v n.value)
    (h : n.Writes v.amountText.toList) (hplain : n.Plain) :
    (Decimal.fromJson (some v)).value = n.value ↔ Representable v ∨ n.value = 0 := by
  rw [fromJson_of_held hheld, representable_iff h]
  exact value_parse_iff h hplain

/-- An amount is read as what it is if and only if its text is a numeral that the parser has room
for, or it is zero. Otherwise it counts as another number. -/
theorem fromJson_value_iff (h : Held v q) :
    (Decimal.fromJson (some v)).value = q ↔ Representable v ∨ q = 0 := by
  cases h with
  | int i =>
      -- An integer is printed and parsed again.
      have hvalue : (⟨i, 0⟩ : Decimal).printed.value = i := by
        rw [Decimal.printed_value]
        simp [Decimal.value]
      have hheld : Held (.int i) (⟨i, 0⟩ : Decimal).printed.value := hvalue.symm ▸ .int i
      have hiff := fromJson_value_of_writes hheld (Decimal.printed_writes_int i)
        (Decimal.printed_plain _)
      rwa [hvalue] at hiff
  | string hn hplain => exact fromJson_value_of_writes (.string hn hplain) hn hplain
  | float hnumber =>
      rename_i text
      cases hnumber with
      | plain hn hplain => exact fromJson_value_of_writes (.float (.plain hn hplain)) hn hplain
      | @exponent n k mantissa exponent e he hcs hn hplain hk hint =>
          have hmem : e ∈ text.toList := by
            rw [hcs]
            simp
          -- No decimal is parsed from an exponent, so the amount is zero.
          have hparse := parse_of_exponent he hmem
          have hnot : ¬ Representable (.float text) := by
            rintro ⟨n', hn', -⟩
            have htrim : n'.Writes (trim text).toList := (trim_of_writes hn').symm ▸ hn'
            exact not_writes_exponent he hmem n' htrim
          rw [fromJson_of_held (.float (.exponent he hcs hn hplain hk hint))]
          show ((Decimal.parse text).getD .zero).value = _ ↔ _
          rw [hparse, Option.getD_none,
            show Decimal.zero.value = 0 by simp [Decimal.zero, Decimal.value]]
          simp only [hnot, false_or]
          exact eq_comm

/-- An amount as the database shows a decimal. -/
theorem fromJson_price : Held (.string "150.00") 150 ∧
    (Decimal.fromJson (some (.string "150.00"))).value = 150 := by
  have hwrites : (⟨none, "150".toList, some "00".toList⟩ : Numeral).Writes "150.00".toList :=
    ⟨⟨by simp, List.all_eq_true.mp (by decide), by decide⟩, by decide⟩
  have hvalue : (⟨none, "150".toList, some "00".toList⟩ : Numeral).value = 150 := by
    have hm : (⟨none, "150".toList, some "00".toList⟩ : Numeral).magnitude = 15000 := by decide
    unfold Numeral.value
    have hlength : "00".toList.length = 2 := by decide
    rw [hm, Option.getD_some, hlength]
    norm_num [Decimal.signed]
  have hheld : Held (.string "150.00") 150 :=
    hvalue ▸ .string hwrites ⟨by decide, by decide, by decide⟩
  refine ⟨hheld, (fromJson_value_iff hheld).mpr (.inl ⟨_, hwrites, ?_⟩)⟩
  exact ⟨by decide, by decide, by decide, by decide, by decide⟩

/-- Ten to the sixteenth is printed with an exponent, and counts as zero. -/
theorem not_fromJson_value : ∃ v q, Held v q ∧ (Decimal.fromJson (some v)).value ≠ q := by
  have hone : (⟨none, ['1'], none⟩ : Numeral).Writes ['1'] :=
    ⟨⟨by simp, List.all_eq_true.mp (by decide), by decide⟩, by decide⟩
  have hsixteen : (⟨none, ['1', '6'], none⟩ : Numeral).Writes ['1', '6'] :=
    ⟨⟨by simp, List.all_eq_true.mp (by decide), by decide⟩, by decide⟩
  refine ⟨.float "1e16", _, .float (.exponent (.inl rfl) (by decide) hone
    ⟨by decide, by decide, by decide⟩ hsixteen rfl), ?_⟩
  rw [show Decimal.fromJson (some (.float "1e16")) = .zero by decide,
    show Decimal.zero.value = 0 by simp [Decimal.zero, Decimal.value]]
  refine (mul_ne_zero ?_ (zpow_ne_zero _ (by norm_num))).symm
  rw [Ne, Numeral.value_eq_zero_iff]
  decide

end Frust.Kernel
