import Frust.Kernel.Mail
import Frust.Proofs.Kernel.Amounts

/-!
# `Frust.Proofs.Kernel.Conditions`: conditions on amounts

A condition compares a field with a literal, as decimals where both texts parse and by their bytes
where one does not. `compareTexts?_iff` says when the order is that of the numbers, and
`ruleHolds_iff` that the six operators then are, and not else.
-/

set_option autoImplicit false

namespace Frust.Kernel

open Frust.Rust.Str

/-! ### Operators -/

/-- The operators that compare. -/
def comparisonOps : List String := ["eq", "ne", "gt", "lt", "ge", "le"]

/-- What an operator says of two numbers. -/
def OpMeans (op : String) (q p : ℚ) : Prop :=
  match op with
  | "eq" => q = p
  | "ne" => q ≠ p
  | "gt" => p < q
  | "lt" => q < p
  | "ge" => p ≤ q
  | "le" => q ≤ p
  | _ => False

/-- On the order of the numbers, an operator holds where it says so. -/
theorem opHolds_compare {op : String} (hop : op ∈ comparisonOps) (q p : ℚ) :
    opHolds op (compare q p) = true ↔ OpMeans op q p := by
  simp only [comparisonOps, List.mem_cons, List.not_mem_nil, or_false] at hop
  rcases lt_trichotomy q p with hlt | rfl | hgt
  · rw [compare_lt_iff_lt.mpr hlt]
    rcases hop with rfl | rfl | rfl | rfl | rfl | rfl <;>
      simp [opHolds, OpMeans, hlt, hlt.ne, hlt.le, hlt.not_gt]
  · rw [compare_eq_iff_eq.mpr rfl]
    rcases hop with rfl | rfl | rfl | rfl | rfl | rfl <;> simp [opHolds, OpMeans]
  · rw [compare_gt_iff_gt.mpr hgt]
    rcases hop with rfl | rfl | rfl | rfl | rfl | rfl <;>
      simp [opHolds, OpMeans, hgt, hgt.ne', hgt.le, hgt.not_gt]

/-- An order is known by the operators that hold. -/
theorem eq_of_opHolds {o o' : Ordering}
    (h : ∀ op ∈ comparisonOps, (opHolds op o = true ↔ opHolds op o' = true)) : o = o' := by
  have heq := h "eq" (by decide)
  have hlt := h "lt" (by decide)
  cases o <;> cases o' <;> simp_all [opHolds]

/-- Of any order one of three operators holds, and the others are their complements. -/
theorem opHolds_trichotomy (o : Ordering) :
    (opHolds "lt" o = true ∧ opHolds "eq" o = false ∧ opHolds "gt" o = false ∨
        opHolds "lt" o = false ∧ opHolds "eq" o = true ∧ opHolds "gt" o = false ∨
        opHolds "lt" o = false ∧ opHolds "eq" o = false ∧ opHolds "gt" o = true) ∧
      opHolds "ge" o = !opHolds "lt" o ∧ opHolds "le" o = !opHolds "gt" o ∧
        opHolds "ne" o = !opHolds "eq" o := by
  cases o <;> decide

/-! ### The order of two texts -/

/-- The decimals that were read compare as two numbers do: the scales are near enough, and the
mantissas are comparable and the decimals in the order of the numbers. Mantissas that are not
saturate to one, so that only one number is right. -/
def Decimal.InOrder (a b : Decimal) (q p : ℚ) : Prop :=
  max a.scale b.scale - a.scale ≤ 38 ∧ max a.scale b.scale - b.scale ≤ 38 ∧
    if Decimal.Comparable a b then compare a.value b.value = compare q p else q = p

/-- The order of the texts of two numbers is theirs. Where both are decimals, they are comparable. (A
text of 2^32 characters or more may lose digits of its scale, so that other decimals are compared.)
Where one has an exponent or too many digits, the bytes are in the order of the numbers. -/
def OrderKept (text want : String) (q p : ℚ) : Prop :=
  match Decimal.parse text, Decimal.parse want with
  | some a, some b =>
      if text.length < 2 ^ 32 ∧ want.length < 2 ^ 32 then Decimal.Comparable a b
      else a.InOrder b q p
  | _, _ => compare text want = compare q p

/-- In the sense of `cmp?`, two decimals are in the order of any two numbers where they are `InOrder`. -/
theorem Decimal.cmp?_eq_compare_iff {a b : Decimal} (ha : a.Stored) (hb : b.Stored) (q p : ℚ) :
    a.cmp? b = some (compare q p) ↔ a.InOrder b q p := by
  unfold Decimal.InOrder
  by_cases hcomp : Decimal.Comparable a b
  · rw [(Decimal.cmp?_iff ha hb).mpr hcomp, if_pos hcomp, Option.some_inj]
    exact ⟨fun h => ⟨hcomp.1, hcomp.2.1, h⟩, fun h => h.2.2⟩
  · rw [if_neg hcomp, Decimal.cmp?_eq]
    by_cases hgap : max a.scale b.scale - a.scale ≤ 38 ∧ max a.scale b.scale - b.scale ≤ 38
    · have hcmp : a.cmp b = compare (Decimal.saturate (a.mantissaAt (max a.scale b.scale)))
          (Decimal.saturate (b.mantissaAt (max a.scale b.scale))) := by
        rw [← Decimal.rescaled_mantissa_eq ha.mantissa hgap.1,
          ← Decimal.rescaled_mantissa_eq hb.mantissa hgap.2]
        rfl
      -- two mantissas that are not comparable are past the same end
      have hsame : Decimal.saturate (a.mantissaAt (max a.scale b.scale))
          = Decimal.saturate (b.mantissaAt (max a.scale b.scale)) := by
        by_contra hne
        refine hcomp ⟨hgap.1, hgap.2, Decimal.saturate_inj_iff.mp fun h => absurd h hne⟩
      rw [if_pos hgap, hcmp, compare_eq_iff_eq.mpr hsame, Option.some_inj, eq_comm,
        compare_eq_iff_eq]
      exact ⟨fun h => ⟨hgap.1, hgap.2, h⟩, fun h => h.2.2⟩
    · rw [if_neg hgap]
      refine iff_of_false (by simp) ?_
      rintro ⟨hga, hgb, -⟩
      exact hgap ⟨hga, hgb⟩

/-- Decimals that are read as the numbers are in order where they are comparable. -/
theorem Decimal.inOrder_iff {a b : Decimal} : a.InOrder b a.value b.value ↔ Decimal.Comparable a b := by
  unfold Decimal.InOrder
  by_cases hcomp : Decimal.Comparable a b
  · simp only [hcomp, if_true, iff_true]
    exact ⟨hcomp.1, hcomp.2.1, trivial⟩
  · simp only [hcomp, if_false, iff_false]
    rintro ⟨hga, hgb, heq⟩
    refine hcomp ⟨hga, hgb, fun hne => absurd ?_ hne⟩
    have hvalue := Decimal.compare_value a b
    rw [compare_eq_iff_eq.mpr heq] at hvalue
    exact compare_eq_iff_eq.mp hvalue.symm

/-- A numeral that was read is read as what it is, if its scale is not cut. -/
theorem value_of_writes {s : String} {n : Numeral} {d : Decimal} (hn : n.Writes s.toList)
    (hplain : n.Plain) (hd : Decimal.parse s = some d) (hlength : s.length < 2 ^ 32) :
    d.value = n.value := by
  obtain ⟨n', hn', hplus, -, -, rfl⟩ := (parse_eq_some_iff s d).mp hd
  rw [trim_of_writes hn] at hn'
  obtain rfl := hn.unique hn'
  refine (value_of_parse_iff hn.1 hplain.1).mpr (.inl ?_)
  have hfrac : (n.frac.getD []).length ≤ s.toList.length := by
    rw [hn.2]
    unfold Numeral.text Numeral.body
    cases n.frac with
    | none => simp
    | some frac => simp; omega
  rw [String.length_toList] at hfrac
  omega

/-- So is the number that a field holds. -/
theorem value_of_held {v : Json} {q : ℚ} {d : Decimal} (h : Held v q)
    (hd : Decimal.parse v.amountText = some d) (hlength : v.amountText.length < 2 ^ 32) :
    d.value = q := by
  cases h with
  | int i =>
      have hvalue : (⟨i, 0⟩ : Decimal).printed.value = i := by
        rw [Decimal.printed_value]
        simp [Decimal.value]
      rw [← hvalue]
      exact value_of_writes (Decimal.printed_writes_int i) (Decimal.printed_plain _) hd hlength
  | string hn hplain => exact value_of_writes hn hplain hd hlength
  | float hnumber =>
      rename_i text
      cases hnumber with
      | plain hn hplain => exact value_of_writes hn hplain hd hlength
      | @exponent n k mantissa exponent e he hcs _ _ _ _ =>
          have hmem : e ∈ text.toList := by
            rw [hcs]
            simp
          have hnone : Decimal.parse text = none := parse_of_exponent he hmem
          rw [show (Json.float text).amountText = text from rfl, hnone] at hd
          cases hd

theorem renderField_of_held {v : Json} {q : ℚ} (h : Held v q) : renderField v = v.amountText := by
  cases h <;> rfl

/-- The order of the text of a field and a literal is that of their numbers where it is kept. -/
theorem compareTexts?_iff {v : Json} {want : String} {q : ℚ} {n : Numeral} (hq : Held v q)
    (hn : n.Writes want.toList) (hplain : n.Plain) :
    compareTexts? (renderField v) want = some (compare q n.value) ↔
      OrderKept (renderField v) want q n.value := by
  rw [renderField_of_held hq]
  unfold compareTexts? OrderKept
  cases ha : Decimal.parse v.amountText with
  | none => simp
  | some a =>
      cases hb : Decimal.parse want with
      | none => simp
      | some b =>
          show a.cmp? b = _ ↔ if _ then _ else _
          rw [Decimal.cmp?_eq_compare_iff (Decimal.stored_of_parse ha) (Decimal.stored_of_parse hb)]
          by_cases hlength : v.amountText.length < 2 ^ 32 ∧ want.length < 2 ^ 32
          · rw [if_pos hlength, ← value_of_held hq ha hlength.1,
              ← value_of_writes hn hplain hb hlength.2]
            exact Decimal.inOrder_iff
          · rw [if_neg hlength]

/-! ### Rules -/

/-- The rule for an operator. -/
def conditionOf (field want op : String) (message : Option String) : Rule :=
  ⟨field, op, some want, message⟩

/-- Each operator holds where it does of the numbers, and a build that checks arithmetic says the
same. -/
def ComparesNumbers (doc : Json) (field want : String) (q p : ℚ) : Prop :=
  ∀ op ∈ comparisonOps, ∀ message,
    ruleHolds? (conditionOf field want op message) doc
        = some (ruleHolds (conditionOf field want op message) doc) ∧
      (ruleHolds (conditionOf field want op message) doc = true ↔ OpMeans op q p)

/-- One of less, equal and greater holds, and the other operators are their complements. -/
def Trichotomy (doc : Json) (field want : String) : Prop :=
  ∀ message, ∃ lt eq gt : Bool,
    ruleHolds (conditionOf field want "lt" message) doc = lt ∧
      ruleHolds (conditionOf field want "eq" message) doc = eq ∧
      ruleHolds (conditionOf field want "gt" message) doc = gt ∧
      (lt = true ∧ eq = false ∧ gt = false ∨ lt = false ∧ eq = true ∧ gt = false ∨
        lt = false ∧ eq = false ∧ gt = true) ∧
      ruleHolds (conditionOf field want "ge" message) doc = !lt ∧
      ruleHolds (conditionOf field want "le" message) doc = !gt ∧
      ruleHolds (conditionOf field want "ne" message) doc = !eq

section

variable {doc v : Json} {field want op : String} {message : Option String}

theorem ruleHolds_conditionOf (hv : doc.get field = some v) (hop : op ∈ comparisonOps) :
    ruleHolds (conditionOf field want op message) doc
      = opHolds op (compareTexts (renderField v) want) := by
  have htext : (conditionOf field want op message).rendered doc = renderField v := by
    unfold Rule.rendered conditionOf
    rw [hv]
    rfl
  simp only [comparisonOps, List.mem_cons, List.not_mem_nil, or_false] at hop
  unfold ruleHolds
  rw [htext]
  rcases hop with rfl | rfl | rfl | rfl | rfl | rfl <;> rfl

theorem ruleHolds?_conditionOf (hv : doc.get field = some v) (hop : op ∈ comparisonOps) :
    ruleHolds? (conditionOf field want op message) doc
      = (compareTexts? (renderField v) want).map (opHolds op) := by
  have htext : (conditionOf field want op message).rendered doc = renderField v := by
    unfold Rule.rendered conditionOf
    rw [hv]
    rfl
  simp only [comparisonOps, List.mem_cons, List.not_mem_nil, or_false] at hop
  unfold ruleHolds?
  rw [htext]
  rcases hop with rfl | rfl | rfl | rfl | rfl | rfl <;> rfl

end

/-- What a build that checks arithmetic compares is compared so in every build. -/
theorem compareTexts_of_checked {text want : String} {o : Ordering}
    (h : compareTexts? text want = some o) : compareTexts text want = o := by
  unfold compareTexts? at h
  unfold compareTexts
  split at h
  · rw [Decimal.cmp?_eq] at h
    split at h
    · exact Option.some.inj h
    · cases h
  · exact Option.some.inj h

/-- The operators say what they say of the numbers exactly where the texts are in their order. -/
theorem comparesNumbers_iff {doc v : Json} {field : String} (hv : doc.get field = some v)
    (want : String) (q p : ℚ) :
    ComparesNumbers doc field want q p ↔
      compareTexts? (renderField v) want = some (compare q p) := by
  constructor
  · intro h
    obtain ⟨hchecked, -⟩ := h "eq" (by decide) none
    rw [ruleHolds?_conditionOf hv (by decide)] at hchecked
    obtain ⟨o, ho, -⟩ := Option.map_eq_some_iff.mp hchecked
    have horder : o = compare q p := by
      refine eq_of_opHolds fun op hop => ?_
      have hmeans := (h op hop none).2
      rwa [ruleHolds_conditionOf hv hop, compareTexts_of_checked ho,
        ← opHolds_compare hop] at hmeans
    rw [ho, horder]
  · intro h op hop message
    rw [ruleHolds?_conditionOf hv hop, ruleHolds_conditionOf hv hop, compareTexts_of_checked h, h]
    exact ⟨rfl, opHolds_compare hop q p⟩

/-- Of any field and literal, numbers or not, one order holds. -/
theorem trichotomy {doc v : Json} {field : String} (hv : doc.get field = some v) (want : String) :
    Trichotomy doc field want := by
  intro message
  obtain ⟨hone, hge, hle, hne⟩ := opHolds_trichotomy (compareTexts (renderField v) want)
  refine ⟨_, _, _, ruleHolds_conditionOf hv (by decide), ruleHolds_conditionOf hv (by decide),
    ruleHolds_conditionOf hv (by decide), hone, ?_, ?_, ?_⟩
  · rw [ruleHolds_conditionOf hv (by decide), hge]
  · rw [ruleHolds_conditionOf hv (by decide), hle]
  · rw [ruleHolds_conditionOf hv (by decide), hne]

/-- A condition on a field with a number compares it as a number exactly where the order of the texts
is kept. One of less, equal and greater holds in any case. -/
theorem ruleHolds_iff {doc v : Json} {field want : String} {q : ℚ} {n : Numeral}
    (hv : doc.get field = some v) (hq : Held v q) (hn : n.Writes want.toList) (hplain : n.Plain) :
    (ComparesNumbers doc field want q n.value ↔ OrderKept (renderField v) want q n.value) ∧
      Trichotomy doc field want :=
  ⟨(comparesNumbers_iff hv want q n.value).trans (compareTexts?_iff hq hn hplain), trichotomy hv want⟩

/-- Digits and nothing else are a numeral. -/
theorem writes_digits (cs : List Char) (hdigits : cs.all isAsciiDigit = true) (hne : cs ≠ []) :
    (⟨none, cs, none⟩ : Numeral).Writes cs ∧ (⟨none, cs, none⟩ : Numeral).Plain := by
  refine ⟨⟨⟨by simp, ?_, ?_⟩, ?_⟩, by simp, hne, by simp⟩
  · intro c hc
    have hc' : c ∈ cs := by simpa [Numeral.digits] using hc
    exact List.all_eq_true.mp hdigits c hc'
  · simpa [Numeral.digits] using hne
  · simp [Numeral.text, Numeral.body]

/-- An amount of 250 against 1000. -/
theorem ruleHolds_total :
    Held (.int 250) 250 ∧
      ComparesNumbers (.object [("total", .int 250)]) "total" "1000" 250
        (⟨none, "1000".toList, none⟩ : Numeral).value ∧
      Trichotomy (.object [("total", .int 250)]) "total" "1000" := by
  have hheld : Held (.int 250) 250 := .int 250
  have hwrites := writes_digits "1000".toList (by decide) (by decide)
  have hv : (Json.object [("total", .int 250)]).get "total" = some (.int 250) := rfl
  obtain ⟨hiff, htri⟩ := ruleHolds_iff hv hheld hwrites.1 hwrites.2
  refine ⟨hheld, hiff.mpr ?_, htri⟩
  have hfield : Decimal.parse (renderField (.int 250)) = some ⟨250, 0⟩ := by decide
  have hwant : Decimal.parse "1000" = some ⟨1000, 0⟩ := by decide
  unfold OrderKept
  rw [hfield, hwant]
  show if _ then _ else _
  rw [if_pos (by decide)]
  decide

/-- A total of 10^21, which is printed with an exponent, is not greater than 9. -/
theorem not_comparesNumbers_exponent :
    ∃ q, Held (.float "1e21") q ∧ (9 : ℚ) < q ∧
      ruleHolds (conditionOf "total" "9" "gt" none) (.object [("total", .float "1e21")]) = false ∧
      ruleHolds (conditionOf "total" "9" "lt" none) (.object [("total", .float "1e21")]) = true ∧
      ¬ ComparesNumbers (.object [("total", .float "1e21")]) "total" "9" q 9 := by
  have hone := writes_digits ['1'] (by decide) (by decide)
  have hexp := writes_digits ['2', '1'] (by decide) (by decide)
  have hheld : Held (.float "1e21") _ :=
    .float (.exponent (.inl rfl) (by decide) hone.1 hone.2 hexp.1 rfl)
  have hvalue : (⟨none, ['1'], none⟩ : Numeral).value
      * 10 ^ (⟨none, ['2', '1'], none⟩ : Numeral).integer = 10 ^ 21 := by
    have hm : (⟨none, ['1'], none⟩ : Numeral).value = 1 := by
      have hmag : (⟨none, ['1'], none⟩ : Numeral).magnitude = 1 := by decide
      unfold Numeral.value
      rw [hmag]
      norm_num [Decimal.signed]
    have hk : (⟨none, ['2', '1'], none⟩ : Numeral).integer = 21 := by decide
    rw [hm, hk, one_mul]
    norm_num
  rw [hvalue] at hheld
  have hgt : ruleHolds (conditionOf "total" "9" "gt" none) (.object [("total", .float "1e21")])
      = false := by decide +kernel
  refine ⟨10 ^ 21, hheld, by norm_num, hgt, by decide +kernel, fun h => ?_⟩
  have hmeans := (h "gt" (by decide) none).2
  rw [hgt] at hmeans
  exact absurd (hmeans.mpr (by norm_num [OpMeans])) Bool.false_ne_true

end Frust.Kernel
