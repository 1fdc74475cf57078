import Frust.Proofs.Kernel.Literals
import Frust.Proofs.Kernel.Wire

/-!
# `Frust.Proofs.Kernel.MoneyPath`: money on its way to the database

A money field comes in a request or from a script, and its value goes to the database as what the
renderer makes of it. `MoneyExact` says that this is `NONE` or the number that was written.
`moneyPath_iff` says which JSON keeps to that: in a request, an integer past the 64 signed bits, a
list, an object, a truth value or an envelope of another kind do not, and from a script nothing
does but a null or an integer, where the field did not come as a decimal.
-/

set_option autoImplicit false

namespace Frust.Kernel

open Frust.Lib Frust.Rust.Str

/-! ### Numbers in JSON and in values -/

/-- The number that JSON writes for a money field. Where it is a float the request wrote
`literal`. -/
inductive Wrote (literal : ℚ) : Json → ℚ → Prop
  | text {s : String} {n : Numeral} (hn : n.Writes s.toList) : Wrote literal (.string s) n.value
  | int (i : Int) : Wrote literal (.int i) i
  | intEnvelope {raw : Json} {i : Int} (h : envelopeParts raw = some ("int", .int i)) :
      Wrote literal raw i
  | decimalText {raw : Json} {s : String} {n : Numeral}
      (h : envelopeParts raw = some ("decimal", .string s)) (hn : n.Writes s.toList) :
      Wrote literal raw n.value
  | decimalInt {raw : Json} {i : Int} (h : envelopeParts raw = some ("decimal", .int i)) :
      Wrote literal raw i
  | decimalFloat {raw : Json} {text : String} (h : envelopeParts raw = some ("decimal", .float text)) :
      Wrote literal raw literal

/-- The number that a value is, without an error. -/
inductive Amount : Value → ℚ → Prop
  | int (i : Int) : Amount (.int i) i
  | decimal {s : String} {n : Numeral} (hn : n.Writes s.toList) : Amount (.decimal s) n.value

/-- The renderer does not send the value. -/
def Unsent (v : Value) : Prop := ∀ text, renderValue v ≠ .ok text

/-- What is sent is `NONE`, or the number that was written. -/
def MoneyExact (literal : ℚ) (raw : Json) (v : Value) : Prop :=
  Unsent v ∨ v = .null ∨ ∃ q, Wrote literal raw q ∧ Amount v q

section

variable {literal : ℚ} {raw : Json}

theorem moneyExact_iff_refused {v : Value} (hnull : v ≠ .null) (hnumber : ∀ q, ¬ Amount v q) :
    MoneyExact literal raw v ↔ Unsent v := by
  constructor
  · rintro (hrefused | rfl | ⟨q, -, hq⟩)
    · exact hrefused
    · exact absurd rfl hnull
    · exact absurd hq (hnumber q)
  · exact .inl

theorem not_refused_bool (b : Bool) : ¬ Unsent (.bool b) := fun h => h _ rfl

theorem not_refused_text (s : String) : ¬ Unsent (.text s) := fun h => h _ rfl

/-- The text of an integer is the numeral of its number. -/
theorem writes_int (i : Int) : ∃ n : Numeral, n.Writes (toString i).toList ∧ n.value = i := by
  refine ⟨(⟨i, 0⟩ : Decimal).printed, Decimal.printed_writes_int i, ?_⟩
  rw [Decimal.printed_value]
  simp [Decimal.value]

/-- A float that is not finite is refused, and no integer is printed as one. -/
theorem not_refused_double (i : Int) : ¬ Unsent (.float (toString i)) := by
  obtain ⟨n, hn, -⟩ := writes_int i
  have hliteral := (isDecimalLiteral_iff _).mpr ⟨n, hn⟩
  intro h
  refine h (toString i ++ "f") ?_
  rw [renderValue, if_neg]
  rintro (hnan | hinf | hinf)
  · rw [hnan] at hliteral
    exact absurd hliteral (by decide)
  · rw [hinf] at hliteral
    exact absurd hliteral (by decide)
  · rw [hinf] at hliteral
    exact absurd hliteral (by decide)

/-- A decimal is sent if its text is plain, and then it is the numeral that it is written as. -/
theorem moneyExact_decimal {s : String}
    (h : isPlainDecimal s = true → ∀ n : Numeral, n.Writes s.toList → Wrote literal raw n.value) :
    MoneyExact literal raw (.decimal s) := by
  by_cases hplain : isPlainDecimal s = true
  · obtain ⟨n, hn, -⟩ := (isPlainDecimal_iff s).mp hplain
    exact .inr (.inr ⟨n.value, h hplain n hn, .decimal hn⟩)
  · refine .inl fun text htext => hplain ?_
    exact (renderValue_decimal_ok s).mp ⟨text, htext⟩

/-! ### A request -/

/-- An envelope is for money if it is null, an integer, a decimal whose text is the number, or one
that is refused. -/
def SafeEnvelope (literal : ℚ) (kind : String) (v : Json) : Prop :=
  if kind = "null" then True
  else if kind = "int" then v.asI64.isSome = true
  else if kind = "decimal" then
    ∀ text, v = .float text → isPlainDecimal text = true →
      ∀ n : Numeral, n.Writes text.toList → n.value = literal
  else ∀ x, typedValue kind v = .ok x → Unsent x

/-- JSON that is sent as the number it writes, or not at all. -/
def SafeMoney (literal : ℚ) (raw : Json) : Prop :=
  match raw with
  | .null | .string _ | .float _ => True
  | .int i => ¬ (2 ^ 63 ≤ i ∧ i < 2 ^ 64)
  | .bool _ => False
  | .array items => Unsent (.list (inferItems items))
  | .object entries =>
      match envelopeParts (.object entries) with
      | some (kind, v) => SafeEnvelope literal kind v
      | none => Unsent (.object (inferEntries entries))

theorem asI64_inv {v : Json} {i : Int} (h : v.asI64 = some i) :
    v = .int i ∧ -2 ^ 63 ≤ i ∧ i < 2 ^ 63 := by
  cases v with
  | int j =>
      simp only [Json.asI64] at h
      split at h
      · rename_i hrange
        obtain rfl := Option.some.inj h
        exact ⟨rfl, hrange⟩
      · cases h
  | _ => cases h

/-- What JSON prints of anything but a number or a string is no numeral. -/
theorem not_plain_text {v : Json} (h : v.asStr = none) (hint : ∀ i, v ≠ .int i)
    (hfloat : ∀ text, v ≠ .float text) : isPlainDecimal v.text = false := by
  rw [Bool.eq_false_iff]
  intro hplain
  obtain ⟨n, ⟨hwf, htext⟩, -⟩ := (isPlainDecimal_iff _).mp hplain
  have hmem (c : Char) (hc : c ∈ v.text.toList) :
      c = '-' ∨ c = '+' ∨ c = '.' ∨ isAsciiDigit c = true := by
    rw [htext] at hc
    exact Numeral.mem_text hwf hc
  cases v with
  | null => exact absurd (hmem 'n' (by decide)) (by decide)
  | bool b =>
      cases b
      · exact absurd (hmem 'f' (by decide)) (by decide)
      · exact absurd (hmem 't' (by decide)) (by decide)
  | int i => exact hint i rfl
  | float text => exact hfloat text rfl
  | string s => cases h
  | array items =>
      refine absurd (hmem '[' ?_) (by decide)
      rw [Json.text, String.toList_append, String.toList_append]
      exact List.mem_append_left _ (List.mem_append_left _ List.mem_cons_self)
  | object entries =>
      refine absurd (hmem '{' ?_) (by decide)
      rw [Json.text, String.toList_append, String.toList_append]
      exact List.mem_append_left _ (List.mem_append_left _ List.mem_cons_self)

theorem Wrote.of_envelope {q : ℚ} {kind : String} {v : Json} (h : Wrote literal raw q)
    (henv : envelopeParts raw = some (kind, v)) :
    kind = "int" ∧ (∃ i : Int, v = .int i ∧ q = i) ∨
      kind = "decimal" ∧ ((∃ s n, v = .string s ∧ Numeral.Writes n s.toList ∧ q = n.value) ∨
        (∃ i : Int, v = .int i ∧ q = i) ∨ ∃ text, v = .float text ∧ q = literal) := by
  cases h with
  | text hn => cases henv
  | int i => cases henv
  | @intEnvelope _ i h =>
      obtain ⟨rfl, rfl⟩ := Prod.mk.inj (Option.some.inj (henv.symm.trans h))
      exact .inl ⟨rfl, i, rfl, rfl⟩
  | @decimalText _ s n h hn =>
      obtain ⟨rfl, rfl⟩ := Prod.mk.inj (Option.some.inj (henv.symm.trans h))
      exact .inr ⟨rfl, .inl ⟨s, n, rfl, hn, rfl⟩⟩
  | @decimalInt _ i h =>
      obtain ⟨rfl, rfl⟩ := Prod.mk.inj (Option.some.inj (henv.symm.trans h))
      exact .inr ⟨rfl, .inr (.inl ⟨i, rfl, rfl⟩)⟩
  | @decimalFloat _ text h =>
      obtain ⟨rfl, rfl⟩ := Prod.mk.inj (Option.some.inj (henv.symm.trans h))
      exact .inr ⟨rfl, .inr (.inr ⟨text, rfl, rfl⟩)⟩

/-- An integer in an envelope is the one that was written, or zero for what is none. -/
theorem moneyExact_intEnvelope {v : Json} (henv : envelopeParts raw = some ("int", v)) :
    MoneyExact literal raw (.int (v.asI64.getD 0)) ↔ v.asI64.isSome = true := by
  cases hv : v.asI64 with
  | some i =>
      obtain ⟨rfl, -⟩ := asI64_inv hv
      exact iff_of_true (.inr (.inr ⟨i, .intEnvelope henv, .int i⟩)) rfl
  | none =>
      refine iff_of_false ?_ Bool.false_ne_true
      rintro (hrefused | hnull | ⟨q, hwrote, hq⟩)
      · exact hrefused _ rfl
      · cases hnull
      · rcases hwrote.of_envelope henv with ⟨-, i, rfl, rfl⟩ | ⟨hkind, -⟩
        · generalize hqi : (i : ℚ) = q at hq
          cases hq
          have hzero : i = 0 := by exact_mod_cast hqi
          subst hzero
          cases hv
        · exact absurd hkind (by decide)

/-- A decimal in an envelope is what its text says. -/
theorem moneyExact_decimalEnvelope {v : Json} (henv : envelopeParts raw = some ("decimal", v)) :
    MoneyExact literal raw (.decimal (if v.asStr.isSome then v.asStr.getD "" else v.text)) ↔
      ∀ text, v = .float text → isPlainDecimal text = true →
        ∀ n : Numeral, n.Writes text.toList → n.value = literal := by
  cases v with
  | string s =>
      refine iff_of_true ?_ fun text h => by cases h
      exact moneyExact_decimal fun _ n hn => .decimalText henv hn
  | int i =>
      refine iff_of_true ?_ fun text h => by cases h
      refine moneyExact_decimal fun _ n hn => ?_
      obtain ⟨n', hn', hvalue⟩ := writes_int i
      obtain rfl := hn.unique hn'
      rw [hvalue]
      exact .decimalInt henv
  | float text =>
      -- Only a float can have a text that says another number than its source.
      show MoneyExact literal raw (.decimal text) ↔ _
      constructor
      · rintro (hrefused | hnull | ⟨q, hwrote, hq⟩) text' heq hplain n hn
        · cases heq
          obtain ⟨t, ht⟩ := (renderValue_decimal_ok text).mpr hplain
          exact absurd ht (hrefused t)
        · cases hnull
        · cases heq
          rcases hwrote.of_envelope henv with ⟨hkind, -⟩ | ⟨-, ⟨s, m, hs, -⟩ | ⟨i, hi, -⟩ | ⟨-, -, hl⟩⟩
          · exact absurd hkind (by decide)
          · cases hs
          · cases hi
          · cases hq with
            | decimal hm =>
                obtain rfl := hn.unique hm
                exact hl
      · intro h
        refine moneyExact_decimal fun hplain n hn => ?_
        rw [h text rfl hplain n hn]
        exact .decimalFloat henv
  | null | bool _ | array _ | object _ =>
      refine iff_of_true (moneyExact_decimal fun hplain => ?_) fun text h => by cases h
      rw [show (if (Json.asStr _).isSome then (Json.asStr _).getD "" else Json.text _)
        = Json.text _ from rfl, not_plain_text rfl (by simp) (by simp)] at hplain
      cases hplain

/-- An envelope of any other kind is no money. -/
theorem typedValue_other {kind : String} {v : Json} {x : Value} (hnull : kind ≠ "null")
    (hint : kind ≠ "int") (hdecimal : kind ≠ "decimal") (h : typedValue kind v = .ok x) :
    x ≠ .null ∧ ∀ q, ¬ Amount x q := by
  unfold typedValue at h
  rw [if_neg hnull] at h
  by_cases hbool : kind = "bool"
  · rw [if_pos hbool] at h
    cases h
    exact ⟨by simp, fun q hq => by cases hq⟩
  rw [if_neg hbool, if_neg hint] at h
  by_cases hfloat : kind = "float"
  · rw [if_pos hfloat] at h
    cases h
    exact ⟨by simp, fun q hq => by cases hq⟩
  rw [if_neg hfloat, if_neg hdecimal] at h
  split_ifs at h
  all_goals cases h
  all_goals exact ⟨by simp, fun q hq => by cases hq⟩

theorem moneyExact_envelope {kind : String} {v : Json} {x : Value}
    (henv : envelopeParts raw = some (kind, v)) (h : typedValue kind v = .ok x) :
    MoneyExact literal raw x ↔ SafeEnvelope literal kind v := by
  unfold SafeEnvelope
  by_cases hnull : kind = "null"
  · subst hnull
    cases h
    exact iff_of_true (.inr (.inl rfl)) trivial
  rw [if_neg hnull]
  by_cases hint : kind = "int"
  · subst hint
    cases h
    rw [if_pos rfl]
    exact moneyExact_intEnvelope henv
  rw [if_neg hint]
  by_cases hdecimal : kind = "decimal"
  · subst hdecimal
    cases h
    rw [if_pos rfl]
    exact moneyExact_decimalEnvelope henv
  rw [if_neg hdecimal]
  -- No other kind gives a number, so the amount must be refused.
  obtain ⟨hne, hnumber⟩ := typedValue_other hnull hint hdecimal h
  rw [moneyExact_iff_refused hne hnumber]
  constructor
  · intro hrefused x' hx'
    rw [h] at hx'
    obtain rfl := Except.ok.inj hx'
    exact hrefused
  · intro hsafe
    exact hsafe x h

/-- What a request's money field is parsed to is exact where its JSON is safe. -/
theorem moneyExact_field {fieldname : String} {v : Value}
    (h : parseWriteField true fieldname raw = .ok v) :
    MoneyExact literal raw v ↔ SafeMoney literal raw := by
  cases raw with
  | null =>
      cases h
      exact iff_of_true (.inr (.inl rfl)) trivial
  -- A boolean gives no number, and is not refused.
  | bool b =>
      cases h
      rw [inferValue, moneyExact_iff_refused (by simp) fun q hq => by cases hq]
      exact iff_of_false (not_refused_bool b) id
  | string s =>
      cases h
      exact iff_of_true (moneyExact_decimal fun _ n hn => .text hn) trivial
  | float text => cases h
  | int i =>
      simp only [parseWriteField] at h
      split at h
      · cases h
      · rename_i hrange
        have hparse : v = inferValue (.int i) := (Except.ok.inj h).symm
        subst hparse
        rw [inferValue]
        cases hi : (Json.int i).asI64 with
        | some j =>
            -- An integer that fits is kept as it is.
            obtain ⟨heq, hlow, hhigh⟩ := asI64_inv hi
            cases heq
            exact iff_of_true (.inr (.inr ⟨i, .int i, .int i⟩)) fun hno => by omega
        -- Past both ranges an integer is refused before it gets here.
        | none =>
            rw [moneyExact_iff_refused (by simp) fun q hq => by cases hq]
            refine iff_of_false (not_refused_double _) fun hno => hno ?_
            simp only [hi, Option.isNone_none, true_and, Json.asU64] at hrange
            simp only [Json.asI64] at hi
            split at hi
            · cases hi
            · split at hrange
              · omega
              · exact absurd rfl hrange
  | array items =>
      cases h
      rw [inferValue, moneyExact_iff_refused (by simp) fun q hq => by cases hq]
      rfl
  | object entries =>
      have hparse : parseValue (.object entries) = .ok v := h
      unfold parseValue at hparse
      rw [envelopeValue_eq] at hparse
      cases henv : envelopeParts (.object entries) with
      | none =>
          rw [henv] at hparse
          cases hparse
          simp only [SafeMoney, henv]
          rw [inferValue, moneyExact_iff_refused (by simp) fun q hq => by cases hq]
      | some pair =>
          rw [henv] at hparse
          simp only [SafeMoney, henv]
          -- Only an envelope says which number its object is.
          exact moneyExact_envelope henv hparse

/-! ### A script -/

/-- JSON from a script that is sent as the number it writes, or not at all. Any is, for a field that
came as a decimal. -/
def SafeScript (kind : Option Wit) (raw : Json) : Prop :=
  match kind, raw with
  | some (.decimalV _), _ => True
  | _, .null => True
  | some (.datetimeV _), .string s => Unsent (.datetime s)
  | some (.durationV _), .string s => Unsent (.duration s)
  | some (.recordIdV _), .string s => Unsent (.recordId s)
  | some (.floatV _), .int _ => False
  | _, .int i => -2 ^ 63 ≤ i ∧ i < 2 ^ 63
  | _, .float text => Unsent (.float text)
  | _, .bool _ => False
  | _, .string _ => False
  | _, raw => Unsent (jsonToContract raw)

/-- A field that came as a decimal leaves as the number that the script wrote. -/
theorem moneyExact_decimalOut {key : String} {w : Wit} (h : decimalOut raw key = .ok w) :
    MoneyExact literal raw w.toValue := by
  unfold decimalOut at h
  split at h
  · split at h
    · cases h
      exact moneyExact_decimal fun _ n hn => .text hn
    · cases h
  · rename_i i
    cases hi : (Json.int i).asI64 with
    | none =>
        rw [hi] at h
        cases h
    | some j =>
        obtain ⟨heq, -⟩ := asI64_inv hi
        cases heq
        rw [hi] at h
        cases h
        refine moneyExact_decimal fun _ n hn => ?_
        obtain ⟨n', hn', hvalue⟩ := writes_int i
        obtain rfl := hn.unique hn'
        rw [hvalue]
        exact .int i
  · cases h
  · cases h
    exact .inr (.inl rfl)
  · cases h
  · cases h

theorem moneyExact_infer : MoneyExact literal raw (Wit.infer raw).toValue ↔ SafeScript none raw := by
  cases raw with
  | null => exact iff_of_true (.inr (.inl rfl)) trivial
  | bool b =>
      show MoneyExact literal _ (.bool b) ↔ False
      rw [moneyExact_iff_refused (by simp) fun q hq => by cases hq]
      exact iff_of_false (not_refused_bool b) id
  | int i =>
      show MoneyExact literal _ (Wit.infer (.int i)).toValue ↔ -2 ^ 63 ≤ i ∧ i < 2 ^ 63
      rw [Wit.infer]
      cases hi : (Json.int i).asI64 with
      | some j =>
          obtain ⟨heq, hrange⟩ := asI64_inv hi
          cases heq
          exact iff_of_true (.inr (.inr ⟨i, .int i, .int i⟩)) hrange
      | none =>
          show MoneyExact literal _ (.float _) ↔ _
          rw [moneyExact_iff_refused (by simp) fun q hq => by cases hq]
          -- An integer of no `i64` becomes a double, which is not refused and may be another
          -- number.
          refine iff_of_false (not_refused_double _) fun hrange => ?_
          simp only [Json.asI64, if_pos hrange] at hi
          cases hi
  | float text =>
      show MoneyExact literal _ (.float text) ↔ Unsent (.float text)
      exact moneyExact_iff_refused (by simp) fun q hq => by cases hq
  | string s =>
      show MoneyExact literal _ (.text s) ↔ False
      rw [moneyExact_iff_refused (by simp) fun q hq => by cases hq]
      exact iff_of_false (not_refused_text s) id
  | array items =>
      show MoneyExact literal _ (jsonToContract (.array items)) ↔ Unsent (jsonToContract (.array items))
      rw [jsonToContract]
      exact moneyExact_iff_refused (by simp) fun q hq => by cases hq
  | object entries =>
      show MoneyExact literal _ (jsonToContract (.object entries))
        ↔ Unsent (jsonToContract (.object entries))
      rw [jsonToContract]
      exact moneyExact_iff_refused (by simp) fun q hq => by cases hq

/-- What a script's field is put back to is exact where its JSON is safe for the kind. -/
theorem moneyExact_fromJson {kind : Option Wit} {key : String} {w : Wit}
    (h : Wit.fromJson raw kind key = .ok w) :
    MoneyExact literal raw w.toValue ↔ SafeScript kind raw := by
  -- What is inferred does not look at the kind.
  have hinfer (heq : w = Wit.infer raw) (hkind : SafeScript kind raw ↔ SafeScript none raw) :
      MoneyExact literal raw w.toValue ↔ SafeScript kind raw := by
    rw [heq, moneyExact_infer, hkind]
  -- What gives no number must be refused.
  have hrefused (hnull : w.toValue ≠ .null) (hnumber : ∀ q, ¬ Amount w.toValue q)
      (hkind : SafeScript kind raw ↔ Unsent w.toValue) :
      MoneyExact literal raw w.toValue ↔ SafeScript kind raw := by
    rw [moneyExact_iff_refused hnull hnumber, hkind]
  match kind with
  | none => exact hinfer (Except.ok.inj h).symm .rfl
  | some (.decimalV s) => exact iff_of_true (moneyExact_decimalOut h) (by unfold SafeScript; trivial)
  | some (.datetimeV s) =>
      cases raw with
      | string t =>
          obtain rfl : w = .datetimeV t := (Except.ok.inj h).symm
          exact hrefused (by simp [Wit.toValue]) (fun q hq => by cases hq) .rfl
      | _ => exact hinfer (Except.ok.inj h).symm .rfl
  | some (.durationV s) =>
      cases raw with
      | string t =>
          obtain rfl : w = .durationV t := (Except.ok.inj h).symm
          exact hrefused (by simp [Wit.toValue]) (fun q hq => by cases hq) .rfl
      | _ => exact hinfer (Except.ok.inj h).symm .rfl
  | some (.recordIdV s) =>
      cases raw with
      | string t =>
          obtain rfl : w = .recordIdV t := (Except.ok.inj h).symm
          exact hrefused (by simp [Wit.toValue]) (fun q hq => by cases hq) .rfl
      | _ => exact hinfer (Except.ok.inj h).symm .rfl
  -- Only the kinds that take a string or a number as it stands differ from what is inferred.
  | some (.floatV s) =>
      cases raw with
      | int i =>
          obtain rfl : w = .floatV (toString (Json.double i)) := (Except.ok.inj h).symm
          refine hrefused (by simp [Wit.toValue]) (fun q hq => by cases hq) ?_
          exact iff_of_false id (not_refused_double _)
      | float text =>
          obtain rfl : w = .floatV text := (Except.ok.inj h).symm
          exact hrefused (by simp [Wit.toValue]) (fun q hq => by cases hq) .rfl
      | _ => exact hinfer (Except.ok.inj h).symm .rfl
  | some (.intV s) =>
      cases raw with
      | int i =>
          simp only [Wit.fromJson] at h
          refine hinfer ?_ .rfl
          rw [Wit.infer]
          cases hi : (Json.int i).asI64 with
          | some j =>
              rw [hi] at h
              exact (Except.ok.inj h).symm
          | none =>
              rw [hi] at h
              have hw := (Except.ok.inj h).symm
              rw [Wit.infer, hi] at hw
              exact hw
      | _ => exact hinfer (Except.ok.inj h).symm .rfl
  | some .nullV | some (.boolV _) | some (.textV _) | some (.compoundV _) =>
      refine hinfer (Except.ok.inj h).symm ?_
      cases raw <;> exact .rfl

end

/-! ### Documents -/

/-- Each money field of a document is sent as the number that was written for it. -/
def DocExact (currency : String → Bool) (literal : String → ℚ) (doc : List (String × Json))
    (sent : Doc) : Prop :=
  List.Forall₂ (fun written value => value.1 = written.1 ∧
    (currency written.1 = true → MoneyExact (literal written.1) written.2 value.2)) doc sent

theorem docExact_iff (safe : String → Json → Prop) {currency : String → Bool}
    {literal : String → ℚ} {doc : List (String × Json)} {sent : Doc}
    (h : List.Forall₂ (fun written value => value.1 = written.1 ∧ (currency written.1 = true →
      (MoneyExact (literal written.1) written.2 value.2 ↔ safe written.1 written.2))) doc sent) :
    DocExact currency literal doc sent ↔
      ∀ written ∈ doc, currency written.1 = true → safe written.1 written.2 := by
  unfold DocExact
  induction h with
  | nil => exact iff_of_true .nil fun written hmem => by cases hmem
  | cons hfirst _ ih =>
      rw [List.forall₂_cons, ih, List.forall_mem_cons]
      refine and_congr_left' ?_
      constructor
      · rintro ⟨-, hexact⟩ hcurrency
        exact (hfirst.2 hcurrency).mp (hexact hcurrency)
      · intro hsafe
        exact ⟨hfirst.1, fun hcurrency => (hfirst.2 hcurrency).mpr (hsafe hcurrency)⟩

/-- The money of a document, parsed from a request or left by a script, is sent as it was written or
refused exactly where its JSON is safe. -/
theorem moneyPath_iff {doctypes : List DocTypeDef} {dt : DocTypeDef} {doctype : String}
    {doc : List (String × Json)} {values : Doc} {kinds : String → Option Wit}
    {map : List (String × Json)} {out : List (String × Wit)} (literal : String → ℚ)
    (hdt : doctypes.find? (·.name = doctype) = some dt)
    (hdoc : parseWriteDoc (.ok doctypes) doctype (some (.object doc)) = .ok values)
    (hout : scriptOut kinds map = .ok out) :
    (DocExact dt.isCurrency literal doc values ↔
      ∀ written ∈ doc, dt.isCurrency written.1 = true →
        SafeMoney (literal written.1) written.2) ∧
    (DocExact dt.isCurrency literal map (out.map fun e => (e.1, e.2.toValue)) ↔
      ∀ written ∈ map, dt.isCurrency written.1 = true →
        SafeScript (kinds written.1) written.2) := by
  constructor
  · refine docExact_iff (fun k raw => SafeMoney (literal k) raw) ?_
    simp only [parseWriteDoc, hdt, bind, Except.bind] at hdoc
    refine (forall₂_of_mapM_ok hdoc).imp fun written value hwritten => ?_
    -- Field by field, as the document is converted.
    obtain ⟨v, hv, hvalue⟩ := bind_eq_ok hwritten
    cases hvalue
    refine ⟨rfl, fun hcurrency => ?_⟩
    rw [hcurrency] at hv
    exact moneyExact_field hv
  · refine docExact_iff (fun k raw => SafeScript (kinds k) raw) ?_
    rw [List.forall₂_map_right_iff]
    refine (forall₂_of_mapM_ok hout).imp fun written value hwritten => ?_
    obtain ⟨w, hw, hvalue⟩ := bind_eq_ok hwritten
    cases hvalue
    exact ⟨rfl, fun _ => moneyExact_fromJson hw⟩

/-- An order with a total. -/
def order : DocTypeDef where
  name := "Order"
  fields := [⟨"total", "Currency", true, [], none, "", none, none, none, none, none⟩]

/-- A total that comes as a string, and a script that adds a tax to it. -/
theorem docExact_order :
    DocExact order.isCurrency (fun _ => 0) [("total", .string "12.50")]
      [("total", .decimal "12.50")] ∧
    DocExact order.isCurrency (fun _ => 0) [("total", .string "15.00")]
      [("total", .decimal "15.00")] := by
  have hpath := @moneyPath_iff [order] order "Order" [("total", .string "12.50")]
    [("total", .decimal "12.50")] (fun _ => some (.decimalV "12.50")) [("total", .string "15.00")]
    [("total", .decimalV "15.00")] (fun _ => 0) rfl rfl rfl
  refine ⟨hpath.1.mpr ?_, hpath.2.mpr ?_⟩
  · intro written hmem _
    rw [List.mem_singleton.mp hmem]
    trivial
  · intro written hmem _
    rw [List.mem_singleton.mp hmem]
    trivial

/-- An integer of 64 bits without a sign is sent as a float, an integer envelope around a text as
zero, and a total that a script computes where there was none as a float. -/
theorem not_docExact :
    (parseWriteDoc (.ok [order]) "Order" (some (.object [("total", .int 9223372036854775808)]))
        = .ok [("total", .float "9223372036854775808")] ∧
      ¬ DocExact order.isCurrency (fun _ => 0) [("total", .int 9223372036854775808)]
        [("total", .float "9223372036854775808")]) ∧
    (parseWriteDoc (.ok [order]) "Order"
        (some (.object [("total", .object [("kind", .string "int"), ("v", .string "12.50")])]))
        = .ok [("total", .int 0)] ∧
      ¬ DocExact order.isCurrency (fun _ => 0)
        [("total", .object [("kind", .string "int"), ("v", .string "12.50")])]
        [("total", .int 0)]) ∧
    (scriptOut (fun _ => none) [("total", .float "0.30000000000000004")]
        = .ok [("total", .floatV "0.30000000000000004")] ∧
      ¬ DocExact order.isCurrency (fun _ => 0) [("total", .float "0.30000000000000004")]
        [("total", .float "0.30000000000000004")]) := by
  refine ⟨⟨by rfl, fun h => ?_⟩, ⟨by rfl, fun h => ?_⟩, ⟨by rfl, fun h => ?_⟩⟩
  · have hexact := (List.forall₂_cons.mp h).1.2 (by decide)
    have hparse : parseWriteField true "total" (.int 9223372036854775808)
        = .ok (.float "9223372036854775808") := by rfl
    have hsafe := (moneyExact_field hparse).mp hexact
    exact hsafe ⟨by decide, by decide⟩
  · have hexact := (List.forall₂_cons.mp h).1.2 (by decide)
    have hsafe := (moneyExact_intEnvelope (v := .string "12.50") (by rfl)).mp hexact
    cases hsafe
  · have hexact := (List.forall₂_cons.mp h).1.2 (by decide)
    have hrefused := (moneyExact_iff_refused (by simp) fun q hq => by cases hq).mp hexact
    exact hrefused _ (by rfl)

end Frust.Kernel
