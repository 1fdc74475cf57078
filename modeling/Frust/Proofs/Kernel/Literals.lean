import Frust.Kernel.Script
import Frust.Proofs.Kernel.Money

/-!
# `Frust.Proofs.Kernel.Literals`: three readers of one number

`Decimal::parse`, the query renderer and the script engine each look at a text and say whether it
is a decimal. A `Numeral` is a text of this kind in its parts, and each reader accepts some
numerals and nothing else: `isDecimalLiteral_iff`, `isPlainDecimal_iff`, `parse_isSome_iff`. What
the readers say about one text is then compared part by part.

`parse_exact_iff` says which decimals are read back from their text.
-/

set_option autoImplicit false

namespace Frust.Kernel

open Frust.Rust.Str

/-! ### Numerals -/

/-- A decimal number as it is written. -/
structure Numeral where
  sign : Option Char
  int : List Char
  /-- What comes after the point, where there is one. -/
  frac : Option (List Char)
  deriving DecidableEq

namespace Numeral

/-- The digits, and the point. -/
def body (n : Numeral) : List Char := n.int ++ n.frac.elim [] ('.' :: ·)

def text (n : Numeral) : List Char := n.sign.toList ++ n.body

def digits (n : Numeral) : List Char := n.int ++ n.frac.getD []

/-- The number of the digits. -/
def magnitude (n : Numeral) : Nat := Nat.ofDigitChars 10 n.digits 0

/-- A sign, and at least one digit. -/
structure WellFormed (n : Numeral) : Prop where
  sign : ∀ c, n.sign = some c → c = '-' ∨ c = '+'
  digits : ∀ c ∈ n.digits, isAsciiDigit c = true
  nonempty : n.digits ≠ []

/-- No plus, and digits on both sides of the point. -/
def Plain (n : Numeral) : Prop := n.sign ≠ some '+' ∧ n.int ≠ [] ∧ n.frac ≠ some []

/-- A text is this numeral. -/
def Writes (n : Numeral) (cs : List Char) : Prop := n.WellFormed ∧ cs = n.text

theorem not_mem_of_digits {c : Char} {l : List Char} (hc : isAsciiDigit c = false)
    (h : ∀ d ∈ l, isAsciiDigit d = true) : c ∉ l := by
  intro hmem
  rw [h c hmem] at hc
  cases hc

theorem digits_int {n : Numeral} (h : n.WellFormed) : ∀ c ∈ n.int, isAsciiDigit c = true :=
  fun c hc => h.digits c (List.mem_append_left _ hc)

theorem digits_frac {n : Numeral} (h : n.WellFormed) {frac : List Char} (hfrac : n.frac = some frac) :
    ∀ c ∈ frac, isAsciiDigit c = true := by
  intro c hc
  refine h.digits c (List.mem_append_right _ ?_)
  rw [hfrac]
  exact hc

theorem splitOn_body {n : Numeral} (h : n.WellFormed) :
    n.body.splitOn '.' = n.int :: n.frac.toList := by
  have hint := not_mem_of_digits (by decide : isAsciiDigit '.' = false) (digits_int h)
  unfold body
  cases hfrac : n.frac with
  | none =>
      rw [Option.elim_none, List.append_nil]
      exact List.splitOn_eq_singleton hint
  | some frac =>
      have hpoint := not_mem_of_digits (by decide : isAsciiDigit '.' = false) (digits_frac h hfrac)
      exact splitOn_eq_two_iff.mpr ⟨rfl, hint, hpoint⟩

/-- The body begins with a digit or with the point. -/
theorem head_body {n : Numeral} (h : n.WellFormed) :
    ∃ c, n.body.head? = some c ∧ c ≠ '-' ∧ c ≠ '+' := by
  unfold body
  cases hint : n.int with
  | cons c cs =>
      have hc := digits_int h c (by rw [hint]; exact List.mem_cons_self)
      refine ⟨c, rfl, ?_, ?_⟩
      · rintro rfl
        cases hc
      · rintro rfl
        cases hc
  | nil =>
      cases hfrac : n.frac with
      | none =>
          have hne := h.nonempty
          unfold digits at hne
          rw [hint, hfrac] at hne
          exact absurd rfl hne
      | some frac => exact ⟨'.', rfl, by decide, by decide⟩

end Numeral

/-! ### The sign -/

/-- The sign of a text, and the rest. -/
def unsigned (cs : List Char) : Option Char × List Char :=
  if cs.head? = some '-' ∨ cs.head? = some '+' then (cs.head?, cs.tail) else (none, cs)

/-- A text is a numeral with this sign and with the rest as its body. -/
theorem writes_iff_unsigned {n : Numeral} {cs : List Char} :
    n.Writes cs ↔ n.WellFormed ∧ n.sign = (unsigned cs).1 ∧ n.body = (unsigned cs).2 := by
  constructor
  · rintro ⟨hwf, rfl⟩
    refine ⟨hwf, ?_⟩
    unfold Numeral.text unsigned
    cases hsign : n.sign with
    | none =>
        obtain ⟨c, hhead, hminus, hplus⟩ := Numeral.head_body hwf
        rw [Option.toList_none, List.nil_append, if_neg]
        · exact ⟨rfl, rfl⟩
        · rw [hhead]
          simp [hminus, hplus]
    | some c =>
        rw [Option.toList_some, List.singleton_append, if_pos]
        · exact ⟨rfl, rfl⟩
        · simpa using hwf.sign c hsign
  · rintro ⟨hwf, hsign, hbody⟩
    refine ⟨hwf, ?_⟩
    unfold Numeral.text
    rw [hsign, hbody]
    unfold unsigned
    split
    · rename_i hhead
      cases cs with
      | nil => simp at hhead
      | cons c cs => rfl
    · rfl

theorem signed_eq (cs : List Char) :
    signed cs = if cs.head? = some '-' then (true, cs.tail) else (false, cs) := by
  cases cs with
  | nil => rfl
  | cons d rest =>
      by_cases hd : d = '-'
      · subst hd
        rfl
      · rw [List.head?_cons, if_neg fun h => hd (Option.some.inj h)]
        unfold signed
        split
        · rename_i heq
          exact absurd (List.cons.inj heq).1 hd
        · rfl

/-- A numeral without a plus has the sign and the body that `signed` gives. -/
theorem writes_iff_signed {n : Numeral} {cs : List Char} (hplus : n.sign ≠ some '+') :
    n.Writes cs ↔ n.WellFormed ∧ n.sign = (if (signed cs).1 then some '-' else none) ∧
      n.body = (signed cs).2 := by
  rw [writes_iff_unsigned, signed_eq]
  unfold unsigned
  by_cases hminus : cs.head? = some '-'
  · rw [if_pos (.inl hminus), if_pos hminus, hminus]
    rfl
  · rw [if_neg hminus]
    by_cases hp : cs.head? = some '+'
    · rw [if_pos (.inr hp), hp]
      constructor
      · rintro ⟨-, hsign, -⟩
        exact absurd hsign hplus
      · rintro ⟨hwf, -, hbody⟩
        obtain ⟨c, hhead, -, hne⟩ := Numeral.head_body hwf
        rw [hbody, hp] at hhead
        exact absurd (Option.some.inj hhead).symm hne
    · rw [if_neg (not_or.mpr ⟨hminus, hp⟩)]
      rfl

theorem Numeral.Writes.unique {n n' : Numeral} {cs : List Char} (h : n.Writes cs)
    (h' : n'.Writes cs) : n = n' := by
  obtain ⟨hwf, hsign, hbody⟩ := writes_iff_unsigned.mp h
  obtain ⟨hwf', hsign', hbody'⟩ := writes_iff_unsigned.mp h'
  have hsplit := Numeral.splitOn_body hwf
  rw [hbody, ← hbody', Numeral.splitOn_body hwf'] at hsplit
  obtain ⟨hint, hfrac⟩ := List.cons.inj hsplit
  cases n with
  | mk sign int frac =>
      cases n' with
      | mk sign' int' frac' =>
          dsimp only at hsign hsign' hint hfrac
          subst hint
          have hsame : frac = frac' := by
            cases frac <;> cases frac' <;> simp_all
          rw [hsign, hsign', hsame]

theorem splitOn_eq_iff {b int : List Char} {frac : Option (List Char)} :
    b.splitOn '.' = int :: frac.toList ↔
      b = int ++ frac.elim [] ('.' :: ·) ∧ '.' ∉ int ∧ ∀ f, frac = some f → '.' ∉ f := by
  cases frac with
  | none => simp [splitOn_eq_one_iff]
  | some f => simp [splitOn_eq_two_iff]

/-- The parts of a text are the numeral that it is, where they are digits. -/
theorem writes_of_split {cs int : List Char} {frac : Option (List Char)}
    (hsplit : (signed cs).2.splitOn '.' = int :: frac.toList)
    (hdigits : ∀ c ∈ int ++ frac.getD [], isAsciiDigit c = true) (hne : int ++ frac.getD [] ≠ []) :
    (⟨if (signed cs).1 then some '-' else none, int, frac⟩ : Numeral).Writes cs ∧
      (if (signed cs).1 then some '-' else none) ≠ some '+' := by
  have hplus : (if (signed cs).1 then some '-' else none) ≠ some '+' := by
    split <;> decide
  refine ⟨(writes_iff_signed hplus).mpr ⟨⟨?_, hdigits, hne⟩, rfl, ?_⟩, hplus⟩
  · intro c hc
    dsimp only at hc
    split at hc
    · exact .inl (Option.some.inj hc).symm
    · cases hc
  · exact (splitOn_eq_iff.mp hsplit).1.symm

theorem stripPrefix_char {pre : String} {c : Char} (hpre : pre.toList = [c]) (s : String) :
    stripPrefix pre s
      = if s.toList.head? = some c then some (String.ofList s.toList.tail) else none := by
  unfold stripPrefix
  rw [hpre]
  cases s.toList with
  | nil => rfl
  | cons d rest =>
      by_cases hd : d = c
      · subst hd
        simp [List.dropPrefix?]
      · simp [List.dropPrefix?, hd]

theorem stripPrefix_minus (s : String) :
    ((stripPrefix "-" s).getD s).toList = (signed s.toList).2 := by
  rw [stripPrefix_char (by decide : "-".toList = ['-']), signed_eq]
  by_cases h : s.toList.head? = some '-'
  · rw [if_pos h, if_pos h, Option.getD_some, String.toList_ofList]
  · rw [if_neg h, if_neg h, Option.getD_none]

/-! ### The renderer -/

/-- The renderer accepts a numeral with digits on both sides of its point, and no plus. -/
theorem isPlainDecimal_iff (s : String) :
    isPlainDecimal s = true ↔
      ∃ n : Numeral, n.Writes s.toList ∧ n.sign ≠ some '+' ∧ n.int ≠ [] ∧ n.frac ≠ some [] := by
  unfold isPlainDecimal
  rw [stripPrefix_minus]
  simp only [Bool.and_eq_true, decide_eq_true_eq, List.all_eq_true, Bool.not_eq_true',
    List.isEmpty_eq_false_iff]
  constructor
  · rintro ⟨hlength, hparts⟩
    -- One part or two: a numeral without a point or with one.
    obtain ⟨int, frac, hsplit⟩ : ∃ int frac, (signed s.toList).2.splitOn '.'
        = int :: Option.toList frac := by
      match hsplit : (signed s.toList).2.splitOn '.', hlength with
      | [], _ => exact absurd hsplit (List.splitOn_ne_nil _ _)
      | [int], _ => exact ⟨int, none, rfl⟩
      | [int, frac], _ => exact ⟨int, some frac, rfl⟩
    rw [hsplit] at hparts
    obtain ⟨hint, hintDigits⟩ := hparts int List.mem_cons_self
    have hfrac (f : List Char) (hf : frac = some f) := hparts f (by simp [hf])
    obtain ⟨hwrites, hplus⟩ := writes_of_split hsplit (by
      intro c hc
      rcases List.mem_append.mp hc with hc | hc
      · exact hintDigits c hc
      · cases frac with
        | none => cases hc
        | some f => exact (hfrac f rfl).2 c hc) (by simp [hint])
    refine ⟨_, hwrites, hplus, hint, ?_⟩
    rintro rfl
    exact (hfrac [] rfl).1 rfl
  · rintro ⟨n, hwrites, hplus, hint, hfrac⟩
    obtain ⟨hwf, -, hbody⟩ := (writes_iff_signed hplus).mp hwrites
    rw [← hbody, Numeral.splitOn_body hwf]
    refine ⟨?_, ?_⟩
    · cases n.frac <;> simp
    · intro part hpart
      rcases List.mem_cons.mp hpart with rfl | hpart
      · exact ⟨hint, Numeral.digits_int hwf⟩
      · have hsome := Option.mem_toList.mp hpart
        refine ⟨?_, Numeral.digits_frac hwf hsome⟩
        rintro rfl
        exact hfrac hsome

/-! ### The parser -/

theorem digits_eq_some_iff {neg : Bool} {int frac : List Char} {d : Decimal} :
    Decimal.parse.digits neg int frac = some d ↔
      int ≠ [] ∧ (∀ c ∈ int ++ frac, isAsciiDigit c = true) ∧
        (Nat.ofDigitChars 10 (int ++ frac) 0 : Int) ≤ Decimal.maxMantissa ∧
        d = ⟨Decimal.signed neg (Nat.ofDigitChars 10 (int ++ frac) 0), frac.length % 2 ^ 32⟩ := by
  -- The check refuses what has no digit before the point, or anything but digits.
  have hcheck : (int.isEmpty || !int.all isAsciiDigit || !frac.all isAsciiDigit) = true ↔
      ¬ (int ≠ [] ∧ ∀ c ∈ int ++ frac, isAsciiDigit c = true) := by
    simp only [Bool.or_eq_true, List.isEmpty_iff, Bool.not_eq_true', List.mem_append,
      List.all_eq_false]
    constructor
    · rintro ((rfl | ⟨c, hc, hdigit⟩) | ⟨c, hc, hdigit⟩) ⟨hne, hdigits⟩
      · exact hne rfl
      · exact hdigit (hdigits c (.inl hc))
      · exact hdigit (hdigits c (.inr hc))
    · intro h
      by_contra hno
      push Not at hno
      exact h ⟨hno.1.1, fun c hc => hc.elim (hno.1.2 c) (hno.2 c)⟩
  simp only [Decimal.parse.digits]
  by_cases hparts : int ≠ [] ∧ ∀ c ∈ int ++ frac, isAsciiDigit c = true
  · rw [if_neg (by rw [hcheck]; exact not_not.mpr hparts)]
    simp only [hparts.1, ne_eq, not_false_eq_true, true_and]
    split
    · rename_i hmax
      rw [Option.some_inj, eq_comm]
      exact ⟨fun h => ⟨hparts.2, hmax, h⟩, fun h => h.2.2⟩
    · rename_i hmax
      exact iff_of_false (by simp) fun h => hmax h.2.1
  · rw [if_pos (hcheck.mpr hparts)]
    exact iff_of_false (by simp) fun h => hparts ⟨h.1, h.2.1⟩

/-- The parser, over the parts of the text after its sign. -/
theorem parse_eq (s : String) : Decimal.parse s = if (trim s).toList.isEmpty then none
    else match (signed (trim s).toList).2.splitOn '.' with
      | [int] => Decimal.parse.digits (signed (trim s).toList).1 int []
      | [int, frac] => Decimal.parse.digits (signed (trim s).toList).1 int frac
      | _ => none := by
  unfold Decimal.parse
  generalize (trim s).toList = cs
  rfl

/-- The parser accepts a numeral with digits before its point, if any, and no plus, where the
digits are a mantissa. -/
theorem parse_eq_some_iff (s : String) (d : Decimal) :
    Decimal.parse s = some d ↔
      ∃ n : Numeral, n.Writes (trim s).toList ∧ n.sign ≠ some '+' ∧ n.int ≠ [] ∧
        (n.magnitude : Int) ≤ Decimal.maxMantissa ∧
        d = ⟨Decimal.signed n.sign.isSome n.magnitude, (n.frac.getD []).length % 2 ^ 32⟩ := by
  rw [parse_eq]
  generalize (trim s).toList = cs
  constructor
  · intro h
    split at h
    · cases h
    · -- One part or two, as the parser splits them.
      obtain ⟨int, frac, hsplit, h⟩ : ∃ int frac, (signed cs).2.splitOn '.'
          = int :: Option.toList frac ∧
            Decimal.parse.digits (signed cs).1 int (frac.getD []) = some d := by
        rcases hsplit : (signed cs).2.splitOn '.' with _ | ⟨int, _ | ⟨frac, _ | _⟩⟩
        · exact absurd hsplit (List.splitOn_ne_nil _ _)
        · rw [hsplit] at h
          exact ⟨int, none, rfl, h⟩
        · rw [hsplit] at h
          exact ⟨int, some frac, rfl, h⟩
        · rw [hsplit] at h
          cases h
      obtain ⟨hint, hdigits, hmax, rfl⟩ := digits_eq_some_iff.mp h
      obtain ⟨hwrites, hplus⟩ := writes_of_split hsplit hdigits (by simp [hint])
      refine ⟨_, hwrites, hplus, hint, hmax, ?_⟩
      cases (signed cs).1 <;> rfl
  · rintro ⟨n, hwrites, hplus, hint, hmax, rfl⟩
    obtain ⟨hwf, hsign, hbody⟩ := (writes_iff_signed hplus).mp hwrites
    obtain ⟨c, hhead, -⟩ := Numeral.head_body hwf
    -- The other way: a numeral is no empty text, and its body splits into its parts.
    have hne : cs.isEmpty = false := by
      rw [hbody, signed_eq] at hhead
      cases cs with
      | nil => cases hhead
      | cons _ _ => rfl
    have hneg : (signed cs).1 = n.sign.isSome := by
      rw [hsign]
      cases (signed cs).1 <;> rfl
    rw [hne, if_neg Bool.false_ne_true, ← hbody, Numeral.splitOn_body hwf, hneg]
    have hdigits : Decimal.parse.digits n.sign.isSome n.int (n.frac.getD [])
        = some ⟨Decimal.signed n.sign.isSome n.magnitude, (n.frac.getD []).length % 2 ^ 32⟩ :=
      digits_eq_some_iff.mpr ⟨hint, hwf.digits, hmax, rfl⟩
    cases hfrac : n.frac with
    | none =>
        rw [hfrac] at hdigits
        exact hdigits
    | some frac =>
        rw [hfrac] at hdigits
        exact hdigits

/-! ### The script engine -/

theorem literalScan_seen {cs : List Char} {k : Nat} :
    literalScan cs true k = true ↔ (∀ c ∈ cs, isAsciiDigit c = true) ∧ 0 < k + cs.length := by
  induction cs generalizing k with
  | nil => simp [literalScan]
  | cons c cs ih =>
      rw [literalScan, if_neg (by simp)]
      by_cases hc : isAsciiDigit c = true
      · rw [if_pos hc, ih]
        simp only [List.mem_cons, forall_eq_or_imp, hc, true_and, List.length_cons]
        exact ⟨fun h => ⟨h.1, by omega⟩, fun h => ⟨h.1, by omega⟩⟩
      · rw [if_neg hc]
        exact iff_of_false Bool.false_ne_true fun h => hc (h.1 c List.mem_cons_self)

/-- The scan accepts digits with one point among them at most. -/
theorem literalScan_iff {cs : List Char} {k : Nat} :
    literalScan cs false k = true ↔
      ∃ (int : List Char) (frac : Option (List Char)), cs = int ++ frac.elim [] ('.' :: ·) ∧
        (∀ c ∈ int ++ frac.getD [], isAsciiDigit c = true) ∧
        0 < k + (int ++ frac.getD []).length := by
  induction cs generalizing k with
  | nil =>
      rw [literalScan, decide_eq_true_iff]
      constructor
      · intro hk
        exact ⟨[], none, rfl, by simp, by simpa using hk⟩
      · rintro ⟨int, frac, hcs, -, hk⟩
        obtain ⟨rfl, hfrac⟩ := List.append_eq_nil_iff.mp hcs.symm
        cases frac with
        | none => simpa using hk
        | some f => cases hfrac
  | cons c cs ih =>
      rw [literalScan]
      -- At the point the rest is the fraction; before it, a digit belongs to the whole part.
      by_cases hdot : c = '.'
      · subst hdot
        rw [if_pos ⟨rfl, rfl⟩, literalScan_seen]
        constructor
        · rintro ⟨hdigits, hk⟩
          exact ⟨[], some cs, rfl, by simpa using hdigits, by simpa using hk⟩
        · rintro ⟨int, frac, hcs, hdigits, hk⟩
          cases int with
          | nil =>
              cases frac with
              | none => cases hcs
              | some f =>
                  obtain rfl := (List.cons.inj hcs).2
                  exact ⟨by simpa using hdigits, by simpa using hk⟩
          | cons d int =>
              obtain ⟨rfl, -⟩ := List.cons.inj hcs
              exact absurd (hdigits '.' (by simp)) (by decide)
      · rw [if_neg fun h => hdot h.1]
        by_cases hc : isAsciiDigit c = true
        · rw [if_pos hc, ih]
          constructor
          · rintro ⟨int, frac, rfl, hdigits, hk⟩
            refine ⟨c :: int, frac, rfl, ?_, by simp⟩
            simpa [hc] using hdigits
          · rintro ⟨int, frac, hcs, hdigits, hk⟩
            cases int with
            | nil =>
                cases frac with
                | none => cases hcs
                | some f => exact absurd (List.cons.inj hcs).1 hdot
            | cons d int =>
                obtain ⟨rfl, rfl⟩ := List.cons.inj hcs
                exact ⟨int, frac, rfl, fun e he => hdigits e (List.mem_cons_of_mem _ he), by omega⟩
        · rw [if_neg hc]
          refine iff_of_false Bool.false_ne_true ?_
          rintro ⟨int, frac, hcs, hdigits, -⟩
          cases int with
          | nil =>
              cases frac with
              | none => cases hcs
              | some f => exact hdot (List.cons.inj hcs).1
          | cons d int =>
              obtain ⟨rfl, -⟩ := List.cons.inj hcs
              exact hc (hdigits c (by simp))

/-- The engine takes the sign off before it scans. -/
theorem isDecimalLiteral_eq (s : String) :
    isDecimalLiteral s = literalScan (unsigned s.toList).2 false 0 := by
  have hstrip : (((stripPrefix "-" s).orElse fun _ => stripPrefix "+" s).getD s).toList
      = (unsigned s.toList).2 := by
    rw [stripPrefix_char (by decide : "-".toList = ['-']),
      stripPrefix_char (by decide : "+".toList = ['+'])]
    unfold unsigned
    by_cases hminus : s.toList.head? = some '-'
    · simp [hminus]
    · by_cases hplus : s.toList.head? = some '+'
      · simp [hplus]
      · rw [if_neg hminus, if_neg hplus, if_neg (not_or.mpr ⟨hminus, hplus⟩)]
        rfl
  unfold isDecimalLiteral
  dsimp only
  rw [hstrip]
  split
  · rename_i hempty
    rw [List.isEmpty_iff.mp hempty]
    rfl
  · rfl

/-- The script engine accepts every numeral. -/
theorem isDecimalLiteral_iff (s : String) :
    isDecimalLiteral s = true ↔ ∃ n : Numeral, n.Writes s.toList := by
  rw [isDecimalLiteral_eq, literalScan_iff]
  constructor
  · rintro ⟨int, frac, hbody, hdigits, hk⟩
    refine ⟨⟨(unsigned s.toList).1, int, frac⟩, writes_iff_unsigned.mpr
      ⟨⟨?_, hdigits, fun h => ?_⟩, rfl, hbody.symm⟩⟩
    · intro c hc
      simp only [unsigned] at hc
      split at hc
      · rename_i hhead
        have hsome : s.toList.head? = some c := hc
        rw [hsome] at hhead
        simpa using hhead
      · cases hc
    · have hnil : int ++ frac.getD [] = [] := h
      rw [hnil] at hk
      exact absurd hk (by simp)
  · rintro ⟨n, hwrites⟩
    obtain ⟨hwf, -, hbody⟩ := writes_iff_unsigned.mp hwrites
    exact ⟨n.int, n.frac, hbody.symm, hwf.digits, by
      rw [zero_add]; exact List.length_pos_iff.mpr hwf.nonempty⟩

/-! ### One grammar -/

theorem isWhitespace_of_isAsciiDigit {c : Char} (h : isAsciiDigit c = true) :
    isWhitespace c = false := by
  have hrange : 48 ≤ c.toNat ∧ c.toNat ≤ 57 := by
    unfold isAsciiDigit at h
    simp only [Bool.and_eq_true, decide_eq_true_eq, Char.le_def, UInt32.le_iff_toNat_le] at h
    exact h
  unfold isWhitespace
  simp only [Bool.or_eq_false_iff, Bool.and_eq_false_iff, decide_eq_false_iff_not,
    beq_eq_false_iff_ne]
  omega

theorem Numeral.mem_text {n : Numeral} (h : n.WellFormed) {c : Char} (hc : c ∈ n.text) :
    c = '-' ∨ c = '+' ∨ c = '.' ∨ isAsciiDigit c = true := by
  rcases List.mem_append.mp hc with hsign | hbody
  · rcases h.sign c (Option.mem_toList.mp hsign) with rfl | rfl
    · exact .inl rfl
    · exact .inr (.inl rfl)
  · rcases List.mem_append.mp hbody with hint | hrest
    · exact .inr (.inr (.inr (digits_int h c hint)))
    · cases hfrac : n.frac with
      | none =>
          rw [hfrac] at hrest
          cases hrest
      | some frac =>
          rw [hfrac] at hrest
          rcases List.mem_cons.mp hrest with rfl | hc
          · exact .inr (.inr (.inl rfl))
          · exact .inr (.inr (.inr (digits_frac h hfrac c hc)))

/-- There is no whitespace in a numeral. -/
theorem Numeral.isWhitespace_text {n : Numeral} (h : n.WellFormed) :
    ∀ c ∈ n.text, isWhitespace c = false := by
  intro c hc
  rcases mem_text h hc with rfl | rfl | rfl | hdigit
  · decide
  · decide
  · decide
  · exact isWhitespace_of_isAsciiDigit hdigit

theorem trim_of_writes {n : Numeral} {s : String} (h : n.Writes s.toList) : trim s = s := by
  obtain ⟨hwf, htext⟩ := h
  have hspace := Numeral.isWhitespace_text hwf
  rw [← htext] at hspace
  have hne : s.toList ≠ [] := by
    obtain ⟨c, hhead, -⟩ := Numeral.head_body hwf
    intro hnil
    rw [hnil] at htext
    rw [(List.append_eq_nil_iff.mp htext.symm).2] at hhead
    cases hhead
  refine trim_tight ⟨⟨s.toList.head hne, List.head?_eq_some_head hne, ?_⟩,
    s.toList.getLast hne, List.getLast?_eq_some_getLast hne, ?_⟩
  · exact hspace _ (List.head_mem hne)
  · exact hspace _ (List.getLast_mem hne)

/-- The number that a numeral stands for. -/
def Numeral.value (n : Numeral) : ℚ :=
  (Decimal.signed (n.sign == some '-') n.magnitude : Int) / 10 ^ (n.frac.getD []).length

/-- The boundaries agree on a text: the script engine accepts what the renderer accepts, and then
the parser reads the same number. -/
structure OneGrammar (s : String) : Prop where
  accepts : isDecimalLiteral s = true ↔ ∃ text, renderValue (.decimal s) = .ok text
  reads : ∀ n : Numeral, n.Writes s.toList → (∃ text, renderValue (.decimal s) = .ok text) →
    ∃ d, Decimal.parse s = some d ∧ d.value = n.value

/-- A numeral that every boundary takes: no plus, digits on both sides of the point, and a mantissa
and a scale that have room for them. -/
structure Numeral.Portable (n : Numeral) : Prop where
  sign : n.sign ≠ some '+'
  int : n.int ≠ []
  frac : n.frac ≠ some []
  mantissa : (n.magnitude : Int) ≤ Decimal.maxMantissa
  scale : (n.frac.getD []).length < 2 ^ 32 ∨ n.magnitude = 0

theorem renderValue_decimal_ok (s : String) :
    (∃ text, renderValue (.decimal s) = .ok text) ↔ isPlainDecimal s = true := by
  rw [renderValue]
  split
  · rename_i h
    exact iff_of_true ⟨_, rfl⟩ h
  · rename_i h
    exact iff_of_false (fun ⟨text, htext⟩ => by cases htext) h

/-- The mantissa that is read over the power of ten that is read, and the number itself. -/
theorem value_of_parse_iff {n : Numeral} (hwf : n.WellFormed) (hplus : n.sign ≠ some '+') :
    (⟨Decimal.signed n.sign.isSome n.magnitude, (n.frac.getD []).length % 2 ^ 32⟩ : Decimal).value
      = n.value ↔ (n.frac.getD []).length < 2 ^ 32 ∨ n.magnitude = 0 := by
  have hsign : n.sign.isSome = (n.sign == some '-') := by
    cases hsome : n.sign with
    | none => rfl
    | some c =>
        rcases hwf.sign c hsome with rfl | rfl
        · rfl
        · exact absurd hsome hplus
  unfold Decimal.value Numeral.value
  rw [hsign]
  dsimp only
  generalize (n.frac.getD []).length = k
  constructor
  · intro h
    by_contra hno
    push Not at hno
    have hm : ((Decimal.signed (n.sign == some '-') n.magnitude : Int) : ℚ) ≠ 0 := by
      have hne := hno.2
      unfold Decimal.signed
      split <;> simp [hne]
    rw [div_eq_div_iff (by positivity) (by positivity)] at h
    -- Over two different powers of ten, the same mantissa is another number.
    have hpow := mul_left_cancel₀ hm h
    have hnat : (10 : ℕ) ^ k = 10 ^ (k % 2 ^ 32) := by exact_mod_cast hpow
    have hinj := Nat.pow_right_injective (by norm_num : 2 ≤ 10) hnat
    omega
  · rintro (hlt | hzero)
    · rw [Nat.mod_eq_of_lt hlt]
    · have hm : Decimal.signed (n.sign == some '-') n.magnitude = 0 := by
        rw [hzero]
        unfold Decimal.signed
        split <;> rfl
      rw [hm, Int.cast_zero, zero_div, zero_div]

/-- The three boundaries agree on a text unless it is a numeral that is not portable. -/
theorem oneGrammar_iff (s : String) :
    OneGrammar s ↔ ∀ n : Numeral, n.Writes s.toList → n.Portable := by
  constructor
  · intro h n hwrites
    -- Both grammars accept the text, so its numeral meets the conditions of both.
    have hrender := h.accepts.mp ((isDecimalLiteral_iff s).mpr ⟨n, hwrites⟩)
    obtain ⟨n', hwrites', hplus, hint, hfrac⟩ :=
      (isPlainDecimal_iff s).mp ((renderValue_decimal_ok s).mp hrender)
    obtain rfl := hwrites.unique hwrites'
    obtain ⟨d, hparse, hvalue⟩ := h.reads n hwrites hrender
    obtain ⟨n', hread, -, -, hmax, rfl⟩ := (parse_eq_some_iff s d).mp hparse
    rw [trim_of_writes hwrites] at hread
    obtain rfl := hwrites.unique hread
    exact ⟨hplus, hint, hfrac, hmax, (value_of_parse_iff hwrites.1 hplus).mp hvalue⟩
  · intro h
    -- A portable numeral is plain, so the renderer takes it.
    have hplain (n : Numeral) (hwrites : n.Writes s.toList) : isPlainDecimal s = true :=
      (isPlainDecimal_iff s).mpr
        ⟨n, hwrites, (h n hwrites).sign, (h n hwrites).int, (h n hwrites).frac⟩
    refine ⟨?_, ?_⟩
    · rw [renderValue_decimal_ok, isDecimalLiteral_iff]
      constructor
      · rintro ⟨n, hwrites⟩
        exact hplain n hwrites
      · intro hp
        obtain ⟨n, hwrites, -⟩ := (isPlainDecimal_iff s).mp hp
        exact ⟨n, hwrites⟩
    · intro n hwrites _
      have hportable := h n hwrites
      refine ⟨_, (parse_eq_some_iff s _).mpr ⟨n, ?_, hportable.sign, hportable.int,
        hportable.mantissa, rfl⟩, (value_of_parse_iff hwrites.1 hportable.sign).mpr hportable.scale⟩
      rw [trim_of_writes hwrites]
      exact hwrites

/-- A plus, a point without digits before it, and a mantissa of 39 nines. -/
theorem not_oneGrammar : ¬ OneGrammar "+5" ∧ ¬ OneGrammar ".5" ∧
    ¬ OneGrammar "999999999999999999999999999999999999999" := by
  refine ⟨fun h => ?_, fun h => ?_, fun h => ?_⟩
  · have hrender := (renderValue_decimal_ok _).mp (h.accepts.mp (by decide))
    exact absurd hrender (by decide)
  · have hrender := (renderValue_decimal_ok _).mp (h.accepts.mp (by decide))
    exact absurd hrender (by decide)
  · have hrender := h.accepts.mp (by decide)
    obtain ⟨n, hwrites⟩ := (isDecimalLiteral_iff _).mp (by decide :
      isDecimalLiteral "999999999999999999999999999999999999999" = true)
    obtain ⟨d, hparse, -⟩ := h.reads n hwrites hrender
    rw [show Decimal.parse "999999999999999999999999999999999999999" = none by decide] at hparse
    cases hparse

/-! ### The text of a decimal -/

namespace Decimal

/-- The text that `to_plain_string` writes, in its parts. -/
def printed (d : Decimal) : Numeral :=
  let digits := Nat.toDigits 10 d.mantissa.natAbs
  let sign := if d.mantissa < 0 then some '-' else none
  if d.scale = 0 then ⟨sign, digits, none⟩
  else if d.scale < digits.length then
    ⟨sign, digits.take (digits.length - d.scale), some (digits.drop (digits.length - d.scale))⟩
  else ⟨sign, ['0'], some (List.replicate (d.scale - digits.length) '0' ++ digits)⟩

theorem printed_sign (d : Decimal) :
    d.printed.sign = if d.mantissa < 0 then some '-' else none := by
  unfold printed
  dsimp only
  split
  · rfl
  · split <;> rfl

/-- What is printed are the digits of the mantissa, after zeros. -/
theorem printed_digits (d : Decimal) :
    ∃ k, d.printed.digits = List.replicate k '0' ++ Nat.toDigits 10 d.mantissa.natAbs := by
  unfold printed Numeral.digits
  dsimp only
  split
  · exact ⟨0, List.append_nil _⟩
  · split
    · exact ⟨0, List.take_append_drop _ _⟩
    · refine ⟨d.scale - (Nat.toDigits 10 d.mantissa.natAbs).length + 1, ?_⟩
      rw [List.replicate_succ]
      rfl

theorem printed_magnitude (d : Decimal) : d.printed.magnitude = d.mantissa.natAbs := by
  obtain ⟨k, hdigits⟩ := printed_digits d
  unfold Numeral.magnitude
  rw [hdigits, Nat.ofDigitChars_append, Nat.ofDigitChars_replicate_zero, mul_zero,
    Nat.ofDigitChars_ten_toDigits]

theorem printed_scale (d : Decimal) : (d.printed.frac.getD []).length = d.scale := by
  unfold printed
  dsimp only
  split
  · rename_i hscale
    rw [hscale]
    rfl
  · split
    · rename_i hlt
      rw [Option.getD_some, List.length_drop]
      omega
    · rename_i hge
      rw [Option.getD_some, List.length_append, List.length_replicate]
      omega

theorem printed_int (d : Decimal) : d.printed.int ≠ [] ∧ d.printed.frac ≠ some [] := by
  have hpos := List.length_pos_iff.mpr (Nat.toDigits_ne_nil (n := d.mantissa.natAbs) (b := 10))
  unfold printed
  dsimp only
  split
  · exact ⟨Nat.toDigits_ne_nil, by simp⟩
  · split
    · refine ⟨List.ne_nil_of_length_pos ?_, fun h => ?_⟩
      · rw [List.length_take]
        omega
      · have hlength := congrArg List.length (Option.some.inj h)
        rw [List.length_drop, List.length_nil] at hlength
        omega
    · exact ⟨by simp, by simp [Nat.toDigits_ne_nil]⟩

theorem isAsciiDigit_of_mem_toDigits {n : Nat} {c : Char} (h : c ∈ Nat.toDigits 10 n) :
    isAsciiDigit c = true := by
  have hdigit := Nat.isDigit_of_mem_toDigits (by norm_num) (le_refl 10) h
  unfold Char.isDigit at hdigit
  unfold isAsciiDigit
  simpa [Char.le_def] using hdigit

/-- `to_plain_string` writes a numeral. -/
theorem printed_writes (d : Decimal) : d.printed.Writes d.toPlainString.toList := by
  refine ⟨⟨?_, ?_, ?_⟩, ?_⟩
  · intro c hc
    rw [printed_sign] at hc
    split at hc
    · exact .inl (Option.some.inj hc).symm
    · cases hc
  · obtain ⟨k, hdigits⟩ := printed_digits d
    rw [hdigits]
    intro c hc
    rcases List.mem_append.mp hc with hzero | hdigit
    · rw [List.eq_of_mem_replicate hzero]
      decide
    · exact isAsciiDigit_of_mem_toDigits hdigit
  · unfold Numeral.digits
    simp [(printed_int d).1]
  · unfold toPlainString Numeral.text
    rw [String.toList_ofList, printed_sign, Nat.toString_eq_ofList_toDigits, String.toList_ofList]
    unfold printed Numeral.body
    dsimp only
    split_ifs <;> simp

/-- The text of a decimal stands for its number. -/
theorem printed_value (d : Decimal) : d.printed.value = d.value := by
  have hsigned : signed (d.printed.sign == some '-') d.printed.magnitude = d.mantissa := by
    rw [printed_sign, printed_magnitude]
    by_cases hneg : d.mantissa < 0
    · rw [if_pos hneg]
      show -(d.mantissa.natAbs : Int) = d.mantissa
      omega
    · rw [if_neg hneg]
      show (d.mantissa.natAbs : Int) = d.mantissa
      omega
  unfold Numeral.value value
  rw [hsigned, printed_scale]

/-- An integer is printed as the decimal without a point. -/
theorem toPlainString_int (i : Int) : toPlainString ⟨i, 0⟩ = toString i := by
  unfold toPlainString
  cases i with
  | ofNat n =>
      have hneg : ¬ Int.ofNat n < 0 := not_lt.mpr (Int.natCast_nonneg n)
      simp only [if_true, if_neg hneg, Int.natAbs_ofNat', String.ofList_toList]
      rfl
  | negSucc n =>
      simp only [if_true, if_pos (Int.negSucc_lt_zero n), Int.natAbs_negSucc]
      rw [String.ofList_cons, String.ofList_toList]
      rfl

/-- The text of an integer is the numeral of its number. -/
theorem printed_writes_int (i : Int) : (⟨i, 0⟩ : Decimal).printed.Writes (toString i).toList := by
  rw [← toPlainString_int]
  exact printed_writes _

/-- Integers with the same text are the same. -/
theorem toString_int_inj {i i' : Int} (h : toString i = toString i') : i = i' := by
  have hsame : (⟨i, 0⟩ : Decimal).printed = (⟨i', 0⟩ : Decimal).printed :=
    (h ▸ printed_writes_int i).unique (printed_writes_int i')
  have hvalue := congrArg Numeral.value hsame
  rw [printed_value, printed_value] at hvalue
  simpa [value] using hvalue

/-- No plus is printed, and there are digits on both sides of a point. -/
theorem printed_plain (d : Decimal) : d.printed.Plain := by
  refine ⟨?_, printed_int d⟩
  rw [printed_sign]
  split <;> decide

/-- A decimal is read back from its text, but for the smallest mantissa. -/
theorem parse_toPlainString {d : Decimal} (hd : d.Stored) :
    parse d.toPlainString = some d ↔ d.mantissa ≠ minMantissa := by
  have hwrites := printed_writes d
  have hrange := hd.mantissa
  rw [parse_eq_some_iff, trim_of_writes hwrites]
  constructor
  · rintro ⟨n, hn, -, -, hmax, -⟩ hmin
    obtain rfl := hwrites.unique hn
    rw [printed_magnitude, hmin] at hmax
    exact absurd hmax (by decide)
  · intro hmin
    refine ⟨d.printed, hwrites, ?_, (printed_int d).1, ?_, ?_⟩
    · rw [printed_sign]
      split <;> decide
    · rw [printed_magnitude]
      unfold InRange minMantissa maxMantissa at *
      omega
    · rw [printed_magnitude, printed_scale, Nat.mod_eq_of_lt hd.scale, printed_sign]
      have hsigned : signed (if d.mantissa < 0 then some '-' else none).isSome d.mantissa.natAbs
          = d.mantissa := by
        by_cases hneg : d.mantissa < 0
        · rw [if_pos hneg]
          show -(d.mantissa.natAbs : Int) = d.mantissa
          omega
        · rw [if_neg hneg]
          show (d.mantissa.natAbs : Int) = d.mantissa
          omega
      rw [hsigned]

/-- The trimmed text is `-?digits(.digits)?`, and its digits are a mantissa. -/
def InGrammar (s : String) : Prop :=
  ∃ n : Numeral, n.Writes (trim s).toList ∧ n.sign ≠ some '+' ∧ n.int ≠ [] ∧ n.frac ≠ some [] ∧
    (n.magnitude : Int) ≤ maxMantissa

/-- The trimmed text is `-?digits.`, and its digits are a mantissa. -/
def EndsInPoint (s : String) : Prop :=
  ∃ n : Numeral, n.Writes (trim s).toList ∧ n.sign ≠ some '+' ∧ n.int ≠ [] ∧ n.frac = some [] ∧
    (n.magnitude : Int) ≤ maxMantissa

theorem parse_isSome_iff (s : String) : (parse s).isSome = true ↔ InGrammar s ∨ EndsInPoint s := by
  rw [Option.isSome_iff_exists]
  simp only [parse_eq_some_iff]
  constructor
  · rintro ⟨d, n, hwrites, hplus, hint, hmax, -⟩
    by_cases hfrac : n.frac = some []
    · exact .inr ⟨n, hwrites, hplus, hint, hfrac, hmax⟩
    · exact .inl ⟨n, hwrites, hplus, hint, hfrac, hmax⟩
  · rintro (⟨n, hwrites, hplus, hint, -, hmax⟩ | ⟨n, hwrites, hplus, hint, -, hmax⟩) <;>
      exact ⟨_, n, hwrites, hplus, hint, hmax, rfl⟩

/-- The parser keeps to its grammar unless the text ends in a point, and a reachable decimal is read
back from its text unless its mantissa is the smallest. -/
theorem parse_exact_iff (s : String) {d : Decimal} (hd : Reachable d) :
    (((parse s).isSome = true ↔ InGrammar s) ↔ ¬ EndsInPoint s) ∧
      (parse d.toPlainString = some d ↔ d.mantissa ≠ minMantissa) := by
  refine ⟨?_, parse_toPlainString hd.stored⟩
  rw [parse_isSome_iff]
  constructor
  · rintro h ⟨n, hwrites, hplus, hint, hfrac, hmax⟩
    obtain ⟨n', hwrites', -, -, hfrac', -⟩ := h.mp (.inr ⟨n, hwrites, hplus, hint, hfrac, hmax⟩)
    -- A text is written by one numeral, and this one has a digit behind its point.
    obtain rfl := hwrites.unique hwrites'
    exact hfrac' hfrac
  · intro h
    exact ⟨fun haccepts => haccepts.resolve_right h, .inl⟩

/-- A negative price. -/
theorem parse_exact_price : ∃ d, parse " -12.340 " = some d ∧ parse d.toPlainString = some d :=
  ⟨⟨-12340, 3⟩, by decide, (parse_exact_iff "" (.parse (s := " -12.340 ") (by decide))).2.mpr
    (by decide)⟩

/-- A text that ends in a point is accepted, and the smallest mantissa is reached and printed, and
not read back. -/
theorem not_parse_exact : parse "5." = some ⟨5, 0⟩ ∧ ¬ InGrammar "5." ∧
    Reachable ⟨minMantissa, 0⟩ ∧ parse (toPlainString ⟨minMantissa, 0⟩) = none := by
  refine ⟨by decide, ?_, ?_, by decide⟩
  · rintro ⟨n, hwrites, -, -, hfrac, -⟩
    have hpoint : (⟨none, ['5'], some []⟩ : Numeral).Writes (trim "5.").toList :=
      ⟨⟨by simp, fun c hc => by rw [List.mem_singleton.mp hc]; decide, by simp [Numeral.digits]⟩,
        by decide⟩
    obtain rfl := hwrites.unique hpoint
    exact hfrac rfl
  · have hleast : Reachable ⟨-maxMantissa, 0⟩ :=
      .parse (s := "-170141183460469231731687303715884105727") (by decide)
    exact .add hleast (.parse (s := "-1") (d := ⟨-1, 0⟩) (by decide))

end Decimal

end Frust.Kernel
