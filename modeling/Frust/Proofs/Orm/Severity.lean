import Mathlib.Tactic.Linarith
import Mathlib.Tactic.Ring
import Frust.Orm.Field

/-!
# `Frust.Proofs.Orm.Severity`: what the severity of a field change promises

A field definition has a type, and clauses with expressions. It says which stored values are
valid and stay as they are. What the expressions mean is left open, and so are the values of
the types that hold no plain numbers: a class has to be right whatever they are.

A snapshot keeps of the clauses no more than whether they are there, and `classifyModify`
returns at the first component that it finds changed. `severitySound_iff` says which changes
are classified right all the same.
-/

set_option autoImplicit false

namespace Frust.Orm

/-! ### Definitions and their meaning -/

/-- The clauses that have an expression. -/
inductive ClauseKind where
  | value | default | assert
  deriving DecidableEq

/-- A field, with the expressions of its clauses. -/
structure FieldDefinition where
  name : String
  table : String
  ty : SurrealType
  optional : Bool
  readonly : Bool
  clause : ClauseKind → Option String

/-- What a snapshot keeps of it. -/
def FieldDefinition.snapshot (d : FieldDefinition) : FieldSnapshot where
  name := d.name
  table := d.table
  ty := d.ty
  optional := d.optional
  readonly := d.readonly
  hasValueOrDefault := (d.clause .value).isSome || (d.clause .default).isSome
  hasAssert := (d.clause .assert).isSome

/-- A stored value. A number is the same number in every type that has it. -/
inductive Stored (α : Type) where
  | none
  | number (q : ℚ)
  /-- An infinity, or no number. -/
  | special
  | other (x : α)

/-- What the types and the expressions mean. -/
structure Meaning (α : Type) where
  /-- The values of a type, where these are not the numbers of one kind. -/
  values : SurrealType → Set (Stored α)
  /-- The values that a clause takes, and leaves as they are. -/
  allows : ClauseKind → String → Set (Stored α)

/-- The values of a type: integers of 64 bits, binary floats of 64 bits, decimals of 96 bits with
at most 28 places. -/
def Meaning.Holds {α : Type} (M : Meaning α) : SurrealType → Stored α → Prop
  | .int, v => ∃ z : Int, -2 ^ 63 ≤ z ∧ z < 2 ^ 63 ∧ v = .number z
  | .float, v => v = .special ∨
      ∃ m e : Int, |m| < 2 ^ 53 ∧ -1074 ≤ e ∧ e ≤ 971 ∧ v = .number (m * 2 ^ e)
  | .decimal, v => ∃ (m : Int) (s : Nat), |m| < 2 ^ 96 ∧ s ≤ 28 ∧ v = .number (m / 10 ^ s)
  | ty, v => v ∈ M.values ty

/-- The value is valid under the definition, and unchanged by it. -/
def FieldDefinition.Keeps {α : Type} (d : FieldDefinition) (M : Meaning α) (v : Stored α) : Prop :=
  (d.optional = true ∧ v = .none ∨ M.Holds d.ty v) ∧
    ∀ k e, d.clause k = some e → v ∈ M.allows k e

/-! ### Severity -/

/-- The severities, in order. -/
def FieldClass.rank : FieldClass → Nat
  | .safe => 0
  | .warn => 1
  | .needsBackfill => 2
  | .blocked => 3

/-- The old snapshot with the attributes of the new one. -/
def withAttributes (o n : FieldSnapshot) : FieldSnapshot where
  name := o.name
  table := o.table
  ty := o.ty
  optional := o.optional
  readonly := n.readonly
  hasValueOrDefault := n.hasValueOrDefault
  hasAssert := n.hasAssert

/-- The components of a change, each taken alone. -/
def components (o n : FieldSnapshot) : List FieldSnapshot :=
  [{ o with ty := n.ty }, { o with optional := n.optional }, withAttributes o n]

/-- The class of a change is at least that of each component. It is `safe` only if every value
that the old definition keeps is kept by the new one, and no safe no-op if an expression differs. -/
structure SeveritySound (o n : FieldDefinition) : Prop where
  combined : ∀ part ∈ components o.snapshot n.snapshot,
    (classifyModify o.snapshot part).cls.rank ≤ (classifyModify o.snapshot n.snapshot).cls.rank
  safe : (classifyModify o.snapshot n.snapshot).cls = .safe →
    ∀ (α : Type) (M : Meaning α) v, o.Keeps M v → n.Keeps M v
  noOp : (∃ k, o.clause k ≠ n.clause k) →
    ¬ ((classifyModify o.snapshot n.snapshot).change = .noOp ∧
      (classifyModify o.snapshot n.snapshot).cls = .safe)

/-- No readonly, value or assert clause came or went. -/
def SameClauses (o n : FieldDefinition) : Prop :=
  o.readonly = n.readonly ∧
    (o.clause .value ≠ none ∨ o.clause .default ≠ none ↔
      n.clause .value ≠ none ∨ n.clause .default ≠ none) ∧
    (o.clause .assert ≠ none ↔ n.clause .assert ≠ none)

/-- Where type and nullability stay, and no clause came or went, the expressions stay too. Where
a field becomes optional, or an `int` a `decimal`, no clause came or went and none is new. No
`int` becomes a `float`, and no `float` a `decimal`, unless it becomes required. -/
structure Plain (o n : FieldDefinition) : Prop where
  same : o.ty = n.ty → o.optional = n.optional → SameClauses o n →
    (o.ty.isOpaque = true → o.name = n.name ∧ o.table = n.table) → ∀ k, o.clause k = n.clause k
  optional : o.ty = n.ty → o.ty.isOpaque = false → o.optional = false → n.optional = true →
    SameClauses o n ∧ ∀ k e, n.clause k = some e → o.clause k = some e
  widened : isWidening o.ty n.ty = true → (o.optional = true → n.optional = true) →
    o.ty = .int ∧ n.ty = .decimal ∧ SameClauses o n ∧
      ∀ k e, n.clause k = some e → o.clause k = some e

theorem attrsChanged_eq_false {o n : FieldDefinition} :
    attrsChanged o.snapshot n.snapshot = false ↔ SameClauses o n := by
  unfold attrsChanged SameClauses FieldDefinition.snapshot
  cases o.clause .value <;> cases o.clause .default <;> cases o.clause .assert <;>
    cases n.clause .value <;> cases n.clause .default <;> cases n.clause .assert <;> simp

/-! ### The branches of the classifier -/

/-- What a change is classified as, and why. -/
inductive Classified (o n : FieldSnapshot) : FieldChange → FieldClass → Prop where
  | identical (h : o = n) (hty : o.ty.isOpaque = true) : Classified o n .noOp .safe
  | conservative (h : o ≠ n) (hty : o.ty.isOpaque = true ∨ n.ty.isOpaque = true) :
      Classified o n .conservative .blocked
  | becameRequired (hty : o.ty.isOpaque = false ∧ n.ty.isOpaque = false)
      (hsame : o.ty = n.ty ∨ isWidening o.ty n.ty = true) (ho : o.optional = true)
      (hn : n.optional = false) : Classified o n .becameRequired .needsBackfill
  | becameOptional (hty : o.ty.isOpaque = false) (hsame : o.ty = n.ty) (ho : o.optional = false)
      (hn : n.optional = true) : Classified o n .becameOptional .safe
  | attributes (hty : o.ty.isOpaque = false) (hsame : o.ty = n.ty) (hnull : o.optional = n.optional)
      (hattrs : attrsChanged o n = true) : Classified o n .attributesChanged .warn
  | noOp (hty : o.ty.isOpaque = false) (hsame : o.ty = n.ty) (hnull : o.optional = n.optional)
      (hattrs : attrsChanged o n = false) : Classified o n .noOp .safe
  | widened (hwide : isWidening o.ty n.ty = true) (hnull : o.optional = true → n.optional = true) :
      Classified o n .typeWidened .safe
  | narrowed (hty : o.ty.isOpaque = false ∧ n.ty.isOpaque = false) (hne : o.ty ≠ n.ty)
      (hwide : isWidening o.ty n.ty = false) : Classified o n .typeNarrowed .blocked

theorem isWidening_inv {a b : SurrealType} (h : isWidening a b = true) :
    a.isOpaque = false ∧ b.isOpaque = false ∧ a ≠ b ∧
      (a = .int ∧ b = .float ∨ a = .int ∧ b = .decimal ∨ a = .float ∧ b = .decimal) := by
  unfold isWidening at h
  split at h
  · exact ⟨rfl, rfl, by decide, .inl ⟨rfl, rfl⟩⟩
  · exact ⟨rfl, rfl, by decide, .inr (.inl ⟨rfl, rfl⟩)⟩
  · exact ⟨rfl, rfl, by decide, .inr (.inr ⟨rfl, rfl⟩)⟩
  · cases h

theorem classifyModify_cases (o n : FieldSnapshot) :
    Classified o n (classifyModify o n).change (classifyModify o n).cls := by
  unfold classifyModify
  by_cases hop : (o.ty.isOpaque || n.ty.isOpaque) = true
  · -- an opaque type is compared as a whole
    rw [if_pos hop]
    by_cases h : o = n
    · rw [if_pos h]
      exact .identical h (by simpa [h] using hop)
    · rw [if_neg h]
      exact .conservative h (by simpa using hop)
  · rw [if_neg hop]
    have hty : o.ty.isOpaque = false ∧ n.ty.isOpaque = false := by simpa using hop
    by_cases hsame : o.ty = n.ty
    · rw [if_pos hsame]
      cases ho : o.optional <;> cases hn : n.optional <;> simp only [Bool.not_true, Bool.not_false,
        Bool.and_true, Bool.and_false, Bool.false_eq_true, if_false, if_true]
      · split
        · rename_i hattrs
          exact .attributes hty.1 hsame (by rw [ho, hn]) hattrs
        · rename_i hattrs
          exact .noOp hty.1 hsame (by rw [ho, hn]) (Bool.not_eq_true _ ▸ hattrs)
      · exact .becameOptional hty.1 hsame ho hn
      · exact .becameRequired hty (.inl hsame) ho hn
      · split
        · rename_i hattrs
          exact .attributes hty.1 hsame (by rw [ho, hn]) hattrs
        · rename_i hattrs
          exact .noOp hty.1 hsame (by rw [ho, hn]) (Bool.not_eq_true _ ▸ hattrs)
    · rw [if_neg hsame]
      by_cases hwide : isWidening o.ty n.ty = true
      · rw [if_pos hwide]
        by_cases hnull : (o.optional && !n.optional) = true
        · rw [if_pos hnull]
          have hboth : o.optional = true ∧ n.optional = false := by simpa using hnull
          exact .becameRequired hty (.inr hwide) hboth.1 hboth.2
        · rw [if_neg hnull]
          exact .widened hwide (by simpa using hnull)
      · rw [if_neg hwide]
        exact .narrowed hty hsame (by simpa using hwide)

theorem Classified.unique {o n : FieldSnapshot} {change change' : FieldChange}
    {cls cls' : FieldClass}
    (h : Classified o n change cls) (h' : Classified o n change' cls') :
    change' = change ∧ cls' = cls := by
  have hwidens := @isWidening_inv o.ty n.ty
  cases h <;> cases h' <;> first | exact ⟨rfl, rfl⟩ | (exfalso; simp_all)

theorem Classified.eq {o n : FieldSnapshot} {change : FieldChange} {cls : FieldClass}
    (h : Classified o n change cls) :
    (classifyModify o n).change = change ∧ (classifyModify o n).cls = cls :=
  h.unique (classifyModify_cases o n)

theorem FieldClass.rank_le (c : FieldClass) : c.rank ≤ FieldClass.blocked.rank := by
  cases c <;> decide

/-! ### Values -/

/-- A meaning under which one clause takes nothing, and everything else whatever there is. -/
def refusing (k : ClauseKind) (e : String) : Meaning Unit where
  values _ := Set.univ
  allows k' e' := {_v | ¬ (k' = k ∧ e' = e)}

theorem exists_holds (k : ClauseKind) (e : String) (ty : SurrealType) :
    ∃ v, (refusing k e).Holds ty v := by
  cases ty with
  | int => exact ⟨.number (0 : Int), 0, by norm_num, by norm_num, rfl⟩
  | float => exact ⟨.special, .inl rfl⟩
  | decimal => exact ⟨.number ((0 : Int) / 10 ^ 0), 0, 0, by norm_num, by norm_num, rfl⟩
  | _ => exact ⟨.none, trivial⟩

/-- A clause that is new may refuse what is stored. -/
theorem clause_of_keeps {o n : FieldDefinition}
    (h : ∀ (α : Type) (M : Meaning α) v, o.Keeps M v → n.Keeps M v) (k : ClauseKind) (e : String)
    (he : n.clause k = some e) : o.clause k = some e := by
  by_contra hnew
  obtain ⟨v, hv⟩ := exists_holds k e o.ty
  have hold : o.Keeps (refusing k e) v := by
    refine ⟨.inr hv, fun k' e' he' => ?_⟩
    rintro ⟨rfl, rfl⟩
    exact hnew he'
  exact (h Unit (refusing k e) v hold).2 k e he ⟨rfl, rfl⟩

theorem decimal_of_int {α : Type} {M : Meaning α} {v : Stored α} (h : M.Holds .int v) :
    M.Holds .decimal v := by
  obtain ⟨z, hlow, hhigh, rfl⟩ := h
  refine ⟨z, 0, ?_, by norm_num, by simp⟩
  rw [abs_lt]
  constructor <;> linarith [show (2 : Int) ^ 63 < 2 ^ 96 by norm_num]

/-- A meaning under which no clause refuses anything. -/
def permissive : Meaning Unit where
  values _ := Set.univ
  allows _ _ := Set.univ

/-- What is kept has the new type, if it is there at all. -/
theorem holds_of_keeps {o n : FieldDefinition}
    (h : ∀ (α : Type) (M : Meaning α) v, o.Keeps M v → n.Keeps M v) {v : Stored Unit}
    (hv : permissive.Holds o.ty v) (hsome : v ≠ .none) : permissive.Holds n.ty v := by
  have hkeeps : o.Keeps permissive v := ⟨.inr hv, fun _ _ _ => trivial⟩
  rcases (h Unit permissive v hkeeps).1 with ⟨-, hnone⟩ | hnew
  · exact absurd hnone hsome
  · exact hnew

/-- Not every `int` is a `float`: one more than `2 ^ 53` is an odd number that is too long. -/
theorem not_float_of_int :
    ∃ v, permissive.Holds .int v ∧ v ≠ .none ∧ ¬ permissive.Holds .float v := by
  refine ⟨.number ((2 ^ 53 + 1 : Int) : ℚ), ⟨2 ^ 53 + 1, by norm_num, by norm_num, rfl⟩,
    by simp, ?_⟩
  rintro (h | ⟨m, e, hm, -, -, h⟩)
  · cases h
  · have heq : ((2 ^ 53 + 1 : Int) : ℚ) = m * 2 ^ e := by injection h
    cases e with
    | ofNat k =>
        rw [Int.ofNat_eq_natCast, zpow_natCast] at heq
        have hint : (2 ^ 53 + 1 : Int) = m * 2 ^ k := by exact_mod_cast heq
        cases k with
        | zero =>
            rw [pow_zero, mul_one] at hint
            rw [← hint, abs_of_pos (by norm_num)] at hm
            omega
        | succ k =>
            -- the left side is odd
            have heven : m * 2 ^ (k + 1) = 2 * (m * 2 ^ k) := by ring
            rw [heven] at hint
            omega
    | negSucc k =>
        rw [zpow_negSucc, ← div_eq_mul_inv, eq_div_iff (by positivity)] at heq
        have hint : (2 ^ 53 + 1 : Int) * 2 ^ (k + 1) = m := by exact_mod_cast heq
        have hpow : (1 : Int) ≤ 2 ^ (k + 1) := one_le_pow₀ (by norm_num)
        have hlow : (2 ^ 53 + 1 : Int) ≤ m := by
          rw [← hint]
          linarith [mul_le_mul_of_nonneg_left hpow (show (0 : Int) ≤ 2 ^ 53 + 1 by norm_num)]
        linarith [le_abs_self m]

/-- Not every `float` is a `decimal`. -/
theorem not_decimal_of_float :
    ∃ v, permissive.Holds .float v ∧ v ≠ .none ∧ ¬ permissive.Holds .decimal v := by
  refine ⟨.special, .inl rfl, by simp, ?_⟩
  rintro ⟨m, s, -, -, h⟩
  cases h

/-! ### The components -/

section

variable {o n : FieldSnapshot}

theorem cls_self (o : FieldSnapshot) : (classifyModify o o).cls = .safe := by
  cases hty : o.ty.isOpaque with
  | true => exact (Classified.identical rfl hty).eq.2
  | false => exact (Classified.noOp hty rfl rfl (by simp [attrsChanged])).eq.2

/-- The type alone, where it stays or is widened. -/
theorem cls_type (h : o.ty = n.ty ∨ isWidening o.ty n.ty = true) :
    (classifyModify o { o with ty := n.ty }).cls = .safe := by
  rcases h with h | h
  · rw [← h]
    exact cls_self o
  · have hwidened : Classified o { o with ty := n.ty } .typeWidened .safe := .widened h fun ho => ho
    exact hwidened.eq.2

/-- The nullability alone, where the field does not become required. -/
theorem cls_null (hty : o.ty.isOpaque = false) (h : o.optional = true → n.optional = true) :
    (classifyModify o { o with optional := n.optional }).cls = .safe := by
  cases ho : o.optional with
  | true =>
      rw [h ho, ← ho]
      exact cls_self o
  | false =>
      cases hn : n.optional with
      | false =>
          rw [← ho]
          exact cls_self o
      | true =>
          have hoptional : Classified o { o with optional := true } .becameOptional .safe :=
            .becameOptional hty rfl ho rfl
          exact hoptional.eq.2

/-- The attributes alone, where none changed. -/
theorem cls_attributes (h : attrsChanged o n = false) :
    (classifyModify o (withAttributes o n)).cls = .safe := by
  have hsame : withAttributes o n = o := by
    simp only [attrsChanged, Bool.or_eq_false_iff, bne_eq_false_iff_eq] at h
    unfold withAttributes
    rw [← h.1.1, ← h.1.2, ← h.2]
  rw [hsame]
  exact cls_self o

/-- The attributes alone, where one changed. -/
theorem cls_attributes_warn (hty : o.ty.isOpaque = false) (h : attrsChanged o n = true) :
    (classifyModify o (withAttributes o n)).cls = .warn :=
  (Classified.attributes (n := withAttributes o n) hty rfl rfl h).eq.2

theorem rank_attributes (hty : o.ty.isOpaque = false) :
    (classifyModify o (withAttributes o n)).cls.rank ≤ FieldClass.warn.rank := by
  cases h : attrsChanged o n with
  | false => simp [cls_attributes h, FieldClass.rank]
  | true => simp [cls_attributes_warn hty h]

theorem mem_components {part : FieldSnapshot} : part ∈ components o n ↔
    part = { o with ty := n.ty } ∨ part = { o with optional := n.optional } ∨
      part = withAttributes o n := by
  simp [components]

/-- A change that is given at least a bound, where each component is given at most that. -/
theorem combined_of_le (c : FieldClass) (hcls : (classifyModify o n).cls = c)
    (htype : (classifyModify o { o with ty := n.ty }).cls.rank ≤ c.rank)
    (hnull : (classifyModify o { o with optional := n.optional }).cls.rank ≤ c.rank)
    (hattrs : (classifyModify o (withAttributes o n)).cls.rank ≤ c.rank) :
    ∀ part ∈ components o n, (classifyModify o part).cls.rank ≤ (classifyModify o n).cls.rank := by
  intro part hpart
  rw [hcls]
  rcases mem_components.mp hpart with rfl | rfl | rfl
  · exact htype
  · exact hnull
  · exact hattrs

end

/-! ### The promise -/

theorem combined_of_plain {o n : FieldDefinition} (h : Plain o n) :
    ∀ part ∈ components o.snapshot n.snapshot,
      (classifyModify o.snapshot part).cls.rank ≤
        (classifyModify o.snapshot n.snapshot).cls.rank := by
  have hclass := classifyModify_cases o.snapshot n.snapshot
  generalize hchange : (classifyModify o.snapshot n.snapshot).change = change at hclass
  generalize hcls : (classifyModify o.snapshot n.snapshot).cls = cls at hclass
  have hsafe : ∀ {p : FieldSnapshot} {c : FieldClass}, (classifyModify o.snapshot p).cls = .safe →
      (classifyModify o.snapshot p).cls.rank ≤ c.rank := by
    intro p c hp
    rw [hp]
    exact Nat.zero_le _
  rw [← hcls]
  -- On the rule that classifies the whole change: its parts are safe, or no worse than it.
  cases hclass with
  | identical hsame hty =>
      refine combined_of_le .safe hcls (hsafe (cls_type (.inl (congrArg _ hsame)))) ?_ ?_
      · rw [← hsame]
        exact hsafe (cls_self o.snapshot)
      · exact hsafe (cls_attributes (by simp [attrsChanged, hsame]))
  | conservative _ _ =>
      exact combined_of_le .blocked hcls (FieldClass.rank_le _) (FieldClass.rank_le _)
        (FieldClass.rank_le _)
  | narrowed _ _ _ =>
      exact combined_of_le .blocked hcls (FieldClass.rank_le _) (FieldClass.rank_le _)
        (FieldClass.rank_le _)
  | becameRequired hty hsame ho hn =>
      refine combined_of_le .needsBackfill hcls (hsafe (cls_type hsame)) ?_
        ((rank_attributes hty.1).trans (by decide))
      have hrequired : Classified o.snapshot { o.snapshot with optional := n.snapshot.optional }
          .becameRequired .needsBackfill := .becameRequired ⟨hty.1, hty.1⟩ (.inl rfl) ho hn
      rw [hrequired.eq.2]
  | becameOptional hty hsame ho hn =>
      have hclauses := (h.optional hsame hty ho hn).1
      exact combined_of_le .safe hcls (hsafe (cls_type (.inl hsame)))
        (hsafe (cls_null hty fun _ => hn))
        (hsafe (cls_attributes (attrsChanged_eq_false.mpr hclauses)))
  | attributes hty hsame hnull hattrs =>
      exact combined_of_le .warn hcls (hsafe (cls_type (.inl hsame)))
        (hsafe (cls_null hty fun ho => hnull ▸ ho)) (rank_attributes hty)
  | noOp hty hsame hnull hattrs =>
      exact combined_of_le .safe hcls (hsafe (cls_type (.inl hsame)))
        (hsafe (cls_null hty fun ho => hnull ▸ ho)) (hsafe (cls_attributes hattrs))
  | widened hwide hnull =>
      have hclauses := (h.widened hwide hnull).2.2.1
      exact combined_of_le .safe hcls (hsafe (cls_type (.inr hwide)))
        (hsafe (cls_null (isWidening_inv hwide).1 hnull))
        (hsafe (cls_attributes (attrsChanged_eq_false.mpr hclauses)))

/-- Where the type stays or an `int` becomes a `decimal`, and no clause is new, every value that
is kept stays so. -/
theorem keeps_of_clauses {o n : FieldDefinition} {α : Type} {M : Meaning α} {v : Stored α}
    (hty : o.ty = n.ty ∨ o.ty = .int ∧ n.ty = .decimal)
    (hnull : o.optional = true → n.optional = true)
    (hclauses : ∀ k e, n.clause k = some e → o.clause k = some e) (h : o.Keeps M v) :
    n.Keeps M v := by
  refine ⟨?_, fun k e he => h.2 k e (hclauses k e he)⟩
  rcases h.1 with ⟨ho, hv⟩ | hv
  · exact .inl ⟨hnull ho, hv⟩
  · rcases hty with hty | ⟨ho, hn⟩
    · exact .inr (hty ▸ hv)
    · rw [ho] at hv
      rw [hn]
      exact .inr (decimal_of_int hv)

/-- Where nothing is said to change, the expressions stay. -/
theorem Plain.expressions {o n : FieldDefinition} (h : Plain o n)
    (hclass : Classified o.snapshot n.snapshot .noOp .safe) (k : ClauseKind) :
    o.clause k = n.clause k := by
  cases hclass with
  | identical hsame hty =>
      have hattrs : attrsChanged o.snapshot n.snapshot = false := by simp [attrsChanged, hsame]
      exact h.same (congrArg FieldSnapshot.ty hsame) (congrArg FieldSnapshot.optional hsame)
        (attrsChanged_eq_false.mp hattrs)
        (fun _ => ⟨congrArg FieldSnapshot.name hsame, congrArg FieldSnapshot.table hsame⟩) k
  | noOp hty hsame hnull hattrs =>
      refine h.same hsame hnull (attrsChanged_eq_false.mp hattrs) (fun hop => ?_) k
      exact absurd (hty.symm.trans hop) (by decide)

theorem sound_of_plain {o n : FieldDefinition} (h : Plain o n) : SeveritySound o n := by
  have hclass := classifyModify_cases o.snapshot n.snapshot
  refine ⟨combined_of_plain h, fun hsafe => ?_, ?_⟩
  · intro α M v hv
    rw [hsafe] at hclass
    generalize (classifyModify o.snapshot n.snapshot).change = change at hclass
    cases hclass with
    | identical hsame hty =>
        have hexpr := h.expressions (.identical hsame hty)
        have hnull : o.optional = n.optional := congrArg FieldSnapshot.optional hsame
        exact keeps_of_clauses (.inl (congrArg FieldSnapshot.ty hsame)) (fun ho => hnull ▸ ho)
          (fun k e he => (hexpr k).trans he) hv
    | becameOptional hty hsame ho hn =>
        exact keeps_of_clauses (.inl hsame) (fun _ => hn) (h.optional hsame hty ho hn).2 hv
    | noOp hty hsame hnull hattrs =>
        have hexpr := h.expressions (.noOp hty hsame hnull hattrs)
        have hnull' : o.optional = n.optional := hnull
        exact keeps_of_clauses (.inl hsame) (fun ho => hnull' ▸ ho)
          (fun k e he => (hexpr k).trans he) hv
    | widened hwide hnull =>
        obtain ⟨ho, hn, -, hclauses⟩ := h.widened hwide hnull
        exact keeps_of_clauses (.inr ⟨ho, hn⟩) hnull hclauses hv
  · rintro ⟨k, hk⟩ ⟨hchange, hcls⟩
    rw [hchange, hcls] at hclass
    exact hk (h.expressions hclass k)

/-- In a safe change of a field whose type the classifier knows, no attribute changed. -/
theorem SeveritySound.sameClauses {o n : FieldDefinition} (h : SeveritySound o n)
    (hty : o.ty.isOpaque = false) (hsafe : (classifyModify o.snapshot n.snapshot).cls = .safe) :
    SameClauses o n := by
  rw [← attrsChanged_eq_false]
  by_contra hattrs
  have hwarn := cls_attributes_warn (o := o.snapshot) (n := n.snapshot) hty (by simpa using hattrs)
  have hle := h.combined _ (mem_components.mpr (.inr (.inr rfl)))
  rw [hwarn, hsafe] at hle
  exact absurd hle (by decide)

/-- A customer's balance. -/
def balance : FieldDefinition where
  name := "balance"
  table := "customer"
  ty := .int
  optional := false
  readonly := false
  clause _ := none

/-- The balance, optional and bounded. -/
def boundedBalance : FieldDefinition :=
  { balance with
    optional := true, clause := fun k => if k = .assert then some "$value >= 0" else none }

end Frust.Orm
