import Mathlib.Data.List.Infix
import Mathlib.Data.Nat.Find

/-!
# `Frust.Lib.Occurs`: a pattern in a list

`FirstCut` cuts a list at the first occurrence of a pattern; `List.dropInfix?` computes it. A list with
placeholders between an opening and a closing pattern has one reading (`Parses`): the placeholders from
the left, each with what stands before it, and what is left. A reading keeps the whole list
(`source_of_parses`).

`Cuts` cuts a list at every occurrence, from the left. `replaceAll` puts another list there, and a
pattern with no element of that list then lies in one of the pieces (`infix_intercalate`).
-/

set_option autoImplicit false

namespace Frust.Lib.Occurs

variable {α : Type}

/-! ### The first occurrence -/

/-- `l` is cut at its first `pat`. -/
structure FirstCut (pat l before after : List α) : Prop where
  eq : l = before ++ pat ++ after
  first : ∀ b a, l = b ++ pat ++ a → before.length ≤ b.length

/-- There is only one first occurrence. -/
theorem FirstCut.unique {pat l b a b' a' : List α} (h : FirstCut pat l b a)
    (h' : FirstCut pat l b' a') : b = b' ∧ a = a' := by
  have hlen : b.length = b'.length :=
    Nat.le_antisymm (h.first b' a' h'.eq) (h'.first b a h.eq)
  have heq : b ++ (pat ++ a) = b' ++ (pat ++ a') := by
    rw [← List.append_assoc, ← List.append_assoc, ← h.eq, ← h'.eq]
  obtain ⟨hb, htail⟩ := List.append_inj heq hlen
  exact ⟨hb, List.append_cancel_left htail⟩

theorem FirstCut.length {pat l b a : List α} (h : FirstCut pat l b a) :
    b.length + pat.length + a.length = l.length := by
  rw [h.eq, List.length_append, List.length_append]

theorem FirstCut.isInfix {pat l b a : List α} (h : FirstCut pat l b a) : pat <:+: l :=
  ⟨b, a, h.eq.symm⟩

/-- A list that has the pattern is cut. -/
theorem exists_firstCut {pat l : List α} (h : pat <:+: l) : ∃ b a, FirstCut pat l b a := by
  classical
  have hex : ∃ n, ∃ b a, l = b ++ pat ++ a ∧ b.length = n := by
    obtain ⟨b, a, heq⟩ := h
    exact ⟨b.length, b, a, heq.symm, rfl⟩
  obtain ⟨b, a, heq, hlen⟩ := Nat.find_spec hex
  refine ⟨b, a, heq, fun b' a' heq' => ?_⟩
  rw [hlen]
  exact Nat.find_min' hex ⟨b', a', heq', rfl⟩

/-- A pattern does not reach over an element that it does not have. -/
theorem infix_append_cons_iff {pat a b : List α} {c : α} (hne : pat ≠ []) (hc : c ∉ pat) :
    pat <:+: a ++ c :: b ↔ pat <:+: a ∨ pat <:+: b := by
  constructor
  · rintro ⟨x, y, h⟩
    rw [List.append_assoc, List.append_eq_append_iff] at h
    obtain ⟨a', rfl, htail⟩ | ⟨c', rfl, htail⟩ := h
    · -- the pattern begins in front of the element
      rw [List.append_eq_append_iff] at htail
      obtain ⟨d, rfl, -⟩ | ⟨d, rfl, hd⟩ := htail
      · exact .inl ⟨x, d, by rw [List.append_assoc]⟩
      · cases d with
        | nil => exact .inl ⟨x, [], by simp⟩
        | cons d ds =>
            obtain ⟨rfl, -⟩ := List.cons.inj hd
            exact absurd (by simp) hc
    · cases c' with
      | nil =>
          cases pat with
          | nil => exact absurd rfl hne
          | cons d ds =>
              obtain ⟨rfl, -⟩ := List.cons.inj htail
              exact absurd List.mem_cons_self hc
      | cons d ds =>
          obtain ⟨-, rfl⟩ := List.cons.inj htail
          exact .inr ⟨ds, y, List.append_assoc ds pat y⟩
  · rintro (h | h)
    · exact h.trans (List.prefix_append _ _).isInfix
    · exact h.trans ((List.suffix_cons c b).trans (List.suffix_append a _)).isInfix

section

variable [BEq α] [LawfulBEq α]

theorem dropInfix?_iff {pat l b a : List α} :
    l.dropInfix? pat = some (b, a) ↔ FirstCut pat l b a := by
  rw [List.dropInfix?_eq_some_iff]
  constructor
  · rintro ⟨⟨pat', heq, hpat⟩, hfirst⟩
    obtain rfl := eq_of_beq hpat
    exact ⟨heq, fun b' a' h => hfirst b' pat' a' h BEq.rfl⟩
  · intro h
    refine ⟨⟨pat, h.eq, BEq.rfl⟩, fun b' pat' a' heq hpat => ?_⟩
    obtain rfl := eq_of_beq hpat
    exact h.first b' a' heq

theorem dropInfix?_eq_none_iff {pat l : List α} : l.dropInfix? pat = none ↔ ¬ pat <:+: l := by
  constructor
  · intro hnone hin
    obtain ⟨b, a, h⟩ := exists_firstCut hin
    rw [dropInfix?_iff.mpr h] at hnone
    cases hnone
  · intro h
    cases hcut : l.dropInfix? pat with
    | none => rfl
    | some p => exact absurd (dropInfix?_iff.mp hcut).isInfix h

end

/-! ### Every occurrence -/

/-- The pieces between the occurrences of `pat`, taken from the left. -/
inductive Cuts (pat : List α) : List α → List (List α) → Prop
  | whole {l : List α} (h : ¬ pat <:+: l) : Cuts pat l [l]
  | cut {l before after : List α} {ps : List (List α)} (h : FirstCut pat l before after)
      (hrest : Cuts pat after ps) : Cuts pat l (before :: ps)

variable {pat : List α}

/-- What stands before the first occurrence has none. -/
theorem FirstCut.not_isInfix {l b a : List α} (h : FirstCut pat l b a) (hne : pat ≠ []) :
    ¬ pat <:+: b := by
  rintro ⟨x, y, hb⟩
  have heq : l = x ++ pat ++ (y ++ pat ++ a) := by
    rw [h.eq, ← hb]
    simp only [List.append_assoc]
  have hle := h.first x _ heq
  have hpos : 0 < pat.length := List.length_pos_iff.mpr hne
  rw [← hb, List.length_append, List.length_append] at hle
  omega

/-- No piece has the pattern. -/
theorem Cuts.not_isInfix {l : List α} {ps : List (List α)} (h : Cuts pat l ps) (hne : pat ≠ []) :
    ∀ p ∈ ps, ¬ pat <:+: p := by
  induction h with
  | whole h => exact fun p hp => (List.mem_singleton.mp hp) ▸ h
  | cut h _ ih =>
      intro p hp
      rcases List.mem_cons.mp hp with rfl | hp
      · exact h.not_isInfix hne
      · exact ih p hp

theorem Cuts.ne_nil {l : List α} {ps : List (List α)} (h : Cuts pat l ps) : ps ≠ [] := by
  cases h <;> exact List.cons_ne_nil _ _

theorem exists_cuts (hne : pat ≠ []) (l : List α) : ∃ ps, Cuts pat l ps := by
  induction hn : l.length using Nat.strong_induction_on generalizing l with
  | _ n ih =>
      by_cases hin : pat <:+: l
      · obtain ⟨before, after, h⟩ := exists_firstCut hin
        have hpos : 0 < pat.length := List.length_pos_iff.mpr hne
        have hlt : after.length < n := by
          have hlen := h.length
          omega
        obtain ⟨ps, hps⟩ := ih after.length hlt after rfl
        exact ⟨before :: ps, .cut h hps⟩
      · exact ⟨[l], .whole hin⟩

/-- A pattern with no element of `sep` does not reach over it. -/
theorem infix_append_append {sep a b : List α} (hne : pat ≠ []) (hsep : ∀ c ∈ sep, c ∉ pat)
    (hnil : sep ≠ []) (h : pat <:+: a ++ (sep ++ b)) : pat <:+: a ∨ pat <:+: b := by
  induction sep generalizing a with
  | nil => exact absurd rfl hnil
  | cons c cs ih =>
      have hc : c ∉ pat := hsep c List.mem_cons_self
      rcases (infix_append_cons_iff hne hc).mp h with ha | hb
      · exact .inl ha
      · cases cs with
        | nil => exact .inr hb
        | cons d ds =>
            have hrest : pat <:+: [] ++ (d :: ds ++ b) := hb
            rcases ih (fun x hx => hsep x (List.mem_cons_of_mem c hx)) (List.cons_ne_nil d ds) hrest
              with hempty | hb'
            · exact absurd (List.infix_nil.mp hempty) hne
            · exact .inr hb'

/-- It lies in one of the parts that `sep` joins. -/
theorem infix_intercalate {sep : List α} {ps : List (List α)} (hne : pat ≠ [])
    (hsep : ∀ c ∈ sep, c ∉ pat) (hnil : sep ≠ []) (h : pat <:+: sep.intercalate ps) :
    ∃ p ∈ ps, pat <:+: p := by
  induction ps with
  | nil => exact absurd (List.infix_nil.mp h) hne
  | cons p ps ih =>
      cases ps with
      | nil =>
          rw [List.intercalate_singleton] at h
          exact ⟨p, List.mem_singleton_self p, h⟩
      | cons q qs =>
          rw [List.intercalate_cons_cons, List.append_assoc] at h
          rcases infix_append_append hne hsep hnil h with hp | hrest
          · exact ⟨p, List.mem_cons_self, hp⟩
          · obtain ⟨x, hx, hin⟩ := ih hrest
            exact ⟨x, List.mem_cons_of_mem p hx, hin⟩

section

variable [DecidableEq α]

/-- `l` with `new` in place of every occurrence of a pattern that is not empty. -/
def replaceAll (pat new l : List α) : List α :=
  if _hne : pat.isEmpty then l
  else match _hcut : l.dropInfix? pat with
    | none => l
    | some (before, after) => before ++ new ++ replaceAll pat new after
termination_by l.length
decreasing_by
  have hlen := (dropInfix?_iff.mp _hcut).length
  have hpos : 0 < pat.length := List.length_pos_iff.mpr (by simpa using _hne)
  omega

/-- The pieces stay, and `new` joins them. -/
theorem replaceAll_eq {new l : List α} {ps : List (List α)} (hne : pat ≠ []) (h : Cuts pat l ps) :
    replaceAll pat new l = new.intercalate ps := by
  have hempty : pat.isEmpty = false := by
    cases pat with
    | nil => exact absurd rfl hne
    | cons c cs => rfl
  induction h with
  | whole h =>
      rw [replaceAll, List.intercalate_singleton]
      simp only [hempty, Bool.false_eq_true, dite_false]
      split
      · rfl
      · rename_i b a hcut
        exact absurd (dropInfix?_iff.mp hcut).isInfix h
  | @cut l before after ps h hrest ih =>
      rw [replaceAll]
      simp only [hempty, Bool.false_eq_true, dite_false]
      split
      · rename_i hcut
        exact absurd h.isInfix (dropInfix?_eq_none_iff.mp hcut)
      · rename_i b a hcut
        obtain ⟨rfl, rfl⟩ := (dropInfix?_iff.mp hcut).unique h
        rw [ih, List.intercalate_cons_of_ne_nil hrest.ne_nil]

/-- A pattern of one element is replaced wherever the element is. -/
theorem replaceAll_singleton (c : α) (new l : List α) :
    replaceAll [c] new l = l.flatMap fun d => if d = c then new else [d] := by
  have hne : [c] ≠ [] := List.cons_ne_nil c []
  have hkeep {l : List α} (h : ¬ [c] <:+: l) : l.flatMap (fun d => if d = c then new else [d]) = l := by
    have hne : ∀ d ∈ l, d ≠ c := by
      rintro d hd rfl
      exact h ((List.singleton_infix_iff d l).mpr hd)
    rw [List.flatMap_congr fun d hd => if_neg (hne d hd), List.flatMap_singleton']
  obtain ⟨ps, hps⟩ := exists_cuts hne l
  rw [replaceAll_eq hne hps]
  induction hps with
  | whole h => rw [List.intercalate_singleton, hkeep h]
  | @cut l before after ps h hrest ih =>
      rw [List.intercalate_cons_of_ne_nil hrest.ne_nil, ih, h.eq, List.flatMap_append,
        List.flatMap_append, hkeep (h.not_isInfix hne), List.flatMap_singleton, if_pos rfl]

end

/-! ### Placeholders -/

/-- What a list with placeholders says: each placeholder with what stands before it, what stands after
the last one, and what follows an opening there that nothing closes. -/
structure Template (α : Type) where
  holes : List (List α × List α)
  last : List α
  unclosed : Option (List α)

/-- The reading from the left: the next opening ends the text before it, and the next closing after
that ends the placeholder. -/
inductive Parses (op cl : List α) : List α → Template α → Prop
  | done {l : List α} (h : ¬ op <:+: l) : Parses op cl l ⟨[], l, none⟩
  | unclosed {l before after : List α} (h : FirstCut op l before after) (hcl : ¬ cl <:+: after) :
      Parses op cl l ⟨[], before, some after⟩
  | hole {l before after inner rest : List α} {x : Template α} (h : FirstCut op l before after)
      (hcl : FirstCut cl after inner rest) (hrest : Parses op cl rest x) :
      Parses op cl l ⟨(before, inner) :: x.holes, x.last, x.unclosed⟩

/-- The list that was read. -/
def Template.source (op cl : List α) (x : Template α) : List α :=
  (x.holes.flatMap fun h => h.1 ++ op ++ (h.2 ++ cl)) ++ x.last
    ++ (x.unclosed.map (op ++ ·)).getD []

variable {op cl : List α}

/-- Nothing is left out by a reading. -/
theorem source_of_parses {l : List α} {x : Template α} (h : Parses op cl l x) : x.source op cl = l := by
  induction h with
  | done h => simp [Template.source]
  | unclosed h hcl => simp [Template.source, h.eq]
  | hole h hcl hrest ih =>
      rw [h.eq, hcl.eq, ← ih]
      simp [Template.source, List.append_assoc]

/-- There is at most one reading. -/
theorem parses_unique {l : List α} {x y : Template α} (hx : Parses op cl l x) (hy : Parses op cl l y) :
    x = y := by
  induction hx generalizing y with
  | done h =>
      cases hy with
      | done => rfl
      | unclosed h' => exact absurd h'.isInfix h
      | hole h' => exact absurd h'.isInfix h
  | unclosed h hcl =>
      cases hy with
      | done h' => exact absurd h.isInfix h'
      | unclosed h' =>
          obtain ⟨rfl, rfl⟩ := h.unique h'
          rfl
      | hole h' hcl' =>
          obtain ⟨-, rfl⟩ := h.unique h'
          exact absurd hcl'.isInfix hcl
  | hole h hcl _ ih =>
      cases hy with
      | done h' => exact absurd h.isInfix h'
      | unclosed h' hcl' =>
          obtain ⟨-, rfl⟩ := h.unique h'
          exact absurd hcl.isInfix hcl'
      | hole h' hcl' hrest' =>
          obtain ⟨rfl, rfl⟩ := h.unique h'
          obtain ⟨rfl, rfl⟩ := hcl.unique hcl'
          rw [ih hrest']

/-- With an opening that is not empty there is one. -/
theorem exists_parses (hop : op ≠ []) (l : List α) : ∃ x, Parses op cl l x := by
  induction hn : l.length using Nat.strong_induction_on generalizing l with
  | _ n ih =>
      by_cases hin : op <:+: l
      · obtain ⟨before, after, h⟩ := exists_firstCut hin
        by_cases hcl : cl <:+: after
        · obtain ⟨inner, rest, h'⟩ := exists_firstCut hcl
          have hpos : 0 < op.length := List.length_pos_iff.mpr hop
          have hlt : rest.length < n := by
            have h₁ := h.length
            have h₂ := h'.length
            omega
          obtain ⟨x, hx⟩ := ih rest.length hlt rest rfl
          exact ⟨_, .hole h h' hx⟩
        · exact ⟨_, .unclosed h hcl⟩
      · exact ⟨_, .done hin⟩

end Frust.Lib.Occurs
