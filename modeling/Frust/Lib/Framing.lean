import Mathlib.Data.List.Basic

/-!
# `Frust.Lib.Framing`: pieces that are put together, and told apart

Pieces of a sequence can be told apart after they were put together where each has the same length
(`flatMap_injective`), or where a separator is in none of them: two pieces with one between them
(`append_cons_inj`), and any number of pieces that each end in one (`ended_injOn`). Pieces that are
joined are told apart where no piece holds the separator, but for none and the empty one
(`intercalate_inj`).
-/

set_option autoImplicit false

namespace Frust.Lib.Framing

variable {α β : Type}

/-- Codes of one length, one after the other. -/
theorem flatMap_injective {f : α → List β} {n : Nat} (hlength : ∀ a, (f a).length = n + 1)
    (hf : Function.Injective f) : Function.Injective (List.flatMap f) := by
  intro l l' h
  induction l generalizing l' with
  | nil =>
      cases l' with
      | nil => rfl
      | cons a' l' =>
          have hlen := congrArg List.length h
          rw [List.flatMap_cons, List.length_append, hlength, List.flatMap_nil, List.length_nil] at hlen
          omega
  | cons a l ih =>
      cases l' with
      | nil =>
          have hlen := congrArg List.length h
          rw [List.flatMap_cons, List.length_append, hlength, List.flatMap_nil, List.length_nil] at hlen
          omega
      | cons a' l' =>
          rw [List.flatMap_cons, List.flatMap_cons] at h
          obtain ⟨hhead, hrest⟩ := List.append_inj h ((hlength a).trans (hlength a').symm)
          rw [hf hhead, ih hrest]

/-- Two pieces with the separator between them: the first has none. -/
theorem append_cons_inj {sep : α} {a a' b b' : List α} (ha : sep ∉ a) (ha' : sep ∉ a')
    (h : a ++ sep :: b = a' ++ sep :: b') : a = a' ∧ b = b' := by
  classical
  have hsplit := congrArg (List.splitOn sep) h
  rw [List.splitOn_append_cons_self_of_not_mem ha, List.splitOn_append_cons_self_of_not_mem ha']
    at hsplit
  obtain ⟨rfl, _⟩ := List.cons.inj hsplit
  exact ⟨rfl, (List.cons.inj (List.append_cancel_left h)).2⟩

/-- Pieces that each end in the separator. -/
def ended (sep : α) (pieces : List (List α)) : List α := pieces.flatMap (· ++ [sep])

@[simp] theorem ended_nil (sep : α) : ended sep [] = [] := rfl

@[simp] theorem ended_cons (sep : α) (p : List α) (ps : List (List α)) :
    ended sep (p :: ps) = p ++ sep :: ended sep ps := by
  rw [ended, List.flatMap_cons, List.append_assoc]
  rfl

theorem ended_injOn {sep : α} {ps qs : List (List α)} (hp : ∀ p ∈ ps, sep ∉ p)
    (hq : ∀ q ∈ qs, sep ∉ q) (h : ended sep ps = ended sep qs) : ps = qs := by
  induction ps generalizing qs with
  | nil =>
      cases qs with
      | nil => rfl
      | cons q qs => simp at h
  | cons p ps ih =>
      cases qs with
      | nil => simp at h
      | cons q qs =>
          rw [ended_cons, ended_cons] at h
          obtain ⟨rfl, hrest⟩ :=
            append_cons_inj (hp p List.mem_cons_self) (hq q List.mem_cons_self) h
          rw [ih (fun p hp' => hp p (List.mem_cons_of_mem _ hp'))
            (fun q hq' => hq q (List.mem_cons_of_mem _ hq')) hrest]

/-- Pieces that are joined: none, and the empty one alone, look the same. -/
theorem intercalate_inj [DecidableEq α] {sep : α} {ps qs : List (List α)} (hp : ∀ p ∈ ps, sep ∉ p)
    (hq : ∀ q ∈ qs, sep ∉ q) (hpe : ps ≠ [[]]) (hqe : qs ≠ [[]])
    (h : [sep].intercalate ps = [sep].intercalate qs) : ps = qs := by
  have hempty {rs : List (List α)} (hr : ∀ r ∈ rs, sep ∉ r) (hre : rs ≠ [[]])
      (hjoin : [sep].intercalate rs = []) : rs = [] := by
    by_contra hne
    have hsplit := List.splitOn_intercalate sep hr hne
    rw [hjoin] at hsplit
    exact hre hsplit.symm
  by_cases hpn : ps = []
  · subst hpn
    exact (hempty hq hqe h.symm).symm
  · by_cases hqn : qs = []
    · subst hqn
      exact hempty hp hpe h
    · rw [← List.splitOn_intercalate sep hp hpn, h, List.splitOn_intercalate sep hq hqn]

/-- What was joined is cut within its pieces too. -/
theorem splitOn_intercalate [DecidableEq α] {sep : α} {ps : List (List α)} (h : ps ≠ []) :
    ([sep].intercalate ps).splitOn sep = ps.flatMap (List.splitOn sep) := by
  induction ps with
  | nil => exact absurd rfl h
  | cons p ps ih =>
      cases ps with
      | nil => rw [List.intercalate_singleton, List.flatMap_singleton]
      | cons q qs =>
          rw [List.intercalate_cons_cons, List.append_assoc, List.singleton_append,
            List.splitOn_append_cons_self, ih (List.cons_ne_nil _ _)]
          rfl

/-- The pieces that each end in the separator, cut within themselves too, and nothing after the last. -/
theorem splitOn_ended [DecidableEq α] {sep : α} (ps : List (List α)) :
    (ended sep ps).splitOn sep = ps.flatMap (List.splitOn sep) ++ [[]] := by
  induction ps with
  | nil => rfl
  | cons p ps ih =>
      rw [ended_cons, List.splitOn_append_cons_self, ih, List.flatMap_cons, List.append_assoc]

end Frust.Lib.Framing
