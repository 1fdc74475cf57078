import Mathlib.Data.List.Basic

/-!
# `Frust.Lib.Edits`: edit scripts on a keyed store

A store is a partial map `κ → Option ν`. An edit puts a value at a key or deletes
the key, and a script is a list of edits, applied from left to right.

`Turns script old new on` says what a script needs in order to turn a store that
reads `old` on the keys of `on` into one that reads `new` there: each edit
leaves its key at the value `new` has, and every key of `on` where the two
differ is edited. The order of the edits does not enter, so a script may be
sorted freely; `Turns.foldl` is the rule.
-/

set_option autoImplicit false

namespace Frust.Lib

variable {κ ν : Type*}

/-- One edit of a store. -/
inductive Edit (κ ν : Type*) where
  | put (k : κ) (v : ν)
  | del (k : κ)

namespace Edit

/-- The key an edit is about. -/
def key : Edit κ ν → κ
  | put k _ => k
  | del k => k

/-- What an edit leaves at its key. -/
def value : Edit κ ν → Option ν
  | put _ v => some v
  | del _ => none

/-- The effect of one edit. -/
def apply [DecidableEq κ] (s : κ → Option ν) (e : Edit κ ν) : κ → Option ν :=
  Function.update s e.key e.value

variable [DecidableEq κ]

@[simp] theorem apply_self (s : κ → Option ν) (e : Edit κ ν) : apply s e e.key = e.value := by
  simp [apply]

@[simp] theorem apply_ne (s : κ → Option ν) (e : Edit κ ν) {k : κ} (h : k ≠ e.key) :
    apply s e k = s k := by
  simp [apply, h]

/-- A key that no edit of the script is about keeps its value. -/
theorem foldl_apply_of_ne (script : List (Edit κ ν)) (s : κ → Option ν) (k : κ)
    (h : ∀ e ∈ script, e.key ≠ k) : script.foldl apply s k = s k := by
  induction script generalizing s with
  | nil => rfl
  | cons e rest ih =>
      rw [List.foldl_cons, ih _ fun e' he' => h e' (List.mem_cons_of_mem _ he')]
      exact apply_ne s e (Ne.symm (h e List.mem_cons_self))

/-- When every edit about `k` leaves `v` there, and there is one, the script
leaves `v` at `k`. -/
theorem foldl_apply_of_mem (script : List (Edit κ ν)) (s : κ → Option ν) (k : κ)
    (v : Option ν) (hall : ∀ e ∈ script, e.key = k → e.value = v)
    (hsome : ∃ e ∈ script, e.key = k) : script.foldl apply s k = v := by
  induction script generalizing s with
  | nil =>
      obtain ⟨e, he, _⟩ := hsome
      exact absurd he List.not_mem_nil
  | cons e rest ih =>
      rw [List.foldl_cons]
      have hrest : ∀ e' ∈ rest, e'.key = k → e'.value = v :=
        fun e' he' => hall e' (List.mem_cons_of_mem _ he')
      by_cases hlater : ∃ e' ∈ rest, e'.key = k
      · exact ih _ hrest hlater
      · -- no later edit is about `k`, so the first one is
        have hnone : ∀ e' ∈ rest, e'.key ≠ k := fun e' he' hk => hlater ⟨e', he', hk⟩
        have hek : e.key = k := by
          obtain ⟨e', he', hk⟩ := hsome
          cases List.mem_cons.mp he' with
          | inl h => rw [← h]; exact hk
          | inr h => exact absurd hk (hnone e' h)
        rw [foldl_apply_of_ne rest _ k hnone, ← hek, apply_self]
        exact hall e List.mem_cons_self hek

end Edit

/-- `script` turns stores that read `old` on the keys of `on` into stores that
read `new` there. -/
structure Turns (script : List (Edit κ ν)) (old new : κ → Option ν) (on : κ → Prop) : Prop where
  /-- An edit leaves its key at the value of `new`. -/
  value : ∀ e ∈ script, on e.key → e.value = new e.key
  /-- A key where the two differ is edited. -/
  covers : ∀ k, on k → old k ≠ new k → ∃ e ∈ script, e.key = k

/-- The rule of `Turns`: the edits may stand in any order. -/
theorem Turns.foldl [DecidableEq κ] {script : List (Edit κ ν)} {old new : κ → Option ν}
    {on : κ → Prop} (h : Turns script old new on) (s : κ → Option ν)
    (hs : ∀ k, on k → s k = old k) (k : κ) (hk : on k) :
    script.foldl Edit.apply s k = new k := by
  by_cases hmem : ∃ e ∈ script, e.key = k
  · refine Edit.foldl_apply_of_mem script s k (new k) (fun e he hek => ?_) hmem
    subst hek
    exact h.value e he hk
  · have hsame : old k = new k := by
      by_contra hne
      exact hmem (h.covers k hk hne)
    rw [Edit.foldl_apply_of_ne script s k fun e he hek => hmem ⟨e, he, hek⟩, hs k hk, hsame]

end Frust.Lib
