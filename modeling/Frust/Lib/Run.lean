import Mathlib.Data.List.Induction

/-!
# `Frust.Lib.Run`: finite runs of a labelled transition system

`Run step s es t`: the labels `es`, taken one after the other, lead from `s` to
`t`. The step is a relation, so one label may have several results.

`Run.invariant` is the induction that every safety theorem uses: what the start
has and each step keeps, the end has. `Run.Steps.invariant` is its form for a run
whose steps all satisfy a condition. `Run.split` cuts a run at one of its steps.
-/

set_option autoImplicit false

namespace Frust.Lib

variable {σ ε : Type*}

/-- A finite run, built at its end. -/
inductive Run (step : σ → ε → σ → Prop) (s : σ) : List ε → σ → Prop where
  | nil : Run step s [] s
  | snoc {es : List ε} {t u : σ} {e : ε} :
      Run step s es t → step t e u → Run step s (es ++ [e]) u

namespace Run

variable {step : σ → ε → σ → Prop} {s t u : σ} {es fs : List ε}

/-- A run of one step. -/
theorem single {e : ε} (h : step s e t) : Run step s [e] t := by
  simpa using Run.snoc Run.nil h

/-- Runs compose. -/
theorem append (h₁ : Run step s es t) (h₂ : Run step t fs u) : Run step s (es ++ fs) u := by
  induction h₂ with
  | nil => simpa using h₁
  | snoc _ hstep ih => rw [← List.append_assoc]; exact ih.snoc hstep

/-- A run with one more step at its start. -/
theorem cons {e : ε} (h : step s e t) (hrun : Run step t es u) : Run step s (e :: es) u := by
  simpa using (single h).append hrun

theorem nil_inv (h : Run step s [] t) : t = s := by
  generalize hl : ([] : List ε) = l at h
  cases h with
  | nil => rfl
  | snoc _ _ => exact absurd hl.symm (by simp)

theorem snoc_inv {e : ε} (h : Run step s (es ++ [e]) u) : ∃ t, Run step s es t ∧ step t e u := by
  generalize hl : es ++ [e] = l at h
  cases h with
  | nil => exact absurd hl (by simp)
  | snoc hrun hstep =>
      obtain ⟨rfl, he⟩ := List.append_inj' hl rfl
      cases he
      exact ⟨_, hrun, hstep⟩

/-- A run over `es ++ fs` passes a state between the two. -/
theorem append_inv (h : Run step s (es ++ fs) u) : ∃ t, Run step s es t ∧ Run step t fs u := by
  induction fs using List.reverseRecOn generalizing u with
  | nil => exact ⟨u, by simpa using h, .nil⟩
  | append_singleton init e ih =>
      rw [← List.append_assoc] at h
      obtain ⟨v, hrun, hstep⟩ := snoc_inv h
      obtain ⟨t, h₁, h₂⟩ := ih hrun
      exact ⟨t, h₁, h₂.snoc hstep⟩

/-- Cuts a run at one of its steps. -/
theorem split {e : ε} (h : Run step s (es ++ e :: fs) u) :
    ∃ a b, Run step s es a ∧ step a e b ∧ Run step b fs u := by
  rw [List.append_cons] at h
  obtain ⟨b, h₁, h₂⟩ := append_inv h
  obtain ⟨a, h₀, hstep⟩ := snoc_inv h₁
  exact ⟨a, b, h₀, hstep, h₂⟩

/-- The first step of a run. -/
theorem cons_inv {e : ε} (h : Run step s (e :: es) u) : ∃ t, step s e t ∧ Run step t es u := by
  have hsplit : Run step s ([] ++ e :: es) u := h
  obtain ⟨a, b, hnil, hstep, hrun⟩ := split hsplit
  cases nil_inv hnil
  exact ⟨b, hstep, hrun⟩

/-- Every step of a run that starts in `s` satisfies `p`: a state reached, a
label and the state after. -/
def Steps (step : σ → ε → σ → Prop) (s : σ) (p : σ → ε → σ → Prop) (es : List ε) (t : σ) :
    Prop :=
  Run (fun a e b => step a e b ∧ p a e b) s es t

/-- Forgets the condition on the steps. -/
theorem Steps.run {p : σ → ε → σ → Prop} (h : Steps step s p es t) : Run step s es t := by
  induction h with
  | nil => exact .nil
  | snoc _ hstep ih => exact ih.snoc hstep.1

/-- A run, without a condition on the steps. -/
theorem steps (h : Run step s es t) : Steps step s (fun _ _ _ => True) es t := by
  induction h with
  | nil => exact .nil
  | snoc _ hstep ih => exact ih.snoc ⟨hstep, trivial⟩

/-- What the start has and each step keeps, the end has. -/
theorem invariant {I : σ → Prop} (h : Run step s es t) (h0 : I s)
    (hstep : ∀ a e b, I a → step a e b → I b) : I t := by
  induction h with
  | nil => exact h0
  | snoc _ hs ih => exact hstep _ _ _ ih hs

/-- `invariant`, where the labels of the run are known. -/
theorem invariant_of_mem {I : σ → Prop} (h : Run step s es t) (h0 : I s)
    (hstep : ∀ a e b, e ∈ es → I a → step a e b → I b) : I t := by
  induction h with
  | nil => exact h0
  | snoc _ hs ih =>
      refine hstep _ _ _ (by simp) (ih fun a e b he => ?_) hs
      exact hstep a e b (List.mem_append_left _ he)

/-- `invariant`, where each step of the run satisfies `p`. -/
theorem Steps.invariant {p : σ → ε → σ → Prop} {I : σ → Prop} (h : Steps step s p es t)
    (h0 : I s) (hstep : ∀ a e b, I a → step a e b → p a e b → I b) : I t :=
  Run.invariant h h0 fun a e b ha hab => hstep a e b ha hab.1 hab.2

/-- A condition that holds wherever a part of the run has led. -/
theorem steps_of_prefix {p : σ → ε → Prop} (h : Run step s es t)
    (hp : ∀ pre e post a, es = pre ++ e :: post → Run step s pre a → p a e) :
    Steps step s (fun a e _ => p a e) es t := by
  induction h with
  | nil => exact .nil
  | @snoc es a b e hrun hstep ih =>
      have hinit := ih fun pre e' post a' hes ha' =>
        hp pre e' (post ++ [e]) a' (by rw [hes]; simp) ha'
      exact hinit.snoc ⟨hstep, hp es e [] a rfl hrun⟩

/-- Under an invariant, a condition on the steps may be replaced by another that it
gives and that keeps the invariant. -/
theorem Steps.of_invariant {p q : σ → ε → σ → Prop} {I : σ → Prop} (h : Steps step s p es t)
    (h0 : I s) (hstep : ∀ a e b, I a → step a e b → p a e b → q a e b ∧ I b) :
    Steps step s q es t ∧ I t := by
  induction h with
  | nil => exact ⟨.nil, h0⟩
  | snoc _ hs ih =>
      obtain ⟨hrun, hI⟩ := ih
      obtain ⟨hq, hI'⟩ := hstep _ _ _ hI hs.1 hs.2
      exact ⟨hrun.snoc ⟨hs.1, hq⟩, hI'⟩

end Run

end Frust.Lib
