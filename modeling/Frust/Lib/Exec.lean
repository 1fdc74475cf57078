import Frust.Lib.Prog
import Frust.Lib.Run

/-!
# `Frust.Lib.Exec`: one program in an environment

The environment has a state, and a relation says which answers it may give and what it becomes.
A run of a program is a list of requests with their answers. `run_bind` cuts a run of a
program of two parts where the first part ends, so that what a program did before it asks
something is read off its text.

`Always` is the program logic: a condition on every state that the program passes through, and
a postcondition. It is proved part by part (`Always.bind`, `Always.attempt`) and holds in
every run (`Always.of_run`).
-/

set_option autoImplicit false

namespace Frust.Lib

namespace Prog

variable {ε Q σ α β : Type} {R : Q → Type} {answers : σ → (q : Q) → R q → σ → Prop}

/-- A program asks its request, is answered, and goes on. -/
def Exchange (answers : σ → (q : Q) → R q → σ → Prop) (p : Prog ε Q R α × σ) (e : Σ q, R q)
    (p' : Prog ε Q R α × σ) : Prop :=
  ∃ next, p.1 = .ask e.1 next ∧ p'.1 = next e.2 ∧ answers p.2 e.1 e.2 p'.2

/-- A run of a program, from a state to a program and a state. -/
abbrev Runs (answers : σ → (q : Q) → R q → σ → Prop) (p : Prog ε Q R α) (s : σ)
    (es : List (Σ q, R q)) (p' : Prog ε Q R α) (s' : σ) : Prop :=
  Run (Exchange answers) (p, s) es (p', s')

/-! ### Runs of two parts -/

/-- A program of two parts that asks: the first part asks, or it has ended and the second
part asks. -/
theorem bind_eq_ask {p : Prog ε Q R α} {f : α → Prog ε Q R β} {q : Q}
    {next : R q → Prog ε Q R β} (h : p >>= f = .ask q next) :
    (∃ next₁, p = .ask q next₁ ∧ next = fun r => next₁ r >>= f) ∨
      ∃ a, p = .done (.ok a) ∧ f a = .ask q next := by
  cases p with
  | done result =>
      cases result with
      | ok a => exact Or.inr ⟨a, rfl, h⟩
      | error e => cases h
  | ask q₁ next₁ =>
      cases h
      exact Or.inl ⟨next₁, rfl, rfl⟩

/-- A run of two parts is in the first part, or it is one of the first part to its end and then
one of the second. -/
theorem run_bind {p : Prog ε Q R α} {f : α → Prog ε Q R β} {s s' : σ} {es : List (Σ q, R q)}
    {p' : Prog ε Q R β} (h : Runs answers (p >>= f) s es p' s') :
    (∃ p₁, Runs answers p s es p₁ s' ∧ p' = p₁ >>= f) ∨
      ∃ es₁ es₂ a s₁, es = es₁ ++ es₂ ∧ Runs answers p s es₁ (.done (.ok a)) s₁ ∧
        Runs answers (f a) s₁ es₂ p' s' := by
  unfold Runs at h
  generalize hend : (p', s') = t at h
  induction h generalizing p' s' with
  | nil =>
      cases hend
      exact Or.inl ⟨p, .nil, rfl⟩
  | @snoc es t u e hrun hstep ih =>
      cases hend
      obtain ⟨t₁, t₂⟩ := t
      obtain ⟨next, hask, hnext, hans⟩ := hstep
      rcases ih rfl with ⟨p₁, hp₁, hbind⟩ | ⟨es₁, es₂, a, s₁, rfl, hfirst, hsecond⟩
      · rcases bind_eq_ask (hbind.symm.trans hask) with ⟨next₁, rfl, rfl⟩ | ⟨a, rfl, hf⟩
        · exact Or.inl ⟨next₁ e.2, hp₁.snoc ⟨next₁, rfl, rfl, hans⟩, hnext⟩
        · exact Or.inr ⟨es, [e], a, t₂, rfl, hp₁, Run.single ⟨next, hf, hnext, hans⟩⟩
      · refine Or.inr ⟨es₁, es₂ ++ [e], a, s₁, by rw [List.append_assoc], hfirst, ?_⟩
        exact hsecond.snoc ⟨next, hask, hnext, hans⟩

/-- Runs of two parts, one after the other. -/
theorem runs_bind {p : Prog ε Q R α} {f : α → Prog ε Q R β} {s s₁ s' : σ}
    {es₁ es₂ : List (Σ q, R q)} {a : α} {p' : Prog ε Q R β}
    (h : Runs answers p s es₁ (.done (.ok a)) s₁) (h' : Runs answers (f a) s₁ es₂ p' s') :
    Runs answers (p >>= f) s (es₁ ++ es₂) p' s' := by
  have hfirst : ∀ {es : List (Σ q, R q)} {p₁ : Prog ε Q R α} {t : σ}, Runs answers p s es p₁ t →
      Runs answers (p >>= f) s es (p₁ >>= f) t := by
    intro es p₁ t hrun
    unfold Runs at hrun
    generalize hend : (p₁, t) = u at hrun
    induction hrun generalizing p₁ t with
    | nil =>
        cases hend
        exact .nil
    | @snoc es t' u e hrun hstep ih =>
        cases hend
        obtain ⟨t₁, t₂⟩ := t'
        obtain ⟨next, hask, hnext, hans⟩ := hstep
        have hask' : t₁ = .ask e.1 next := hask
        have hnext' : p₁ = next e.2 := hnext
        subst hask' hnext'
        exact (ih rfl).snoc ⟨fun r => next r >>= f, rfl, rfl, hans⟩
  exact (hfirst h).append h'

/-- A run of two parts to a value goes through the first part. -/
theorem run_bind_ok_inv {p : Prog ε Q R α} {f : α → Prog ε Q R β} {s s' : σ} {es : List (Σ q, R q)}
    {b : β} (h : Runs answers (p >>= f) s es (.done (.ok b)) s') :
    ∃ es₁ es₂ a s₁, es = es₁ ++ es₂ ∧ Runs answers p s es₁ (.done (.ok a)) s₁ ∧
      Runs answers (f a) s₁ es₂ (.done (.ok b)) s' := by
  rcases run_bind h with ⟨p₁, hp₁, hend⟩ | hboth
  · cases p₁ with
    | ask q next => cases hend
    | done result =>
        cases result with
        | error e => cases hend
        | ok a =>
            have hf : f a = .done (.ok b) := hend.symm
            exact ⟨es, [], a, s', by simp, hp₁, hf ▸ .nil⟩
  · exact hboth

/-- A run, seen in another environment. -/
theorem runs_map {τ : Type} {answers' : τ → (q : Q) → R q → τ → Prop} (f : σ → τ)
    (hf : ∀ s q r s', answers s q r s' → answers' (f s) q r (f s')) {p p' : Prog ε Q R α}
    {s s' : σ} {es : List (Σ q, R q)} (h : Runs answers p s es p' s') :
    Runs answers' p (f s) es p' (f s') := by
  unfold Runs at h
  generalize hend : (p', s') = t at h
  induction h generalizing p' s' with
  | nil =>
      cases hend
      exact .nil
  | @snoc es t u e hrun hstep ih =>
      cases hend
      obtain ⟨next, hask, hnext, hans⟩ := hstep
      exact (ih rfl).snoc ⟨next, hask, hnext, hf _ _ _ _ hans⟩

/-- What every answer keeps, the end of a run has. -/
theorem runs_invariant {I : σ → Prop} (hI : ∀ s q r s', I s → answers s q r s' → I s')
    {p p' : Prog ε Q R α} {s s' : σ} {es : List (Σ q, R q)} (h : Runs answers p s es p' s')
    (hs : I s) : I s' := by
  refine Run.invariant (I := fun c => I c.2) h hs fun a e b ha hstep => ?_
  obtain ⟨_, _, _, hans⟩ := hstep
  exact hI _ _ _ _ ha hans

/-- A program that has ended does nothing more. -/
theorem run_ended {result : Except ε α} {s s' : σ} {es : List (Σ q, R q)} {p' : Prog ε Q R α}
    (h : Runs answers (.done result) s es p' s') : es = [] ∧ p' = .done result ∧ s' = s := by
  unfold Runs at h
  generalize hend : (p', s') = t at h
  induction h generalizing p' s' with
  | nil =>
      cases hend
      exact ⟨rfl, rfl, rfl⟩
  | @snoc es t u e hrun hstep ih =>
      obtain ⟨t₁, t₂⟩ := t
      obtain ⟨next, hask, _, _⟩ := hstep
      obtain ⟨_, hdone, _⟩ := ih rfl
      cases hdone.symm.trans hask

/-- A program that asks has asked nothing yet, or it has been answered. -/
theorem run_ask_inv {q : Q} {next : R q → Prog ε Q R α} {s s' : σ} {es : List (Σ q, R q)}
    {p' : Prog ε Q R α} (h : Runs answers (.ask q next) s es p' s') :
    (es = [] ∧ p' = .ask q next ∧ s' = s) ∨ ∃ r s₁ es', es = ⟨q, r⟩ :: es' ∧
      answers s q r s₁ ∧ Runs answers (next r) s₁ es' p' s' := by
  cases es with
  | nil =>
      cases Run.nil_inv h
      exact Or.inl ⟨rfl, rfl, rfl⟩
  | cons e es' =>
      obtain ⟨⟨p₁, s₁⟩, ⟨next₁, hask, hnext, hans⟩, hrest⟩ := Run.cons_inv h
      cases hask
      dsimp only at hnext hans
      subst hnext
      exact Or.inr ⟨e.2, s₁, es', rfl, hans, hrest⟩

/-- A run of an attempt is a run of what is attempted. -/
theorem run_attempt {p : Prog ε Q R α} {s s' : σ} {es : List (Σ q, R q)}
    {p' : Prog ε Q R (Except ε α)} (h : Runs answers p.attempt s es p' s') :
    ∃ p₁, Runs answers p s es p₁ s' ∧ p' = p₁.attempt := by
  unfold Runs at h
  generalize hend : (p', s') = t at h
  induction h generalizing p' s' with
  | nil =>
      cases hend
      exact ⟨p, .nil, rfl⟩
  | @snoc es t u e hrun hstep ih =>
      cases hend
      obtain ⟨t₁, t₂⟩ := t
      obtain ⟨next, hask, hnext, hans⟩ := hstep
      obtain ⟨p₁, hp₁, hattempt⟩ := ih rfl
      cases p₁ with
      | done result => cases hattempt.symm.trans hask
      | ask q next₁ =>
          cases hattempt.symm.trans hask
          exact ⟨next₁ e.2, hp₁.snoc ⟨next₁, rfl, rfl, hans⟩, hnext⟩

/-- What every request of a program satisfies, every request of its runs satisfies. -/
theorem Only.of_run {P : Q → Prop} {p p' : Prog ε Q R α} {s s' : σ} {es : List (Σ q, R q)}
    (h : p.Only P) (hrun : Runs answers p s es p' s') : (∀ e ∈ es, P e.1) ∧ p'.Only P := by
  unfold Runs at hrun
  generalize hend : (p', s') = t at hrun
  induction hrun generalizing p' s' with
  | nil =>
      cases hend
      exact ⟨fun e he => (by cases he), h⟩
  | @snoc es t u e hrun hstep ih =>
      cases hend
      obtain ⟨t₁, t₂⟩ := t
      obtain ⟨next, hask, hnext, _⟩ := hstep
      obtain ⟨hall, honly⟩ := ih rfl
      have hask' : t₁ = .ask e.1 next := hask
      have hnext' : p' = next e.2 := hnext
      subst hask' hnext'
      refine ⟨fun e' he' => ?_, honly.2 e.2⟩
      rcases List.mem_append.mp he' with he' | he'
      · exact hall e' he'
      · exact List.mem_singleton.mp he' ▸ honly.1

/-- A run of two parts to a request that the first part does not ask: the first part has ended. -/
theorem Only.run_bind_ask {P : Q → Prop} {p : Prog ε Q R α} {f : α → Prog ε Q R β} {s s' : σ}
    {es : List (Σ q, R q)} {q : Q} {next : R q → Prog ε Q R β} (hP : p.Only P) (hq : ¬ P q)
    (h : Runs answers (p >>= f) s es (.ask q next) s') :
    ∃ es₁ es₂ a s₁, es = es₁ ++ es₂ ∧ Runs answers p s es₁ (.done (.ok a)) s₁ ∧
      Runs answers (f a) s₁ es₂ (.ask q next) s' := by
  rcases run_bind h with ⟨p₁, hp₁, hask⟩ | hboth
  · rcases bind_eq_ask hask.symm with ⟨next₁, rfl, _⟩ | ⟨a, rfl, hf⟩
    · exact absurd (hP.of_run hp₁).2.1 hq
    · exact ⟨es, [], a, s', by simp, hp₁, hf ▸ .nil⟩
  · exact hboth

/-- A program whose later requests all satisfy `P`, in a run to a request that does not: it has
asked nothing yet. -/
theorem run_ask_first {P : Q → Prop} {q q' : Q} {next : R q → Prog ε Q R α}
    {next' : R q' → Prog ε Q R α} {s s' : σ} {es : List (Σ q, R q)} (hP : ∀ r, (next r).Only P)
    (hq' : ¬ P q') (h : Runs answers (.ask q next) s es (.ask q' next') s') :
    es = [] ∧ q' = q ∧ s' = s := by
  rcases run_ask_inv h with ⟨rfl, hask, rfl⟩ | ⟨r, s₁, es', rfl, _, hrest⟩
  · cases hask
    exact ⟨rfl, rfl, rfl⟩
  · exact absurd ((hP r).of_run hrest).2.1 hq'

/-- Every request satisfies `P`, until one satisfies `stop`. -/
def Until (P stop : Q → Prop) : Prog ε Q R α → Prop
  | .done _ => True
  | .ask q next => stop q ∨ (P q ∧ ∀ r, (next r).Until P stop)

section

variable {P stop : Q → Prop}

theorem Only.until {p : Prog ε Q R α} (h : p.Only P) : p.Until P stop := by
  induction p with
  | done result => trivial
  | ask q next ih => exact Or.inr ⟨h.1, fun r => ih r (h.2 r)⟩

theorem Until.bind {p : Prog ε Q R α} {f : α → Prog ε Q R β} (h : p.Until P stop)
    (hf : ∀ a, (f a).Until P stop) : (p >>= f).Until P stop := by
  induction p with
  | done result =>
      cases result with
      | ok a => exact hf a
      | error e => trivial
  | ask q next ih => exact h.imp_right fun h => ⟨h.1, fun r => ih r (h.2 r)⟩

/-- In a run without a request that stops, every request satisfies `P`. -/
theorem Until.of_run {p p' : Prog ε Q R α} {s s' : σ} {es : List (Σ q, R q)}
    (h : p.Until P stop) (hrun : Runs answers p s es p' s') (hes : ∀ e ∈ es, ¬ stop e.1) :
    (∀ e ∈ es, P e.1) ∧ p'.Until P stop := by
  unfold Runs at hrun
  generalize hend : (p', s') = t at hrun
  induction hrun generalizing p' s' with
  | nil =>
      cases hend
      exact ⟨fun e he => (by cases he), h⟩
  | @snoc es t u e hrun hstep ih =>
      cases hend
      obtain ⟨t₁, t₂⟩ := t
      obtain ⟨next, hask, hnext, _⟩ := hstep
      obtain ⟨hall, huntil⟩ := ih (fun e' he' => hes e' (List.mem_append_left _ he')) rfl
      have hask' : t₁ = .ask e.1 next := hask
      have hnext' : p' = next e.2 := hnext
      subst hask' hnext'
      have he := huntil.resolve_left (hes e (by simp))
      refine ⟨fun e' he' => ?_, he.2 e.2⟩
      rcases List.mem_append.mp he' with he' | he'
      · exact hall e' he'
      · exact List.mem_singleton.mp he' ▸ he.1

end

/-! ### A program logic -/

/-- Every state that the program passes satisfies `mid`, and where it ends, `post` holds. -/
def Always (answers : σ → (q : Q) → R q → σ → Prop) (mid : σ → Prop) (post : Except ε α → σ → Prop) :
    Prog ε Q R α → σ → Prop
  | .done result, s => mid s ∧ post result s
  | .ask q next, s => mid s ∧ ∀ r s', answers s q r s' → Always answers mid post (next r) s'

section

variable {mid : σ → Prop} {post : Except ε α → σ → Prop} {s : σ}

@[simp] theorem always_done (result : Except ε α) :
    Always answers mid post (Prog.done result : Prog ε Q R α) s ↔ mid s ∧ post result s := Iff.rfl

@[simp] theorem always_ask (q : Q) (next : R q → Prog ε Q R α) :
    Always answers mid post (Prog.ask q next) s ↔
      mid s ∧ ∀ r s', answers s q r s' → Always answers mid post (next r) s' := Iff.rfl

/-- Weaker conditions. -/
theorem Always.mono {mid' : σ → Prop} {post' : Except ε α → σ → Prop} {p : Prog ε Q R α}
    (h : Always answers mid post p s) (hmid : ∀ s, mid s → mid' s)
    (hpost : ∀ r s, mid s → post r s → post' r s) : Always answers mid' post' p s := by
  induction p generalizing s with
  | done result => exact ⟨hmid s h.1, hpost result s h.1 h.2⟩
  | ask q next ih => exact ⟨hmid s h.1, fun r s' hans => ih r (h.2 r s' hans)⟩

/-- What the first part ends with, the second part goes on from. -/
theorem Always.bind {post' : Except ε β → σ → Prop} {p : Prog ε Q R α} {f : α → Prog ε Q R β}
    (h : Always answers mid post p s)
    (hok : ∀ a s, mid s → post (.ok a) s → Always answers mid post' (f a) s)
    (herr : ∀ e s, mid s → post (.error e) s → post' (.error e) s) :
    Always answers mid post' (p >>= f) s := by
  induction p generalizing s with
  | done result =>
      cases result with
      | ok a => exact hok a s h.1 h.2
      | error e => exact ⟨h.1, herr e s h.1 h.2⟩
  | ask q next ih => exact ⟨h.1, fun r s' hans => ih r (h.2 r s' hans)⟩

/-- What an attempt ends with, it goes on from. -/
theorem Always.attempt {post' : Except ε (Except ε α) → σ → Prop} {p : Prog ε Q R α}
    (h : Always answers mid post p s) (himp : ∀ r s, mid s → post r s → post' (.ok r) s) :
    Always answers mid post' p.attempt s := by
  induction p generalizing s with
  | done result => exact ⟨h.1, himp result s h.1 h.2⟩
  | ask q next ih => exact ⟨h.1, fun r s' hans => ih r (h.2 r s' hans)⟩

/-- In every run. -/
theorem Always.of_run {p p' : Prog ε Q R α} {s' : σ} {es : List (Σ q, R q)}
    (h : Always answers mid post p s) (hrun : Runs answers p s es p' s') :
    Always answers mid post p' s' := by
  unfold Runs at hrun
  generalize hend : (p', s') = t at hrun
  induction hrun generalizing p' s' with
  | nil =>
      cases hend
      exact h
  | @snoc es t u e hrun hstep ih =>
      cases hend
      obtain ⟨t₁, t₂⟩ := t
      obtain ⟨next, hask, hnext, hans⟩ := hstep
      have hask' : t₁ = .ask e.1 next := hask
      have hnext' : p' = next e.2 := hnext
      subst hask' hnext'
      exact (ih rfl).2 e.2 s' hans

/-- What every request of a program keeps, every state of its runs has. -/
theorem Only.always {P : Q → Prop} {p : Prog ε Q R α} (h : p.Only P) (hs : mid s)
    (hkeep : ∀ s q r s', P q → mid s → answers s q r s' → mid s') :
    Always answers mid (fun _ _ => True) p s := by
  induction p generalizing s with
  | done result => exact ⟨hs, trivial⟩
  | ask q next ih => exact ⟨hs, fun r s' hans => ih r (h.2 r) (hkeep s q r s' h.1 hs hans)⟩

/-- What every state satisfies, the last state satisfies. -/
theorem Always.holds {p : Prog ε Q R α} (h : Always answers mid post p s) : mid s := by
  cases p with
  | done result => exact h.1
  | ask q next => exact h.1

end

end Prog

end Frust.Lib
