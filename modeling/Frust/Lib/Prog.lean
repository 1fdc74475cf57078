import Mathlib.Data.List.Forall2

/-!
# `Frust.Lib.Prog`: programs that ask their environment

A `Prog` is a tree. It ends with a value or an error, or it asks a request of type
`Q` and goes on with the answer, of type `R q`. What the environment is (a database,
hooks, other programs in between) is left to the one who runs it.

`run` gives each request to a handler with a state. `Returns` is the program logic
for one program: whatever allowed answers it gets, its result satisfies the
postcondition. `Returns.run` connects the two.
-/

set_option autoImplicit false

namespace Frust.Lib

/-- A computation that succeeds went through both of its parts. -/
theorem bind_eq_ok {ε α β : Type} {x : Except ε α} {f : α → Except ε β} {b : β}
    (h : x >>= f = .ok b) : ∃ a, x = .ok a ∧ f a = .ok b := by
  cases x with
  | error e => exact absurd h (by simp [bind, Except.bind])
  | ok a => exact ⟨a, rfl, h⟩

theorem bind_of_ok {ε α β : Type} {x : Except ε α} {f : α → Except ε β} {a : α} {b : β}
    (hx : x = .ok a) (hf : f a = .ok b) : x >>= f = .ok b := by
  rw [hx]
  exact hf

/-- What is only renamed succeeds when it did. -/
theorem bind_pure_ok_iff {ε α β : Type} {x : Except ε α} {g : α → β} :
    (∃ b, x >>= (fun a => pure (g a)) = .ok b) ↔ ∃ a, x = .ok a := by
  constructor
  · rintro ⟨b, h⟩
    obtain ⟨a, ha, -⟩ := bind_eq_ok h
    exact ⟨a, ha⟩
  · rintro ⟨a, ha⟩
    exact ⟨g a, bind_of_ok ha rfl⟩

/-- A loop that succeeds made one result of each element. -/
theorem forall₂_of_mapM_ok {ε α β : Type} {f : α → Except ε β} {as : List α} {bs : List β}
    (h : as.mapM f = .ok bs) : List.Forall₂ (fun a b => f a = .ok b) as bs := by
  induction as generalizing bs with
  | nil =>
      cases h
      exact .nil
  | cons a as ih =>
      rw [List.mapM_cons] at h
      obtain ⟨b, hb, h⟩ := bind_eq_ok h
      obtain ⟨bs', hbs, h⟩ := bind_eq_ok h
      cases h
      exact .cons hb (ih hbs)

theorem mapM_cons_ok_iff {ε α β : Type} {f : α → Except ε β} {a : α} {as : List α} {b : β}
    {bs : List β} : (a :: as).mapM f = .ok (b :: bs) ↔ f a = .ok b ∧ as.mapM f = .ok bs := by
  constructor
  · intro h
    cases forall₂_of_mapM_ok h with
    | cons hb hbs =>
        refine ⟨hb, ?_⟩
        rw [List.mapM_cons] at h
        obtain ⟨_, _, h⟩ := bind_eq_ok h
        obtain ⟨_, hrest, h⟩ := bind_eq_ok h
        cases h
        exact hrest
  · rintro ⟨hb, hbs⟩
    rw [List.mapM_cons]
    exact bind_of_ok hb (bind_of_ok hbs rfl)

/-- A loop in which every turn succeeds. -/
theorem mapM_ok {ε α β : Type} {f : α → Except ε β} {g : α → β} {l : List α}
    (h : ∀ a ∈ l, f a = .ok (g a)) : l.mapM f = .ok (l.map g) := by
  induction l with
  | nil => rfl
  | cons a l ih =>
      rw [List.mapM_cons]
      exact bind_of_ok (h a List.mem_cons_self)
        (bind_of_ok (ih fun b hb => h b (List.mem_cons_of_mem a hb)) rfl)

/-- A loop succeeds if every turn does. -/
theorem mapM_ok_iff {ε α β : Type} {f : α → Except ε β} {l : List α} :
    (∃ bs, l.mapM f = .ok bs) ↔ ∀ a ∈ l, ∃ b, f a = .ok b := by
  induction l with
  | nil => exact ⟨fun _ a ha => (nomatch ha), fun _ => ⟨[], rfl⟩⟩
  | cons a l ih =>
      rw [List.forall_mem_cons, ← ih, List.mapM_cons]
      constructor
      · rintro ⟨bs, h⟩
        obtain ⟨b, hb, h⟩ := bind_eq_ok h
        obtain ⟨bs', hbs, -⟩ := bind_eq_ok h
        exact ⟨⟨b, hb⟩, bs', hbs⟩
      · rintro ⟨⟨b, hb⟩, bs, hbs⟩
        exact ⟨b :: bs, bind_of_ok hb (bind_of_ok hbs rfl)⟩

/-- What the relation says of the second part holds of every element of the second list. -/
theorem forall_of_forall₂ {α β : Type} {R : α → β → Prop} {P : β → Prop} {xs : List α} {ys : List β}
    (h : List.Forall₂ R xs ys) (hP : ∀ x y, R x y → P y) : ∀ y ∈ ys, P y := by
  induction h with
  | nil => exact fun _ hy => nomatch hy
  | cons hR _ ih =>
      intro y hy
      rcases List.mem_cons.mp hy with rfl | hy
      · exact hP _ _ hR
      · exact ih y hy

/-- A program with errors `ε`, requests `Q` and answers `R`. -/
inductive Prog (ε Q : Type) (R : Q → Type) (α : Type) where
  | done (result : Except ε α)
  | ask (q : Q) (next : R q → Prog ε Q R α)

/-- Two computations that go on alike wherever the first part succeeds. -/
theorem bind_congr_ok {ε α β : Type} {x : Except ε α} {f g : α → Except ε β}
    (h : ∀ a, x = .ok a → f a = g a) : x >>= f = x >>= g := by
  cases x with
  | error e => rfl
  | ok a => exact h a rfl

namespace Prog

variable {ε Q σ α β : Type} {R : Q → Type}

/-- The first error ends the program. -/
protected def bind : Prog ε Q R α → (α → Prog ε Q R β) → Prog ε Q R β
  | .done (.ok a), f => f a
  | .done (.error e), _ => .done (.error e)
  | .ask q next, f => .ask q fun r => (next r).bind f

instance : Monad (Prog ε Q R) where
  pure a := .done (.ok a)
  bind := Prog.bind

@[simp] theorem bind_ok (a : α) (f : α → Prog ε Q R β) :
    (Prog.done (.ok a) : Prog ε Q R α) >>= f = f a := rfl

@[simp] theorem bind_ask (q : Q) (next : R q → Prog ε Q R α) (f : α → Prog ε Q R β) :
    Prog.ask q next >>= f = .ask q fun r => next r >>= f := rfl

theorem bind_bind {γ : Type} (p : Prog ε Q R α) (f : α → Prog ε Q R β) (g : β → Prog ε Q R γ) :
    p >>= f >>= g = p >>= fun a => f a >>= g := by
  induction p with
  | done result => cases result <;> rfl
  | ask q next ih => exact congrArg (Prog.ask q) (funext ih)

/-- Goes on with an error as with a value. -/
def attempt : Prog ε Q R α → Prog ε Q R (Except ε α)
  | .done result => .done (.ok result)
  | .ask q next => .ask q fun r => (next r).attempt

/-! ### Running against a handler -/

/-- Runs a program against a handler with a state. -/
def run (answer : σ → (q : Q) → R q × σ) : Prog ε Q R α → σ → Except ε α × σ
  | .done result, s => (result, s)
  | .ask q next, s => (next (answer s q).1).run answer (answer s q).2

@[simp] theorem run_ask (answer : σ → (q : Q) → R q × σ) (q : Q) (next : R q → Prog ε Q R α)
    (s : σ) : (Prog.ask q next).run answer s = (next (answer s q).1).run answer (answer s q).2 :=
  rfl

/-- A run of both parts, where the first succeeds. -/
theorem run_bind_ok {answer : σ → (q : Q) → R q × σ} {p : Prog ε Q R α} {f : α → Prog ε Q R β}
    {s s' : σ} {a : α} (h : p.run answer s = (.ok a, s')) :
    (p >>= f).run answer s = (f a).run answer s' := by
  induction p generalizing s with
  | done result =>
      cases h
      rfl
  | ask q next ih => exact ih _ h

/-- A run of both parts, where the first fails. -/
theorem run_bind_error {answer : σ → (q : Q) → R q × σ} {p : Prog ε Q R α}
    {f : α → Prog ε Q R β} {s s' : σ} {e : ε} (h : p.run answer s = (.error e, s')) :
    (p >>= f).run answer s = (.error e, s') := by
  induction p generalizing s with
  | done result =>
      cases h
      rfl
  | ask q next ih => exact ih _ h

/-- A run of both parts that succeeds went through both. -/
theorem run_bind_inv {answer : σ → (q : Q) → R q × σ} {p : Prog ε Q R α} {f : α → Prog ε Q R β}
    {s s' : σ} {b : β} (h : (p >>= f).run answer s = (.ok b, s')) :
    ∃ a s₁, p.run answer s = (.ok a, s₁) ∧ (f a).run answer s₁ = (.ok b, s') := by
  induction p generalizing s with
  | done result =>
      cases result with
      | ok a => exact ⟨a, s, rfl, h⟩
      | error e =>
          have herr : (Except.error e : Except ε β) = .ok b := congrArg Prod.fst h
          cases herr
  | ask q next ih => exact ih _ h

/-- A run of both parts ends in the first one, with its error, or goes through it. -/
theorem run_bind_cases {answer : σ → (q : Q) → R q × σ} {p : Prog ε Q R α}
    {f : α → Prog ε Q R β} {s s' : σ} {r : Except ε β}
    (h : (p >>= f).run answer s = (r, s')) :
    (p.run answer s).2 = s' ∨
      ∃ a s₁, p.run answer s = (.ok a, s₁) ∧ (f a).run answer s₁ = (r, s') := by
  induction p generalizing s with
  | done result =>
      cases result with
      | ok a => exact Or.inr ⟨a, s, rfl, h⟩
      | error e => exact Or.inl (congrArg Prod.snd h)
  | ask q next ih => exact ih _ h

/-! ### What a program returns -/

/-- Every result, over all allowed answers, satisfies the postcondition. -/
def Returns (allowed : (q : Q) → R q → Prop) (post : Except ε α → Prop) : Prog ε Q R α → Prop
  | .done result => post result
  | .ask q next => ∀ r, allowed q r → (next r).Returns allowed post

variable {allowed : (q : Q) → R q → Prop}

@[simp] theorem returns_done (post : Except ε α → Prop) (result : Except ε α) :
    (Prog.done result : Prog ε Q R α).Returns allowed post ↔ post result := Iff.rfl

@[simp] theorem returns_ask (post : Except ε α → Prop) (q : Q) (next : R q → Prog ε Q R α) :
    (Prog.ask q next).Returns allowed post ↔
      ∀ r, allowed q r → (next r).Returns allowed post := Iff.rfl

/-- A weaker postcondition. -/
theorem Returns.mono {post post' : Except ε α → Prop} {p : Prog ε Q R α}
    (h : p.Returns allowed post) (himp : ∀ result, post result → post' result) :
    p.Returns allowed post' := by
  induction p with
  | done result => exact himp result h
  | ask q next ih => exact fun r hr => ih r (h r hr)

/-- What the first part returns, the second part goes on from. -/
theorem Returns.bind {post : Except ε α → Prop} {post' : Except ε β → Prop} {p : Prog ε Q R α}
    {f : α → Prog ε Q R β} (h : p.Returns allowed post)
    (hok : ∀ a, post (.ok a) → (f a).Returns allowed post')
    (herr : ∀ e, post (.error e) → post' (.error e)) : (p >>= f).Returns allowed post' := by
  induction p with
  | done result =>
      cases result with
      | ok a => exact hok a h
      | error e => exact herr e h
  | ask q next ih => exact fun r hr => ih r (h r hr)

/-- A run whose answers are allowed. -/
theorem Returns.run {post : Except ε α → Prop} {p : Prog ε Q R α}
    {answer : σ → (q : Q) → R q × σ} (h : p.Returns allowed post)
    (hanswer : ∀ s q, allowed q (answer s q).1) (s : σ) : post (p.run answer s).1 := by
  induction p generalizing s with
  | done result => exact h
  | ask q next ih => exact ih _ (h _ (hanswer s q)) _

/-! ### What a program asks -/

/-- Every request, over all answers, satisfies `P`. -/
def Only (P : Q → Prop) : Prog ε Q R α → Prop
  | .done _ => True
  | .ask q next => P q ∧ ∀ r, (next r).Only P

section

variable {P : Q → Prop}

@[simp] theorem only_done (result : Except ε α) :
    (Prog.done result : Prog ε Q R α).Only P := trivial

@[simp] theorem only_ask (q : Q) (next : R q → Prog ε Q R α) :
    (Prog.ask q next).Only P ↔ P q ∧ ∀ r, (next r).Only P := Iff.rfl

theorem Only.bind {p : Prog ε Q R α} {f : α → Prog ε Q R β} (h : p.Only P)
    (hf : ∀ a, (f a).Only P) : (p >>= f).Only P := by
  induction p with
  | done result =>
      cases result with
      | ok a => exact hf a
      | error e => trivial
  | ask q next ih => exact ⟨h.1, fun r => ih r (h.2 r)⟩

theorem Only.mono {P' : Q → Prop} {p : Prog ε Q R α} (h : p.Only P) (himp : ∀ q, P q → P' q) :
    p.Only P' := by
  induction p with
  | done result => trivial
  | ask q next ih => exact ⟨himp q h.1, fun r => ih r (h.2 r)⟩

/-- A run keeps what every request of the program keeps. -/
theorem Only.run_invariant {I : σ → Prop} {answer : σ → (q : Q) → R q × σ}
    (hkeep : ∀ s q, P q → I s → I (answer s q).2) {p : Prog ε Q R α} (h : p.Only P) {s : σ}
    (hs : I s) : I (p.run answer s).2 := by
  induction p generalizing s with
  | done result => exact hs
  | ask q next ih => exact ih _ (h.2 _) (hkeep s q h.1 hs)

end

end Prog

end Frust.Lib
