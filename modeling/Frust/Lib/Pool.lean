import Frust.Lib.Prog
import Frust.Lib.Run

/-!
# `Frust.Lib.Pool`: programs that run side by side

A `Pool` is a family of programs over one shared state. A step takes one program one
request further; `answers` says which answers the shared state may give, and what it
becomes. So any interleaving of the requests is a run.

What a program has seen is kept beside it as `known`, by `learn`; no step depends on
it. `Safe ok post` says that a program asks only what is `ok` for what it has seen by
then, whatever the answers, and that it ends with `post`. It is about one program alone.
Every step of the pool keeps it (`Safe.step`), so that in a run each step asks what is
`ok` (`Safe.asks`), and each program that has ended has ended with `post`. `Moves` adds that a
program may stop for good at any point, and `nodup_started` is about what a program starts in
a run.
-/

set_option autoImplicit false

namespace Frust.Lib

/-- An environment: the answers it may give, and what a program learns from them. -/
structure Env (Q : Type) (R : Q → Type) (σ κ : Type) where
  answers : σ → (q : Q) → R q → σ → Prop
  learn : σ → κ → (q : Q) → R q → κ

/-- The shared state, the programs and what each has seen. -/
structure Pool (ε Q : Type) (R : Q → Type) (α σ κ ι : Type) where
  shared : σ
  prog : ι → Prog ε Q R α
  known : ι → κ

/-- One step: the program, its request and the answer. -/
structure Turn (Q : Type) (R : Q → Type) (ι : Type) where
  thread : ι
  request : Q
  answer : R request

namespace Pool

variable {ε Q α β σ κ ι : Type} {R : Q → Type}

/-- Asks only what is `ok` for what has been seen by then, if all answers are `allowed`
where they are given, and ends with `post`. -/
def Safe (env : Env Q R σ κ) (allowed : σ → (q : Q) → R q → Prop) (ok : κ → Q → Prop)
    (post : κ → Except ε α → Prop) : κ → Prog ε Q R α → Prop
  | k, .done result => post k result
  | k, .ask q next => ok k q ∧ ∀ s r s', env.answers s q r s' → allowed s q r →
      Safe env allowed ok post (env.learn s k q r) (next r)

/-- A program asks its request and goes on with the answer. -/
def Step [DecidableEq ι] (env : Env Q R σ κ) (p : Pool ε Q R α σ κ ι) (t : Turn Q R ι)
    (p' : Pool ε Q R α σ κ ι) : Prop :=
  ∃ next, p.prog t.thread = .ask t.request next ∧
    env.answers p.shared t.request t.answer p'.shared ∧
    p'.prog = Function.update p.prog t.thread (next t.answer) ∧
    p'.known = Function.update p.known t.thread
      (env.learn p.shared (p.known t.thread) t.request t.answer)

/-- What may happen: a step, or a program that stops for good. -/
inductive Event (Q : Type) (R : Q → Type) (ι : Type) where
  | turn (t : Turn Q R ι)
  | crash (thread : ι)

/-- A program that stops asks nothing more; what is shared and what is known stay. -/
def Moves [DecidableEq ι] (env : Env Q R σ κ) (p : Pool ε Q R α σ κ ι) :
    Event Q R ι → Pool ε Q R α σ κ ι → Prop
  | .turn t, p' => Step env p t p'
  | .crash i, p' => p'.shared = p.shared ∧ p'.known = p.known ∧
      ∃ e, p'.prog = Function.update p.prog i (.done (.error e))

/-! ### One program -/

section

variable {env : Env Q R σ κ} {allowed : σ → (q : Q) → R q → Prop} {ok : κ → Q → Prop}
  {post : κ → Except ε α → Prop} {k : κ}

@[simp] theorem safe_done (result : Except ε α) :
    Safe env allowed ok post k (Prog.done result : Prog ε Q R α) ↔ post k result := Iff.rfl

@[simp] theorem safe_ask (q : Q) (next : R q → Prog ε Q R α) :
    Safe env allowed ok post k (Prog.ask q next) ↔ ok k q ∧
      ∀ s r s', env.answers s q r s' → allowed s q r →
        Safe env allowed ok post (env.learn s k q r) (next r) := Iff.rfl

/-- A weaker postcondition. -/
theorem Safe.mono {post' : κ → Except ε α → Prop} {p : Prog ε Q R α}
    (h : Safe env allowed ok post k p) (himp : ∀ k result, post k result → post' k result) :
    Safe env allowed ok post' k p := by
  induction p generalizing k with
  | done result => exact himp k result h
  | ask q next ih => exact ⟨h.1, fun s r s' hans hr => ih r (h.2 s r s' hans hr)⟩

/-- A program whose requests are `ok` and teach nothing. -/
theorem Safe.of_only {P : Q → Prop} {p : Prog ε Q R α} (h : p.Only P)
    (hP : ∀ q, P q → ok k q ∧ ∀ s r, env.learn s k q r = k) :
    Safe env allowed ok (fun k' _ => k' = k) k p := by
  induction p with
  | done result => exact rfl
  | ask q next ih =>
      refine ⟨(hP q h.1).1, fun s r s' _ _ => ?_⟩
      rw [(hP q h.1).2 s r]
      exact ih r (h.2 r)

/-- What the first part ends with, the second part goes on from. -/
theorem Safe.bind {post' : κ → Except ε β → Prop} {p : Prog ε Q R α} {f : α → Prog ε Q R β}
    (h : Safe env allowed ok post k p)
    (hok : ∀ k a, post k (.ok a) → Safe env allowed ok post' k (f a))
    (herr : ∀ k e, post k (.error e) → post' k (.error e)) :
    Safe env allowed ok post' k (p >>= f) := by
  induction p generalizing k with
  | done result =>
      cases result with
      | ok a => exact hok k a h
      | error e => exact herr k e h
  | ask q next ih => exact ⟨h.1, fun s r s' hans hr => ih r (h.2 s r s' hans hr)⟩

/-- What an attempt ends with, it goes on from. -/
theorem Safe.attempt {post' : κ → Except ε (Except ε α) → Prop} {p : Prog ε Q R α}
    (h : Safe env allowed ok post k p) (himp : ∀ k r, post k r → post' k (.ok r)) :
    Safe env allowed ok post' k p.attempt := by
  induction p generalizing k with
  | done result => exact himp k result h
  | ask q next ih => exact ⟨h.1, fun s r s' hans hr => ih r (h.2 s r s' hans hr)⟩

end

/-! ### All programs -/

section

variable [DecidableEq ι] {env : Env Q R σ κ} {allowed : σ → (q : Q) → R q → Prop}
  {ok : κ → Q → Prop} {post : κ → Except ε α → Prop} {p p' : Pool ε Q R α σ κ ι}
  {t : Turn Q R ι}

/-- The request of a safe program's step is `ok`. -/
theorem Safe.asks (h : Step env p t p')
    (hsafe : Safe env allowed ok post (p.known t.thread) (p.prog t.thread)) :
    ok (p.known t.thread) t.request := by
  obtain ⟨next, hprog, _⟩ := h
  rw [hprog] at hsafe
  exact hsafe.1

/-- A step of any program keeps a program safe. -/
theorem Safe.step (h : Step env p t p') (hallowed : allowed p.shared t.request t.answer) {i : ι}
    (hsafe : Safe env allowed ok post (p.known i) (p.prog i)) :
    Safe env allowed ok post (p'.known i) (p'.prog i) := by
  obtain ⟨next, hprog, hans, hprog', hknown⟩ := h
  rw [hprog', hknown]
  by_cases hi : i = t.thread
  · subst hi
    rw [hprog] at hsafe
    simpa using hsafe.2 _ _ _ hans hallowed
  · simpa [hi] using hsafe

/-- What is known after a step: the same as before, or learnt in it. -/
theorem Step.known (h : Step env p t p') (i : ι) :
    p'.known i = p.known i ∨ (i = t.thread ∧
      p'.known i = env.learn p.shared (p.known t.thread) t.request t.answer) := by
  obtain ⟨next, _, _, _, hknown⟩ := h
  rw [hknown]
  by_cases hi : i = t.thread
  · subst hi
    exact Or.inr ⟨rfl, by simp⟩
  · exact Or.inl (by simp [hi])

/-- What the program that took the step knows after it. -/
theorem Step.known_self (h : Step env p t p') :
    p'.known t.thread = env.learn p.shared (p.known t.thread) t.request t.answer := by
  obtain ⟨next, _, _, _, hknown⟩ := h
  rw [hknown]
  simp

/-- What the others know stays. -/
theorem Step.known_ne (h : Step env p t p') {i : ι} (hi : i ≠ t.thread) :
    p'.known i = p.known i := by
  obtain ⟨next, _, _, _, hknown⟩ := h
  rw [hknown]
  simp [hi]

/-- The answer of a step. -/
theorem Step.answers (h : Step env p t p') :
    env.answers p.shared t.request t.answer p'.shared := by
  obtain ⟨next, _, hans, _⟩ := h
  exact hans

end

section

variable [DecidableEq ι] {env : Env Q R σ κ} {allowed : σ → (q : Q) → R q → Prop}
  {ok : κ → Q → Prop} {post : κ → Except ε α → Prop} {p p' : Pool ε Q R α σ κ ι}

/-- A program that stops keeps all programs safe, if it may end with what it knows. -/
theorem Safe.crash {i : ι} (h : Moves env p (.crash i) p')
    (hpost : ∀ e, post (p.known i) (.error e)) {j : ι}
    (hsafe : Safe env allowed ok post (p.known j) (p.prog j)) :
    Safe env allowed ok post (p'.known j) (p'.prog j) := by
  obtain ⟨_, hknown, e, hprog⟩ := h
  rw [hknown, hprog]
  by_cases hj : j = i
  · subst hj
    simpa using hpost e
  · simpa [hj] using hsafe

/-- Steps only. -/
theorem run_moves {ts : List (Turn Q R ι)} (h : Run (Step env) p ts p') :
    Run (Moves env) p (ts.map .turn) p' := by
  induction h with
  | nil => exact .nil
  | snoc _ hstep ih =>
      rw [List.map_append]
      exact ih.snoc hstep

/-- `run_moves`, with a condition on the steps. -/
theorem steps_moves
    {cond : Pool ε Q R α σ κ ι → Event Q R ι → Pool ε Q R α σ κ ι → Prop} {ts : List (Turn Q R ι)}
    (h : Run.Steps (Step env) p (fun a t b => cond a (.turn t) b) ts p') :
    Run.Steps (Moves env) p cond (ts.map .turn) p' := by
  induction h with
  | nil => exact .nil
  | snoc _ hstep ih =>
      rw [List.map_append]
      exact ih.snoc hstep

/-- A program that has ended stays so. -/
theorem Moves.done {e : Event Q R ι} (h : Moves env p e p') {i : ι} {r : Except ε α}
    (hdone : p.prog i = .done r) : ∃ r', p'.prog i = .done r' := by
  cases e with
  | turn t =>
      obtain ⟨next, hask, _, hprog, _⟩ := h
      have hi : i ≠ t.thread := by
        rintro rfl
        rw [hdone] at hask
        cases hask
      exact ⟨r, by rw [hprog, Function.update_of_ne hi, hdone]⟩
  | crash j =>
      obtain ⟨_, _, e, hprog⟩ := h
      rw [hprog]
      by_cases hi : i = j
      · subst hi
        exact ⟨.error e, Function.update_self ..⟩
      · exact ⟨r, by rw [Function.update_of_ne hi, hdone]⟩

end

/-! ### Programs that keep their answers -/

/-- A request with its answer. -/
structure Asked (Q : Type) (R : Q → Type) where
  request : Q
  answer : R request

/-- The environment in which a program's requests and answers are kept, in their order. -/
def keeping (answers : σ → (q : Q) → R q → σ → Prop) : Env Q R σ (List (Asked Q R)) where
  answers := answers
  learn _ kept q r := kept ++ [⟨q, r⟩]

section

variable [DecidableEq ι] {answers : σ → (q : Q) → R q → σ → Prop}
  {p p' : Pool ε Q R α σ (List (Asked Q R)) ι} {t : Turn Q R ι}

/-- What a step adds to what is kept. -/
theorem mem_kept (h : Step (keeping answers) p t p') {i : ι} {x : Asked Q R} :
    x ∈ p'.known i ↔ x ∈ p.known i ∨ (i = t.thread ∧ x = ⟨t.request, t.answer⟩) := by
  by_cases hi : i = t.thread
  · subst hi
    rw [h.known_self]
    simp [keeping]
  · rw [h.known_ne hi]
    simp [hi]

/-- What is kept stays. -/
theorem kept_mono (h : Step (keeping answers) p t p') {i : ι} {x : Asked Q R}
    (hx : x ∈ p.known i) : x ∈ p'.known i := (mem_kept h).mpr (Or.inl hx)

/-- What a program keeps was asked and answered in the run. -/
theorem exists_turn_of_kept {ts : List (Turn Q R ι)} (h : Run (Step (keeping answers)) p ts p')
    {i : ι} {x : Asked Q R} (hnone : x ∉ p.known i) (hx : x ∈ p'.known i) :
    ∃ before after, ts = before ++ ⟨i, x.request, x.answer⟩ :: after := by
  induction h with
  | nil => exact absurd hx hnone
  | @snoc ts a b t hrun hstep ih =>
      rcases (mem_kept hstep).mp hx with hx | ⟨rfl, rfl⟩
      · obtain ⟨before, after, rfl⟩ := ih hx
        exact ⟨before, after ++ [t], by simp⟩
      · exact ⟨ts, [], rfl⟩

end

/-! ### What a program started -/

section

variable [DecidableEq ι] {X : Type}

/-- What the requests of a program start, in the order of the steps. -/
def started (starts : Q → Option X) (i : ι) (ts : List (Turn Q R ι)) : List X :=
  ts.filterMap fun t => if t.thread = i then starts t.request else none

/-- A program that keeps a list of what it started, and starts nothing that is on the list,
starts everything once. -/
theorem nodup_started {env : Env Q R σ κ} {starts : Q → Option X} (begun : κ → List X)
    {cond : Pool ε Q R α σ κ ι → Turn Q R ι → Pool ε Q R α σ κ ι → Prop}
    {p p' : Pool ε Q R α σ κ ι} {ts : List (Turn Q R ι)} {i : ι}
    (hlearn : ∀ s k q r, begun (env.learn s k q r) = (starts q).toList ++ begun k)
    (hcond : ∀ a t b, cond a t b → t.thread = i → ∀ x, starts t.request = some x →
      x ∉ begun (a.known i))
    (h : Run.Steps (Step env) p cond ts p') (hnone : begun (p.known i) = []) :
    (started starts i ts).Nodup := by
  suffices begun (p'.known i) = (started starts i ts).reverse ∧ (started starts i ts).Nodup from this.2
  induction h with
  | nil => exact ⟨hnone, List.nodup_nil⟩
  | @snoc ts a b t hrun hstep ih =>
      obtain ⟨hbegun, hnodup⟩ := ih
      -- One turn more: it starts something only if it is a turn of the thread.
      have hsnoc : started starts i (ts ++ [t])
          = started starts i ts ++ (if t.thread = i then starts t.request else none).toList := by
        unfold started
        rw [List.filterMap_append]
        cases hx : (if t.thread = i then starts t.request else none) <;> simp [hx]
      rw [hsnoc]
      by_cases hi : t.thread = i
      · subst hi
        rw [if_pos rfl, hstep.1.known_self, hlearn, hbegun]
        cases hx : starts t.request with
        | none => simpa using hnodup
        | some x =>
            have hnew := hcond a t b hstep.2 rfl x hx
            rw [hbegun, List.mem_reverse] at hnew
            refine ⟨by simp, ?_⟩
            exact List.nodup_append.mpr ⟨hnodup, by simp, fun y hy z hz => by
              rw [List.mem_singleton.mp hz]
              rintro rfl
              exact hnew hy⟩
      · rw [if_neg hi, hstep.1.known_ne (Ne.symm hi), hbegun]
        simpa using hnodup

end

/-! ### Playing a schedule -/

section

variable [DecidableEq ι] {env : Env Q R σ κ}

/-- The next turn of a program and the pool after it, against a handler. -/
def next? (env : Env Q R σ κ) (answer : σ → (q : Q) → R q × σ) (p : Pool ε Q R α σ κ ι) (i : ι) :
    Option (Turn Q R ι × Pool ε Q R α σ κ ι) :=
  match p.prog i with
  | .done _ => none
  | .ask q next =>
      let r := answer p.shared q
      some (⟨i, q, r.1⟩, ⟨r.2, Function.update p.prog i (next r.1),
        Function.update p.known i (env.learn p.shared (p.known i) q r.1)⟩)

/-- Plays a schedule: the steps taken, each between the pools before and after it. -/
def play (env : Env Q R σ κ) (answer : σ → (q : Q) → R q × σ) (p : Pool ε Q R α σ κ ι) :
    List ι → List (Pool ε Q R α σ κ ι × Turn Q R ι × Pool ε Q R α σ κ ι)
  | [] => []
  | i :: rest =>
      match next? env answer p i with
      | none => play env answer p rest
      | some (t, p') => (p, t, p') :: play env answer p' rest

/-- The pool after a schedule. -/
def played (env : Env Q R σ κ) (answer : σ → (q : Q) → R q × σ) (p : Pool ε Q R α σ κ ι) :
    List ι → Pool ε Q R α σ κ ι
  | [] => p
  | i :: rest =>
      match next? env answer p i with
      | none => played env answer p rest
      | some (_, p') => played env answer p' rest

variable {answer : σ → (q : Q) → R q × σ} (hans : ∀ s q, env.answers s q (answer s q).1 (answer s q).2)

include hans

theorem step_of_next? {p p' : Pool ε Q R α σ κ ι} {i : ι} {t : Turn Q R ι}
    (h : next? env answer p i = some (t, p')) : Step env p t p' := by
  unfold next? at h
  split at h
  · cases h
  · rename_i q next hprog
    cases h
    exact ⟨next, hprog, hans p.shared q, rfl, rfl⟩

/-- What was played is a run, if the environment gives the handler's answers. -/
theorem steps_play {cond : Pool ε Q R α σ κ ι → Turn Q R ι → Pool ε Q R α σ κ ι → Prop}
    (is : List ι) : ∀ p : Pool ε Q R α σ κ ι,
      (∀ x ∈ play env answer p is, cond x.1 x.2.1 x.2.2) →
      Run.Steps (Step env) p cond ((play env answer p is).map (·.2.1))
        (played env answer p is) := by
  induction is with
  | nil => exact fun p _ => .nil
  | cons i rest ih =>
      intro p hcond
      unfold play played
      unfold play at hcond
      cases hnext : next? env answer p i with
      | none =>
          simp only [hnext] at hcond
          exact ih p hcond
      | some x =>
          simp only [hnext] at hcond
          refine Run.cons ⟨step_of_next? hans hnext, hcond _ List.mem_cons_self⟩ ?_
          exact ih x.2 fun y hy => hcond y (List.mem_cons_of_mem _ hy)

/-- `steps_play` without a condition. -/
theorem run_play (is : List ι) (p : Pool ε Q R α σ κ ι) :
    Run (Step env) p ((play env answer p is).map (·.2.1)) (played env answer p is) := by
  have hsteps : Run.Steps (Step env) p (fun _ _ _ => True) _ _ :=
    steps_play hans is p fun _ _ => trivial
  exact hsteps.run

end

end Pool

end Frust.Lib
