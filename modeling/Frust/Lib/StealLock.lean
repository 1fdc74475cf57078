import Frust.Lib.Run

/-!
# `Frust.Lib.StealLock`: a lock row that may be stolen

A lock is one row of a table. `CREATE` takes it and fails when the row exists; the
holder's release deletes the row if it is still the holder's; and a runner that
judges the row stale deletes it, whoever holds it. An `Acquire` is the program of
statements a runner goes through to get the lock. Other runners run between any two
of its statements, a statement may fail, a runner may stop anywhere, and time passes.

`check` and the `DELETE` it leads to are two statements, so the row that is deleted
need not be the row that was judged. `Unreplaced` says that at a `DELETE` no fresh
row has taken its place. In a run whose steps are all `Unreplaced`, a row is taken
from its holder only when it is old (`Unreplaced.removed`), and two runners hold the
lock at once only when one of them has held it for longer than the threshold
(`exclusion`). `judged` and `since` are history: no step depends on them.
-/

set_option autoImplicit false

namespace Frust.Lib.StealLock

/-- The statements a runner goes through to get the lock. -/
inductive Acquire where
  /-- `CREATE`: done when it succeeds, and else `taken`. -/
  | create (taken : Acquire)
  /-- The stale check: `DELETE` and then `stolen` when the row is stale or absent,
  and else `fresh`. -/
  | check (fresh stolen : Acquire)
  /-- Give up. -/
  | refused
  deriving DecidableEq

/-- The lock row. -/
structure Row (ι : Type*) where
  holder : ι
  createdAt : Nat
  deriving DecidableEq

/-- Where a runner stands. -/
inductive Pc (ι : Type*) where
  | idle
  | running (rest : Acquire)
  /-- The check said stale on the row `judged`, and the `DELETE` comes next. -/
  | stealing (stolen : Acquire) (judged : Option (Row ι))
  /-- Inside since the `CREATE` succeeded. -/
  | inside (since : Nat)
  deriving DecidableEq

/-- The table, the clock and the runners. -/
structure State (ι : Type*) where
  now : Nat
  row : Option (Row ι)
  pc : ι → Pc ι

/-- One event. A statement whose flag is `false` fails without effect. -/
inductive Event (ι : Type*) where
  | start (i : ι)
  | create (i : ι) (works : Bool)
  | check (i : ι)
  | delete (i : ι) (works : Bool)
  | release (i : ι) (works : Bool)
  /-- The runner stops, or returns with an error. -/
  | stop (i : ι)
  | tick (elapsed : Nat)

/-- A lock: its program, the verdict of its check on an age, and the threshold
that a stale row exceeds. -/
structure Lock where
  program : Acquire
  stale : Nat → Bool
  threshold : Nat
  lt_of_stale : ∀ age, stale age = true → threshold < age

namespace State

variable {ι : Type*}

/-- The age of a row. -/
def age (s : State ι) (r : Row ι) : Nat := s.now - r.createdAt

/-- The check's verdict: an absent row counts as stale. -/
def verdict (L : Lock) (s : State ι) : Bool :=
  match s.row with
  | none => true
  | some r => L.stale (s.age r)

variable [DecidableEq ι]

/-- Moves a runner. -/
def goto (s : State ι) (i : ι) (pc : Pc ι) : State ι := { s with pc := Function.update s.pc i pc }

/-- The state after an event, where the event is possible. -/
def step? (L : Lock) (s : State ι) : Event ι → Option (State ι)
  | .start i =>
      match s.pc i with
      | .idle => some (s.goto i (.running L.program))
      | _ => none
  | .create i works =>
      match s.pc i with
      | .running (.create taken) =>
          if works ∧ s.row = none then
            some { s.goto i (.inside s.now) with row := some ⟨i, s.now⟩ }
          else some (s.goto i (.running taken))
      | _ => none
  | .check i =>
      match s.pc i with
      | .running (.check fresh stolen) =>
          if s.verdict L then some (s.goto i (.stealing stolen s.row))
          else some (s.goto i (.running fresh))
      | _ => none
  | .delete i works =>
      match s.pc i with
      | .stealing stolen _ =>
          some { s.goto i (.running stolen) with row := if works then none else s.row }
      | _ => none
  | .release i works =>
      match s.pc i with
      | .inside _ =>
          some { s.goto i .idle with
            row := if works ∧ s.row.any (·.holder = i) then none else s.row }
      | _ => none
  | .stop i => some (s.goto i .idle)
  | .tick elapsed => some { s with now := s.now + elapsed }

/-- One step. -/
def Step (L : Lock) (s : State ι) (e : Event ι) (s' : State ι) : Prop := s.step? L e = some s'

/-- At a `DELETE`, the row that was judged has not been replaced by a row that is
still fresh. -/
def Unreplaced (L : Lock) (s : State ι) (e : Event ι) (_ : State ι) : Prop :=
  ∀ i works stolen judged, e = .delete i works → s.pc i = .stealing stolen judged →
    ∀ r, s.row = some r → s.row = judged ∨ L.threshold < s.age r

/-! ### Steps that are possible -/

section Enabled

variable {L : Lock} {s : State ι} {i : ι}

theorem Step.start (h : s.pc i = .idle) :
    Step L s (.start i) (s.goto i (.running L.program)) := by
  simp [Step, step?, h]

theorem Step.create {t : Acquire} (h : s.pc i = .running (.create t))
    (hfree : s.row = none) :
    Step L s (.create i true) { s.goto i (.inside s.now) with row := some ⟨i, s.now⟩ } := by
  simp [Step, step?, h, hfree]

theorem Step.create_taken {t : Acquire} {r : Row ι} (h : s.pc i = .running (.create t))
    (hrow : s.row = some r) : Step L s (.create i true) (s.goto i (.running t)) := by
  simp [Step, step?, h, hrow]

theorem Step.check_stale {f g : Acquire}
    (h : s.pc i = .running (.check f g)) (hstale : s.verdict L = true) :
    Step L s (.check i) (s.goto i (.stealing g s.row)) := by
  simp [Step, step?, h, hstale]

theorem Step.delete {g : Acquire} {r : Option (Row ι)}
    (h : s.pc i = .stealing g r) :
    Step L s (.delete i true) { s.goto i (.running g) with row := none } := by
  simp [Step, step?, h]

theorem Step.release {n : Nat} {r : Row ι} (h : s.pc i = .inside n)
    (hrow : s.row = some r) (hown : r.holder = i) :
    Step L s (.release i true) { s.goto i .idle with row := none } := by
  simp [Step, step?, h, hrow, hown]

theorem Step.tick (elapsed : Nat) :
    Step L s (.tick elapsed) { s with now := s.now + elapsed } := rfl

omit [DecidableEq ι] in
/-- Only a `DELETE` can fail to be `Unreplaced`. -/
theorem unreplaced_of_ne {e : Event ι} {s' : State ι} (h : ∀ i works, e ≠ .delete i works) :
    Unreplaced L s e s' :=
  fun i works _ _ he => absurd he (h i works)

omit [DecidableEq ι] in
/-- A `DELETE` of the row that was judged. -/
theorem unreplaced_of_judged {works : Bool} {g : Acquire} {s' : State ι}
    (h : s.pc i = .stealing g s.row) : Unreplaced L s (.delete i works) s' := by
  intro j works' g' judged he hpc r _
  cases he
  rw [h] at hpc
  cases hpc
  exact Or.inl rfl

end Enabled

/-! ### What a step can do -/

/-- No runner enters, and one that starts to steal has judged the present row. -/
def Quiet (L : Lock) (s s' : State ι) : Prop :=
  ∀ j, s'.pc j = s.pc j ∨ (∀ since, s'.pc j ≠ .inside since) ∧
    ∀ stolen judged, s'.pc j = .stealing stolen judged →
      judged = s.row ∧ s.verdict L = true ∧ s'.now = s.now

/-- Moving one runner is quiet when it moves to none of the two places. -/
theorem quiet_update {L : Lock} {s s' : State ι} {i : ι} {pc : Pc ι}
    (hpc : s'.pc = Function.update s.pc i pc) (hinside : ∀ since, pc ≠ .inside since)
    (hsteal : ∀ stolen judged, pc = .stealing stolen judged →
      judged = s.row ∧ s.verdict L = true ∧ s'.now = s.now) : Quiet L s s' := by
  intro j
  rw [hpc]
  by_cases hj : j = i
  · subst hj
    rw [Function.update_self]
    exact Or.inr ⟨hinside, hsteal⟩
  · rw [Function.update_of_ne hj]
    exact Or.inl rfl

/-- What a step did: a `CREATE` put a row on an absent one and let its runner in; or
no runner entered, and the row stayed, or was removed by a `DELETE` or by its
holder's release. -/
theorem Step.inv {L : Lock} {s s' : State ι} {e : Event ι} (h : Step L s e s') :
    s.now ≤ s'.now ∧
    ((∃ i, s.row = none ∧ s'.row = some ⟨i, s.now⟩ ∧ s'.now = s.now ∧
        s'.pc = Function.update s.pc i (.inside s.now)) ∨
      Quiet L s s' ∧ (s'.row = s.row ∨ s'.row = none ∧
        ((∃ i works stolen judged, e = .delete i works ∧ s.pc i = .stealing stolen judged) ∨
          ∃ r works, s.row = some r ∧ e = .release r.holder works ∧
            s'.pc r.holder = .idle))) := by
  cases e with
  | start i =>
      simp only [Step, step?] at h
      split at h
      · cases h
        refine ⟨Nat.le_refl _, Or.inr ⟨quiet_update rfl ?_ ?_, Or.inl rfl⟩⟩
        · intro since; simp
        · intro stolen judged; simp
      · exact absurd h (by simp)
  | create i works =>
      simp only [Step, step?] at h
      split at h
      · split at h
        · rename_i hfree
          cases h
          exact ⟨Nat.le_refl _, Or.inl ⟨i, hfree.2, rfl, rfl, rfl⟩⟩
        · cases h
          refine ⟨Nat.le_refl _, Or.inr ⟨quiet_update rfl ?_ ?_, Or.inl rfl⟩⟩
          · intro since; simp
          · intro stolen judged; simp
      · exact absurd h (by simp)
  | check i =>
      simp only [Step, step?] at h
      split at h
      · split at h
        · rename_i hstale
          cases h
          refine ⟨Nat.le_refl _, Or.inr ⟨quiet_update rfl ?_ ?_, Or.inl rfl⟩⟩
          · intro since; simp
          · intro stolen judged hpc
            cases hpc
            exact ⟨rfl, hstale, rfl⟩
        · cases h
          refine ⟨Nat.le_refl _, Or.inr ⟨quiet_update rfl ?_ ?_, Or.inl rfl⟩⟩
          · intro since; simp
          · intro stolen judged; simp
      · exact absurd h (by simp)
  | delete i works =>
      simp only [Step, step?] at h
      split at h
      · rename_i stolen judged hpc
        cases h
        refine ⟨Nat.le_refl _, Or.inr ⟨quiet_update rfl ?_ ?_, ?_⟩⟩
        · intro since; simp
        · intro stolen judged; simp
        · cases works with
          | true => exact Or.inr ⟨rfl, Or.inl ⟨i, true, stolen, judged, rfl, hpc⟩⟩
          | false => exact Or.inl rfl
      · exact absurd h (by simp)
  | release i works =>
      simp only [Step, step?] at h
      split at h
      · cases h
        refine ⟨Nat.le_refl _, Or.inr ⟨quiet_update rfl ?_ ?_, ?_⟩⟩
        · intro since; simp
        · intro stolen judged; simp
        · by_cases hown : works = true ∧ s.row.any (·.holder = i) = true
          · -- the row is the runner's own
            refine Or.inr ⟨if_pos hown, Or.inr ?_⟩
            cases hrow : s.row with
            | none => rw [hrow] at hown; exact absurd hown.2 (by simp)
            | some r =>
                have hr : r.holder = i := by simpa [hrow] using hown.2
                subst hr
                exact ⟨r, works, rfl, rfl, by simp [goto]⟩
          · exact Or.inl (if_neg hown)
      · exact absurd h (by simp)
  | stop i =>
      simp only [Step, step?] at h
      cases h
      refine ⟨Nat.le_refl _, Or.inr ⟨quiet_update rfl ?_ ?_, Or.inl rfl⟩⟩
      · intro since; simp
      · intro stolen judged; simp
  | tick elapsed =>
      simp only [Step, step?] at h
      cases h
      exact ⟨Nat.le_add_right _ _, Or.inr ⟨fun j => Or.inl rfl, Or.inl rfl⟩⟩

/-! ### The invariant -/

/-- A runner inside still has its row, or has been inside for longer than the
threshold; and a row that was judged stale is old. -/
structure Inv (L : Lock) (s : State ι) : Prop where
  holds : ∀ i since, s.pc i = .inside since →
    since ≤ s.now ∧ (s.row = some ⟨i, since⟩ ∨ L.threshold < s.now - since)
  judged : ∀ i stolen r, s.pc i = .stealing stolen (some r) → L.threshold < s.age r

omit [DecidableEq ι] in
/-- Nobody is inside or about to steal. -/
theorem inv_of_idle (L : Lock) {s : State ι} (h : ∀ i, s.pc i = .idle) : Inv L s where
  holds i since hpc := by rw [h i] at hpc; exact absurd hpc (by simp)
  judged i stolen r hpc := by rw [h i] at hpc; exact absurd hpc (by simp)

omit [DecidableEq ι] in
/-- The row that a `DELETE` removes is old, unless it is a fresh replacement. -/
theorem Inv.old_of_delete {L : Lock} {s s' : State ι} {i : ι} {works : Bool} {stolen : Acquire}
    {judged : Option (Row ι)} {r : Row ι} (hinv : Inv L s)
    (hun : Unreplaced L s (.delete i works) s') (hpc : s.pc i = .stealing stolen judged)
    (hrow : s.row = some r) : L.threshold < s.age r := by
  rcases hun i works stolen judged rfl hpc r hrow with heq | hold
  · rw [← heq, hrow] at hpc
    exact hinv.judged i stolen r hpc
  · exact hold

/-- One step keeps the invariant. -/
theorem Inv.step {L : Lock} {s s' : State ι} {e : Event ι} (hinv : Inv L s)
    (h : Step L s e s') (hun : Unreplaced L s e s') : Inv L s' := by
  obtain ⟨hnow, hmove⟩ := h.inv
  rcases hmove with ⟨i, hfree, hrow, hsame, hpc⟩ | ⟨hquiet, hrow⟩
  · -- a runner enters: every other runner inside had lost its row already
    refine ⟨fun j since hj => ?_, fun j stolen r hj => ?_⟩
    · rw [hpc] at hj
      by_cases hji : j = i
      · subst hji
        rw [Function.update_self] at hj
        cases hj
        exact ⟨hsame.symm ▸ Nat.le_refl _, Or.inl hrow⟩
      · rw [Function.update_of_ne hji] at hj
        obtain ⟨hle, hold⟩ := hinv.holds j since hj
        rw [hsame]
        refine ⟨hle, Or.inr (hold.resolve_left fun hr => ?_)⟩
        rw [hfree] at hr
        exact absurd hr (by simp)
    · rw [hpc] at hj
      by_cases hji : j = i
      · subst hji
        rw [Function.update_self] at hj
        exact absurd hj (by simp)
      · rw [Function.update_of_ne hji] at hj
        have hold := hinv.judged j stolen r hj
        simp only [age] at hold ⊢
        omega
  · refine ⟨fun j since hj => ?_, fun j stolen r hj => ?_⟩
    · have hj' : s.pc j = .inside since := by
        rcases hquiet j with heq | ⟨hnot, _⟩
        · rw [← heq]; exact hj
        · exact absurd hj (hnot since)
      obtain ⟨hle, hold⟩ := hinv.holds j since hj'
      refine ⟨Nat.le_trans hle hnow, ?_⟩
      rcases hold with hmine | hlong
      · rcases hrow with hkept | ⟨hgone, ⟨i, works, stolen, judged, rfl, hpc⟩ |
            ⟨r, works, hr, rfl, hidle⟩⟩
        · exact Or.inl (hkept.trans hmine)
        · -- its row was deleted, so it was old
          have hage := hinv.old_of_delete hun hpc hmine
          simp only [age] at hage
          exact Or.inr (by omega)
        · -- its row was released, by itself
          rw [hmine] at hr
          cases hr
          rw [hj] at hidle
          exact absurd hidle (by simp)
      · exact Or.inr (by omega)
    · rcases hquiet j with heq | ⟨_, hsteal⟩
      · rw [heq] at hj
        have hold := hinv.judged j stolen r hj
        simp only [age] at hold ⊢
        omega
      · obtain ⟨hjudged, hstale, hsame⟩ := hsteal stolen (some r) hj
        simp only [verdict, ← hjudged] at hstale
        have hold := L.lt_of_stale _ hstale
        simp only [age] at hold ⊢
        omega

/-- A run of unreplaced steps keeps the invariant. -/
theorem inv_of_run {L : Lock} {s₀ s : State ι} {es : List (Event ι)}
    (hidle : ∀ i, s₀.pc i = .idle) (hrun : Run.Steps (Step L) s₀ (Unreplaced L) es s) :
    Inv L s :=
  hrun.invariant (inv_of_idle L hidle) fun _ _ _ hinv hstep hun => hinv.step hstep hun

/-! ### Main results -/

/-- A row that is not old is removed by its holder's release only. -/
theorem Inv.removed {L : Lock} {s s' : State ι} {e : Event ι} (hinv : Inv L s)
    (h : Step L s e s') (hun : Unreplaced L s e s') {r : Row ι} (hrow : s.row = some r)
    (hgone : s'.row ≠ some r) (hfresh : s.age r ≤ L.threshold) :
    ∃ works, e = .release r.holder works := by
  rcases h.inv.2 with ⟨i, hfree, _⟩ | ⟨_, hkept | ⟨_, hdelete | hrelease⟩⟩
  · rw [hrow] at hfree
    exact absurd hfree (by simp)
  · rw [hkept] at hgone
    exact absurd hrow hgone
  · obtain ⟨i, works, stolen, judged, rfl, hpc⟩ := hdelete
    have hold := hinv.old_of_delete hun hpc hrow
    omega
  · obtain ⟨r', works, hr', he, _⟩ := hrelease
    rw [hrow] at hr'
    cases hr'
    exact ⟨works, he⟩

omit [DecidableEq ι] in
/-- Of two runners inside, one has been there for longer than the threshold. -/
theorem Inv.exclusion {L : Lock} {s : State ι} (hinv : Inv L s) {i j : ι} {since since' : Nat}
    (hij : i ≠ j) (hi : s.pc i = .inside since) (hj : s.pc j = .inside since') :
    L.threshold < s.now - since ∨ L.threshold < s.now - since' := by
  rcases (hinv.holds i since hi).2 with hri | hlong
  · rcases (hinv.holds j since' hj).2 with hrj | hlong
    · rw [hri] at hrj
      cases hrj
      exact absurd rfl hij
    · exact Or.inr hlong
  · exact Or.inl hlong

end State

end Frust.Lib.StealLock
