import Frust.Proofs.Kernel.Realtime
import Mathlib.Data.Set.Card

/-!
# `Frust.Proofs.Kernel.Budget`: the live budget of a table

A subscribe counts first and inserts later. In between it is in flight: its place is promised
and not yet taken. The load of a table is what is in the map and what is in flight. Only a count
that passes adds to the load, and an insertion turns one in flight into one in the map. So the
budget holds as long as every count that passes leaves room for the load and not just for the
map. It does not in general: all counts may come before all insertions.
-/

set_option autoImplicit false

namespace Frust.Kernel

open Frust.Lib

namespace Subscriptions

variable {subs : Subscriptions} {id user tenant table : String} {sub : Subscription}

theorem erase_sublist : (subs.erase id).Sublist subs := List.filter_sublist

theorem removeOwn_sublist : ((subs.removeOwn id user).2).Sublist subs := by
  unfold removeOwn
  split
  · split
    · exact erase_sublist
    · exact List.Sublist.refl _
  · exact List.Sublist.refl _

theorem countForTable_le {subs' : Subscriptions} (h : subs'.Sublist subs) :
    subs'.countForTable tenant table ≤ subs.countForTable tenant table := h.countP_le

theorem countForTable_insert_le :
    (subs.insert id sub).countForTable tenant table ≤ subs.countForTable tenant table + 1 := by
  have herase : (subs.erase id).countForTable tenant table ≤ subs.countForTable tenant table :=
    countForTable_le erase_sublist
  show List.countP _ (_ :: subs.erase id) ≤ _
  rw [List.countP_cons]
  unfold countForTable at herase ⊢
  split <;> omega

theorem countForTable_insert_of_ne (h : ¬(sub.table = table ∧ sub.tenant = tenant)) :
    (subs.insert id sub).countForTable tenant table ≤ subs.countForTable tenant table := by
  have herase : (subs.erase id).countForTable tenant table ≤ subs.countForTable tenant table :=
    countForTable_le erase_sublist
  show List.countP _ (_ :: subs.erase id) ≤ _
  rw [List.countP_cons_of_neg (by simpa using h)]
  exact herase

end Subscriptions

namespace LiveState

variable {s s' : LiveState} {q : LiveRequest} {r : LiveAnswer q}

theorem removeAll_sublist (doomed : Subscriptions) (s : LiveState) :
    (s.removeAll doomed).subs.Sublist s.subs := by
  induction doomed generalizing s with
  | nil => exact List.Sublist.refl _
  | cons entry rest ih => exact (ih _).trans Subscriptions.erase_sublist

/-- Only an insertion adds to the map. -/
theorem Answers.sublist (h : Answers s q r s') (hq : ∀ id sub at_, q ≠ .insert id sub at_) :
    s'.subs.Sublist s.subs := by
  obtain ⟨s₁, heffect, hmeanwhile⟩ := h
  rw [hmeanwhile.1]
  cases q with
  | selectJwt _ _ => exact heffect ▸ List.Sublist.refl _
  | call _ _ _ => exact heffect ▸ List.Sublist.refl _
  | traceId => exact heffect ▸ List.Sublist.refl _
  | connect => rcases heffect with ⟨_, _, rfl⟩ | ⟨_, rfl⟩ <;> exact List.Sublist.refl _
  | insert id sub at_ => exact absurd rfl (hq id sub at_)
  | removeOwn id user => cases heffect; exact Subscriptions.removeOwn_sublist
  | removeAll doomed => cases heffect; exact removeAll_sublist doomed s
  | countForTable _ _ | now | get _ | isAlive _ | doomed | push _ _ | poll _ | take _ | close _ =>
      cases heffect
      exact List.Sublist.refl _

theorem subs_of_insert {id : String} {sub : Subscription} {at_ : Nat}
    (h : Answers s (.insert id sub at_) () s') : s'.subs = s.subs.insert id sub := by
  obtain ⟨s₁, heffect, hmeanwhile⟩ := h
  rw [hmeanwhile.1]
  cases heffect
  rfl

theorem count_of_answers {tenant table : String} {n : Nat}
    (h : Answers s (.countForTable tenant table) n s') :
    n = s.subs.countForTable tenant table := by
  obtain ⟨s₁, heffect, _⟩ := h
  cases heffect
  rfl

end LiveState

namespace Realtime

variable {ι : Type} {calls : ι → Call} {p p' : LivePool ι} {tenant table : String}

/-- The calls that found the table below its budget, and have neither ended nor inserted yet. -/
def InFlight (p : LivePool ι) (tenant table : String) : Set ι :=
  {i | Passed (p.known i) tenant table ∧ ¬Inserted (p.known i) ∧ ∀ r, p.prog i ≠ .done r}

/-- What is in the map for a table, and what is in flight. -/
noncomputable def load (p : LivePool ι) (tenant table : String) : ℕ∞ :=
  p.shared.subs.countForTable tenant table + (InFlight p tenant table).encard

/-- A count that passes leaves room for the load. -/
def Room (p : LivePool ι) (t : Turn LiveRequest LiveAnswer ι) (_ : LivePool ι) : Prop :=
  ∀ tenant table, t.request = .countForTable tenant table →
    p.shared.subs.countForTable tenant table < liveSubBudgetPerTable →
      load p tenant table < liveSubBudgetPerTable

/-- No table has more subscriptions than its budget. -/
def WithinBudget (p : LivePool ι) : Prop :=
  ∀ tenant table, p.shared.subs.countForTable tenant table ≤ liveSubBudgetPerTable

variable [DecidableEq ι] {t : Turn LiveRequest LiveAnswer ι}

/-- Who is in flight after a step was so before, or has just been counted. -/
theorem inFlight_step (h : Pool.Step traffic p t p') {i : ι}
    (hi : i ∈ InFlight p' tenant table) :
    i ∈ InFlight p tenant table ∨ (i = t.thread ∧ t.request = .countForTable tenant table ∧
      p.shared.subs.countForTable tenant table < liveSubBudgetPerTable) := by
  obtain ⟨⟨n, hn, hcounted⟩, hnone, hgoing⟩ := hi
  have hnone' : ¬Inserted (p.known i) := by
    rintro ⟨id, sub, at_, hmem⟩
    exact hnone ⟨id, sub, at_, Pool.kept_mono h hmem⟩
  have hgoing' : ∀ r, p.prog i ≠ .done r := by
    obtain ⟨next, hask, _, hprog, _⟩ := h
    intro r hdone
    by_cases hthread : i = t.thread
    · rw [hthread, hask] at hdone
      cases hdone
    · refine hgoing r ?_
      rw [hprog, Function.update_of_ne hthread, hdone]
  rcases (Pool.mem_kept h).mp hcounted with hcounted | ⟨rfl, hx⟩
  · exact Or.inl ⟨⟨n, hn, hcounted⟩, hnone', hgoing'⟩
  · have hans := h.answers
    obtain ⟨thread, request, answer⟩ := t
    cases hx
    rw [LiveState.count_of_answers hans] at hn
    exact Or.inr ⟨rfl, rfl, hn⟩

/-- Who inserts is not in flight after it. -/
theorem not_inFlight_of_insert (h : Pool.Step traffic p t p') {id : String} {sub : Subscription}
    {at_ : Nat} (hq : t.request = .insert id sub at_) : t.thread ∉ InFlight p' tenant table := by
  rintro ⟨_, hnone, _⟩
  refine hnone ⟨id, sub, at_, (Pool.mem_kept h).mpr (Or.inr ⟨rfl, ?_⟩)⟩
  obtain ⟨thread, request, answer⟩ := t
  cases hq
  rfl

/-- A step other than an insertion or a count that passes adds nothing to the load. -/
theorem load_le_of_quiet (h : Pool.Step traffic p t p')
    (hinsert : ∀ id sub at_, t.request ≠ .insert id sub at_)
    (hcount : t.request = .countForTable tenant table →
      liveSubBudgetPerTable ≤ p.shared.subs.countForTable tenant table) :
    load p' tenant table ≤ load p tenant table := by
  have hsubs : p'.shared.subs.countForTable tenant table ≤
      p.shared.subs.countForTable tenant table :=
    Subscriptions.countForTable_le (h.answers.sublist hinsert)
  have hflight : InFlight p' tenant table ⊆ InFlight p tenant table := by
    intro i hi
    rcases inFlight_step h hi with hi | ⟨_, hq, hlt⟩
    · exact hi
    · exact absurd (hcount hq) (Nat.not_le.mpr hlt)
  unfold load
  exact add_le_add (Nat.cast_le.mpr hsubs) (Set.encard_le_encard hflight)

theorem load_le_of_count (h : Pool.Step traffic p t p')
    (hq : t.request = .countForTable tenant table) :
    load p' tenant table ≤ load p tenant table + 1 := by
  have hsubs : p'.shared.subs.countForTable tenant table ≤
      p.shared.subs.countForTable tenant table :=
    Subscriptions.countForTable_le (h.answers.sublist fun id sub at_ hins => by
      rw [hq] at hins
      cases hins)
  have hflight : InFlight p' tenant table ⊆ insert t.thread (InFlight p tenant table) := by
    intro i hi
    rcases inFlight_step h hi with hi | ⟨hi, _⟩
    · exact Or.inr hi
    · exact Or.inl hi
  have hcard : (InFlight p' tenant table).encard ≤ (InFlight p tenant table).encard + 1 :=
    (Set.encard_le_encard hflight).trans (Set.encard_insert_le _ _)
  unfold load
  rw [add_assoc]
  exact add_le_add (Nat.cast_le.mpr hsubs) hcard

/-- An insertion takes the place of one in flight. -/
theorem load_le_of_insert (h : Pool.Step traffic p t p') {id : String} {sub : Subscription}
    {at_ : Nat} (hq : t.request = .insert id sub at_)
    (hmay : May (calls t.thread) (p.known t.thread) (.insert id sub at_)) :
    load p' tenant table ≤ load p tenant table := by
  have hsubs : p'.shared.subs = p.shared.subs.insert id sub := by
    have hans := h.answers
    obtain ⟨thread, request, answer⟩ := t
    cases hq
    exact LiveState.subs_of_insert hans
  have hstays : ∀ i, i ∈ InFlight p' tenant table → i ∈ InFlight p tenant table := by
    intro i hi
    rcases inFlight_step h hi with hi | ⟨_, hcount, _⟩
    · exact hi
    · rw [hq] at hcount
      cases hcount
  unfold load
  rw [hsubs]
  by_cases hof : sub.table = table ∧ sub.tenant = tenant
  · obtain ⟨rfl, rfl⟩ := hof
    -- the call that inserts was in flight until now
    have hwas : t.thread ∈ InFlight p sub.tenant sub.table := by
      obtain ⟨_, _, _, _, _, _, hpassed, hnone⟩ := hmay
      obtain ⟨next, hask, _⟩ := h
      refine ⟨hpassed, hnone, fun r hdone => ?_⟩
      rw [hask] at hdone
      cases hdone
    have hflight : InFlight p' sub.tenant sub.table ⊆
        InFlight p sub.tenant sub.table \ {t.thread} := by
      intro i hi
      refine ⟨hstays i hi, ?_⟩
      rintro rfl
      exact not_inFlight_of_insert h hq hi
    calc ((p.shared.subs.insert id sub).countForTable sub.tenant sub.table : ℕ∞) +
          (InFlight p' sub.tenant sub.table).encard
        ≤ ((p.shared.subs.countForTable sub.tenant sub.table + 1 : ℕ) : ℕ∞) +
          (InFlight p sub.tenant sub.table \ {t.thread}).encard :=
          add_le_add (Nat.cast_le.mpr Subscriptions.countForTable_insert_le)
            (Set.encard_le_encard hflight)
      _ = p.shared.subs.countForTable sub.tenant sub.table +
          ((InFlight p sub.tenant sub.table \ {t.thread}).encard + 1) := by
          push_cast
          rw [add_assoc, add_comm 1]
      _ = p.shared.subs.countForTable sub.tenant sub.table +
          (InFlight p sub.tenant sub.table).encard := by
          rw [Set.encard_sdiff_singleton_add_one hwas]
  · exact add_le_add (Nat.cast_le.mpr (Subscriptions.countForTable_insert_of_ne hof))
      (Set.encard_le_encard hstays)

/-- The load of every table stays within the budget, and each call asks what it may. -/
structure Fitting (calls : ι → Call) (p : LivePool ι) : Prop where
  fits : ∀ tenant table, load p tenant table ≤ liveSubBudgetPerTable
  safe : ∀ i, Pool.Safe traffic (fun _ _ _ => True) (May (calls i)) (Ends (calls i)) (p.known i)
    (p.prog i)

omit [DecidableEq ι] in
theorem fitting_start (calls : ι → Call) : Fitting calls (start calls) where
  fits tenant table := by
    have hempty : InFlight (start calls) tenant table = ∅ := by
      ext i
      simp [InFlight, Passed, start]
    unfold load
    rw [hempty]
    simp [start, Subscriptions.countForTable]
  safe i := safe_program (calls i)

theorem Fitting.step (hp : Fitting calls p) (h : Pool.Step traffic p t p') (hroom : Room p t p') :
    Fitting calls p' where
  safe i := Pool.Safe.step h trivial (hp.safe i)
  fits tenant table := by
    by_cases hinsert : ∃ id sub at_, t.request = .insert id sub at_
    · obtain ⟨id, sub, at_, hq⟩ := hinsert
      have hmay := Pool.Safe.asks h (hp.safe t.thread)
      rw [hq] at hmay
      exact (load_le_of_insert h hq hmay).trans (hp.fits tenant table)
    · by_cases hcount : t.request = .countForTable tenant table ∧
        p.shared.subs.countForTable tenant table < liveSubBudgetPerTable
      · exact (load_le_of_count h hcount.1).trans
          (Order.add_one_le_of_lt (hroom tenant table hcount.1 hcount.2))
      · refine (load_le_of_quiet h ?_ fun hq => ?_).trans (hp.fits tenant table)
        · exact fun id sub at_ hq => hinsert ⟨id, sub, at_, hq⟩
        · exact Nat.le_of_not_lt fun hlt => hcount ⟨hq, hlt⟩

/-- In a run in which every count that passes leaves room for the load, no table ever has more
subscriptions than its budget. -/
theorem live_budget {ts : List (Turn LiveRequest LiveAnswer ι)}
    (h : Run.Steps (Pool.Step traffic) (start calls) Room ts p) : WithinBudget p := by
  -- The load of a table counts the subscriptions on their way into it as well.
  have hfits : Fitting calls p := h.invariant (fitting_start calls) fun _ _ _ ha hstep hroom =>
    ha.step hstep hroom
  intro tenant table
  have hle : (p.shared.subs.countForTable tenant table : ℕ∞) ≤ liveSubBudgetPerTable :=
    le_self_add.trans (hfits.fits tenant table)
  exact_mod_cast hle

omit [DecidableEq ι] in
/-- Where nobody has been counted, a count that passes leaves room. -/
theorem room_of_first {t : Turn LiveRequest LiveAnswer ι}
    (hfirst : ∀ tenant table n, t.request = .countForTable tenant table →
      ∀ i, ⟨.countForTable tenant table, n⟩ ∉ p.known i) : Room p t p' := by
  intro tenant table hq hlt
  have hempty : InFlight p tenant table = ∅ := by
    ext i
    refine ⟨?_, fun h => h.elim⟩
    rintro ⟨⟨n, _, hcounted⟩, _⟩
    exact hfirst tenant table n hq i hcounted
  unfold load
  rw [hempty, Set.encard_empty, add_zero]
  exact_mod_cast hlt

/-- A count. -/
def isCount : LiveRequest → Bool
  | .countForTable _ _ => true
  | _ => false

/-- Ann of acme is alone. -/
theorem live_budget_alone : WithinBudget (afterDrain annOfAcme) := by
  have halone : ∀ x ∈ Pool.play traffic LiveState.answer (start (oneDrain annOfAcme)) inTurn,
      isCount x.2.1.request = true → ∀ i, ∀ asked ∈ x.1.known i, isCount asked.request = false := by
    decide +kernel
  have hrun : Run.Steps (Pool.Step traffic) (start (oneDrain annOfAcme)) Room _
      (afterDrain annOfAcme) :=
    Pool.steps_play answers_answer inTurn _ fun x hx =>
      room_of_first fun tenant table n hq i hmem => by
        have hnot := halone x hx (by rw [hq]; rfl) i _ hmem
        cases hnot
  exact live_budget hrun

/-- One more than the budget. -/
abbrev Crowd := Fin 21

/-- They all subscribe to the notes. -/
def crowd : Crowd → Call := fun _ => .subscribe annOfAcme (some "secret") "note"

/-- All count, and then all insert. -/
def countFirst : List Crowd :=
  (List.finRange 21).flatMap (fun i => [i, i]) ++ (List.finRange 21).flatMap fun i =>
    List.replicate 7 i

/-- All counts find no subscription, and one too many is inserted. -/
theorem not_live_budget :
    ¬∀ (calls : Crowd → Call) ts p, Run (Pool.Step traffic) (start calls) ts p →
      WithinBudget p := by
  intro h
  have hrun : Run (Pool.Step traffic) (start crowd) _ _ :=
    Pool.run_play answers_answer countFirst _
  have hcount : (Pool.played traffic LiveState.answer (start crowd) countFirst
      ).shared.subs.countForTable "acme" "note" = 21 := by decide +kernel
  have hle := h _ _ _ hrun "acme" "note"
  rw [hcount] at hle
  exact absurd hle (by decide)

end Realtime

end Frust.Kernel
