import Frust.Kernel.Worker
import Frust.Proofs.Kernel.Row
import Mathlib.Data.List.MinMax

/-!
# `Frust.Proofs.Kernel.Job`: what a statement does to a job

`lookup_update` says what becomes of one job when an `UPDATE` is executed, and
`mem_updatedRows` what the rows that it answers say about the table. `JobRow.Orderly` is
what every statement of a worker keeps of a row: a queued job has attempts left, and a
running one is held under a token and a lease. `JobHost.plain` is a database that lists in
the order of its table, and `answers_serve` says that it may be served at one instant.
-/

set_option autoImplicit false

namespace Frust.Kernel

open Frust.Lib

namespace JobTable

variable {now : Time} {rid : Option String} {sets : List JobSet} {cond : JobCond}
  {table : JobTable}

theorem updated_fst (job : JobRecord) : (updated now rid sets cond job).1 = job.1 := by
  unfold updated
  split <;> rfl

theorem lookup_update (id : String) :
    (table.update now rid sets cond).lookup id = (table.lookup id).map fun row =>
      if hits now rid cond (id, row) then applySets now sets row else row := by
  unfold JobTable.update
  rw [lookup_map_keyed updated_fst]
  refine congrArg (Option.map · _) (funext fun row => ?_)
  unfold updated
  split <;> rfl

@[simp] theorem ids_update : (table.update now rid sets cond).map (·.1) = table.map (·.1) :=
  keys_map_keyed updated_fst table

/-- A row that an `UPDATE` answers is a job that it took. -/
theorem mem_updatedRows (hnodup : (table.map (·.1)).Nodup) {job : JobRecord}
    (h : job ∈ table.updatedRows now rid sets cond) :
    ∃ row, table.lookup job.1 = some row ∧ hits now rid cond (job.1, row) = true ∧
      job.2 = applySets now sets row := by
  obtain ⟨job₀, hjob₀, rfl⟩ := List.mem_map.mp h
  obtain ⟨hmem, hhits⟩ := List.mem_filter.mp hjob₀
  exact ⟨job₀.2, lookup_of_mem hnodup hmem, hhits, rfl⟩

/-- An `UPDATE` that takes a job answers with it. -/
theorem mem_updatedRows_of_hits {id : String} {row : JobRow} (hfound : table.lookup id = some row)
    (hhits : hits now rid cond (id, row) = true) :
    (id, applySets now sets row) ∈ table.updatedRows now rid sets cond :=
  List.mem_map_of_mem (List.mem_filter.mpr ⟨mem_of_lookup hfound, hhits⟩)

/-- An `UPDATE` that takes no job leaves the table. -/
theorem update_of_miss (h : ∀ job ∈ table, hits now rid cond job = false) :
    table.update now rid sets cond = table := by
  have hsame : ∀ job ∈ table, updated now rid sets cond job = job := by
    intro job hjob
    unfold updated
    rw [h job hjob]
    rfl
  unfold JobTable.update
  rw [List.map_congr_left hsame, List.map_id']

/-- An `UPDATE` of one record takes that record only. -/
theorem hits_some {id : String} {row : JobRow} {rid : String} :
    hits now (some rid) cond (id, row) = (decide (rid = id) && cond.holds now row) := by
  simp [hits]

end JobTable

/-- A record that an `UPDATE` of one record answers is that record. -/
theorem JobTable.fst_of_mem_updatedRows {now : Time} {rid : String} {sets : List JobSet}
    {cond : JobCond} {table : JobTable} {record : JobRecord}
    (h : record ∈ table.updatedRows now (some rid) sets cond) : record.1 = rid := by
  obtain ⟨⟨id, row⟩, hmem, rfl⟩ := List.mem_map.mp h
  have hhits := (List.mem_filter.mp hmem).2
  rw [hits_some, Bool.and_eq_true, decide_eq_true_eq] at hhits
  exact hhits.1.symm

/-- The text of an `UPDATE` of one record. -/
theorem text_update_iff {id : String} {sets : List JobSet} {cond : JobCond} :
    (∃ text, (JobStatement.update (some id) sets cond).text = .ok text) ↔ Renders id := by
  unfold Renders JobStatement.text
  constructor
  · rintro ⟨text, h⟩
    obtain ⟨target, htarget, _⟩ := bind_eq_ok h
    exact ⟨target, htarget⟩
  · rintro ⟨target, htarget⟩
    exact ⟨_, by simp only [htarget]; rfl⟩

/-! ### Rows -/

namespace JobRow

/-- How often a job was claimed. -/
def tries (row : JobRow) : Nat := (row.attempts.getD 0).toNat

/-- What the workers keep of a row. -/
structure Orderly (row : JobRow) : Prop where
  counted : ∀ n, row.attempts = some n → 0 ≤ n
  budget : row.tries ≤ maxJobAttempts
  waiting : row.status = .queued → row.tries < maxJobAttempts
  running : row.status = .running → row.attempts.isSome ∧ row.leaseExpiresAt.isSome

/-- No statement of a worker changes it any more. -/
def Closed (row : JobRow) : Prop :=
  row.status = .done ∨ row.status = .denied ∨ row.status = .dead

theorem Closed.not_queued {row : JobRow} (h : row.Closed) : row.status ≠ .queued := by
  rcases h with h | h | h <;> simp [h]

theorem Closed.not_running {row : JobRow} (h : row.Closed) : row.status ≠ .running := by
  rcases h with h | h | h <;> simp [h]

end JobRow

/-- A claim takes jobs that are queued or running. -/
theorem open_of_claimable {source : ClaimSource} {now : Time} {row : JobRow}
    (h : source.predicate.holds now row = true) :
    row.status = .queued ∨ row.status = .running := by
  cases source with
  | queued =>
      simp only [ClaimSource.predicate, JobCond.holds, Bool.and_eq_true, decide_eq_true_eq] at h
      exact Or.inl h.1
  | expiredLease =>
      simp only [ClaimSource.predicate, JobCond.holds, Bool.and_eq_true, decide_eq_true_eq] at h
      exact Or.inr h.1.1.1

theorem open_of_exhausted {now : Time} {row : JobRow}
    (h : exhaustedPredicate.holds now row = true) :
    row.status = .queued ∨ row.status = .running := by
  simp only [exhaustedPredicate, JobCond.holds, Bool.and_eq_true, Bool.or_eq_true,
    decide_eq_true_eq] at h
  rcases h.2 with hq | hr
  · exact Or.inl hq
  · exact Or.inr hr.1.1

theorem JobRow.Closed.not_open {row : JobRow} (h : row.Closed) :
    ¬(row.status = .queued ∨ row.status = .running) := by
  rintro (hs | hs)
  · exact h.not_queued hs
  · exact h.not_running hs

/-- A claim takes jobs with attempts left. -/
theorem tries_of_claimable {source : ClaimSource} {now : Time} {row : JobRow}
    (h : source.predicate.holds now row = true) : row.tries < maxJobAttempts := by
  have hbelow : row.attempts = none ∨ ∃ n, row.attempts = some n ∧ n < (maxJobAttempts : Int) := by
    cases ha : row.attempts with
    | none => exact Or.inl rfl
    | some n =>
        refine Or.inr ⟨n, rfl, ?_⟩
        cases source <;> simp_all [ClaimSource.predicate, JobCond.holds]
  rcases hbelow with ha | ⟨n, ha, hn⟩
  · simp [JobRow.tries, ha, maxJobAttempts]
  · have : maxJobAttempts = 5 := rfl
    simp only [JobRow.tries, ha, Option.getD_some]
    omega

/-- The reaper takes jobs without attempts left. -/
theorem tries_of_exhausted {now : Time} {row : JobRow}
    (h : exhaustedPredicate.holds now row = true) : maxJobAttempts ≤ row.tries := by
  simp only [exhaustedPredicate, JobCond.holds, Bool.and_eq_true] at h
  have hspent := h.1
  cases ha : row.attempts with
  | none => simp [ha] at hspent
  | some n =>
      simp only [ha, Option.any_some, decide_eq_true_eq] at hspent
      simp only [JobRow.tries, ha, Option.getD_some]
      omega

/-- A job is eligible if a claim takes it. -/
theorem eligible_iff {now : Time} {row : JobRow} :
    eligiblePredicate.holds now row = true ↔
      ∃ source : ClaimSource, source.predicate.holds now row = true := by
  simp only [eligiblePredicate, JobCond.holds, Bool.or_eq_true]
  constructor
  · rintro (h | h)
    · exact ⟨.queued, h⟩
    · exact ⟨.expiredLease, h⟩
  · rintro ⟨source, h⟩
    cases source with
    | queued => exact Or.inl h
    | expiredLease => exact Or.inr h

/-! ### A database that lists in the order of the table -/

/-- Puts a value into groups, if it is in none. -/
def addGroup (groups : List Value) (v : Value) : List Value :=
  if groups.any (eqValue · v) then groups else groups ++ [v]

/-- The values of a list, each once. -/
def groupValues (vs : List Value) : List Value := vs.foldl addGroup []

theorem pairwise_groupValues (vs : List Value) :
    (groupValues vs).Pairwise fun a b => eqValue a b = false := by
  suffices ∀ groups : List Value, groups.Pairwise (fun a b => eqValue a b = false) →
      (vs.foldl addGroup groups).Pairwise fun a b => eqValue a b = false from this [] .nil
  induction vs with
  | nil => exact fun _ h => h
  | cons v vs ih =>
      intro groups h
      refine ih _ ?_
      unfold addGroup
      split
      · exact h
      · rename_i hnone
        refine List.pairwise_append.mpr ⟨h, List.pairwise_singleton _ _, fun a ha b hb => ?_⟩
        rw [List.mem_singleton.mp hb]
        simp only [List.any_eq_true, not_exists, not_and, Bool.not_eq_true] at hnone
        exact hnone a ha

theorem subset_groupValues (vs : List Value) : ∀ v ∈ groupValues vs, v ∈ vs := by
  suffices ∀ groups : List Value, ∀ v ∈ vs.foldl addGroup groups, v ∈ groups ∨ v ∈ vs from
    fun v hv => (this [] v hv).resolve_left (by simp)
  induction vs with
  | nil => exact fun _ _ h => Or.inl h
  | cons u vs ih =>
      intro groups v hv
      rcases ih _ v hv with hv | hv
      · unfold addGroup at hv
        split at hv
        · exact Or.inl hv
        · rcases List.mem_append.mp hv with hv | hv
          · exact Or.inl hv
          · exact Or.inr (List.mem_singleton.mp hv ▸ List.mem_cons_self)
      · exact Or.inr (List.mem_cons_of_mem _ hv)

theorem groupValues_complete (vs : List Value) :
    ∀ v ∈ vs, ∃ u ∈ groupValues vs, u = v ∨ eqValue u v = true := by
  suffices ∀ (groups : List Value) (v : Value),
      (v ∈ vs ∨ ∃ u ∈ groups, u = v ∨ eqValue u v = true) →
        ∃ u ∈ vs.foldl addGroup groups, u = v ∨ eqValue u v = true from
    fun v hv => this [] v (Or.inl hv)
  induction vs with
  | nil => exact fun groups v h => h.resolve_left (by simp)
  | cons w vs ih =>
      intro groups v h
      refine ih _ v ?_
      rcases h with h | ⟨u, hu, huv⟩
      · rcases List.mem_cons.mp h with rfl | h
        · refine Or.inr ?_
          unfold addGroup
          split
          · rename_i hany
            obtain ⟨u, hu, huv⟩ := List.any_eq_true.mp hany
            exact ⟨u, hu, Or.inr huv⟩
          · exact ⟨v, by simp, Or.inl rfl⟩
        · exact Or.inl h
      · refine Or.inr ⟨u, ?_, huv⟩
        unfold addGroup
        split
        · exact hu
        · exact List.mem_append_left _ hu

instance (a b : JobRecord) : Decidable (JobRow.NoLater a.2 b.2) := by
  unfold JobRow.NoLater
  cases a.2.enqueuedAt with
  | none => exact isTrue fun t h => nomatch h
  | some t =>
      cases b.2.enqueuedAt with
      | none => exact isFalse fun h => nomatch (h t rfl).choose_spec.1
      | some u => exact decidable_of_iff (t ≤ u) (by simp)

theorem JobRow.NoLater.trans {a b c : JobRow} (h : a.NoLater b) (h' : b.NoLater c) :
    a.NoLater c := by
  intro t ht
  obtain ⟨u, hu, htu⟩ := h t ht
  obtain ⟨v, hv, huv⟩ := h' u hu
  exact ⟨v, hv, Nat.le_trans htu huv⟩

theorem JobRow.NoLater.total (a b : JobRow) : a.NoLater b ∨ b.NoLater a := by
  unfold NoLater
  cases a.enqueuedAt with
  | none => exact Or.inl fun t h => nomatch h
  | some t =>
      cases b.enqueuedAt with
      | none => exact Or.inr fun t h => nomatch h
      | some u => rcases Nat.le_total t u with h | h <;> simp [h]

/-- Lists tenants and jobs in the order of the table, as far as `ORDER BY` leaves it open. -/
def JobHost.plain (policies : String → Nat) : JobHost where
  policies := policies
  tenants now table := groupValues ((table.eligible now).map (·.2.tenant))
  heads now tenant table :=
    ((table.eligibleOf now tenant).insertionSort fun a b => a.2.NoLater b.2).take headPerTenant
  tenants_distinct _ _ := pairwise_groupValues _
  tenants_found now table v hv := List.mem_map.mp (subset_groupValues _ v hv)
  tenants_complete now table job hjob := groupValues_complete _ _ (List.mem_map_of_mem hjob)
  heads_eq now tenant table := by
    have : Std.Total fun a b : JobRecord => a.2.NoLater b.2 := ⟨fun a b => JobRow.NoLater.total a.2 b.2⟩
    have : IsTrans JobRecord fun a b => a.2.NoLater b.2 := ⟨fun _ _ _ h h' => h.trans h'⟩
    exact ⟨_, List.perm_insertionSort _ _, List.pairwise_insertionSort _ _, rfl⟩

/-- What `serve` does is one of the things that may happen. -/
theorem answers_serve (host : JobHost) (callers : String → Option Caller)
    (effects : Caller → String → Doc → Except BrokerError Json) (w : JobWorld) (q : JobRequest) :
    host.Answers w q (host.serve callers effects w q).1 (host.serve callers effects w q).2 := by
  cases q with
  | nextClaimToken =>
      have hlonger : ∀ token ∈ w.issued,
          token.length ≤ (w.issued.map String.length).foldr max 0 := by
        intro token htoken
        exact List.le_max_of_le' 0 (List.mem_map_of_mem htoken) (Nat.le_refl _)
      refine ⟨fun h => ?_, fun h => ?_, rfl⟩
      · have := congrArg String.length h
        simp [JobHost.serve] at this
      · have := hlonger _ h
        simp only [JobHost.serve, String.length_ofList, List.length_replicate] at this
        omega
  | sql stmt => exact ⟨w.now, Nat.le_refl _, Or.inr ⟨rfl, rfl⟩⟩
  | nextRound => exact ⟨rfl, rfl⟩
  | jobsPerRound tenant => exact ⟨rfl, rfl⟩
  | span job => rfl
  | callerFor principal => rfl
  | dbWrite caller doctype doc => rfl

end Frust.Kernel
