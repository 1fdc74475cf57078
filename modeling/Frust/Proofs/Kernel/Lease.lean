import Frust.Proofs.Kernel.Worker

/-!
# `Frust.Proofs.Kernel.Lease`: jobs under leases

Any number of workers use one job table, each statement at any time, and any worker may
stop anywhere: it then asks nothing more. `job_lease_protocol` is about one job that was
enqueued: it is run at most `MAX_JOB_ATTEMPTS` times, an update under a superseded lease
has no effect, a closed job stays as it is, and an open one can always go on.

A claim counts an attempt, so the attempt of a lease says which of the claims it is, and a
lease is superseded when the job was claimed again. `Protocol` is the invariant. It ties
every lease that a worker holds to the row: its attempt is not ahead of the row's, and if
the row still has its token, then it is the row's attempt. Every run that was begun, or is
still to begin, is of another attempt.
-/

set_option autoImplicit false

namespace Frust.Kernel

open Frust.Lib Frust.Lib.Pool

/-! ### Rows -/

namespace JobRow

/-- What neither claims a job nor puts it under another lease. -/
structure Kept (row row' : JobRow) : Prop where
  tries : row'.tries = row.tries
  orderly : row'.Orderly
  running : row'.status = .running → row.status = .running ∧ row'.claimToken = row.claimToken

theorem Orderly.kept {row : JobRow} (h : row.Orderly) : Kept row row := ⟨rfl, h, fun h => ⟨h, rfl⟩⟩

theorem Orderly.claim {row : JobRow} (h : row.Orderly) (now : Time) (worker token : String)
    (hleft : row.tries < maxJobAttempts) :
    (applySets now (claimSets worker token) row).Orderly ∧
      (applySets now (claimSets worker token) row).tries = row.tries + 1 ∧
      (applySets now (claimSets worker token) row).claimToken = some token := by
  generalize hrow : applySets now (claimSets worker token) row = row'
  have hattempts : row'.attempts = some (row.attempts.elim 1 (· + 1)) := by subst hrow; rfl
  have hstatus : row'.status = .running := by subst hrow; rfl
  have hlease : row'.leaseExpiresAt.isSome := by subst hrow; rfl
  -- The count is not negative, so one more is one more try.
  have htries : row'.tries = row.tries + 1 := by
    unfold tries
    rw [hattempts]
    cases hn : row.attempts with
    | none => rfl
    | some n =>
        have := h.counted n hn
        simp only [Option.elim_some, Option.getD_some]
        omega
  refine ⟨⟨fun n hn => ?_, by omega, fun hq => ?_, fun _ => ⟨?_, hlease⟩⟩, htries, ?_⟩
  · rw [hattempts] at hn
    cases hn
    cases hm : row.attempts with
    | none => simp
    | some m =>
        have := h.counted m hm
        simp only [Option.elim_some]
        omega
  · exact absurd (hstatus.symm.trans hq) (by simp)
  · rw [hattempts]
    rfl
  · subst hrow
    rfl

theorem Orderly.close {row row' : JobRow} (h : row.Orderly) (hattempts : row'.attempts = row.attempts)
    (hclosed : row'.Closed) : Kept row row' := by
  have htries : row'.tries = row.tries := by rw [tries, hattempts, ← tries]
  refine ⟨htries, ⟨fun n hn => h.counted n (hattempts ▸ hn), htries ▸ h.budget, fun hq => ?_,
    fun hr => ?_⟩, fun hr => ?_⟩
  · exact absurd hq hclosed.not_queued
  · exact absurd hr hclosed.not_running
  · exact absurd hr hclosed.not_running

/-- An update under a lease counts no attempt. -/
theorem attempts_of_leaseUpdate {job : Job} {sets : List JobSet} (h : LeaseUpdate job sets)
    (now : Time) (row : JobRow) : (applySets now sets row).attempts = row.attempts := by
  cases h with
  | retry detail =>
      unfold retryUpdate
      split <;> simp [applySets, JobSet.apply]
  | _ => simp [applySets, finishUpdate, JobSet.apply]

/-- A job after an update under its lease. -/
theorem Orderly.fenced {row : JobRow} (h : row.Orderly) (now : Time) {job : Job}
    {sets : List JobSet} (hsets : LeaseUpdate job sets) (hrunning : row.status = .running)
    (hattempt : row.tries = job.lease.attempt) : Kept row (applySets now sets row) := by
  have hattempts := attempts_of_leaseUpdate hsets now row
  cases hsets with
  | renew =>
      have htries : (applySets now [.leased] row).tries = row.tries := by
        rw [JobRow.tries, hattempts, ← JobRow.tries]
      refine ⟨htries, ⟨fun n hn => h.counted n (hattempts ▸ hn), htries ▸ h.budget, fun hq => ?_,
        fun hr => ⟨hattempts ▸ (h.running hr).1, rfl⟩⟩, fun hr => ⟨hr, rfl⟩⟩
      exact absurd (hrunning.symm.trans hq) (by simp)
  | done detail => exact h.close hattempts (Or.inl rfl)
  | denied detail => exact h.close hattempts (Or.inr (Or.inl rfl))
  | retry detail =>
      by_cases hlast : maxJobAttempts ≤ job.lease.attempt
      · refine h.close hattempts (Or.inr (Or.inr ?_))
        simp [retryUpdate, hlast, applySets, JobSet.apply]
      · -- only a job with attempts left is queued again
        have hleft : row.tries < maxJobAttempts := by omega
        have hqueued : (applySets now (retryUpdate job.lease.attempt detail).2 row).status
            = .queued := by
          simp [retryUpdate, hlast, applySets, JobSet.apply]
        have htries : (applySets now (retryUpdate job.lease.attempt detail).2 row).tries
            = row.tries := by
          rw [JobRow.tries, hattempts, ← JobRow.tries]
        refine ⟨htries, ⟨fun n hn => h.counted n (hattempts ▸ hn), htries ▸ h.budget,
          fun _ => htries ▸ hleft, fun hr => ?_⟩, fun hr => ?_⟩
        · exact absurd (hqueued.symm.trans hr) (by simp)
        · exact absurd (hqueued.symm.trans hr) (by simp)

theorem Orderly.reap {row : JobRow} (h : row.Orderly) (now : Time) {sets : List JobSet}
    {cond : JobCond} (hsets : JobStatement.update none sets cond = reapSql) :
    Kept row (applySets now sets row) := by
  unfold reapSql at hsets
  injection hsets with _ hsets _
  subst hsets
  refine h.close ?_ (Or.inr (Or.inr ?_)) <;> simp [applySets, JobSet.apply]

end JobRow

/-- What a claimed job says about its row. -/
theorem decodeJob_spec {record : JobRecord} {job : Job} (h : decodeJob record = .ok job) :
    job.id = record.1 ∧ record.2.claimToken = some job.lease.token ∧
      record.2.tries = job.lease.attempt ∧ 0 < job.lease.attempt := by
  unfold decodeJob at h
  obtain ⟨attempt, hattempt, h⟩ := bind_eq_ok h
  obtain ⟨claimedBy, _, h⟩ := bind_eq_ok h
  obtain ⟨token, htoken, h⟩ := bind_eq_ok h
  obtain ⟨expiresAt, _, h⟩ := bind_eq_ok h
  cases h
  refine ⟨rfl, ?_, ?_⟩
  · unfold requiredColumn at htoken
    split at htoken
    · rename_i v hv
      cases htoken
      exact (Option.filter_eq_some_iff.mp hv).1
    · cases htoken
  · unfold attemptOf at hattempt
    split at hattempt
    · rename_i n hn
      cases hattempt
      obtain ⟨hn, hpos⟩ := Option.filter_eq_some_iff.mp hn
      have hpos : 0 < n ∧ n < 2 ^ 32 := of_decide_eq_true hpos
      refine ⟨by simp [JobRow.tries, hn], ?_⟩
      show 0 < n.toNat
      omega
    · cases hattempt

/-! ### Statements -/

section

variable {host : JobHost} {s s' : JobWorld}

/-- What a statement can do to the world. -/
theorem sql_cases {stmt : JobStatement} {r : Except BrokerError stmt.Rows}
    (h : host.Answers s (.sql stmt) r s') :
    s'.issued = s.issued ∧ s'.spans = s.spans ∧ s.now ≤ s'.now ∧
      (s'.jobs = s.jobs ∨ ∃ rid sets cond, stmt = .update rid sets cond ∧
        s'.jobs = s.jobs.update s'.now rid sets cond) := by
  obtain ⟨now, hnow, hexec⟩ := h
  have heffect : s' = { s with now := now } ∨ s' = (host.exec { s with now := now } stmt).2 := by
    rcases hexec with ⟨_, _, hs⟩ | ⟨_, hs⟩
    · exact hs
    · exact Or.inr hs
  rcases heffect with rfl | rfl
  · exact ⟨rfl, rfl, hnow, Or.inl rfl⟩
  · cases stmt with
    | update rid sets cond => exact ⟨rfl, rfl, hnow, Or.inr ⟨rid, sets, cond, rfl, rfl⟩⟩
    | tenants => exact ⟨rfl, rfl, hnow, Or.inl rfl⟩
    | heads tenant => exact ⟨rfl, rfl, hnow, Or.inl rfl⟩

/-- The job that an `UPDATE` hands out is one that it took. -/
theorem claimedJob_spec (hnodup : (s.jobs.map (·.1)).Nodup) {rid : Option String}
    {sets : List JobSet} {cond : JobCond} {r : Except BrokerError (List JobRecord)}
    (h : host.Answers s (.sql (.update rid sets cond)) r s') {job : Job}
    (hjob : claimedJob r = some job) :
    ∃ row, s.jobs.lookup job.id = some row ∧
      JobTable.hits s'.now rid cond (job.id, row) = true ∧
      s'.jobs = s.jobs.update s'.now rid sets cond ∧
      (applySets s'.now sets row).claimToken = some job.lease.token ∧
      (applySets s'.now sets row).tries = job.lease.attempt ∧ 0 < job.lease.attempt := by
  obtain ⟨now, _, hexec⟩ := h
  rcases hexec with ⟨e, rfl, _⟩ | ⟨rfl, rfl⟩
  · cases hjob
  · -- The job is decoded from the first row that the statement returned.
    have hrows : ∃ record rest, s.jobs.updatedRows now rid sets cond = record :: rest ∧
        decodeJob record = .ok job := by
      unfold claimedJob JobHost.exec at hjob
      cases hlist : s.jobs.updatedRows now rid sets cond with
      | nil => simp [hlist] at hjob
      | cons record rest =>
          simp only [hlist] at hjob
          refine ⟨record, rest, rfl, ?_⟩
          cases hd : decodeJob record with
          | error e => simp [hd, Except.toOption] at hjob
          | ok job' =>
              simp only [hd, Except.toOption, Option.some.injEq] at hjob
              rw [hjob]
    obtain ⟨record, rest, hlist, hdecode⟩ := hrows
    obtain ⟨hid, htoken, htries, hpos⟩ := decodeJob_spec hdecode
    have hmem : record ∈ s.jobs.updatedRows now rid sets cond := hlist ▸ List.mem_cons_self
    obtain ⟨row, hfound, hhits, hrow⟩ := JobTable.mem_updatedRows hnodup hmem
    rw [hrow] at htoken htries
    rw [hid]
    exact ⟨row, hfound, hhits, rfl, htoken, htries, hpos⟩

end

/-! ### The protocol -/

/-- A pool of workers. -/
abbrev JobPool (ι : Type) := Pool BrokerError JobRequest JobAnswer Unit JobWorld LeaseBook ι

/-- A step of one of them. -/
abbrev JobTurn (ι : Type) := Turn JobRequest JobAnswer ι

/-- What a worker's book says about a job's row. -/
structure Tied (id : String) (w : JobWorld) (row : JobRow) (k : LeaseBook) : Prop where
  behind : ∀ job ∈ k.held, job.id = id → job.lease.attempt ≤ row.tries
  current : ∀ job ∈ k.held, job.id = id → row.status = .running →
    row.claimToken = some job.lease.token → row.tries = job.lease.attempt
  fresh : ∀ n, (id, n) ∈ k.fresh → 1 ≤ n ∧ n ≤ row.tries ∧ (id, n) ∉ w.spans
  once : ∀ n, k.fresh.count (id, n) ≤ 1
  issued : ∀ job ∈ k.held, job.lease.token ∈ w.issued
  pending : ∀ token, k.token = some token → token ∈ w.issued

/-- Two books have no token and no run in common, and no token that one has not used is
under a lease of the other. -/
structure Apart (id : String) (k k' : LeaseBook) : Prop where
  fresh : ∀ n, (id, n) ∈ k.fresh → (id, n) ∉ k'.fresh
  token : ∀ token, k.token = some token → k'.token ≠ some token

/-- The token is under no lease of the book. -/
def Unused (token : String) (k : LeaseBook) : Prop := ∀ job ∈ k.held, job.lease.token ≠ token

section

variable {ι : Type}

/-- What every step keeps, of one job. -/
structure Protocol (host : JobHost) (id : String) (p : JobPool ι) (row : JobRow) : Prop where
  ids : (p.shared.jobs.map (·.1)).Nodup
  found : p.shared.jobs.lookup id = some row
  orderly : row.Orderly
  tied : ∀ i, Tied id p.shared row (p.known i)
  spans : ∀ n, (id, n) ∈ p.shared.spans → 1 ≤ n ∧ n ≤ row.tries
  spans_once : (p.shared.spans.filter (·.1 = id)).Nodup
  apart : ∀ i j, i ≠ j → Apart id (p.known i) (p.known j)
  unused : ∀ i token, (p.known i).token = some token → ∀ j, Unused token (p.known j)
  safe : ∀ i, ByTheBook host (fun _ _ => True) (p.known i) (p.prog i)

/-- A worker's book where its job is kept. -/
theorem Tied.kept {id : String} {w w' : JobWorld} {row row' : JobRow} {k : LeaseBook}
    (h : Tied id w row k) (hkept : row.Kept row') (hissued : w'.issued = w.issued)
    (hspans : w'.spans = w.spans) : Tied id w' row' k where
  behind job hjob hid := hkept.tries ▸ h.behind job hjob hid
  current job hjob hid hr ht := by
    obtain ⟨hrunning, htoken⟩ := hkept.running hr
    rw [hkept.tries]
    exact h.current job hjob hid hrunning (htoken ▸ ht)
  fresh n hn := by
    rw [hkept.tries, hspans]
    exact h.fresh n hn
  once := h.once
  issued job hjob := hissued ▸ h.issued job hjob
  pending token ht := hissued ▸ h.pending token ht

theorem Apart.symm {id : String} {k k' : LeaseBook} (h : Apart id k k') : Apart id k' k where
  fresh n hn hk := h.fresh n hk hn
  token t ht hk := h.token t hk ht

/-- A book with no more leases and no other token. -/
structure LeaseBook.Within (k' k : LeaseBook) : Prop where
  held : k'.held = k.held
  fresh : ∀ x, k'.fresh.count x ≤ k.fresh.count x
  token : k'.token = k.token ∨ k'.token = none

theorem LeaseBook.Within.refl (k : LeaseBook) : k.Within k := ⟨rfl, fun _ => Nat.le_refl _, Or.inl rfl⟩

theorem LeaseBook.Within.mem_fresh {k k' : LeaseBook} (h : k'.Within k) {x : String × Nat}
    (hx : x ∈ k'.fresh) : x ∈ k.fresh := by
  rw [← List.count_pos_iff] at hx ⊢
  exact Nat.lt_of_lt_of_le hx (h.fresh x)

theorem LeaseBook.Within.token_of {k k' : LeaseBook} (h : k'.Within k) {token : String}
    (ht : k'.token = some token) : k.token = some token := by
  rcases h.token with hk | hk
  · exact hk ▸ ht
  · rw [hk] at ht
    cases ht

theorem Tied.within {id : String} {w : JobWorld} {row : JobRow} {k k' : LeaseBook}
    (h : Tied id w row k) (hk : k'.Within k) : Tied id w row k' where
  behind job hjob := h.behind job (hk.held ▸ hjob)
  current job hjob := h.current job (hk.held ▸ hjob)
  fresh n hn := h.fresh n (hk.mem_fresh hn)
  once n := Nat.le_trans (hk.fresh _) (h.once n)
  issued job hjob := h.issued job (hk.held ▸ hjob)
  pending token ht := h.pending token (hk.token_of ht)

theorem Apart.within {id : String} {k k' j : LeaseBook} (h : Apart id k j) (hk : k'.Within k) :
    Apart id k' j where
  fresh n hn := h.fresh n (hk.mem_fresh hn)
  token t ht := h.token t (hk.token_of ht)

/-! ### Steps -/

variable [DecidableEq ι] {host : JobHost} {id : String} {p p' : JobPool ι} {t : JobTurn ι}
  {row row' : JobRow}

/-- A step after which the worker's book has nothing more, and the job is kept. -/
theorem Protocol.step_within (hp : Protocol host id p row) (h : Step (leaseTraffic host) p t p')
    (hids : (p'.shared.jobs.map (·.1)).Nodup) (hfound : p'.shared.jobs.lookup id = some row')
    (hkept : row.Kept row') (hissued : p'.shared.issued = p.shared.issued)
    (hspans : p'.shared.spans = p.shared.spans)
    (hbook : (p'.known t.thread).Within (p.known t.thread)) : Protocol host id p' row' := by
  have hwithin : ∀ i, (p'.known i).Within (p.known i) := by
    intro i
    by_cases hi : i = t.thread
    · subst hi
      exact hbook
    · rw [h.known_ne hi]
      exact .refl _
  refine ⟨hids, hfound, hkept.orderly, fun i => ?_, fun n hn => ?_, ?_, fun i j hij => ?_,
    fun i token ht j job hjob => ?_, fun i => Safe.step h trivial (hp.safe i)⟩
  · exact ((hp.tied i).within (hwithin i)).kept hkept hissued hspans
  · rw [hkept.tries]
    exact hp.spans n (hspans ▸ hn)
  · exact hspans ▸ hp.spans_once
  · exact (((hp.apart i j hij).within (hwithin i)).symm.within (hwithin j)).symm
  · rw [(hwithin j).held] at hjob
    exact hp.unused i token ((hwithin i).token_of ht) j job hjob

theorem Protocol.step_token (hp : Protocol host id p row) (h : Step (leaseTraffic host) p t p')
    {token : String} (hnew : token ∉ p.shared.issued)
    (hs : p'.shared = { p.shared with issued := token :: p.shared.issued })
    (hbook : p'.known t.thread = { p.known t.thread with token := some token }) :
    Protocol host id p' row := by
  have hfound : p'.shared.jobs.lookup id = some row := by rw [hs]; exact hp.found
  -- every token known so far was issued before
  have hunused : ∀ j, Unused token (p.known j) := by
    intro j job hjob heq
    exact hnew (heq ▸ (hp.tied j).issued job hjob)
  have hheld : ∀ j, (p'.known j).held = (p.known j).held := by
    intro j
    by_cases hj : j = t.thread
    · subst hj
      rw [hbook]
    · rw [h.known_ne hj]
  have hfresh : ∀ j, (p'.known j).fresh = (p.known j).fresh := by
    intro j
    by_cases hj : j = t.thread
    · subst hj
      rw [hbook]
    · rw [h.known_ne hj]
  have htoken : ∀ j x, (p'.known j).token = some x →
      (p.known j).token = some x ∨ (j = t.thread ∧ x = token) := by
    intro j x hx
    by_cases hj : j = t.thread
    · subst hj
      rw [hbook] at hx
      exact Or.inr ⟨rfl, (Option.some.inj hx).symm⟩
    · rw [h.known_ne hj] at hx
      exact Or.inl hx
  have hpending : ∀ j x, (p.known j).token = some x → x ≠ token := by
    intro j x hx heq
    exact hnew (heq ▸ (hp.tied j).pending x hx)
  refine ⟨?_, hfound, hp.orderly, fun j => ?_, fun n hn => ?_, ?_, fun i j hij => ⟨fun n => ?_, ?_⟩,
    fun i x hx j job hjob => ?_, fun i => Safe.step h trivial (hp.safe i)⟩
  · rw [hs]
    exact hp.ids
  · have ht := hp.tied j
    refine ⟨?_, ?_, ?_, ?_, ?_, fun x hx => ?_⟩
    · rw [hheld]
      exact ht.behind
    · rw [hheld]
      exact ht.current
    · rw [hfresh, hs]
      exact ht.fresh
    · rw [hfresh]
      exact ht.once
    · rw [hheld, hs]
      exact fun job hjob => List.mem_cons_of_mem _ (ht.issued job hjob)
    · rw [hs]
      rcases htoken j x hx with hx | ⟨_, rfl⟩
      · exact List.mem_cons_of_mem _ (ht.pending x hx)
      · exact List.mem_cons_self
  · rw [hs] at hn
    exact hp.spans n hn
  · rw [hs]
    exact hp.spans_once
  · rw [hfresh, hfresh]
    exact (hp.apart i j hij).fresh n
  · intro x hi hj
    rcases htoken i x hi with hi | ⟨rfl, rfl⟩
    · rcases htoken j x hj with hj | ⟨rfl, rfl⟩
      · exact (hp.apart i j hij).token x hi hj
      · exact hpending i x hi rfl
    · rcases htoken j x hj with hj | ⟨rfl, _⟩
      · exact hpending j x hj rfl
      · exact hij rfl
  · rw [hheld] at hjob
    rcases htoken i x hx with hx | ⟨_, rfl⟩
    · exact hp.unused i x hx j job hjob
    · exact hunused j job hjob

theorem Protocol.step_span (hp : Protocol host id p row) (h : Step (leaseTraffic host) p t p')
    {job : Job} (hmem : job.key ∈ (p.known t.thread).fresh)
    (hs : p'.shared = { p.shared with spans := job.key :: p.shared.spans })
    (hbook : p'.known t.thread
      = { p.known t.thread with fresh := (p.known t.thread).fresh.erase job.key }) :
    Protocol host id p' row := by
  have hfound : p'.shared.jobs.lookup id = some row := by rw [hs]; exact hp.found
  have hwithin : ∀ i, (p'.known i).Within (p.known i) := by
    intro i
    by_cases hi : i = t.thread
    · subst hi
      rw [hbook]
      exact ⟨rfl, fun x => (List.erase_sublist).count_le x, Or.inl rfl⟩
    · rw [h.known_ne hi]
      exact .refl _
  -- nobody is to begin this run again
  have hbegun : ∀ i n, (id, n) ∈ (p'.known i).fresh → (id, n) ≠ job.key := by
    intro i n hn heq
    by_cases hi : i = t.thread
    · subst hi
      have honce := (hp.tied t.thread).once n
      rw [hbook, heq] at hn
      rw [heq] at honce
      have hpos := List.count_pos_iff.mpr hn
      rw [List.count_erase_self] at hpos
      omega
    · rw [h.known_ne hi] at hn
      exact (hp.apart i t.thread hi).fresh n hn (heq ▸ hmem)
  refine ⟨?_, hfound, hp.orderly, fun i => ?_, fun n hn => ?_, ?_, fun i j hij => ?_,
    fun i token ht j job hjob => ?_, fun i => Safe.step h trivial (hp.safe i)⟩
  · rw [hs]
    exact hp.ids
  · have ht := (hp.tied i).within (hwithin i)
    refine ⟨ht.behind, ht.current, fun n hn => ?_, ht.once, ?_, ?_⟩
    · obtain ⟨hpos, hle, hnot⟩ := ht.fresh n hn
      rw [hs]
      refine ⟨hpos, hle, fun hspan => ?_⟩
      rcases List.mem_cons.mp hspan with heq | hspan
      · exact hbegun i n hn heq
      · exact hnot hspan
    · rw [hs]
      exact ht.issued
    · rw [hs]
      exact ht.pending
  · rw [hs] at hn
    rcases List.mem_cons.mp hn with heq | hn
    · obtain ⟨hpos, hle, _⟩ := (hp.tied t.thread).fresh n (heq ▸ hmem)
      exact ⟨hpos, hle⟩
    · exact hp.spans n hn
  · rw [hs]
    by_cases hid : job.key.1 = id
    · rw [List.filter_cons_of_pos (by simpa using hid), List.nodup_cons]
      refine ⟨fun hspan => ?_, hp.spans_once⟩
      have hkey : job.key = (id, job.key.2) := by rw [← hid]
      have hnot := ((hp.tied t.thread).fresh job.key.2 (hkey ▸ hmem)).2.2
      exact hnot (hkey ▸ (List.mem_filter.mp hspan).1)
    · rw [List.filter_cons_of_neg (by simpa using hid)]
      exact hp.spans_once
  · exact (((hp.apart i j hij).within (hwithin i)).symm.within (hwithin j)).symm
  · rw [(hwithin j).held] at hjob
    exact hp.unused i token ((hwithin i).token_of ht) j job hjob

/-- A claim: the job is kept, or it is claimed under the token. What is handed out is under
the token, and if it is the job then the job was claimed. -/
structure Claims (id token : String) (row row' : JobRow) (job : Option Job) : Prop where
  orderly : row'.Orderly
  moved : row' = row ∨ (row'.tries = row.tries + 1 ∧ row'.claimToken = some token)
  token : ∀ j ∈ job, j.lease.token = token
  attempt : ∀ j ∈ job, j.id = id → j.lease.attempt = row.tries + 1 ∧ row'.tries = row.tries + 1

/-- A claim that is executed, or fails. -/
theorem claims_of_answers {s s' : JobWorld} (hids : (s.jobs.map (·.1)).Nodup)
    (hfound : s.jobs.lookup id = some row) (horderly : row.Orderly) {jobId worker token : String}
    {source : ClaimSource} {r : Except BrokerError (List JobRecord)}
    (h : host.Answers s (.sql (claimSql jobId worker token source)) r s') :
    ∃ row', s'.jobs.lookup id = some row' ∧ Claims id token row row' (claimedJob r) := by
  have hclaimed := fun {row : JobRow} (ho : row.Orderly) (hleft : row.tries < maxJobAttempts) =>
    ho.claim s'.now worker token hleft
  have hspec := fun {job : Job} (hjob : claimedJob r = some job) => claimedJob_spec hids h hjob
  have htoken : ∀ j ∈ claimedJob r, j.lease.token = token := by
    intro j hj
    obtain ⟨row₀, _, _, _, ht, _⟩ := hspec hj
    exact (Option.some.inj ht).symm
  -- an `UPDATE` of the job, or none
  by_cases hhits : s'.jobs ≠ s.jobs ∧
      JobTable.hits s'.now (some jobId) source.predicate (id, row) = true
  · obtain ⟨hchanged, hhits⟩ := hhits
    have hcond : source.predicate.holds s'.now row = true := by
      rw [JobTable.hits_some, Bool.and_eq_true] at hhits
      exact hhits.2
    obtain ⟨_, _, _, hjobs | ⟨_, _, _, hstmt, hjobs⟩⟩ := sql_cases h
    · exact absurd hjobs hchanged
    · unfold claimSql at hstmt
      injection hstmt with hrid hsets hsource
      subst hrid hsets hsource
      obtain ⟨ho, htries, hct⟩ := hclaimed horderly (tries_of_claimable hcond)
      refine ⟨_, ?_, ho, Or.inr ⟨htries, hct⟩, htoken, fun j hj hid => ?_⟩
      · rw [hjobs, JobTable.lookup_update, hfound, Option.map_some, if_pos hhits]
      · obtain ⟨row₀, hfound₀, _, _, _, hattempt, _⟩ := hspec hj
        rw [hid, hfound] at hfound₀
        cases hfound₀
        exact ⟨hattempt ▸ htries, htries⟩
  · have hsame : s'.jobs.lookup id = some row := by
      obtain ⟨_, _, _, hjobs | ⟨_, _, _, hstmt, hjobs⟩⟩ := sql_cases h
      · rw [hjobs]
        exact hfound
      · unfold claimSql at hstmt
        injection hstmt with hrid hsets hsource
        subst hrid hsets hsource
        by_cases hchanged : s'.jobs = s.jobs
        · rw [hchanged]
          exact hfound
        · have hmiss : ¬JobTable.hits s'.now (some jobId) source.predicate (id, row) = true :=
            fun hh => hhits ⟨hchanged, hh⟩
          rw [hjobs, JobTable.lookup_update, hfound, Option.map_some, if_neg hmiss]
    refine ⟨row, hsame, horderly, Or.inl rfl, htoken, fun j hj hid => ?_⟩
    -- the job is not handed out unless it was taken
    obtain ⟨row₀, hfound₀, hhits₀, hjobs, _, _, _⟩ := hspec hj
    rw [hid, hfound] at hfound₀
    cases hfound₀
    rw [hid] at hhits₀
    have hcond : source.predicate.holds s'.now row = true := by
      rw [JobTable.hits_some, Bool.and_eq_true] at hhits₀
      exact hhits₀.2
    have hlookup : s'.jobs.lookup id = some (applySets s'.now (claimSets worker token) row) := by
      rw [hjobs, JobTable.lookup_update, hfound, Option.map_some, if_pos hhits₀]
    rw [hsame] at hlookup
    have htries := (hclaimed horderly (tries_of_claimable hcond)).2.1
    rw [← Option.some.inj hlookup] at htries
    omega

theorem Protocol.step_claim (hp : Protocol host id p row) (h : Step (leaseTraffic host) p t p')
    {token : String} {job : Option Job} (hids : (p'.shared.jobs.map (·.1)).Nodup)
    (hfound : p'.shared.jobs.lookup id = some row') (hclaims : Claims id token row row' job)
    (htoken : (p.known t.thread).token = some token)
    (hissued : p'.shared.issued = p.shared.issued) (hspans : p'.shared.spans = p.shared.spans)
    (hbook : p'.known t.thread = (p.known t.thread).claim job) : Protocol host id p' row' := by
  have hle : row.tries ≤ row'.tries := by
    rcases hclaims.moved with heq | ⟨htries, _⟩
    · exact Nat.le_of_eq (congrArg _ heq.symm)
    · omega
  -- the leases from before are none of the new token
  have hold : ∀ i, Tied id p'.shared row' (p.known i) := by
    intro i
    have ht := hp.tied i
    refine ⟨fun job hjob hid => ?_, fun job hjob hid hr htok => ?_, fun n hn => ?_, ht.once, ?_, ?_⟩
    · exact Nat.le_trans (ht.behind job hjob hid) hle
    · rcases hclaims.moved with heq | ⟨_, hct⟩
      · rw [heq] at hr htok ⊢
        exact ht.current job hjob hid hr htok
      · rw [hct] at htok
        exact absurd (Option.some.inj htok).symm (hp.unused _ token htoken i job hjob)
    · obtain ⟨hpos, hn, hnot⟩ := ht.fresh n hn
      rw [hspans]
      exact ⟨hpos, Nat.le_trans hn hle, hnot⟩
    · rw [hissued]
      exact ht.issued
    · rw [hissued]
      exact ht.pending
  have hself := hold t.thread
  have hheld : ∀ j ∈ (p'.known t.thread).held, j ∈ job ∨ j ∈ (p.known t.thread).held := by
    intro j hj
    rw [hbook] at hj
    rcases List.mem_append.mp hj with hj | hj
    · exact Or.inl (Option.mem_toList.mp hj)
    · exact Or.inr hj
  have hfresh : ∀ n, (id, n) ∈ (p'.known t.thread).fresh →
      (∃ j ∈ job, j.id = id ∧ n = j.lease.attempt) ∨ (id, n) ∈ (p.known t.thread).fresh := by
    intro n hn
    rw [hbook] at hn
    rcases List.mem_append.mp hn with hn | hn
    · obtain ⟨j, hj, hkey⟩ := List.mem_map.mp hn
      obtain ⟨hid, hattempt⟩ := Prod.mk.inj hkey
      exact Or.inl ⟨j, Option.mem_toList.mp hj, hid, hattempt.symm⟩
    · exact Or.inr hn
  have hnone : (p'.known t.thread).token = none := by rw [hbook]; rfl
  -- the run that is handed out is of an attempt ahead of all others
  have hahead : ∀ j ∈ job, j.id = id → ∀ i n, (id, n) ∈ (p.known i).fresh → n < j.lease.attempt := by
    intro j hj hid i n hn
    have hattempt := (hclaims.attempt j hj hid).1
    have hbehind := ((hp.tied i).fresh n hn).2.1
    omega
  have hapart : ∀ i, i ≠ t.thread → Apart id (p'.known t.thread) (p.known i) := by
    intro i hi
    refine ⟨fun n hn hother => ?_, fun x hx => ?_⟩
    · rcases hfresh n hn with ⟨j, hj, hid, rfl⟩ | hn
      · exact absurd (hahead j hj hid i _ hother) (by omega)
      · exact (hp.apart t.thread i (Ne.symm hi)).fresh n hn hother
    · rw [hnone] at hx
      cases hx
  refine ⟨hids, hfound, hclaims.orderly, fun i => ?_, fun n hn => ?_, ?_, fun i j hij => ?_,
    fun i x hx j => ?_, fun i => Safe.step h trivial (hp.safe i)⟩
  · by_cases hi : i = t.thread
    · subst hi
      refine ⟨fun j hj hid => ?_, fun j hj hid hr htok => ?_, fun n hn => ?_, fun n => ?_,
        fun j hj => ?_, fun x hx => ?_⟩
      · rcases hheld j hj with hj | hj
        · obtain ⟨hattempt, htries⟩ := hclaims.attempt j hj hid
          omega
        · exact hself.behind j hj hid
      · rcases hheld j hj with hj | hj
        · obtain ⟨hattempt, htries⟩ := hclaims.attempt j hj hid
          omega
        · exact hself.current j hj hid hr htok
      · rcases hfresh n hn with ⟨j, hj, hid, rfl⟩ | hn
        · obtain ⟨hattempt, htries⟩ := hclaims.attempt j hj hid
          refine ⟨by omega, by omega, fun hspan => ?_⟩
          have hbehind := (hp.spans _ (hspans ▸ hspan)).2
          omega
        · exact hself.fresh n hn
      · rw [hbook]
        show ((job.toList.map Job.key) ++ (p.known t.thread).fresh).count (id, n) ≤ 1
        rw [List.count_append]
        have honce := hself.once n
        cases hjob : job with
        | none => simpa using honce
        | some j =>
            by_cases hkey : j.key = (id, n)
            · -- it is not among the runs from before
              obtain ⟨hid, rfl⟩ := Prod.mk.inj hkey
              have hnot : (id, j.lease.attempt) ∉ (p.known t.thread).fresh := fun hmem =>
                absurd (hahead j (by simp [hjob]) hid t.thread _ hmem) (by omega)
              have hzero := List.count_eq_zero_of_not_mem hnot
              rw [show ((id, j.lease.attempt) : String × Nat) = j.key from hkey.symm] at hzero ⊢
              simp [hzero]
            · have hzero : [j.key].count (id, n) = 0 := by
                simp [hkey]
              show [j.key].count (id, n) + _ ≤ 1
              omega
      · rcases hheld j hj with hj | hj
        · rw [hclaims.token j hj, hissued]
          exact (hp.tied t.thread).pending token htoken
        · exact hself.issued j hj
      · rw [hnone] at hx
        cases hx
    · rw [h.known_ne hi]
      exact hold i
  · obtain ⟨hpos, hn⟩ := hp.spans n (hspans ▸ hn)
    exact ⟨hpos, Nat.le_trans hn hle⟩
  · exact hspans ▸ hp.spans_once
  · by_cases hi : i = t.thread
    · subst hi
      rw [h.known_ne (Ne.symm hij)]
      exact hapart j (Ne.symm hij)
    · rw [h.known_ne hi]
      by_cases hj : j = t.thread
      · subst hj
        exact (hapart i hi).symm
      · rw [h.known_ne hj]
        exact hp.apart i j hij
  · have hi : i ≠ t.thread := by
      rintro rfl
      rw [hnone] at hx
      cases hx
    rw [h.known_ne hi] at hx
    by_cases hj : j = t.thread
    · subst hj
      intro job' hjob'
      rcases hheld job' hjob' with hjob' | hjob'
      · rw [hclaims.token job' hjob']
        rintro rfl
        exact (hp.apart i t.thread hi).token _ hx htoken
      · exact hp.unused i x hx t.thread job' hjob'
    · rw [h.known_ne hj]
      exact hp.unused i x hx j

/-- The invariant holds after a step, of a row that is the same where it was closed. -/
def Keeps (host : JobHost) (id : String) (p' : JobPool ι) (row : JobRow) : Prop :=
  ∃ row', Protocol host id p' row' ∧ (row.Closed → row' = row)

/-- A step that changes neither the jobs nor the books. -/
theorem Protocol.step_quiet (hp : Protocol host id p row) (h : Step (leaseTraffic host) p t p')
    (hknown : p'.known t.thread = p.known t.thread) (hjobs : p'.shared.jobs = p.shared.jobs)
    (hissued : p'.shared.issued = p.shared.issued) (hspans : p'.shared.spans = p.shared.spans) :
    Keeps host id p' row :=
  ⟨row, hp.step_within h (hjobs ▸ hp.ids) (hjobs ▸ hp.found) hp.orderly.kept hissued hspans
    (hknown ▸ .refl _), fun _ => rfl⟩

/-- The record ids after a statement. -/
theorem ids_of_answers {s s' : JobWorld} {stmt : JobStatement} {r : Except BrokerError stmt.Rows}
    (hids : (s.jobs.map (·.1)).Nodup) (h : host.Answers s (.sql stmt) r s') :
    (s'.jobs.map (·.1)).Nodup := by
  obtain ⟨_, _, _, hjobs | ⟨_, _, _, _, hjobs⟩⟩ := sql_cases h
  · exact hjobs ▸ hids
  · rw [hjobs, JobTable.ids_update]
    exact hids

/-- An update that is no claim, and that keeps the job where it takes it. -/
theorem Protocol.step_update (hp : Protocol host id p row) {i : ι} {rid : Option String}
    {sets : List JobSet} {cond : JobCond} {r : Except BrokerError (List JobRecord)}
    (h : Step (leaseTraffic host) p ⟨i, .sql (.update rid sets cond), r⟩ p')
    (hnot : JobSet.attempted ∉ sets)
    (hkept : ∀ now, JobTable.hits now rid cond (id, row) = true →
      row.Kept (applySets now sets row) ∧ (row.status = .queued ∨ row.status = .running)) :
    Keeps host id p' row := by
  have hbook : p'.known i = p.known i := h.known_self.trans (if_neg hnot)
  have hids := ids_of_answers hp.ids h.answers
  obtain ⟨hissued, hspans, _, hjobs | ⟨rid', sets', cond', hstmt, hjobs⟩⟩ := sql_cases h.answers
  · exact hp.step_quiet h hbook hjobs hissued hspans
  · cases hstmt
    by_cases hhits : JobTable.hits p'.shared.now rid cond (id, row) = true
    · obtain ⟨hkept, hopen⟩ := hkept _ hhits
      refine ⟨_, hp.step_within h hids ?_ hkept hissued hspans (hbook ▸ .refl _),
        fun hclosed => absurd hopen hclosed.not_open⟩
      rw [hjobs, JobTable.lookup_update, hp.found, Option.map_some, if_pos hhits]
    · refine ⟨row, hp.step_within h hids ?_ hp.orderly.kept hissued hspans (hbook ▸ .refl _),
        fun _ => rfl⟩
      rw [hjobs, JobTable.lookup_update, hp.found, Option.map_some, if_neg hhits]

/-- An `UPDATE` of open jobs leaves a closed job. -/
theorem lookup_of_closed {s s' : JobWorld} (hfound : s.jobs.lookup id = some row)
    (hclosed : row.Closed) {rid : Option String} {sets : List JobSet} {cond : JobCond}
    (hopen : ∀ now, cond.holds now row = true → row.status = .queued ∨ row.status = .running)
    {r : Except BrokerError (List JobRecord)}
    (h : host.Answers s (.sql (.update rid sets cond)) r s') : s'.jobs.lookup id = some row := by
  obtain ⟨_, _, _, hjobs | ⟨rid, sets, cond, hstmt, hjobs⟩⟩ := sql_cases h
  · rw [hjobs]
    exact hfound
  · injection hstmt with hrid hsets hcond
    subst hrid hsets hcond
    have hmiss : ¬JobTable.hits s'.now rid cond (id, row) = true := by
      rw [JobTable.hits, Bool.and_eq_true]
      exact fun hh => hclosed.not_open (hopen _ hh.2)
    rw [hjobs, JobTable.lookup_update, hfound, Option.map_some, if_neg hmiss]

/-- Every step keeps the invariant, and a closed job as it is. -/
theorem Protocol.step (hp : Protocol host id p row) (h : Step (leaseTraffic host) p t p') :
    Keeps host id p' row := by
  -- By the request: only a statement changes rows, and only a span is counted.
  have hasks := Safe.asks h (hp.safe t.thread)
  have hans := h.answers
  have hself := h.known_self
  obtain ⟨i, q, r⟩ := t
  cases q with
  | nextClaimToken =>
      obtain ⟨_, hnew, hs⟩ := hans
      exact ⟨row, hp.step_token h hnew hs hself, fun _ => rfl⟩
  | span job => exact ⟨row, hp.step_span h hasks hans hself, fun _ => rfl⟩
  | nextRound =>
      obtain ⟨_, hs⟩ := hans
      exact hp.step_quiet h hself (by rw [hs]) (by rw [hs]) (by rw [hs])
  | jobsPerRound tenant =>
      obtain ⟨_, hs⟩ := hans
      exact hp.step_quiet h hself (by rw [hs]) (by rw [hs]) (by rw [hs])
  | callerFor principal =>
      have hs : p'.shared = p.shared := hans
      exact hp.step_quiet h hself (by rw [hs]) (by rw [hs]) (by rw [hs])
  | dbWrite caller doctype doc =>
      have hs : p'.shared = p.shared := hans
      exact hp.step_quiet h hself (by rw [hs]) (by rw [hs]) (by rw [hs])
  | sql stmt =>
      have hsql := sql_cases hans
      obtain ⟨hissued, hspans, _, hjobs⟩ := hsql
      cases stmt with
      | tenants =>
          rcases hjobs with hjobs | ⟨_, _, _, hstmt, _⟩
          · exact hp.step_quiet h hself hjobs hissued hspans
          · cases hstmt
      | heads tenant =>
          rcases hjobs with hjobs | ⟨_, _, _, hstmt, _⟩
          · exact hp.step_quiet h hself hjobs hissued hspans
          · cases hstmt
      | update rid sets cond =>
          rcases hasks with ⟨jobId, worker, token, source, htoken, hstmt⟩ | hstmt |
            ⟨job, hheld, hsets, hstmt⟩
          · unfold claimSql at hstmt
            injection hstmt with hrid hs hc
            subst hrid hs hc
            -- A claim: the row gets a new token, which goes into the worker's book.
            have hattempted : JobSet.attempted ∈ claimSets worker token := by simp [claimSets]
            have hbook : p'.known i = (p.known i).claim (claimedJob r) := by
              rw [hself]
              show (if JobSet.attempted ∈ claimSets worker token
                then (p.known i).claim (claimedJob r) else p.known i) = _
              exact if_pos hattempted
            obtain ⟨row', hfound', hclaims⟩ := claims_of_answers hp.ids hp.found hp.orderly hans
            refine ⟨row', hp.step_claim h (ids_of_answers hp.ids hans) hfound' hclaims htoken
              hissued hspans hbook, fun hclosed => ?_⟩
            rw [lookup_of_closed hp.found hclosed (fun _ => open_of_claimable) hans] at hfound'
            exact (Option.some.inj hfound').symm
          · -- A reap is about jobs without an attempt left.
            have hkept : ∀ now, JobStatement.update none sets cond = reapSql →
                row.Kept (applySets now sets row) := fun now => hp.orderly.reap now
            unfold reapSql at hstmt hkept
            injection hstmt with hrid hs hc
            subst hrid hs hc
            refine hp.step_update h (by simp) fun now hhits => ⟨hkept now rfl, ?_⟩
            rw [JobTable.hits, Bool.and_eq_true] at hhits
            exact open_of_exhausted hhits.2
          · unfold fencedUpdateSql at hstmt
            injection hstmt with hrid _ hc
            subst hrid hc
            -- A fenced update hits only the job that its token holds.
            refine hp.step_update h (not_attempted_of_leaseUpdate hsets) fun now hhits => ?_
            simp only [JobTable.hits_some, JobCond.holds, Bool.and_eq_true, decide_eq_true_eq]
              at hhits
            obtain ⟨hid, ⟨hrunning, _⟩, htoken⟩ := hhits
            have hattempt := (hp.tied i).current job hheld hid hrunning htoken
            exact ⟨hp.orderly.fenced now hsets hrunning hattempt, Or.inr hrunning⟩

/-! ### Runs -/

theorem Protocol.run {ts : List (JobTurn ι)} (hp : Protocol host id p row)
    (h : Run (Step (leaseTraffic host)) p ts p') : Keeps host id p' row := by
  refine h.invariant (I := fun q => Keeps host id q row) ⟨row, hp, fun _ => rfl⟩ ?_
  rintro a e b ⟨row₁, ha, hsame⟩ hab
  obtain ⟨row₂, hb, hsame'⟩ := ha.step hab
  refine ⟨row₂, hb, fun hclosed => ?_⟩
  have heq := hsame hclosed
  exact (hsame' (heq ▸ hclosed)).trans heq

/-- Workers that were handed nothing, and a job that was enqueued. -/
structure Enqueued (w : ι → Worker) (calls : ι → List WorkerCall) (id : String) (p : JobPool ι) :
    Prop where
  begins : ∀ i, p.prog i = (w i).session (calls i) [] []
  empty : ∀ i, p.known i = {}
  ids : (p.shared.jobs.map (·.1)).Nodup
  queued : ∃ row, p.shared.jobs.lookup id = some row ∧ row.status = .queued ∧
    (row.attempts = none ∨ row.attempts = some 0)
  unrun : ∀ n, (id, n) ∉ p.shared.spans

omit [DecidableEq ι] in
/-- The invariant holds at the start. -/
theorem Enqueued.protocol {w : ι → Worker} {calls : ι → List WorkerCall}
    (h : Enqueued w calls id p) : ∃ row, Protocol host id p row := by
  obtain ⟨row, hfound, hqueued, hattempts⟩ := h.queued
  have htries : row.tries = 0 := by
    unfold JobRow.tries
    rcases hattempts with hn | hn <;> rw [hn] <;> rfl
  -- Nothing of the job has run, and all books are empty.
  have hnone : (p.shared.spans.filter (·.1 = id)) = [] := by
    rw [List.filter_eq_nil_iff]
    rintro ⟨id', n⟩ hmem heq
    simp only [decide_eq_true_eq] at heq
    exact h.unrun n (heq ▸ hmem)
  refine ⟨row, h.ids, hfound, ⟨fun n hn => ?_, ?_, fun _ => ?_, fun hr => ?_⟩, fun i => ?_,
    fun n hn => absurd hn (h.unrun n), hnone ▸ List.nodup_nil, fun i j _ => ?_,
    fun i token ht => ?_, fun i => ?_⟩
  · rcases hattempts with ha | ha
    · rw [ha] at hn
      cases hn
    · rw [ha] at hn
      cases hn
      exact Int.le_refl 0
  · omega
  · rw [htries]
    exact Nat.zero_lt_succ 4
  · exact absurd (hqueued.symm.trans hr) (by simp)
  · rw [h.empty i]
    constructor <;> simp
  · rw [h.empty i, h.empty j]
    constructor <;> simp
  · rw [h.empty i] at ht
    cases ht
  · rw [h.begins i, h.empty i]
    exact byTheBook_session (w i) (calls i) ⟨by simp, by simp, by simp⟩

/-! ### The results -/

omit [DecidableEq ι] in
/-- Each run is of another attempt. -/
theorem Protocol.runs_le (hp : Protocol host id p row) :
    (p.shared.spans.filter (·.1 = id)).length ≤ maxJobAttempts := by
  have hsubset : p.shared.spans.filter (·.1 = id) ⊆
      (List.range maxJobAttempts).map fun n => (id, n + 1) := by
    rintro ⟨id', n⟩ hmem
    obtain ⟨hspan, heq⟩ := List.mem_filter.mp hmem
    simp only [decide_eq_true_eq] at heq
    rw [heq] at hspan ⊢
    obtain ⟨hpos, hle⟩ := hp.spans n hspan
    have hbudget := hp.orderly.budget
    exact List.mem_map.mpr ⟨n - 1, List.mem_range.mpr (by omega), by
      rw [Nat.sub_add_cancel hpos]⟩
  have hlen := (List.subperm_of_subset hp.spans_once hsubset).length_le
  rwa [List.length_map, List.length_range] at hlen

/-- A lease that is over: the job was claimed again, or is not running. -/
def Job.Superseded (job : Job) (row : JobRow) : Prop :=
  job.lease.attempt < row.tries ∨ row.status ≠ .running

omit [DecidableEq ι] in
/-- The fence keeps out whoever holds a lease that is over. -/
theorem Protocol.fence (hp : Protocol host id p row) {i : ι} {job : Job}
    (hheld : job ∈ (p.known i).held) (hid : job.id = id) (hover : job.Superseded row)
    {sets : List JobSet} {r : Except BrokerError (fencedUpdateSql job sets).Rows} {s' : JobWorld}
    (h : host.Answers p.shared (.sql (fencedUpdateSql job sets)) r s') :
    s'.jobs = p.shared.jobs := by
  obtain ⟨_, _, _, hjobs | ⟨rid, sets', cond, hstmt, hjobs⟩⟩ := sql_cases h
  · exact hjobs
  · unfold fencedUpdateSql at hstmt
    injection hstmt with hrid hsets hcond
    subst hrid hsets hcond
    rw [hjobs]
    refine JobTable.update_of_miss fun ⟨id', row'⟩ hmem => ?_
    rw [JobTable.hits_some, Bool.and_eq_false_iff]
    by_cases hrid : job.id = id'
    · -- the record is the job's, and its fence does not hold
      refine Or.inr ?_
      have hfound := lookup_of_mem hp.ids hmem
      rw [show id' = id from hrid.symm.trans hid, hp.found] at hfound
      cases hfound
      by_contra hfence
      simp only [JobCond.holds, Bool.not_eq_false, Bool.and_eq_true, decide_eq_true_eq] at hfence
      obtain ⟨⟨hrunning, _⟩, htoken⟩ := hfence
      have hcurrent := (hp.tied i).current job hheld hid hrunning htoken
      rcases hover with hlt | hstatus
      · omega
      · exact hstatus hrunning
    · exact Or.inl (decide_eq_false hrid)

/-- An open job can go on: it is queued with attempts left, or under a lease that has not
expired, or an `UPDATE` of a claim or of the reaper takes it. -/
def JobRow.GoesOn (now : Time) (row : JobRow) : Prop :=
  (row.status = .queued ∧ row.tries < maxJobAttempts ∧
      ClaimSource.queued.predicate.holds now row = true) ∨
    (row.status = .running ∧ ∃ expires, row.leaseExpiresAt = some expires ∧ now < expires) ∨
    ClaimSource.expiredLease.predicate.holds now row = true ∨
    exhaustedPredicate.holds now row = true

/-- No row is between the conditions. -/
theorem JobRow.Orderly.closed_or_goesOn (h : row.Orderly) (now : Time) :
    row.Closed ∨ row.GoesOn now := by
  have hfive : maxJobAttempts = 5 := rfl
  cases hs : row.status with
  | queued =>
      refine Or.inr (Or.inl ⟨hs, h.waiting hs, ?_⟩)
      have hleft := h.waiting hs
      simp only [ClaimSource.predicate, JobCond.holds, hs, decide_true, Bool.true_and,
        Bool.or_eq_true]
      unfold tries at hleft
      cases ha : row.attempts with
      | none => exact Or.inl rfl
      | some n =>
          rw [ha] at hleft
          refine Or.inr (decide_eq_true ?_)
          simp only [Option.getD_some] at hleft
          omega
  | running =>
      obtain ⟨hattempts, hlease⟩ := h.running hs
      obtain ⟨n, hn⟩ := Option.isSome_iff_exists.mp hattempts
      obtain ⟨expires, he⟩ := Option.isSome_iff_exists.mp hlease
      refine Or.inr ?_
      -- A lease that is over leaves the job to be claimed or to be reaped, by its attempts.
      by_cases hnow : now < expires
      · exact Or.inr (Or.inl ⟨hs, expires, he, hnow⟩)
      · have hpast : expires ≤ now := Nat.le_of_not_lt hnow
        by_cases hleft : n < (maxJobAttempts : Int)
        · refine Or.inr (Or.inr (Or.inl ?_))
          simp [ClaimSource.predicate, JobCond.holds, hs, he, hn, hpast, hleft]
        · refine Or.inr (Or.inr (Or.inr ?_))
          simp [exhaustedPredicate, JobCond.holds, hs, he, hn, hpast, Int.not_lt.mp hleft]
  | done => exact Or.inl (Or.inl hs)
  | denied => exact Or.inl (Or.inr (Or.inl hs))
  | dead => exact Or.inl (Or.inr (Or.inr hs))

/-- Whatever any number of workers do with a job that was enqueued, in any order and at
any times, and wherever each of them stops: it is run at most `MAX_JOB_ATTEMPTS` times, an
update under a lease that is over changes nothing, a closed job stays as it is, and an open
one can go on at any time. Each run is of a claim that the worker was handed. -/
theorem job_lease_protocol {w : ι → Worker} {calls : ι → List WorkerCall} {ts : List (JobTurn ι)}
    (h : Enqueued w calls id p) (hrun : Run (Step (leaseTraffic host)) p ts p') :
    (p'.shared.spans.filter (·.1 = id)).length ≤ maxJobAttempts ∧
      ∃ row, p'.shared.jobs.lookup id = some row ∧
        (∀ i job sets r p'', job ∈ (p'.known i).held → job.id = id → job.Superseded row →
          Step (leaseTraffic host) p' ⟨i, .sql (fencedUpdateSql job sets), r⟩ p'' →
          p''.shared.jobs = p'.shared.jobs) ∧
        (row.Closed → ∀ us p'', Run (Step (leaseTraffic host)) p' us p'' →
          p''.shared.jobs.lookup id = some row) ∧
        ∀ now, row.Closed ∨ row.GoesOn now := by
  -- `Protocol` is what every step keeps, of one job.
  obtain ⟨row₀, hp₀⟩ : ∃ row, Protocol host id p row := h.protocol
  obtain ⟨row, hp, _⟩ := hp₀.run hrun
  refine ⟨hp.runs_le, row, hp.found, fun i job sets r p'' hheld hid hover hstep => ?_,
    fun hclosed us p'' hmore => ?_, hp.orderly.closed_or_goesOn⟩
  · exact hp.fence hheld hid hover hstep.answers
  · obtain ⟨row', hp', hsame⟩ := hp.run hmore
    rw [hp'.found, hsame hclosed]

end

/-! ### Two workers and a job -/

/-- A worker of a pair. -/
def pairWorker (first : Bool) : Worker := ⟨if first then "first" else "second", "default", true⟩

/-- Two workers that try to claim the same job and then run it. -/
def pairStart : JobPool Bool where
  shared := ⟨0, [("job:1", { kind := .text "create_doc" })], [], 0, []⟩
  prog i := (pairWorker i).session [.tryClaim "job:1", .run 0] [] []
  known _ := {}

/-- Nobody may do anything. -/
def pairServe := (JobHost.plain fun _ => 10).serve (fun _ => none)
  fun _ _ _ => .error .identityUnresolved

/-- The second worker finds the job claimed, and the first one runs it. -/
def pairTurns : List Bool := [true, true, false, false, false, false, true, true, true]

/-- The pair after its turns. -/
def pairEnd : JobPool Bool :=
  played (leaseTraffic (.plain fun _ => 10)) pairServe pairStart pairTurns

theorem job_lease_protocol_pair :
    (pairEnd.shared.spans.filter (·.1 = "job:1")).length ≤ maxJobAttempts ∧
      pairEnd.shared.spans = [("job:1", 1)] := by
  have hstart : Enqueued pairWorker (fun _ => [.tryClaim "job:1", .run 0]) "job:1" pairStart :=
    { begins := fun _ => rfl
      empty := fun _ => rfl
      ids := List.nodup_singleton _
      queued := ⟨_, rfl, rfl, Or.inr rfl⟩
      unrun := fun _ => List.not_mem_nil }
  have hrun : Run (Step (leaseTraffic (.plain fun _ => 10))) pairStart _ pairEnd :=
    run_play (answers_serve _ (fun _ => none) fun _ _ _ => .error .identityUnresolved)
      pairTurns pairStart
  exact ⟨(job_lease_protocol hstart hrun).1, by decide +kernel⟩

end Frust.Kernel
