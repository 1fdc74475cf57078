import Frust.Proofs.Kernel.Lease

/-!
# `Frust.Proofs.Kernel.Ticks`: what one tick starts

A tick asks for the next job until there is none, so it claims again what it put back into the
queue. `PassBook` is what a tick knows: the jobs that it claimed and began to run, and the one
whose outcome it has not written.

Where each outcome that it writes closes its job, no claim of it takes a job that it claimed
before (`Closing`), so it runs each job once (`nodup_started_tick`), and a job is claimed as
often as there are ticks that claimed it (`Spread`).
-/

set_option autoImplicit false

namespace Frust.Kernel

open Frust.Lib Frust.Lib.Prog Frust.Lib.Pool Work

/-! ### One tick -/

/-- What a tick knows of its jobs. -/
structure PassBook where
  /-- The job that it was handed and has not begun. -/
  handed : Option Job := none
  /-- The job whose outcome it has not written. -/
  running : Option Job := none
  /-- A claim failed, and the tick with it. -/
  failed : Bool := false
  /-- The jobs that it claimed. -/
  claimed : List String := []
  /-- The jobs that it began. -/
  begun : List String := []

/-- The book after a claim was answered. One that fails may have taken its job. -/
def PassBook.claim (k : PassBook) (id : String) : Except BrokerError (List JobRecord) → PassBook
  | .ok [] => k
  | r => { k with
      handed := claimedJob r
      failed := (claimedJob r).isNone
      claimed := id :: k.claimed }

/-- The book after a run began. -/
def PassBook.begin (k : PassBook) (job : Job) : PassBook :=
  { k with handed := none, running := some job, begun := job.id :: k.begun }

/-- Keeps the book. -/
def learnPass (_ : JobWorld) (k : PassBook) : (q : JobRequest) → JobAnswer q → PassBook
  | .sql (.update none _ _), _ => k
  | .sql (.update (some id) sets _), r =>
      if JobSet.attempted ∈ sets then k.claim id r else { k with running := none }
  | .span job, _ => k.begin job
  | _, _ => k

/-- The environment of the ticks on a job table. -/
abbrev passTraffic (host : JobHost) : Env JobRequest JobAnswer JobWorld PassBook :=
  jobTraffic host learnPass

/-- What is written of an outcome. -/
def JobOutcome.sets (job : Job) : JobOutcome → List JobSet
  | .done => finishUpdate .done ""
  | .denied detail => finishUpdate .denied detail
  | .retry detail => (retryUpdate job.lease.attempt detail).2

/-- What is written of an outcome is written under the lease. -/
theorem leaseUpdate_of_outcome (job : Job) (outcome : JobOutcome) :
    LeaseUpdate job (outcome.sets job) := by
  cases outcome with
  | done => exact .done ""
  | denied detail => exact .denied detail
  | retry detail => exact .retry detail

theorem not_attempted_of_outcome (job : Job) (outcome : JobOutcome) :
    JobSet.attempted ∉ outcome.sets job :=
  not_attempted_of_leaseUpdate (leaseUpdate_of_outcome job outcome)

/-- Has neither a job to begin nor an outcome to write, and goes on. -/
structure PassBook.Idle (k : PassBook) : Prop where
  handed : k.handed = none
  running : k.running = none
  goes : k.failed = false

/-- What a tick may ask. -/
def PassBook.Asks (k : PassBook) : JobRequest → Prop
  | .sql (.update rid sets cond) =>
      (k.Idle ∧ ∃ id worker token source,
        JobStatement.update rid sets cond = claimSql id worker token source) ∨
      JobStatement.update rid sets cond = reapSql ∨
      ∃ (job : Job) (outcome : JobOutcome), k.running = some job ∧
        JobStatement.update rid sets cond = fencedUpdateSql job (outcome.sets job)
  | .span job => k.handed = some job ∧ k.running = none ∧ k.failed = false
  | _ => True

section

variable {host : JobHost} {k : PassBook} (w : Worker)

/-- A tick's program, whatever it is answered. -/
abbrev Ticks {α : Type} (host : JobHost) (post : PassBook → Except BrokerError α → Prop)
    (k : PassBook) (p : Work α) : Prop :=
  Safe (passTraffic host) (fun _ _ _ => True) PassBook.Asks post k p

/-- What a claim leaves: nothing, or a job to begin. -/
def PassBook.Left (k : PassBook) : Except BrokerError (Option Job) → Prop
  | .ok (some job) => k.handed = some job ∧ k.running = none ∧ k.failed = false ∧ Renders job.id
  | .ok none => k.Idle
  | .error _ => True

theorem ticks_tryClaimFrom (hk : k.Idle) (id : String) (source : ClaimSource) :
    Ticks host PassBook.Left k (w.tryClaimFrom id source) := by
  refine safe_work_ask _ trivial fun s token s' _ _ => ?_
  refine safe_sqlRoot _ ?_ (fun _ => trivial) fun s r s' text htext hans _ => ?_
  · exact Or.inl ⟨hk, id, w.workerId, token, source, rfl⟩
  · have hclaim : JobSet.attempted ∈ claimSets w.workerId token := by simp [claimSets]
    simp only [claimSql, learnPass, hclaim, if_true]
    cases r with
    | error e => trivial
    | ok rows =>
        cases rows with
        | nil => exact hk
        | cons record rest =>
            show Safe _ _ _ _ _ (Work.lift (decodeJob record) >>= _)
            cases hjob : decodeJob record with
            | error e => trivial
            | ok job =>
                simp only [PassBook.claim, claimedJob, hjob]
                refine ⟨rfl, hk.running, rfl, ?_⟩
                -- the answer is the record that was asked for
                obtain ⟨now, _, ⟨e, he, _⟩ | ⟨hrows, _⟩⟩ := hans
                · cases he
                · have hmem : record ∈ _ := (Except.ok.inj hrows) ▸ List.mem_cons_self
                  have hid : record.1 = id := JobTable.fst_of_mem_updatedRows hmem
                  rw [(decodeJob_spec hjob).1, hid]
                  exact text_update_iff.mp ⟨text, htext⟩

theorem ticks_claimNext (hk : k.Idle) : Ticks host PassBook.Left k w.claimNext := by
  refine safe_claimNext w (I := PassBook.Idle) (fun k' _ q hq => ?_)
    (fun k' hk' id source => ticks_tryClaimFrom w hk' id source) (fun _ h => h) (fun _ h => h)
    (fun _ _ _ => trivial) hk
  cases q with
  | sql stmt =>
      cases stmt with
      | update rid sets cond =>
          have hreap : JobStatement.update rid sets cond = reapSql := hq
          refine ⟨Or.inr (Or.inl hreap), fun s r => ?_⟩
          unfold reapSql at hreap
          injection hreap with hrid _ _
          subst hrid
          rfl
      | tenants => exact ⟨trivial, fun _ _ => rfl⟩
      | heads tenant => exact ⟨trivial, fun _ _ => rfl⟩
  | nextRound => exact ⟨trivial, fun _ _ => rfl⟩
  | jobsPerRound tenant => exact ⟨trivial, fun _ _ => rfl⟩
  | nextClaimToken => exact hq.elim
  | span job => exact hq.elim
  | callerFor principal => exact hq.elim
  | dbWrite caller doctype doc => exact hq.elim

theorem ticks_settle {job : Job} (hhanded : k.handed = none) (hrunning : k.running = some job)
    (hgoes : k.failed = false) (hid : Renders job.id) (outcome : JobOutcome) :
    Ticks host (fun k' _ => k'.Idle) k (Worker.settle job outcome) := by
  have hwrite : Ticks host (fun k' _ => k'.Idle) k
      (Worker.applyFenced job (outcome.sets job) >>= fun _ => pure ()) := by
    have hassoc : Worker.applyFenced job (outcome.sets job) >>= (fun _ => (pure () : Work Unit))
        = Work.trySql (fencedUpdateSql job (outcome.sets job)) >>= fun _ => pure () := by
      unfold Worker.applyFenced Work.trySql
      cases (fencedUpdateSql job (outcome.sets job)).text <;> rfl
    rw [hassoc]
    refine safe_trySql _ (Or.inr (Or.inr ⟨job, outcome, hrunning, rfl⟩)) (fun e he => ?_) ?_
    · -- the claim had the same record id in its text
      obtain ⟨text, htext⟩ := text_update_iff.mpr hid
      exact absurd (htext.symm.trans he) (by simp)
    · intro s r s' _ _ _ _
      have hlearn : learnPass s k (.sql (fencedUpdateSql job (outcome.sets job))) r
          = { k with running := none } := by
        simp [learnPass, fencedUpdateSql, not_attempted_of_outcome]
      rw [hlearn]
      exact ⟨hhanded, rfl, hgoes⟩
  cases outcome with
  | done => exact hwrite
  | denied detail => exact hwrite
  | retry detail => exact hwrite

theorem ticks_run {job : Job} (hhanded : k.handed = some job) (hrunning : k.running = none)
    (hgoes : k.failed = false) (hid : Renders job.id) :
    Ticks host (fun k' _ => k'.Idle) k (w.run job) := by
  refine safe_work_ask _ ⟨hhanded, hrunning, hgoes⟩ fun s _ s' _ _ => ?_
  have hsettle : ∀ outcome, Ticks host (fun k' _ => k'.Idle) (k.begin job)
      (Worker.settle job outcome) := fun outcome =>
    ticks_settle (k := k.begin job) rfl rfl hgoes hid outcome
  refine safe_work_ask _ trivial fun s caller s' _ _ => ?_
  show Ticks host (fun k' _ => k'.Idle) (k.begin job) _
  cases caller with
  | none => exact Safe.bind (hsettle (.denied "")) (fun _ _ h => h) fun _ _ h => h
  | some caller =>
      have heffect : Ticks host (fun k' r => (∃ outcome, r = .ok outcome) ∧ k' = k.begin job)
          (k.begin job) (w.effect job caller) := by
        unfold Worker.effect Worker.runCreateDoc
        split
        · split
          · split
            · exact safe_work_ask _ trivial fun s r s' _ _ => ⟨⟨_, rfl⟩, rfl⟩
            · exact ⟨⟨_, rfl⟩, rfl⟩
          · exact ⟨⟨_, rfl⟩, rfl⟩
        · exact ⟨⟨_, rfl⟩, rfl⟩
      refine Safe.bind heffect (fun k' outcome h => ?_) fun k' e h => ?_
      · obtain ⟨_, rfl⟩ := h
        exact Safe.bind (hsettle outcome) (fun _ _ h => h) fun _ _ h => h
      · obtain ⟨⟨_, h⟩, _⟩ := h
        cases h

theorem ticks_tick (fuel : Nat) (hk : k.Idle) : Ticks host (fun _ _ => True) k (w.tick fuel) := by
  induction fuel generalizing k with
  | zero => trivial
  | succ fuel ih =>
      refine Safe.bind (ticks_claimNext w hk) (fun k₁ r h₁ => ?_) fun _ _ _ => trivial
      cases r with
      | none => trivial
      | some job =>
          obtain ⟨hhanded, hrunning, hgoes, hid⟩ := h₁
          refine Safe.bind (ticks_run w hhanded hrunning hgoes hid) (fun k₂ _ h₂ => ?_)
            fun _ _ _ => trivial
          exact Safe.bind (ih h₂) (fun _ _ _ => trivial) fun _ _ _ => trivial

end

/-! ### Ticks in a run -/

/-- A pool of ticks. -/
abbrev PassPool (ι : Type) := Pool BrokerError JobRequest JobAnswer (Option Nat) JobWorld PassBook ι

/-- An `UPDATE` that found its record. -/
def foundRow : Except BrokerError (List JobRecord) → Bool
  | .ok (_ :: _) => true
  | _ => false

/-- The write of an outcome does not put its job back into the queue, and finds it. -/
def Settles {ι : Type} : JobTurn ι → Prop
  | ⟨_, .sql (.update (some _) sets _), r⟩ => JobSet.attempted ∈ sets ∨
      JobSet.status .queued ∉ sets ∧ foundRow r = true
  | _ => True

instance {ι : Type} : DecidablePred (Settles (ι := ι))
  | ⟨_, .sql (.update (some _) sets _), r⟩ =>
      inferInstanceAs (Decidable (JobSet.attempted ∈ sets ∨
        JobSet.status .queued ∉ sets ∧ foundRow r = true))
  | ⟨_, .sql (.update none _ _), _⟩ | ⟨_, .sql .tenants, _⟩ | ⟨_, .sql (.heads _), _⟩
  | ⟨_, .nextClaimToken, _⟩ | ⟨_, .nextRound, _⟩ | ⟨_, .jobsPerRound _, _⟩ | ⟨_, .span _, _⟩
  | ⟨_, .callerFor _, _⟩ | ⟨_, .dbWrite _ _ _, _⟩ => .isTrue trivial

/-- What a request starts: the run of a job. -/
def JobRequest.starts : JobRequest → Option String
  | .span job => some job.id
  | _ => none

/-- An outcome that does not put its job back closes it. -/
theorem closed_of_outcome {job : Job} {outcome : JobOutcome} {now : Time} {row : JobRow}
    (h : JobSet.status .queued ∉ outcome.sets job) :
    (applySets now (outcome.sets job) row).Closed := by
  cases outcome with
  | done => exact Or.inl rfl
  | denied detail => exact Or.inr (Or.inl rfl)
  | retry detail =>
      have hsets : JobOutcome.sets job (.retry detail) = (retryUpdate job.lease.attempt detail).2 := rfl
      rw [hsets] at h ⊢
      by_cases hlast : maxJobAttempts ≤ job.lease.attempt
      · refine Or.inr (Or.inr ?_)
        simp [retryUpdate, hlast, applySets, JobSet.apply]
      · simp [retryUpdate, hlast] at h

section

variable {ι : Type} [DecidableEq ι] {host : JobHost} {p p' : PassPool ι} {i : ι}

/-! ### What a step does to a job -/

/-- The request changed the row of a job. -/
inductive Touches (k : PassBook) (now : Time) (id : String) (row : JobRow) :
    JobRequest → JobRow → Prop where
  | claim (worker token : String) (source : ClaimSource) (hidle : k.Idle)
      (hholds : source.predicate.holds now row = true) :
      Touches k now id row (.sql (claimSql id worker token source))
        (applySets now (claimSets worker token) row)
  | reap (sets : List JobSet) (hsets : reapSql = .update none sets exhaustedPredicate)
      (hholds : exhaustedPredicate.holds now row = true) :
      Touches k now id row (.sql (.update none sets exhaustedPredicate)) (applySets now sets row)
  | outcome (job : Job) (outcome : JobOutcome) (hid : job.id = id)
      (hrunning : k.running = some job) (hrow : row.status = .running) :
      Touches k now id row (.sql (fencedUpdateSql job (outcome.sets job)))
        (applySets now (outcome.sets job) row)

theorem Touches.isOpen {k : PassBook} {now : Time} {id : String} {row row' : JobRow} {q : JobRequest}
    (h : Touches k now id row q row') : row.status = .queued ∨ row.status = .running := by
  cases h with
  | claim worker token source _ hholds => exact open_of_claimable hholds
  | reap sets _ hholds => exact open_of_exhausted hholds
  | outcome job outcome _ _ hrow => exact Or.inr hrow

/-- What a step of any tick does to a job. -/
theorem row_after {t : JobTurn ι} {id : String} {row : JobRow}
    (hasks : (p.known t.thread).Asks t.request) (h : Step (passTraffic host) p t p')
    (hfound : p.shared.jobs.lookup id = some row) :
    ∃ row', p'.shared.jobs.lookup id = some row' ∧
      (row' = row ∨ Touches (p.known t.thread) p'.shared.now id row t.request row') := by
  have hans := h.answers
  obtain ⟨j, q, r⟩ := t
  -- Only an update changes the table.
  have hsame : p'.shared.jobs = p.shared.jobs → ∃ row', p'.shared.jobs.lookup id = some row' ∧
      (row' = row ∨ Touches (p.known j) p'.shared.now id row q row') := by
    intro heq
    rw [heq]
    exact ⟨row, hfound, Or.inl rfl⟩
  cases q with
  | sql stmt =>
      obtain ⟨_, _, _, hjobs | ⟨rid, sets, cond, rfl, hjobs⟩⟩ := sql_cases hans
      · exact hsame hjobs
      · by_cases hhits : JobTable.hits p'.shared.now rid cond (id, row) = true
        · refine ⟨_, by rw [hjobs, JobTable.lookup_update, hfound, Option.map_some, if_pos hhits],
            Or.inr ?_⟩
          -- A tick sends a claim, a reap or a fenced outcome, and each checks its row.
          rcases hasks with ⟨hidle, id', worker, token, source, hstmt⟩ | hstmt |
            ⟨job, outcome, hrunning, hstmt⟩
          · unfold claimSql at hstmt
            injection hstmt with hrid hsets hcond
            subst hrid hsets hcond
            rw [JobTable.hits_some, Bool.and_eq_true, decide_eq_true_eq] at hhits
            obtain ⟨rfl, hholds⟩ := hhits
            exact .claim worker token source hidle hholds
          · have hreap := hstmt
            unfold reapSql at hreap
            injection hreap with hrid _ hcond
            subst hrid hcond
            rw [JobTable.hits, Bool.and_eq_true] at hhits
            exact .reap sets hstmt.symm hhits.2
          · unfold fencedUpdateSql at hstmt
            injection hstmt with hrid hsets hcond
            subst hrid hsets hcond
            simp only [JobTable.hits_some, JobCond.holds, Bool.and_eq_true, decide_eq_true_eq]
              at hhits
            exact .outcome job outcome hhits.1 hrunning hhits.2.1.1
        · refine ⟨row, ?_, Or.inl rfl⟩
          rw [hjobs, JobTable.lookup_update, hfound, Option.map_some, if_neg hhits]
  | nextClaimToken =>
      obtain ⟨_, _, hs⟩ := hans
      exact hsame (by rw [hs])
  | nextRound =>
      obtain ⟨_, hs⟩ := hans
      exact hsame (by rw [hs])
  | jobsPerRound tenant =>
      obtain ⟨_, hs⟩ := hans
      exact hsame (by rw [hs])
  | span job =>
      have hs : p'.shared = _ := hans
      exact hsame (by rw [hs])
  | callerFor principal =>
      have hs : p'.shared = p.shared := hans
      exact hsame (by rw [hs])
  | dbWrite caller doctype doc =>
      have hs : p'.shared = p.shared := hans
      exact hsame (by rw [hs])

/-- A step of any tick leaves a closed job. -/
theorem closed_after {t : JobTurn ι} {id : String} {row : JobRow}
    (hasks : (p.known t.thread).Asks t.request) (h : Step (passTraffic host) p t p')
    (hfound : p.shared.jobs.lookup id = some row) (hclosed : row.Closed) :
    p'.shared.jobs.lookup id = some row := by
  obtain ⟨row', hfound', rfl | htouched⟩ := row_after hasks h hfound
  · exact hfound'
  · exact absurd htouched.isOpen hclosed.not_open

/-- A step of any tick leaves each job once. -/
theorem ids_after {t : JobTurn ι} (hids : (p.shared.jobs.map (·.1)).Nodup)
    (h : Step (passTraffic host) p t p') : (p'.shared.jobs.map (·.1)).Nodup := by
  have hans := h.answers
  obtain ⟨j, q, r⟩ := t
  -- Only a statement changes the table.
  cases q with
  | sql stmt => exact ids_of_answers hids hans
  | nextClaimToken =>
      obtain ⟨_, _, hs⟩ := hans
      rw [hs]
      exact hids
  | nextRound =>
      obtain ⟨_, hs⟩ := hans
      rw [hs]
      exact hids
  | jobsPerRound tenant =>
      obtain ⟨_, hs⟩ := hans
      rw [hs]
      exact hids
  | span job =>
      have hs : p'.shared = _ := hans
      rw [hs]
      exact hids
  | callerFor principal =>
      have hs : p'.shared = p.shared := hans
      rw [hs]
      exact hids
  | dbWrite caller doctype doc =>
      have hs : p'.shared = p.shared := hans
      rw [hs]
      exact hids

/-! ### A tick whose outcomes close their jobs -/

/-- The job is to be begun, or its outcome to be written. -/
def PassBook.AtHand (k : PassBook) (id : String) : Prop :=
  ∃ job, (k.handed = some job ∨ k.running = some job) ∧ job.id = id

/-- What every step keeps, of one tick: what it claimed is closed, but for the job at hand. -/
structure Closing (host : JobHost) (i : ι) (p : PassPool ι) : Prop where
  ids : (p.shared.jobs.map (·.1)).Nodup
  safe : ∀ j, Ticks host (fun _ _ => True) (p.known j) (p.prog j)
  claimed : ∀ id ∈ (p.known i).claimed, (p.known i).failed = true ∨ (p.known i).AtHand id ∨
    ∃ row, p.shared.jobs.lookup id = some row ∧ row.Closed
  begun : ∀ id ∈ (p.known i).begun, id ∈ (p.known i).claimed
  handed : ∀ job, (p.known i).handed = some job →
    job.id ∈ (p.known i).claimed ∧ job.id ∉ (p.known i).begun

omit [DecidableEq ι] in
/-- All that an idle tick claimed is closed. -/
theorem Closing.closed (hp : Closing host i p) (hidle : (p.known i).Idle) {id : String}
    (h : id ∈ (p.known i).claimed) : ∃ row, p.shared.jobs.lookup id = some row ∧ row.Closed := by
  rcases hp.claimed id h with hfailed | ⟨job, hhand, _⟩ | hclosed
  · rw [hidle.goes] at hfailed
    cases hfailed
  · rw [hidle.handed, hidle.running] at hhand
    rcases hhand with hhand | hhand <;> cases hhand
  · exact hclosed

/-- A step after which the tick knows the same. -/
theorem Closing.quiet {t : JobTurn ι} (hp : Closing host i p) (h : Step (passTraffic host) p t p')
    (hknown : p'.known i = p.known i) : Closing host i p' := by
  have hasks := Safe.asks h (hp.safe t.thread)
  refine ⟨ids_after hp.ids h, fun j => Safe.step h trivial (hp.safe j), fun id hid => ?_, ?_, ?_⟩
  · rw [hknown] at hid ⊢
    refine (hp.claimed id hid).imp_right (Or.imp_right ?_)
    rintro ⟨row, hfound, hclosed⟩
    exact ⟨row, closed_after hasks h hfound hclosed, hclosed⟩
  · rw [hknown]
    exact hp.begun
  · rw [hknown]
    exact hp.handed

/-- A claim hands out no job that the tick claimed before. -/
theorem Closing.claim (hp : Closing host i p) {rid worker token : String} {source : ClaimSource}
    {r : Except BrokerError (List JobRecord)}
    (h : Step (passTraffic host) p ⟨i, .sql (claimSql rid worker token source), r⟩ p')
    (hidle : (p.known i).Idle) : Closing host i p' := by
  have hasks := Safe.asks h (hp.safe i)
  have hself : p'.known i = (p.known i).claim rid r := by
    rw [h.known_self]
    show (if JobSet.attempted ∈ claimSets worker token
      then (p.known i).claim rid r else { p.known i with running := none }) = _
    exact if_pos (by simp [claimSets])
  by_cases hnone : r = .ok []
  · refine hp.quiet h ?_
    rw [hself, hnone]
    rfl
  · have hbook : p'.known i = { p.known i with
        handed := claimedJob r
        failed := (claimedJob r).isNone
        claimed := rid :: (p.known i).claimed } := by
      rw [hself]
      cases r with
      | error e => rfl
      | ok rows =>
          cases rows with
          | nil => exact absurd rfl hnone
          | cons record rest => rfl
    -- the job that was handed out is the one that was asked for, and it was open
    have hjob : ∀ job, claimedJob r = some job → job.id = rid ∧ job.id ∉ (p.known i).claimed := by
      intro job hjob
      obtain ⟨row, hfound, hhits, _⟩ := claimedJob_spec hp.ids h.answers hjob
      rw [JobTable.hits_some, Bool.and_eq_true, decide_eq_true_eq] at hhits
      refine ⟨hhits.1.symm, fun hmem => ?_⟩
      obtain ⟨row', hfound', hclosed⟩ := hp.closed hidle hmem
      rw [hfound] at hfound'
      cases hfound'
      exact hclosed.not_open (open_of_claimable hhits.2)
    refine ⟨ids_after hp.ids h, fun j => Safe.step h trivial (hp.safe j), fun id hid => ?_, ?_,
      fun job hhanded => ?_⟩
    · rw [hbook] at hid ⊢
      rcases List.mem_cons.mp hid with rfl | hid
      · cases hcase : claimedJob r with
        | none => exact Or.inl rfl
        | some job => exact Or.inr (Or.inl ⟨job, Or.inl rfl, (hjob job hcase).1⟩)
      · obtain ⟨row, hfound, hclosed⟩ := hp.closed hidle hid
        exact Or.inr (Or.inr ⟨row, closed_after hasks h hfound hclosed, hclosed⟩)
    · rw [hbook]
      exact fun id hid => List.mem_cons_of_mem _ (hp.begun id hid)
    · rw [hbook] at hhanded ⊢
      obtain ⟨hid, hnew⟩ := hjob job hhanded
      exact ⟨hid ▸ List.mem_cons_self, fun hmem => hnew (hp.begun _ hmem)⟩

/-- The write of an outcome closes the job. -/
theorem Closing.settle (hp : Closing host i p) {job : Job} {outcome : JobOutcome}
    {r : Except BrokerError (List JobRecord)}
    (h : Step (passTraffic host) p ⟨i, .sql (fencedUpdateSql job (outcome.sets job)), r⟩ p')
    (hrunning : (p.known i).running = some job)
    (hsettles : Settles (⟨i, .sql (fencedUpdateSql job (outcome.sets job)), r⟩ : JobTurn ι)) :
    Closing host i p' := by
  have hasks := Safe.asks h (hp.safe i)
  have hnot := not_attempted_of_outcome job outcome
  have hself : p'.known i = { p.known i with running := none } := by
    rw [h.known_self]
    show (if JobSet.attempted ∈ outcome.sets job
      then (p.known i).claim job.id r else { p.known i with running := none }) = _
    exact if_neg hnot
  obtain ⟨hqueued, hfound⟩ := Or.resolve_left hsettles hnot
  obtain ⟨record, rest, hr⟩ : ∃ record rest, r = .ok (record :: rest) := by
    unfold foundRow at hfound
    split at hfound
    · exact ⟨_, _, rfl⟩
    · cases hfound
  -- the row that was answered is the job's
  have hrow : ∃ row, p'.shared.jobs.lookup job.id = some row ∧ row.Closed := by
    obtain ⟨now, _, ⟨e, he, _⟩ | ⟨hrows, hs⟩⟩ := h.answers
    · rw [hr] at he
      cases he
    · rw [hr] at hrows
      have hmem : record ∈ p.shared.jobs.updatedRows now (some job.id) (outcome.sets job) _ :=
        (Except.ok.inj hrows) ▸ List.mem_cons_self
      have hid := JobTable.fst_of_mem_updatedRows hmem
      obtain ⟨row, hfound, hhits, _⟩ := JobTable.mem_updatedRows hp.ids hmem
      rw [hid] at hfound hhits
      refine ⟨applySets now (outcome.sets job) row, ?_, closed_of_outcome hqueued⟩
      rw [hs]
      show (JobTable.update now (some job.id) (outcome.sets job) _ p.shared.jobs).lookup job.id = _
      rw [JobTable.lookup_update, hfound, Option.map_some, if_pos hhits]
  refine ⟨ids_after hp.ids h, fun j => Safe.step h trivial (hp.safe j), fun id hid => ?_, ?_, ?_⟩
  · rw [hself] at hid ⊢
    rcases hp.claimed id hid with hfailed | ⟨job', hhand, rfl⟩ | ⟨row, hfound, hclosed⟩
    · exact Or.inl hfailed
    · rcases hhand with hhand | hhand
      · exact Or.inr (Or.inl ⟨job', Or.inl hhand, rfl⟩)
      · rw [hrunning] at hhand
        cases hhand
        exact Or.inr (Or.inr hrow)
    · exact Or.inr (Or.inr ⟨row, closed_after hasks h hfound hclosed, hclosed⟩)
  · rw [hself]
    exact hp.begun
  · rw [hself]
    exact hp.handed

theorem Closing.span (hp : Closing host i p) {job : Job} {r : Unit}
    (h : Step (passTraffic host) p ⟨i, .span job, r⟩ p') (hhanded : (p.known i).handed = some job)
    (hrunning : (p.known i).running = none) : Closing host i p' := by
  have hasks := Safe.asks h (hp.safe i)
  have hself : p'.known i = (p.known i).begin job := h.known_self
  refine ⟨ids_after hp.ids h, fun j => Safe.step h trivial (hp.safe j), fun id hid => ?_,
    fun id hid => ?_, fun job' hjob' => ?_⟩
  · rw [hself] at hid ⊢
    rcases hp.claimed id hid with hfailed | ⟨job', hhand, rfl⟩ | ⟨row, hfound, hclosed⟩
    · exact Or.inl hfailed
    · rcases hhand with hhand | hhand
      · rw [hhanded] at hhand
        cases hhand
        exact Or.inr (Or.inl ⟨job, Or.inr rfl, rfl⟩)
      · rw [hrunning] at hhand
        cases hhand
    · exact Or.inr (Or.inr ⟨row, closed_after hasks h hfound hclosed, hclosed⟩)
  · rw [hself] at hid ⊢
    rcases List.mem_cons.mp hid with rfl | hid
    · exact (hp.handed job hhanded).1
    · exact hp.begun id hid
  · rw [hself] at hjob'
    cases hjob'

/-- Every step keeps it, if the tick's own writes settle their jobs. -/
theorem Closing.step {t : JobTurn ι} (hp : Closing host i p) (h : Step (passTraffic host) p t p')
    (hsettles : t.thread = i → Settles t) : Closing host i p' := by
  by_cases hi : t.thread = i
  · subst hi
    have hasks := Safe.asks h (hp.safe t.thread)
    have hself := h.known_self
    have hsettles := hsettles rfl
    obtain ⟨i, q, r⟩ := t
    cases q with
    | sql stmt =>
        cases stmt with
        | update rid sets cond =>
            -- The updates of a tick: a claim, a reap, and the outcome of the job that runs.
            rcases hasks with ⟨hidle, id, worker, token, source, hstmt⟩ | hstmt |
              ⟨job, outcome, hrunning, hstmt⟩
            · unfold claimSql at hstmt
              injection hstmt with hrid hsets hcond
              subst hrid hsets hcond
              exact hp.claim h hidle
            · unfold reapSql at hstmt
              injection hstmt with hrid _ _
              subst hrid
              exact hp.quiet h hself
            · unfold fencedUpdateSql at hstmt
              injection hstmt with hrid hsets hcond
              subst hrid hsets hcond
              exact hp.settle h hrunning hsettles
        | tenants => exact hp.quiet h hself
        | heads tenant => exact hp.quiet h hself
    | span job => exact hp.span h hasks.1 hasks.2.1
    | nextClaimToken => exact hp.quiet h hself
    | nextRound => exact hp.quiet h hself
    | jobsPerRound tenant => exact hp.quiet h hself
    | callerFor principal => exact hp.quiet h hself
    | dbWrite caller doctype doc => exact hp.quiet h hself
  · -- A step of another thread changes nothing that the tick knows.
    exact hp.quiet h (h.known_ne (Ne.symm hi))

/-- Ticks that have not begun. -/
structure Begins (w : ι → Worker) (fuel : ι → Nat) (p : PassPool ι) : Prop where
  begins : ∀ i, p.prog i = (w i).tick (fuel i)
  empty : ∀ i, p.known i = {}
  ids : (p.shared.jobs.map (·.1)).Nodup

omit [DecidableEq ι] in
theorem Begins.closing {w : ι → Worker} {fuel : ι → Nat} (h : Begins w fuel p) (i : ι) :
    Closing host i p := by
  refine ⟨h.ids, fun j => ?_, ?_, ?_, ?_⟩
  · rw [h.begins j, h.empty j]
    exact ticks_tick (w j) (fuel j) ⟨rfl, rfl, rfl⟩
  all_goals
    rw [h.empty i]
    simp

/-- A tick whose writes settle their jobs starts each job at most once. -/
theorem nodup_started_tick {w : ι → Worker} {fuel : ι → Nat} (hbegins : Begins w fuel p)
    {ts : List (JobTurn ι)}
    (h : Run.Steps (Step (passTraffic host)) p (fun _ t _ => t.thread = i → Settles t) ts p') :
    (started JobRequest.starts i ts).Nodup := by
  -- A job at hand was not begun, at any step of the tick.
  have hsteps := Run.Steps.of_invariant (I := Closing host i)
    (q := fun a t _ => t.thread = i → ∀ x, t.request.starts = some x → x ∉ (a.known i).begun)
    h (hbegins.closing i) fun a t b ha hab hsettles => ⟨fun hi x hx => ?_, ha.step hab hsettles⟩
  · refine nodup_started PassBook.begun (fun s k q r => ?_) (fun _ _ _ hcond => hcond) hsteps.1
      (by rw [hbegins.empty i])
    cases q with
    | sql stmt =>
        cases stmt with
        | update rid sets cond =>
            cases rid with
            | none => rfl
            | some rid =>
                -- An update changes what is claimed, not what is begun.
                show (if JobSet.attempted ∈ sets then k.claim rid r else _ : PassBook).begun = _
                split
                · cases r with
                  | error e => rfl
                  | ok rows => cases rows <;> rfl
                · rfl
        | tenants => rfl
        | heads tenant => rfl
    | _ => rfl
  · have hasks := Safe.asks hab (ha.safe t.thread)
    obtain ⟨j, q, r⟩ := t
    cases hi
    cases q with
    | span job =>
        -- Only a span starts a job.
        cases hx
        exact (ha.handed job hasks.1).2
    | _ => cases hx

/-! ### The attempts of a job -/

omit [DecidableEq ι] in
/-- What is written to a row counts one attempt at most, and none unless it is a claim; and a job
is given up only after its last attempt. -/
theorem Touches.tries {k : PassBook} {now : Time} {id : String} {row row' : JobRow} {q : JobRequest}
    (h : Touches k now id row q row') :
    row.tries ≤ row'.tries ∧ (row'.tries ≤ row.tries ∨
      row'.tries ≤ row.tries + 1 ∧ k.Idle ∧ ∃ worker token source,
        q = .sql (claimSql id worker token source) ∧ source.predicate.holds now row = true) := by
  -- What leaves the attempts leaves the tries.
  have hsame : row'.attempts = row.attempts → row'.tries = row.tries := fun hattempts => by
    rw [JobRow.tries, hattempts, ← JobRow.tries]
  cases h with
  | claim worker token source hidle hholds =>
      have hattempts : (applySets now (claimSets worker token) row).attempts
          = some (row.attempts.elim 1 (· + 1)) := rfl
      -- A first claim counts one attempt, and a later one adds one.
      have hone : row.tries ≤ (applySets now (claimSets worker token) row).tries ∧
          (applySets now (claimSets worker token) row).tries ≤ row.tries + 1 := by
        unfold JobRow.tries
        rw [hattempts]
        cases row.attempts with
        | none => simp
        | some n =>
            simp only [Option.elim_some, Option.getD_some]
            omega
      exact ⟨hone.1, Or.inr ⟨hone.2, hidle, worker, token, source, rfl, hholds⟩⟩
  | reap sets hsets hholds =>
      unfold reapSql at hsets
      injection hsets with _ hsets _
      subst hsets
      have htries := hsame (by simp [applySets, JobSet.apply])
      exact ⟨htries.ge, Or.inl htries.le⟩
  | outcome job outcome hid hrunning hrow =>
      have htries := hsame (JobRow.attempts_of_leaseUpdate (leaseUpdate_of_outcome job outcome) now row)
      exact ⟨htries.ge, Or.inl htries.le⟩

omit [DecidableEq ι] in
/-- A job is given up after its last attempt only. -/
theorem Touches.dead {k : PassBook} {now : Time} {id : String} {row row' : JobRow} {q : JobRequest}
    (h : Touches k now id row q row')
    (hbehind : ∀ job, k.running = some job → job.id = id → job.lease.attempt ≤ row.tries)
    (hdead : row'.status = .dead) : maxJobAttempts ≤ row.tries := by
  cases h with
  | claim worker token source => cases hdead
  | reap sets hsets hholds => exact tries_of_exhausted hholds
  | outcome job outcome hid hrunning hrow =>
      have hattempt := hbehind job hrunning hid
      cases outcome with
      | done => cases hdead
      | denied detail => cases hdead
      | retry detail =>
          by_cases hlast : maxJobAttempts ≤ job.lease.attempt
          · omega
          · simp [JobOutcome.sets, retryUpdate, hlast, applySets, JobSet.apply] at hdead

/-- What every step keeps, of one job: it was claimed by as many ticks as its row says. -/
structure Spread (host : JobHost) (id : String) (p : PassPool ι) (row : JobRow) : Prop where
  closing : ∀ i, Closing host i p
  found : p.shared.jobs.lookup id = some row
  counted : ∃ passes : List ι, passes.Nodup ∧ row.tries ≤ passes.length ∧
    ∀ i ∈ passes, id ∈ (p.known i).claimed
  behind : ∀ i job, ((p.known i).handed = some job ∨ (p.known i).running = some job) →
    job.id = id → job.lease.attempt ≤ row.tries
  dead : row.status = .dead → maxJobAttempts ≤ row.tries

/-- What a tick knows after an answer: no job less that it claimed, and no other job at hand but
one that a claim was answered. -/
theorem learnPass_spec (s : JobWorld) (k : PassBook) (q : JobRequest) (r : JobAnswer q) :
    (∀ id ∈ k.claimed, id ∈ (learnPass s k q r).claimed) ∧
    ∀ job, (learnPass s k q r).handed = some job ∨ (learnPass s k q r).running = some job →
      (k.handed = some job ∨ k.running = some job) ∨ q = .span job ∨
        ∃ rid sets cond r', (⟨q, r⟩ : Sigma JobAnswer) = ⟨.sql (.update rid sets cond), r'⟩ ∧
          claimedJob r' = some job := by
  cases q with
  | sql stmt =>
      cases stmt with
      | update rid sets cond =>
          cases rid with
          | none => exact ⟨fun _ h => h, fun _ h => Or.inl h⟩
          | some rid =>
              show (∀ id ∈ k.claimed, id ∈ (if JobSet.attempted ∈ sets then k.claim rid r
                  else { k with running := none } : PassBook).claimed) ∧ ∀ job,
                (if JobSet.attempted ∈ sets then k.claim rid r
                  else { k with running := none } : PassBook).handed = some job ∨
                (if JobSet.attempted ∈ sets then k.claim rid r
                  else { k with running := none } : PassBook).running = some job → _
              -- An update that counts an attempt is a claim.
              by_cases hclaim : JobSet.attempted ∈ sets
              · rw [if_pos hclaim]
                cases r with
                | error e =>
                    exact ⟨fun _ h => List.mem_cons_of_mem _ h, fun job h => h.elim
                      (fun h => by cases h) fun h => Or.inl (Or.inr h)⟩
                | ok rows =>
                    cases rows with
                    | nil => exact ⟨fun _ h => h, fun _ h => Or.inl h⟩
                    | cons record rest =>
                        exact ⟨fun _ h => List.mem_cons_of_mem _ h, fun job h => h.elim
                          (fun h => Or.inr (Or.inr ⟨_, _, _, _, rfl, h⟩)) fun h => Or.inl (Or.inr h)⟩
              · rw [if_neg hclaim]
                exact ⟨fun _ h => h, fun job h => h.elim (fun h => Or.inl (Or.inl h))
                  fun h => by cases h⟩
      | tenants => exact ⟨fun _ h => h, fun _ h => Or.inl h⟩
      | heads tenant => exact ⟨fun _ h => h, fun _ h => Or.inl h⟩
  | span job =>
      refine ⟨fun _ h => h, fun job' h => ?_⟩
      rcases h with h | h
      · cases h
      · cases h
        exact Or.inr (Or.inl rfl)
  | nextClaimToken => exact ⟨fun _ h => h, fun _ h => Or.inl h⟩
  | nextRound => exact ⟨fun _ h => h, fun _ h => Or.inl h⟩
  | jobsPerRound tenant => exact ⟨fun _ h => h, fun _ h => Or.inl h⟩
  | callerFor principal => exact ⟨fun _ h => h, fun _ h => Or.inl h⟩
  | dbWrite caller doctype doc => exact ⟨fun _ h => h, fun _ h => Or.inl h⟩

/-- A claim that takes a job is known to the tick. -/
theorem mem_claimed_of_claim {id worker token : String} {source : ClaimSource} {row : JobRow}
    {r : Except BrokerError (List JobRecord)}
    (h : Step (passTraffic host) p ⟨i, .sql (claimSql id worker token source), r⟩ p')
    (hfound : p.shared.jobs.lookup id = some row)
    (hholds : source.predicate.holds p'.shared.now row = true) : id ∈ (p'.known i).claimed := by
  have hself : p'.known i = (p.known i).claim id r := by
    rw [h.known_self]
    show (if JobSet.attempted ∈ claimSets worker token
      then (p.known i).claim id r else { p.known i with running := none }) = _
    exact if_pos (by simp [claimSets])
  rw [hself]
  cases r with
  | error e => exact List.mem_cons_self
  | ok rows =>
      cases rows with
      | cons record rest => exact List.mem_cons_self
      | nil =>
          -- it was answered with the job that it took
          obtain ⟨now, _, ⟨e, he, _⟩ | ⟨hrows, hs⟩⟩ := h.answers
          · cases he
          · have hnow : p'.shared.now = now := by
              rw [hs]
              rfl
            have hhits : JobTable.hits now (some id) source.predicate (id, row) = true := by
              rw [JobTable.hits_some, Bool.and_eq_true, decide_eq_true_eq]
              exact ⟨rfl, hnow ▸ hholds⟩
            have hmem : _ ∈ p.shared.jobs.updatedRows now (some id) (claimSets worker token)
                source.predicate := JobTable.mem_updatedRows_of_hits hfound hhits
            have hrows : ([] : List JobRecord) = p.shared.jobs.updatedRows now (some id)
              (claimSets worker token) source.predicate := Except.ok.inj hrows
            rw [← hrows] at hmem
            cases hmem

/-- Every step of a tick that settles what it ran keeps it. -/
theorem Spread.step {t : JobTurn ι} {id : String} {row : JobRow} (hp : Spread host id p row)
    (h : Step (passTraffic host) p t p') (hsettles : Settles t) :
    ∃ row', Spread host id p' row' := by
  have hasks := Safe.asks h ((hp.closing t.thread).safe t.thread)
  have hclosing : ∀ i, Closing host i p' := fun i => (hp.closing i).step h fun _ => hsettles
  obtain ⟨row', hfound', hrow⟩ := row_after hasks h hp.found
  have hmono : row.tries ≤ row'.tries := by
    rcases hrow with rfl | htouched
    · exact Nat.le_refl _
    · exact htouched.tries.1
  have hclaimed : ∀ i, id ∈ (p.known i).claimed → id ∈ (p'.known i).claimed := by
    intro i hid
    rcases h.known i with hk | ⟨rfl, hk⟩
    · exact hk ▸ hid
    · rw [hk]
      exact (learnPass_spec p.shared _ _ _).1 id hid
  refine ⟨row', hclosing, hfound', ?_, fun i job hhand hid => ?_, fun hdead => ?_⟩
  · obtain ⟨passes, hnodup, hcount, hpasses⟩ := hp.counted
    have hkept : row'.tries ≤ row.tries → ∃ passes : List ι, passes.Nodup ∧
        row'.tries ≤ passes.length ∧ ∀ i ∈ passes, id ∈ (p'.known i).claimed := fun hle =>
      ⟨passes, hnodup, by omega, fun i hi => hclaimed i (hpasses i hi)⟩
    rcases hrow with rfl | htouched
    · exact hkept (Nat.le_refl _)
    · rcases htouched.tries.2 with hle | ⟨hle, hidle, worker, token, source, hq, hholds⟩
      · exact hkept hle
      · -- the tick claims the job for the first time, for what it claimed before is closed
        obtain ⟨i, q, r⟩ := t
        cases hq
        have hnew : i ∉ passes := fun hi => by
          obtain ⟨row₀, hfound₀, hclosed⟩ := (hp.closing i).closed hidle (hpasses i hi)
          rw [hp.found] at hfound₀
          cases hfound₀
          exact hclosed.not_open (open_of_claimable hholds)
        refine ⟨i :: passes, List.nodup_cons.mpr ⟨hnew, hnodup⟩, ?_, fun j hj => ?_⟩
        · rw [List.length_cons]
          omega
        · rcases List.mem_cons.mp hj with rfl | hj
          · exact mem_claimed_of_claim h hp.found hholds
          · exact hclaimed j (hpasses j hj)
  · have hbefore : ((p.known i).handed = some job ∨ (p.known i).running = some job) →
        job.lease.attempt ≤ row'.tries := fun hhand =>
      Nat.le_trans (hp.behind i job hhand hid) hmono
    rcases h.known i with hk | ⟨rfl, hk⟩
    · exact hbefore (hk ▸ hhand)
    · rw [hk] at hhand
      obtain ⟨i, q, r⟩ := t
      rcases (learnPass_spec p.shared _ _ _).2 job hhand with hhand | rfl | ⟨rid, sets, cond, r', hq, hjob⟩
      · exact hbefore hhand
      · exact hbefore (Or.inl hasks.1)
      · cases hq
        obtain ⟨row₀, hfound₀, hhits, hjobs, _, htries, _⟩ :=
          claimedJob_spec (hp.closing i).ids h.answers hjob
        rw [hid] at hfound₀ hhits
        rw [hjobs, JobTable.lookup_update, hfound₀, Option.map_some, if_pos hhits] at hfound'
        cases hfound'
        exact htries.ge
  · rcases hrow with rfl | htouched
    · exact hp.dead hdead
    · have hbehind : ∀ job, (p.known t.thread).running = some job → job.id = id →
          job.lease.attempt ≤ row.tries := fun job hjob => hp.behind t.thread job (Or.inr hjob)
      exact Nat.le_trans (htouched.dead hbehind hdead) hmono

/-- After ticks that settle what they ran, a job was claimed by as many of them as its row says, and
it is given up only after `MAX_JOB_ATTEMPTS` of them. -/
theorem tries_of_ticks {w : ι → Worker} {fuel : ι → Nat} (hbegins : Begins w fuel p) {id : String}
    {row₀ : JobRow} (hfound : p.shared.jobs.lookup id = some row₀) (hqueued : row₀.status = .queued)
    (htries : row₀.tries = 0) {ts : List (JobTurn ι)}
    (h : Run.Steps (Step (passTraffic host)) p (fun _ t _ => Settles t) ts p') :
    ∃ row, p'.shared.jobs.lookup id = some row ∧ ∃ passes : List ι, passes.Nodup ∧
      (∀ i ∈ passes, id ∈ (p'.known i).claimed) ∧ row.tries ≤ passes.length ∧
      (row.status = .dead → maxJobAttempts ≤ passes.length) := by
  have hstart : Spread host id p row₀ := by
    refine ⟨hbegins.closing, hfound, ⟨[], List.nodup_nil, by simp [htries], by simp⟩,
      fun i job hhand => ?_, fun hdead => ?_⟩
    · rw [hbegins.empty i] at hhand
      rcases hhand with hhand | hhand <;> cases hhand
    · rw [hqueued] at hdead
      cases hdead
  obtain ⟨row, hp⟩ : ∃ row, Spread host id p' row :=
    h.invariant (I := fun q => ∃ row, Spread host id q row) ⟨row₀, hstart⟩
      fun _ _ _ ⟨_, ha⟩ hab hsettles => ha.step hab hsettles
  obtain ⟨passes, hnodup, hcount, hpasses⟩ := hp.counted
  exact ⟨row, hp.found, passes, hnodup, hpasses, hcount, fun hdead =>
    Nat.le_trans (hp.dead hdead) hcount⟩

end

end Frust.Kernel
