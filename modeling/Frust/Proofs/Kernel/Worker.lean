import Frust.Proofs.Kernel.Job
import Mathlib.Data.List.Perm.Basic

/-!
# `Frust.Proofs.Kernel.Worker`: what a worker asks

`jobTraffic` is the environment that workers share, with a `learn` that each group of
results chooses for itself, and the rules follow a worker's program request by request.

`LeaseBook` is what a worker knows of its leases: the token it was issued and has not used,
the jobs it was handed, and of these the ones that it has not run. A worker goes by the book
(`LeaseBook.Asks`): each claim has a token of its own, each fenced update is under a lease
that it holds, and it runs each claimed job once. `byTheBook_session` shows this of any sequence
of calls on a worker.
-/

set_option autoImplicit false

namespace Frust.Kernel

open Frust.Lib Frust.Lib.Prog Frust.Lib.Pool Work

/-- The environment of the workers on a job table. -/
def jobTraffic (host : JobHost) {κ : Type}
    (learn : JobWorld → κ → (q : JobRequest) → JobAnswer q → κ) :
    Env JobRequest JobAnswer JobWorld κ := ⟨host.Answers, learn⟩

section

variable {host : JobHost} {κ α β : Type}
  {learn : JobWorld → κ → (q : JobRequest) → JobAnswer q → κ}
  {allowed : JobWorld → (q : JobRequest) → JobAnswer q → Prop} {ok : κ → JobRequest → Prop}
  {post : κ → Except BrokerError α → Prop} {k : κ}

/-! ### Rules for the requests -/

theorem safe_work_lift (herr : ∀ e, post k (.error e)) (r : Except BrokerError β)
    {f : β → Work α}
    (hf : ∀ b, r = .ok b → Safe (jobTraffic host learn) allowed ok post k (f b)) :
    Safe (jobTraffic host learn) allowed ok post k (Work.lift r >>= f) := by
  cases r with
  | ok b => exact hf b rfl
  | error e => exact herr e

theorem safe_work_ask (q : JobRequest) {f : JobAnswer q → Work α} (hok : ok k q)
    (hf : ∀ (s : JobWorld) (r : JobAnswer q) (s' : JobWorld), host.Answers s q r s' →
      allowed s q r → Safe (jobTraffic host learn) allowed ok post (learn s k q r) (f r)) :
    Safe (jobTraffic host learn) allowed ok post k (ask q >>= f) := ⟨hok, hf⟩

theorem safe_trySql (stmt : JobStatement) {f : Except BrokerError stmt.Rows → Work α}
    (hok : ok k (.sql stmt))
    (herr : ∀ e, stmt.text = .error e →
      Safe (jobTraffic host learn) allowed ok post k (f (.error e)))
    (hf : ∀ (s : JobWorld) (r : Except BrokerError stmt.Rows) (s' : JobWorld) (text : String),
      stmt.text = .ok text → host.Answers s (.sql stmt) r s' → allowed s (.sql stmt) r →
        Safe (jobTraffic host learn) allowed ok post (learn s k (.sql stmt) r) (f r)) :
    Safe (jobTraffic host learn) allowed ok post k (trySql stmt >>= f) := by
  unfold trySql
  cases htext : stmt.text with
  | ok text => exact safe_work_ask (.sql stmt) hok fun s r s' => hf s r s' text htext
  | error e => exact herr e htext

theorem safe_sqlRoot (stmt : JobStatement) {f : stmt.Rows → Work α} (hok : ok k (.sql stmt))
    (herr : ∀ e, post k (.error e))
    (hf : ∀ (s : JobWorld) (r : Except BrokerError stmt.Rows) (s' : JobWorld) (text : String),
      stmt.text = .ok text → host.Answers s (.sql stmt) r s' → allowed s (.sql stmt) r →
        Safe (jobTraffic host learn) allowed ok post (learn s k (.sql stmt) r)
          (Work.lift r >>= f)) :
    Safe (jobTraffic host learn) allowed ok post k (sqlRoot stmt >>= f) := by
  have hassoc : sqlRoot stmt >>= f = trySql stmt >>= fun r => Work.lift r >>= f := by
    unfold sqlRoot trySql
    cases stmt.text <;> rfl
  rw [hassoc]
  exact safe_trySql stmt hok (fun e _ => herr e) hf

end

/-! ### Looking for a job -/

/-- What is asked on the way to a claim. -/
def JobRequest.Surveys : JobRequest → Prop
  | .sql .tenants | .sql (.heads _) | .nextRound | .jobsPerRound _ => True
  | .sql (.update rid sets cond) => JobStatement.update rid sets cond = reapSql
  | _ => False

section

variable {α : Type} {P : JobRequest → Prop}

theorem only_sqlRoot {stmt : JobStatement} (h : P (.sql stmt)) : (sqlRoot stmt).Only P := by
  unfold sqlRoot trySql
  cases stmt.text with
  | error e => trivial
  | ok text =>
      refine ⟨h, fun r => ?_⟩
      cases r <;> trivial

theorem only_headsOf (tenants : List String) :
    (Worker.headsOf tenants).Only JobRequest.Surveys := by
  induction tenants with
  | nil => trivial
  | cons tenant rest ih =>
      exact (only_sqlRoot trivial).bind fun _ => ih.bind fun _ => trivial

theorem only_capsOf (tenants : List String) :
    (Worker.capsOf tenants).Only JobRequest.Surveys := by
  induction tenants with
  | nil => trivial
  | cons tenant rest ih => exact ⟨trivial, fun _ => ih.bind fun _ => trivial⟩

theorem only_fairRound (queued : List (String × String)) :
    (Worker.fairRound queued).Only JobRequest.Surveys := by
  unfold Worker.fairRound
  have hcaps : ∀ start : Nat, Only JobRequest.Surveys (do
      let rotated := (groupByTenant queued).rotateLeft (start % (groupByTenant queued).length)
      let caps ← Worker.capsOf (rotated.map (·.1))
      return takePasses queued.length
        (List.zipWith (fun e cap => { jobs := e.2, cap := cap }) rotated caps) :
          Work (List String)) := fun start => (only_capsOf _).bind fun _ => trivial
  by_cases hlen : (groupByTenant queued).length > 1
  · simp only [hlen, if_true]
    exact ⟨trivial, fun r => hcaps r⟩
  · simp only [hlen, if_false]
    exact hcaps 0

theorem only_reapExhausted : Worker.reapExhausted.Only JobRequest.Surveys := by
  have hreap : JobRequest.Surveys (.sql reapSql) := rfl
  exact (only_sqlRoot hreap).bind fun _ => trivial

end

section

variable {host : JobHost} {κ : Type} {learn : JobWorld → κ → (q : JobRequest) → JobAnswer q → κ}
  {allowed : JobWorld → (q : JobRequest) → JobAnswer q → Prop} {ok : κ → JobRequest → Prop}
  {I : κ → Prop} {post : κ → Except BrokerError (Option Job) → Prop} (w : Worker)

/-- Claims one after the other, until one hands out a job. -/
theorem safe_claimFirst
    (hclaim : ∀ k, I k → ∀ id source,
      Safe (jobTraffic host learn) allowed ok post k (w.tryClaimFrom id source))
    (hnone : ∀ k, post k (.ok none) → I k) (hstop : ∀ k, I k → post k (.ok none))
    (candidates : List Worker.Candidate) (ids : List String) {k : κ} (hk : I k) :
    Safe (jobTraffic host learn) allowed ok post k (w.claimFirst candidates ids) := by
  induction ids generalizing k with
  | nil => exact hstop k hk
  | cons id rest ih =>
      refine Safe.bind (hclaim k hk id _) (fun k' r h => ?_) fun _ _ h => h
      cases r with
      | some job => exact h
      | none => exact ih (hnone k' h)

/-- A call looks for a job, which changes nothing that is known, and then claims. -/
theorem safe_claimNext
    (hsurvey : ∀ k, I k → ∀ q : JobRequest, q.Surveys → ok k q ∧ ∀ s r, learn s k q r = k)
    (hclaim : ∀ k, I k → ∀ id source,
      Safe (jobTraffic host learn) allowed ok post k (w.tryClaimFrom id source))
    (hnone : ∀ k, post k (.ok none) → I k) (hstop : ∀ k, I k → post k (.ok none))
    (herr : ∀ k e, I k → post k (.error e)) {k : κ} (hk : I k) :
    Safe (jobTraffic host learn) allowed ok post k w.claimNext := by
  have hsame : ∀ {β : Type} {p : Work β} {f : β → Work (Option Job)},
      p.Only JobRequest.Surveys →
      (∀ b, Safe (jobTraffic host learn) allowed ok post k (f b)) →
      Safe (jobTraffic host learn) allowed ok post k (p >>= f) := by
    intro β p f honly hf
    refine Safe.bind (Safe.of_only honly (hsurvey k hk)) ?_ ?_
    · rintro _ b rfl
      exact hf b
    · rintro _ e rfl
      exact herr _ e hk
  refine hsame only_reapExhausted fun _ => hsame (only_sqlRoot trivial) fun groups => ?_
  refine hsame (only_headsOf _) fun candidates => hsame (only_fairRound _) fun order => ?_
  exact safe_claimFirst w hclaim hnone hstop _ _ hk

end

/-! ### Leases -/

/-- The run of a job: its id and the attempt. -/
def Job.key (job : Job) : String × Nat := (job.id, job.lease.attempt)

/-- What a worker knows of its leases. -/
structure LeaseBook where
  /-- A token that was issued to it and that it has not used. -/
  token : Option String := none
  /-- The jobs that it was handed. -/
  held : List Job := []
  /-- Of these the runs that it has not begun. -/
  fresh : List (String × Nat) := []

/-- The job that a claim was answered. -/
def claimedJob : Except BrokerError (List JobRecord) → Option Job
  | .ok (record :: _) => (decodeJob record).toOption
  | _ => none

/-- The book after a claim. -/
def LeaseBook.claim (k : LeaseBook) (job : Option Job) : LeaseBook where
  token := none
  held := job.toList ++ k.held
  fresh := job.toList.map Job.key ++ k.fresh

/-- Keeps the book. -/
def learnLease (_ : JobWorld) (k : LeaseBook) : (q : JobRequest) → JobAnswer q → LeaseBook
  | .nextClaimToken, token => { k with token := some token }
  | .sql (.update _ sets _), r => if JobSet.attempted ∈ sets then k.claim (claimedJob r) else k
  | .span job, _ => { k with fresh := k.fresh.erase job.key }
  | _, _ => k

/-- What a worker writes under a lease. -/
inductive LeaseUpdate (job : Job) : List JobSet → Prop where
  | renew : LeaseUpdate job [.leased]
  | done (detail : String) : LeaseUpdate job (finishUpdate .done detail)
  | denied (detail : String) : LeaseUpdate job (finishUpdate .denied detail)
  | retry (detail : String) : LeaseUpdate job (retryUpdate job.lease.attempt detail).2

/-- What a worker may ask that goes by its book. -/
def LeaseBook.Asks (k : LeaseBook) : JobRequest → Prop
  | .sql (.update rid sets cond) =>
      (∃ id worker token source, k.token = some token ∧
        JobStatement.update rid sets cond = claimSql id worker token source) ∨
      JobStatement.update rid sets cond = reapSql ∨
      ∃ job ∈ k.held, LeaseUpdate job sets ∧
        JobStatement.update rid sets cond = fencedUpdateSql job sets
  | .span job => job.key ∈ k.fresh
  | _ => True

theorem not_attempted_of_leaseUpdate {job : Job} {sets : List JobSet} (h : LeaseUpdate job sets) :
    JobSet.attempted ∉ sets := by
  cases h with
  | renew => simp
  | done detail => simp [finishUpdate]
  | denied detail => simp [finishUpdate]
  | retry detail =>
      unfold retryUpdate
      split <;> simp

section

variable {host : JobHost} {k : LeaseBook} (w : Worker)

/-- Workers, each with its book. -/
abbrev leaseTraffic (host : JobHost) : Env JobRequest JobAnswer JobWorld LeaseBook :=
  jobTraffic host learnLease

/-- Goes by the book, whatever it is answered. -/
abbrev ByTheBook {α : Type} (host : JobHost) (post : LeaseBook → Except BrokerError α → Prop)
    (k : LeaseBook) (p : Work α) : Prop :=
  Safe (leaseTraffic host) (fun _ _ _ => True) LeaseBook.Asks post k p

/-- The jobs that a call was handed. -/
def handed : Except BrokerError (Option Job) → List Job
  | .ok (some job) => [job]
  | _ => []

/-- What a call was handed is in the book, and to be run. -/
def Claimed (k k' : LeaseBook) (r : Except BrokerError (Option Job)) : Prop :=
  k'.held = handed r ++ k.held ∧ k'.fresh = (handed r).map Job.key ++ k.fresh

/-- Neither a job nor a run more or less. -/
def SameLeases (k k' : LeaseBook) : Prop := k'.held = k.held ∧ k'.fresh = k.fresh

theorem SameLeases.refl (k : LeaseBook) : SameLeases k k := ⟨rfl, rfl⟩

theorem Claimed.of_same {k₀ k k' : LeaseBook} {r : Except BrokerError (Option Job)}
    (h : SameLeases k₀ k) (hc : Claimed k k' r) : Claimed k₀ k' r := by
  obtain ⟨hheld, hfresh⟩ := h
  obtain ⟨hheld', hfresh'⟩ := hc
  exact ⟨by rw [hheld', hheld], by rw [hfresh', hfresh]⟩

theorem claimed_none {k k' : LeaseBook} (h : SameLeases k k') : Claimed k k' (.ok none) := h

theorem claimed_error {k k' : LeaseBook} (h : SameLeases k k') (e : BrokerError) :
    Claimed k k' (.error e) := h

/-! ### The programs of a worker -/

theorem byTheBook_tryClaimFrom (id : String) (source : ClaimSource) :
    ByTheBook host (Claimed k) k (w.tryClaimFrom id source) := by
  refine safe_work_ask _ trivial fun s token s' _ _ => ?_
  refine safe_sqlRoot _ ?_ (fun e => claimed_error ⟨rfl, rfl⟩ e) fun s r s' _ _ _ _ => ?_
  · exact Or.inl ⟨id, w.workerId, token, source, rfl, rfl⟩
  · have hclaim : JobSet.attempted ∈ claimSets w.workerId token := by simp [claimSets]
    simp only [claimSql, learnLease, hclaim, if_true]
    -- the book takes a job exactly where the call returns one
    cases r with
    | error e => exact ⟨rfl, rfl⟩
    | ok rows =>
        cases rows with
        | nil => exact ⟨rfl, rfl⟩
        | cons record rest =>
            show Safe _ _ _ _ _ (Work.lift (decodeJob record) >>= _)
            cases hjob : decodeJob record with
            | error e =>
                simp only [claimedJob, hjob]
                exact ⟨rfl, rfl⟩
            | ok job =>
                simp only [claimedJob, hjob]
                exact ⟨rfl, rfl⟩

theorem byTheBook_tryClaim (id : String) : ByTheBook host (Claimed k) k (w.tryClaim id) := by
  refine Safe.bind (byTheBook_tryClaimFrom w id .queued) (fun k' r h => ?_) fun k' e h => h
  cases r with
  | some job => exact h
  | none =>
      refine (byTheBook_tryClaimFrom w id .expiredLease).mono fun k'' r hr => ?_
      exact hr.of_same h

theorem byTheBook_claimNext : ByTheBook host (Claimed k) k w.claimNext := by
  refine safe_claimNext w (I := fun k' => SameLeases k k') (fun k' hk' q hq => ?_)
    (fun k' hk' id source => ?_) (fun _ h => h) (fun _ h => claimed_none h)
    (fun _ e h => claimed_error h e) (SameLeases.refl k)
  · cases q with
    | sql stmt =>
        cases stmt with
        | update rid sets cond =>
            have hreap : JobStatement.update rid sets cond = reapSql := hq
            refine ⟨Or.inr (Or.inl hreap), fun s r => ?_⟩
            unfold reapSql at hreap
            injection hreap with _ hsets _
            subst hsets
            simp [learnLease]
        | tenants => exact ⟨trivial, fun _ _ => rfl⟩
        | heads tenant => exact ⟨trivial, fun _ _ => rfl⟩
    | nextRound => exact ⟨trivial, fun _ _ => rfl⟩
    | jobsPerRound tenant => exact ⟨trivial, fun _ _ => rfl⟩
    | nextClaimToken => exact hq.elim
    | span job => exact hq.elim
    | callerFor principal => exact hq.elim
    | dbWrite caller doctype doc => exact hq.elim
  · exact (byTheBook_tryClaimFrom w id source).mono fun _ _ hr => hr.of_same hk'

/-- An update under a lease that is held. -/
theorem byTheBook_trySql {job : Job} (hheld : job ∈ k.held) {sets : List JobSet}
    (hsets : LeaseUpdate job sets) {α : Type} {post : LeaseBook → Except BrokerError α → Prop}
    {f : Except BrokerError (List JobRecord) → Work α} (hf : ∀ r, ByTheBook host post k (f r)) :
    ByTheBook host post k (trySql (fencedUpdateSql job sets) >>= f) := by
  refine safe_trySql _ (Or.inr (Or.inr ⟨job, hheld, hsets, rfl⟩)) (fun e _ => hf (.error e)) ?_
  intro s r s' _ _ _ _
  have hlearn : learnLease s k (.sql (fencedUpdateSql job sets)) r = k := by
    simp [learnLease, fencedUpdateSql, not_attempted_of_leaseUpdate hsets]
  rw [hlearn]
  exact hf r

theorem byTheBook_applyFenced {job : Job} (hheld : job ∈ k.held) {sets : List JobSet}
    (hsets : LeaseUpdate job sets) :
    ByTheBook host (fun k' _ => SameLeases k k') k (Worker.applyFenced job sets) :=
  byTheBook_trySql hheld hsets fun _ => SameLeases.refl k

theorem byTheBook_renewLease {job : Job} (hheld : job ∈ k.held) :
    ByTheBook host (fun k' _ => SameLeases k k') k (Worker.renewLease job) := by
  refine safe_sqlRoot _ (Or.inr (Or.inr ⟨job, hheld, .renew, rfl⟩)) (fun _ => SameLeases.refl k) ?_
  intro s r s' _ _ _ _
  have hlearn : learnLease s k (.sql (fencedUpdateSql job [.leased])) r = k := by
    simp [learnLease, fencedUpdateSql]
  rw [hlearn]
  exact safe_work_lift (fun _ => SameLeases.refl k) r fun _ _ => SameLeases.refl k

theorem byTheBook_settle {job : Job} (hheld : job ∈ k.held) (outcome : JobOutcome) :
    ByTheBook host (fun k' _ => SameLeases k k') k (Worker.settle job outcome) := by
  have hfenced : ∀ sets, LeaseUpdate job sets → ByTheBook host (fun k' _ => SameLeases k k') k
      (Worker.applyFenced job sets >>= fun _ => pure ()) := fun sets hsets =>
    Safe.bind (byTheBook_applyFenced hheld hsets) (fun _ _ h => h) fun _ _ h => h
  cases outcome with
  | done => exact hfenced _ (.done "")
  | denied detail => exact hfenced _ (.denied detail)
  | retry detail => exact hfenced _ (.retry detail)

theorem byTheBook_effect (job : Job) (caller : Caller) :
    ByTheBook host (fun k' _ => k' = k) k (w.effect job caller) := by
  unfold Worker.effect Worker.runCreateDoc
  split
  · split
    · split
      · exact safe_work_ask _ trivial fun s r s' _ _ => rfl
      · exact rfl
    · exact rfl
  · exact rfl

theorem byTheBook_runTraced {job : Job} (hheld : job ∈ k.held) :
    ByTheBook host (fun k' _ => SameLeases k k') k (w.runTraced job) := by
  refine safe_work_ask _ trivial fun s caller s' _ _ => ?_
  show ByTheBook host (fun k' _ => SameLeases k k') k _
  cases caller with
  | none =>
      exact Safe.bind (byTheBook_settle hheld (.denied "")) (fun _ _ h => h) fun _ _ h => h
  | some caller =>
      refine Safe.bind (byTheBook_effect w job caller) (fun k' outcome h => ?_) fun _ _ h => ?_
      · subst h
        exact Safe.bind (byTheBook_settle hheld outcome) (fun _ _ h => h) fun _ _ h => h
      · exact h ▸ SameLeases.refl k

/-- A run takes the job off the runs that are to begin. -/
theorem byTheBook_run {job : Job} (hheld : job ∈ k.held) (hfresh : job.key ∈ k.fresh) :
    ByTheBook host (fun k' _ => k'.held = k.held ∧ k'.fresh = k.fresh.erase job.key) k
      (w.run job) := by
  refine safe_work_ask _ hfresh fun s _ s' _ _ => ?_
  exact byTheBook_runTraced (k := { k with fresh := k.fresh.erase job.key }) w hheld

/-- A tick runs every job that it claims. -/
theorem byTheBook_tick (fuel : Nat) :
    ByTheBook host (fun k' _ => (∀ job ∈ k.held, job ∈ k'.held) ∧ k'.fresh = k.fresh) k
      (w.tick fuel) := by
  induction fuel generalizing k with
  | zero => exact ⟨fun _ h => h, rfl⟩
  | succ fuel ih =>
      refine Safe.bind (byTheBook_claimNext w) (fun k₁ r h₁ => ?_) fun k₁ e h₁ => ?_
      · cases r with
        | none => exact ⟨fun job h => h₁.1 ▸ h, h₁.2⟩
        | some job =>
            obtain ⟨hheld, hfresh⟩ := h₁
            have hmem : job ∈ k₁.held := by simp [hheld, handed]
            have hkey : job.key ∈ k₁.fresh := by simp [hfresh, handed]
            -- the run is off the list again
            have herase : k₁.fresh.erase job.key = k.fresh := by simp [hfresh, handed]
            have hkeep : ∀ j ∈ k.held, j ∈ k₁.held := fun j h => by simp [hheld, h]
            refine Safe.bind (byTheBook_run w hmem hkey) (fun k₂ _ h₂ => ?_) fun k₂ e h₂ => ?_
            · rw [herase] at h₂
              have hrest : ∀ j ∈ k.held, j ∈ k₂.held := fun j h => h₂.1 ▸ hkeep j h
              refine Safe.bind ih (fun k₃ _ h₃ => ?_) fun k₃ e h₃ => ?_
              · exact ⟨fun j h => h₃.1 j (hrest j h), h₃.2.trans h₂.2⟩
              · exact ⟨fun j h => h₃.1 j (hrest j h), h₃.2.trans h₂.2⟩
            · rw [herase] at h₂
              exact ⟨fun j h => h₂.1 ▸ hkeep j h, h₂.2⟩
      · exact ⟨fun job h => h₁.1 ▸ h, h₁.2⟩

end

/-! ### Any use of a worker -/

/-- A call on a worker. A renewal is of one of the jobs that it was handed, a run of one
of those that it has not run. -/
inductive WorkerCall where
  | tryClaim (id : String)
  | claimNext
  | renew (i : Nat)
  | run (i : Nat)
  | tick (fuel : Nat)

/-- Calls on a worker, one after the other. One that fails ends; the next one is made all
the same. -/
def Worker.session (w : Worker) : List WorkerCall → (held waiting : List Job) → Work Unit
  | [], _, _ => pure ()
  | .tryClaim id :: rest, held, waiting => do
      let r ← (w.tryClaim id).attempt
      session w rest (handed r ++ held) (handed r ++ waiting)
  | .claimNext :: rest, held, waiting => do
      let r ← w.claimNext.attempt
      session w rest (handed r ++ held) (handed r ++ waiting)
  | .renew i :: rest, held, waiting =>
      match held[i]? with
      | some job => do
          let _ ← (Worker.renewLease job).attempt
          session w rest held waiting
      | none => session w rest held waiting
  | .run i :: rest, held, waiting =>
      match waiting[i]? with
      | some job => do
          let _ ← (w.run job).attempt
          session w rest held (waiting.eraseIdx i)
      | none => session w rest held waiting
  | .tick fuel :: rest, held, waiting => do
      let _ ← (w.tick fuel).attempt
      session w rest held waiting

/-- The jobs at hand are in the book. -/
structure LeaseBook.Covers (k : LeaseBook) (held waiting : List Job) : Prop where
  mem_held : ∀ job ∈ held, job ∈ k.held
  mem_waiting : ∀ job ∈ waiting, job ∈ k.held
  perm_fresh : (waiting.map Job.key).Perm k.fresh

section

variable {host : JobHost} {k : LeaseBook} (w : Worker) {held waiting : List Job}

theorem LeaseBook.Covers.claimed {k' : LeaseBook} (hk : k.Covers held waiting)
    {r : Except BrokerError (Option Job)} (h : Claimed k k' r) :
    k'.Covers (handed r ++ held) (handed r ++ waiting) := by
  obtain ⟨hheld, hfresh⟩ := h
  refine ⟨fun job hjob => ?_, fun job hjob => ?_, ?_⟩
  · rw [hheld]
    rcases List.mem_append.mp hjob with h | h
    · exact List.mem_append_left _ h
    · exact List.mem_append_right _ (hk.mem_held job h)
  · rw [hheld]
    rcases List.mem_append.mp hjob with h | h
    · exact List.mem_append_left _ h
    · exact List.mem_append_right _ (hk.mem_waiting job h)
  · rw [hfresh, List.map_append]
    exact hk.perm_fresh.append_left _

theorem LeaseBook.Covers.same {k' : LeaseBook} (hk : k.Covers held waiting)
    (h : SameLeases k k') : k'.Covers held waiting := by
  obtain ⟨hheld, hfresh⟩ := h
  exact ⟨fun job hj => hheld ▸ hk.mem_held job hj, fun job hj => hheld ▸ hk.mem_waiting job hj,
    hfresh ▸ hk.perm_fresh⟩

/-- The run that is begun is the one that is taken off. -/
theorem LeaseBook.Covers.begun {k' : LeaseBook} (hk : k.Covers held waiting) {i : Nat} {job : Job}
    (hjob : waiting[i]? = some job) (hheld : k'.held = k.held)
    (hfresh : k'.fresh = k.fresh.erase job.key) : k'.Covers held (waiting.eraseIdx i) := by
  refine ⟨fun j hj => hheld ▸ hk.mem_held j hj, fun j hj => ?_, ?_⟩
  · exact hheld ▸ hk.mem_waiting j (List.mem_of_mem_eraseIdx hj)
  · obtain ⟨hi, hget⟩ := List.getElem?_eq_some_iff.mp hjob
    have hwaiting : (job.key :: (waiting.eraseIdx i).map Job.key).Perm k.fresh := by
      have hperm := (List.getElem_cons_eraseIdx_perm hi).map Job.key
      rw [hget] at hperm
      exact hperm.trans hk.perm_fresh
    have herase := hwaiting.erase job.key
    rw [List.erase_cons_head] at herase
    rw [hfresh]
    exact herase

theorem byTheBook_attempt {α : Type} {post : LeaseBook → Except BrokerError α → Prop} {p : Work α}
    (h : ByTheBook host post k p) :
    ByTheBook host (fun k' r => ∃ r', r = .ok r' ∧ post k' r') k p.attempt :=
  Safe.attempt h fun _ r hr => ⟨r, rfl, hr⟩

/-- Any use of a worker goes by the book. -/
theorem byTheBook_session (calls : List WorkerCall) :
    ∀ {k : LeaseBook} {held waiting : List Job}, k.Covers held waiting →
      ByTheBook host (fun _ _ => True) k (w.session calls held waiting) := by
  -- On the calls: what is held and what waits is covered by the book before each.
  induction calls with
  | nil => exact fun _ => trivial
  | cons call rest ih =>
      intro k held waiting hk
      cases call with
      | tryClaim id =>
          refine Safe.bind (byTheBook_attempt (byTheBook_tryClaim w id)) ?_ fun _ _ _ => trivial
          rintro k' r ⟨r', hr, h⟩
          cases hr
          exact ih (hk.claimed h)
      | claimNext =>
          refine Safe.bind (byTheBook_attempt (byTheBook_claimNext w)) ?_ fun _ _ _ => trivial
          rintro k' r ⟨r', hr, h⟩
          cases hr
          exact ih (hk.claimed h)
      | renew i =>
          unfold Worker.session
          split
          · rename_i job hjob
            have hheld : job ∈ k.held := hk.mem_held job (List.mem_of_getElem? hjob)
            refine Safe.bind (byTheBook_attempt (byTheBook_renewLease hheld)) ?_ fun _ _ _ => trivial
            rintro k' r ⟨r', hr, h⟩
            exact ih (hk.same h)
          · exact ih hk
      | run i =>
          unfold Worker.session
          split
          · rename_i job hjob
            have hmem : job ∈ waiting := List.mem_of_getElem? hjob
            -- The job that is run is fresh, and is taken off those that wait.
            have hkey : job.key ∈ k.fresh := hk.perm_fresh.subset (List.mem_map_of_mem hmem)
            have hheld : job ∈ k.held := hk.mem_waiting job hmem
            refine Safe.bind (byTheBook_attempt (byTheBook_run w hheld hkey)) ?_ fun _ _ _ => trivial
            rintro k' r ⟨r', hr, hheld', hfresh'⟩
            exact ih (hk.begun hjob hheld' hfresh')
          · exact ih hk
      | tick fuel =>
          refine Safe.bind (byTheBook_attempt (byTheBook_tick w fuel)) ?_ fun _ _ _ => trivial
          rintro k' r ⟨r', hr, hheld, hfresh⟩
          exact ih ⟨fun j hj => hheld j (hk.mem_held j hj), fun j hj => hheld j (hk.mem_waiting j hj),
            hfresh ▸ hk.perm_fresh⟩

end

end Frust.Kernel
