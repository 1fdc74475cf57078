import Frust.Proofs.Kernel.Outbox
import Frust.Proofs.Kernel.Ticks

/-!
# `Frust.Proofs.Kernel.Passes`: retries and passes

A pass of the mail worker goes through the ids that it saw at its start, so it gives no
message to the mailer twice, whatever fails (`once_drain`). So a message that fails again and
again fails in as many passes (`failures_eq`, `nodup_failedPasses`).

A tick of the job worker does the same only where no job of its own is put back.
`retries_spread_over_passes` says both of a run, and `not_retries_spread_over_passes` is a tick
that uses up the attempts of a job.
-/

set_option autoImplicit false

namespace Frust.Kernel

open Frust.Lib Frust.Lib.Prog Frust.Lib.Pool Work

/-! ### A pass over the outbox -/

/-- What a request starts: the delivery of a message. -/
def MailRequest.starts : MailRequest → Option String
  | .deliver row => some row.id
  | .sql _ => none

/-- Each message is in the outbox once. -/
def KeyedOutbox (s : OutboxWorld) (q : MailRequest) (_ : MailAnswer q) : Prop :=
  (s.rows.map (·.1)).Nodup

/-- Gives no message to the mailer that was given to it. -/
def Anew (k : MailBook) (q : MailRequest) : Prop := ∀ id, q.starts = some id → id ∉ k.tried

section

variable {k : MailBook} (w : MailWorker)

theorem once_tryClaimMail (id : String) :
    Safe mailTraffic KeyedOutbox Anew
      (fun k' r => k'.tried = k.tried ∧ ∀ row, r = .ok (some row) → row.id = id) k
      (w.tryClaimMail id) := by
  refine safe_mail_sqlRoot _ (fun _ h => by cases h) (fun e => ⟨rfl, fun _ h => by cases h⟩)
    (fun _ e => ⟨rfl, fun _ h => by cases h⟩) ?_
  intro s rows s' _ _ _ _
  cases rows with
  | nil => exact ⟨rfl, fun _ h => by cases h⟩
  | cons record rest =>
      refine ⟨rfl, fun row h => ?_⟩
      cases h
      rfl

theorem once_sendOne {row : MailRow} (hnew : row.id ∉ k.tried) :
    Safe mailTraffic KeyedOutbox Anew (fun k' _ => k'.tried = row.id :: k.tried) k
      (MailWorker.sendOne row) := by
  refine safe_mail_ask _ (fun id h => ?_) fun s result s' _ _ => ?_
  · cases h
    exact hnew
  · exact safe_mail_trySql _ (fun _ h => by cases h) (fun _ _ => rfl) fun _ _ _ _ _ _ _ => rfl

theorem once_drainIds {ids : List String} (hnodup : ids.Nodup) (hnew : ∀ id ∈ ids, id ∉ k.tried) :
    Safe mailTraffic KeyedOutbox Anew (fun _ _ => True) k (w.drainIds ids) := by
  induction ids generalizing k with
  | nil => trivial
  | cons id rest ih =>
      obtain ⟨hid, hrest⟩ := List.nodup_cons.mp hnodup
      refine Safe.bind (once_tryClaimMail w id) (fun k₁ r h₁ => ?_) fun _ _ _ => trivial
      obtain ⟨htried, hrow⟩ := h₁
      cases r with
      | none => exact ih hrest fun i hi => htried ▸ hnew i (List.mem_cons_of_mem _ hi)
      | some row =>
          have hrow := hrow row rfl
          have hfresh : row.id ∉ k₁.tried := by
            rw [hrow, htried]
            exact hnew id List.mem_cons_self
          refine Safe.bind (once_sendOne hfresh) (fun k₂ _ h₂ => ?_) fun _ _ _ => trivial
          refine Safe.bind (ih hrest fun i hi => ?_) (fun _ _ _ => trivial) fun _ _ _ => trivial
          rw [h₂, hrow, htried, List.mem_cons]
          rintro (rfl | hmem)
          · exact hid hi
          · exact hnew i (List.mem_cons_of_mem _ hi) hmem

theorem once_drain (hk : k.tried = []) :
    Safe mailTraffic KeyedOutbox Anew (fun _ _ => True) k w.drain := by
  refine safe_mail_sqlRoot .queuedIds (fun _ h => by cases h) (fun _ => trivial)
    (fun _ _ => trivial) ?_
  intro s ids s' _ _ hans hkeyed
  -- the ids are those of different rows
  obtain ⟨now, _, _, hlists⟩ := hans
  obtain ⟨sorted, hperm, _, hids⟩ := hlists ids rfl
  have hnodup : (sorted.map (·.1)).Nodup := by
    have hqueued : ((s.rows.queued).map (·.1)).Nodup := hkeyed.sublist (List.filter_sublist.map _)
    exact ((hperm.map (·.1)).nodup_iff).mpr hqueued
  have hsome : ids.Nodup := by
    rw [hids, List.map_take]
    exact hnodup.sublist (List.take_sublist _ _)
  refine once_drainIds w hsome fun id _ => ?_
  show id ∉ k.tried
  rw [hk]
  exact List.not_mem_nil

theorem once_passes : Safe mailTraffic KeyedOutbox Anew (fun _ _ => True) {} (w.passes 1) := by
  have hdrain : Safe mailTraffic KeyedOutbox Anew (fun _ _ => True) {} w.drain.attempt :=
    Safe.attempt (once_drain w rfl) fun _ _ _ => trivial
  exact Safe.bind hdrain (fun _ _ _ => trivial) fun _ _ _ => trivial

end

section

variable {ι : Type} [DecidableEq ι] {p p' : MailPool ι} {id : String}
  {ts : List (Turn MailRequest MailAnswer ι)}

/-- The passes whose delivery of a message failed. -/
def failedPasses (id : String) (ts : List (Turn MailRequest MailAnswer ι)) : List ι :=
  ts.filterMap fun t => match t with
    | ⟨i, .deliver row, .error _⟩ => if row.id = id then some i else none
    | _ => none

/-- Passes that have not begun. -/
structure Drains (w : ι → MailWorker) (p : MailPool ι) : Prop where
  begins : ∀ i, p.prog i = (w i).passes 1
  empty : ∀ i, p.known i = {}
  ids : (p.shared.rows.map (·.1)).Nodup

/-- A pass starts each message at most once. -/
theorem nodup_started_mail {w : ι → MailWorker} (hdrains : Drains w p)
    (h : Run (Step mailTraffic) p ts p') (i : ι) : (started MailRequest.starts i ts).Nodup := by
  -- every step is on a table with each message once, by a program that starts each anew
  have hsteps := Run.Steps.of_invariant
    (q := fun a t _ => ∀ x, t.request.starts = some x → x ∉ (a.known t.thread).tried)
    (I := fun a => (a.shared.rows.map (·.1)).Nodup ∧
      ∀ i, Safe mailTraffic KeyedOutbox Anew (fun _ _ => True) (a.known i) (a.prog i))
    (Run.steps h) ⟨hdrains.ids, fun i => ?_⟩ ?_
  · refine nodup_started MailBook.tried (fun s k q r => ?_) (fun _ _ _ hcond hi => hi ▸ hcond) hsteps.1 (by rw [hdrains.empty i])
    cases q with
    | deliver row => rfl
    | sql stmt =>
        cases stmt with
        | queuedIds => rfl
        | update rid sets ifQueued =>
            cases ifQueued with
            | false => rfl
            | true =>
                cases r with
                | error e => rfl
                | ok rows => cases rows <;> rfl
  · rw [hdrains.begins i, hdrains.empty i]
    exact once_passes (w i)
  · rintro a t b ⟨hkeyed, hsafe⟩ hab _
    refine ⟨Safe.asks hab (hsafe t.thread), ?_, fun j => Safe.step hab hkeyed (hsafe j)⟩
    have hans := hab.answers
    obtain ⟨i, q, r⟩ := t
    cases q with
    | deliver row =>
        have hs : b.shared = { a.shared with sends := (row.id, r) :: a.shared.sends } := hans
        rw [hs]
        exact hkeyed
    | sql stmt => exact mail_ids_of_answers hkeyed hans

theorem failures_eq (h : Run (Step mailTraffic) p ts p') :
    p'.shared.failures id = p.shared.failures id + (failedPasses id ts).length := by
  -- On the run: only a delivery that fails adds to both sides.
  induction h with
  | nil => rfl
  | @snoc ts a b t _ hstep ih =>
      have hans := hstep.answers
      have hsnoc : failedPasses id (ts ++ [t]) = failedPasses id ts ++ failedPasses id [t] :=
        List.filterMap_append
      rw [hsnoc, List.length_append]
      obtain ⟨i, q, r⟩ := t
      cases q with
      | sql stmt =>
          have hsends := (mail_sql_cases hans).1
          -- A statement delivers nothing.
          rw [failures_mono hsends, ih]
          rfl
      | deliver row =>
          have hs : b.shared = { a.shared with sends := (row.id, r) :: a.shared.sends } := hans
          have hcount : b.shared.failures id
              = a.shared.failures id + (if row.id = id ∧ ¬Except.isOk r then 1 else 0) := by
            rw [hs]
            unfold OutboxWorld.failures
            by_cases hid : row.id = id <;> cases hr : Except.isOk r <;> simp [hid, hr]
          rw [hcount, ih, Nat.add_assoc]
          refine congrArg _ (congrArg _ ?_)
          cases r with
          | ok receipt =>
              have hok : Except.isOk (.ok receipt : Except Failure String) = true := rfl
              rw [if_neg (by rw [hok]; simp)]
              rfl
          | error failure =>
              by_cases hid : row.id = id <;> simp [failedPasses, hid, Except.isOk, Except.toBool]

omit [DecidableEq ι] in
theorem mem_started_of_failed [DecidableEq ι] {i : ι} (h : i ∈ failedPasses id ts) :
    id ∈ started MailRequest.starts i ts := by
  obtain ⟨⟨j, q, r⟩, hmem, hturn⟩ := List.mem_filterMap.mp h
  cases q with
  | sql stmt => cases hturn
  | deliver row =>
      cases r with
      | ok receipt => cases hturn
      | error failure =>
          simp only [Option.ite_none_right_eq_some, Option.some.injEq] at hturn
          obtain ⟨rfl, rfl⟩ := hturn
          exact List.mem_filterMap.mpr ⟨_, hmem, if_pos rfl⟩

/-- Passes that start a message once fail on it once. -/
theorem nodup_failedPasses (h : ∀ i, (started MailRequest.starts i ts).Nodup) :
    (failedPasses id ts).Nodup := by
  induction ts with
  | nil => exact List.nodup_nil
  | cons t rest ih =>
      have hcons : ∀ i, started MailRequest.starts i (t :: rest)
          = (if t.thread = i then t.request.starts else none).toList
            ++ started MailRequest.starts i rest := by
        intro i
        unfold started
        rw [List.filterMap_cons]
        cases hx : (if t.thread = i then t.request.starts else none) <;> rfl
      have hrest : (failedPasses id rest).Nodup := ih fun i => by
        have := h i
        rw [hcons i] at this
        exact (List.nodup_append.mp this).2.1
      obtain ⟨i, q, r⟩ := t
      cases q with
      | sql stmt => exact hrest
      | deliver row =>
          cases r with
          | ok receipt => exact hrest
          | error failure =>
              by_cases hid : row.id = id
              · have heq : failedPasses id (⟨i, .deliver row, .error failure⟩ :: rest)
                    = i :: failedPasses id rest := by
                  simp [failedPasses, hid]
                rw [heq, List.nodup_cons]
                refine ⟨fun hmem => ?_, hrest⟩
                -- it would have started the message twice
                have htwice := h i
                rw [hcons i, if_pos rfl] at htwice
                have hdisjoint := (List.nodup_append.mp htwice).2.2
                exact hdisjoint row.id (by simp [MailRequest.starts]) id
                  (mem_started_of_failed hmem) hid
              · have heq : failedPasses id (⟨i, .deliver row, .error failure⟩ :: rest)
                    = failedPasses id rest := by
                  simp [failedPasses, hid]
                rw [heq]
                exact hrest

/-- Of a message that was not tried, what its row says of its attempts is of different passes. -/
theorem attempts_of_passes {w : ι → MailWorker} (hdrains : Drains w p) {row₀ : OutboxRow}
    (hfound : p.shared.rows.lookup id = some row₀) (hqueued : row₀.status = .queued)
    (hattempts : row₀.attempts = 0) (hunsent : ∀ result, (id, result) ∉ p.shared.sends)
    (h : Run (Step mailTraffic) p ts p') :
    ∃ row, p'.shared.rows.lookup id = some row ∧ (failedPasses id ts).Nodup ∧
      (row.status = .queued → row.attempts ≤ (failedPasses id ts).length) ∧
      (row.status = .dead → (∃ reason, (id, .error (.permanent reason)) ∈ p'.shared.sends) ∨
        maxMailAttempts ≤ (failedPasses id ts).length) := by
  have hposted : Posted w (fun _ => 1) id p :=
    ⟨hdrains.begins, hdrains.empty, hdrains.ids, row₀, hfound, hqueued, hattempts⟩
  obtain ⟨_, hp₀⟩ := hposted.inHand
  obtain ⟨⟨row, hp⟩, _⟩ := hp₀.outgoing.run hp₀.byTheBook (run_moves h)
  have hnone : p.shared.failures id = 0 := by
    unfold OutboxWorld.failures
    rw [List.length_eq_zero_iff, List.filter_eq_nil_iff]
    rintro ⟨id', result⟩ hmem heq
    rw [Bool.and_eq_true, decide_eq_true_eq] at heq
    exact hunsent result (heq.1 ▸ hmem)
  have hcount : p'.shared.failures id = (failedPasses id ts).length := by
    rw [failures_eq h, hnone, Nat.zero_add]
  refine ⟨row, hp.found, nodup_failedPasses (nodup_started_mail hdrains h), fun hs => ?_, fun hs => ?_⟩
  · rw [← hcount]
    exact hp.honest.counted (Or.inl hs)
  · rw [← hcount]
    exact hp.honest.dead hs

end

/-! ### Both loops -/

/-- Any number of passes over the outbox, in any order and whatever the mailer says: each gives a
message to the mailer at most once, and a message dies of a permanent failure or of failures in
`MAX_ATTEMPTS` passes. And any number of ticks: one that closes each job that it ran, by a write
that finds the job, runs each job at most once, and where all ticks do, a job dies after claims
of `MAX_JOB_ATTEMPTS` ticks. -/
theorem retries_spread_over_passes {ι : Type} [DecidableEq ι] :
    (∀ (w : ι → MailWorker) (p p' : MailPool ι) ts, Drains w p → Run (Step mailTraffic) p ts p' →
      (∀ i, (started MailRequest.starts i ts).Nodup) ∧
      ∀ id row₀, p.shared.rows.lookup id = some row₀ → row₀.status = .queued → row₀.attempts = 0 →
        (∀ result, (id, result) ∉ p.shared.sends) →
        ∃ row, p'.shared.rows.lookup id = some row ∧ (failedPasses id ts).Nodup ∧
          (row.status = .queued → row.attempts ≤ (failedPasses id ts).length) ∧
          (row.status = .dead → (∃ reason, (id, .error (.permanent reason)) ∈ p'.shared.sends) ∨
            maxMailAttempts ≤ (failedPasses id ts).length)) ∧
    ∀ (host : JobHost) (w : ι → Worker) (fuel : ι → Nat) (p p' : PassPool ι) ts, Begins w fuel p →
      (∀ i, Run.Steps (Step (passTraffic host)) p (fun _ t _ => t.thread = i → Settles t) ts p' →
        (started JobRequest.starts i ts).Nodup) ∧
      (Run.Steps (Step (passTraffic host)) p (fun _ t _ => Settles t) ts p' →
        ∀ id row₀, p.shared.jobs.lookup id = some row₀ → row₀.status = .queued → row₀.tries = 0 →
          ∃ row, p'.shared.jobs.lookup id = some row ∧ ∃ passes : List ι, passes.Nodup ∧
            (∀ i ∈ passes, id ∈ (p'.known i).claimed) ∧ row.tries ≤ passes.length ∧
            (row.status = .dead → maxJobAttempts ≤ passes.length)) := by
  constructor
  · intro w p p' ts hdrains h
    refine ⟨nodup_started_mail hdrains h, fun id row₀ hfound hqueued hattempts hunsent => ?_⟩
    exact attempts_of_passes hdrains hfound hqueued hattempts hunsent h
  · intro host w fuel p p' ts hbegins
    refine ⟨fun i h => nodup_started_tick hbegins h, fun h id row₀ hfound hqueued htries => ?_⟩
    exact tries_of_ticks hbegins hfound hqueued htries h

/-! ### A tick that runs a job again -/

/-- A job that creates a document. -/
def createJob : JobRow :=
  { kind := .text "create_doc"
    requestedBy := .text "ann"
    tenant := .text "default"
    payload := .object [("doctype", .text "Note"), ("doc", .object [("title", .text "x")])] }

/-- A tick for every number, and one job. -/
def tickStart : PassPool Nat where
  shared := ⟨0, [("job:1", createJob)], [], 0, []⟩
  prog _ := Worker.tick ⟨"resident-0", "default", true⟩ 10
  known _ := {}

theorem begins_tickStart :
    Begins (fun _ : Nat => ⟨"resident-0", "default", true⟩) (fun _ => 10) tickStart where
  begins _ := rfl
  empty _ := rfl
  ids := List.nodup_singleton _

/-- Ann may create documents, and the database answers each write so. -/
def tickServe (written : Except BrokerError Json) :=
  (JobHost.plain fun _ => 10).serve (fun _ => some ⟨"ann", "secret", "Clerk"⟩) fun _ _ _ => written

/-- What one tick does in so many steps. -/
def tickTurns (written : Except BrokerError Json) (steps : Nat) : List (JobTurn Nat) :=
  (play (passTraffic (.plain fun _ => 10)) (tickServe written) tickStart
    (List.replicate steps 0)).map (·.2.1)

theorem retries_spread_over_passes_once :
    (started MailRequest.starts 0 ((play mailTraffic (OutboxWorld.serve accepted) mailStart
      [0, 0, 0, 0]).map (·.2.1))).Nodup ∧
    (started JobRequest.starts 0 (tickTurns (.ok .null) 12)).Nodup := by
  have hdrains : Drains anyWorker mailStart :=
    ⟨fun _ => rfl, fun _ => rfl, List.nodup_singleton _⟩
  have hmail : Run (Step mailTraffic) mailStart _ _ :=
    run_play (answers_mail_serve accepted) [0, 0, 0, 0] mailStart
  have htick : Run.Steps (Step (passTraffic (.plain fun _ => 10))) tickStart
      (fun _ t _ => t.thread = 0 → Settles t) (tickTurns (.ok .null) 12) _ :=
    steps_play (answers_serve _ _ _) _ tickStart (by decide +kernel)
  exact ⟨(retries_spread_over_passes.1 _ _ _ _ hdrains hmail).1 0,
    (retries_spread_over_passes.2 _ _ _ _ _ _ begins_tickStart).1 0 htick⟩

/-- A tick runs a job whose write fails for the moment until its attempts are used up. -/
theorem not_retries_spread_over_passes :
    ¬∀ (host : JobHost) (w : Nat → Worker) (fuel : Nat → Nat) (p p' : PassPool Nat) ts,
      Begins w fuel p → Run (Step (passTraffic host)) p ts p' →
        ∀ i, (started JobRequest.starts i ts).Nodup := by
  intro h
  have hrun : Run (Step (passTraffic (.plain fun _ => 10))) tickStart
      (tickTurns (.error (.db "connection lost")) 50) _ :=
    run_play (answers_serve _ _ _) _ tickStart
  have hstarted : started JobRequest.starts 0 (tickTurns (.error (.db "connection lost")) 50)
      = List.replicate 5 "job:1" := by
    decide +kernel
  have hnodup := h _ _ _ _ _ _ begins_tickStart hrun 0
  rw [hstarted] at hnodup
  exact absurd hnodup (by decide)

end Frust.Kernel
