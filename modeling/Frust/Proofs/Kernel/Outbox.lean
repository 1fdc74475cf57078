import Frust.Proofs.Kernel.MailWorker

/-!
# `Frust.Proofs.Kernel.Outbox`: mail under claims

Any number of mail workers use one outbox, and each may stop for good at any point.
`Outgoing` is the invariant of one message that was queued: it is in the hand of one worker
at most, and then it is `sending`; and what its row says of deliveries took place.

A message that is `sending` and in the hand of no worker that goes on stays so for ever
(`stranded_forever`): the claim takes queued messages only. `outbox_not_stranded` says when
this does not come about. `outbox_delivers_once` says how often the mailer is given a message.
-/

set_option autoImplicit false

namespace Frust.Kernel

open Frust.Lib Frust.Lib.Pool

/-! ### The invariant -/

/-- A pool of mail workers. -/
abbrev MailPool (ι : Type) := Pool BrokerError MailRequest MailAnswer Unit OutboxWorld MailBook ι

/-- A step of one of them, or its end. -/
abbrev MailEvent (ι : Type) := Pool.Event MailRequest MailAnswer ι

/-- How often the mailer failed to deliver a message. -/
def OutboxWorld.failures (w : OutboxWorld) (id : String) : Nat :=
  (w.sends.filter fun e => e.1 = id && !e.2.isOk).length

/-- What a row says of its deliveries took place. -/
structure OutboxRow.Honest (row : OutboxRow) (w : OutboxWorld) (id : String) : Prop where
  counted : row.status = .queued ∨ row.status = .sending → row.attempts ≤ w.failures id
  sent : row.status = .sent → ∃ receipt, (id, .ok receipt) ∈ w.sends
  dead : row.status = .dead → (∃ reason, (id, .error (.permanent reason)) ∈ w.sends) ∨
    maxMailAttempts ≤ w.failures id

/-- What a worker's book says of a message. -/
structure MailBook.On (k : MailBook) (w : OutboxWorld) (id : String) (row : OutboxRow) : Prop where
  sending : ∀ mail, k.holding = some mail → mail.id = id → row.status = .sending
  counted : ∀ mail, k.holding = some mail → mail.id = id → mail.attempts ≤ w.failures id
  told : ∀ mail result, k.holding = some mail → mail.id = id → k.result = some result →
    (id, result) ∈ w.sends ∧ ∀ failure, result = .error failure → mail.attempts + 1 ≤ w.failures id

section

variable {ι : Type} [DecidableEq ι]

/-- What every event keeps, of one message. -/
structure Outgoing (id : String) (p : MailPool ι) (row : OutboxRow) : Prop where
  ids : (p.shared.rows.map (·.1)).Nodup
  found : p.shared.rows.lookup id = some row
  honest : row.Honest p.shared id
  on : ∀ i, (p.known i).On p.shared id row
  alone : ∀ i j, (p.known i).Holds id → (p.known j).Holds id → i = j

/-- All workers go by the book. -/
def MailPool.ByTheBook (p : MailPool ι) : Prop := ∀ i, Mails (fun _ _ => True) (p.known i) (p.prog i)

theorem failures_mono {w w' : OutboxWorld} (h : w'.sends = w.sends) (id : String) :
    w'.failures id = w.failures id := by
  unfold OutboxWorld.failures
  rw [h]

theorem OutboxRow.Honest.sends {row : OutboxRow} {w w' : OutboxWorld} {id : String}
    (h : row.Honest w id) (hsends : w'.sends = w.sends) : row.Honest w' id := by
  refine ⟨fun hs => ?_, fun hs => ?_, fun hs => ?_⟩
  · rw [failures_mono hsends]
    exact h.counted hs
  · rw [hsends]
    exact h.sent hs
  · rw [hsends, failures_mono hsends]
    exact h.dead hs

theorem MailBook.On.sends {k : MailBook} {w w' : OutboxWorld} {id : String} {row row' : OutboxRow}
    (h : k.On w id row) (hsends : w'.sends = w.sends)
    (hrow : k.Holds id → row'.status = .sending) : k.On w' id row' := by
  refine ⟨fun mail hm hid => hrow ⟨mail, hm, hid⟩, fun mail hm hid => ?_, fun mail result hm hid hr => ?_⟩
  · rw [failures_mono hsends]
    exact h.counted mail hm hid
  · rw [hsends, failures_mono hsends]
    exact h.told mail result hm hid hr

theorem not_holds_of_free {k : MailBook} (hk : k.holding = none) (id : String) : ¬k.Holds id := by
  rintro ⟨mail, hm, _⟩
  rw [hk] at hm
  cases hm

theorem MailBook.On.of_not_holds {k : MailBook} {id : String} (hk : ¬k.Holds id) (w : OutboxWorld)
    (row : OutboxRow) : k.On w id row where
  sending mail hm hid := absurd ⟨mail, hm, hid⟩ hk
  counted mail hm hid := absurd ⟨mail, hm, hid⟩ hk
  told mail _ hm hid _ := absurd ⟨mail, hm, hid⟩ hk

variable {id : String} {p p' : MailPool ι} {row : OutboxRow}

omit [DecidableEq ι] in
/-- An event that leaves the message alone, and of which no worker has it in hand that did not
have it before. -/
theorem Outgoing.quiet (hp : Outgoing id p row) (hids : (p'.shared.rows.map (·.1)).Nodup)
    (hfound : p'.shared.rows.lookup id = some row) (hsends : p'.shared.sends = p.shared.sends)
    (hknown : ∀ i, p'.known i = p.known i ∨ ¬(p'.known i).Holds id) : Outgoing id p' row := by
  have hholds : ∀ i, (p'.known i).Holds id → (p.known i).Holds id := by
    intro i h
    rcases hknown i with hk | hk
    · exact hk ▸ h
    · exact absurd h hk
  refine ⟨hids, hfound, hp.honest.sends hsends, fun i => ?_, fun i j hi hj =>
    hp.alone i j (hholds i hi) (hholds j hj)⟩
  rcases hknown i with hk | hk
  · rw [hk]
    refine (hp.on i).sends hsends ?_
    rintro ⟨mail, hm, hid⟩
    exact (hp.on i).sending mail hm hid
  · exact .of_not_holds hk _ _

/-- A worker is told what became of a delivery. -/
theorem Outgoing.deliver (hp : Outgoing id p row) {i : ι} {mail : MailRow}
    {r : Except Failure String} (h : Step mailTraffic p ⟨i, .deliver mail, r⟩ p')
    (hholding : (p.known i).holding = some mail) (hresult : (p.known i).result = none) :
    Outgoing id p' row := by
  have hs : p'.shared = { p.shared with sends := (mail.id, r) :: p.shared.sends } := h.answers
  have hself : p'.known i
      = { p.known i with result := some r, tried := mail.id :: (p.known i).tried } := h.known_self
  have hmono : p.shared.failures id ≤ p'.shared.failures id := by
    rw [hs]
    unfold OutboxWorld.failures
    exact (List.sublist_cons_self _ _).filter _ |>.length_le
  have hmem : ∀ e ∈ p.shared.sends, e ∈ p'.shared.sends := by
    rw [hs]
    exact fun e he => List.mem_cons_of_mem _ he
  have hholds : ∀ j, (p'.known j).holding = (p.known j).holding := by
    intro j
    by_cases hj : j = i
    · subst hj
      rw [hself]
    · rw [h.known_ne hj]
  refine ⟨?_, ?_, ⟨fun hst => ?_, fun hst => ?_, fun hst => ?_⟩, fun j => ?_, fun j l hj hl => ?_⟩
  · rw [hs]
    exact hp.ids
  · rw [hs]
    exact hp.found
  · have := hp.honest.counted hst
    omega
  · obtain ⟨receipt, hr⟩ := hp.honest.sent hst
    exact ⟨receipt, hmem _ hr⟩
  · rcases hp.honest.dead hst with ⟨reason, hr⟩ | hr
    · exact Or.inl ⟨reason, hmem _ hr⟩
    · exact Or.inr (by omega)
  · refine ⟨fun m hm hid => ?_, fun m hm hid => ?_, fun m result hm hid hres => ?_⟩
    · exact (hp.on j).sending m (hholds j ▸ hm) hid
    · have := (hp.on j).counted m (hholds j ▸ hm) hid
      omega
    · rw [hholds j] at hm
      by_cases hj : j = i
      · subst hj
        rw [hself] at hres
        cases hres
        rw [hholding] at hm
        cases hm
        refine ⟨by rw [hs, hid]; exact List.mem_cons_self, fun failure hf => ?_⟩
        -- the failure is one more
        have hcount := (hp.on j).counted mail hholding hid
        have hmore : p'.shared.failures id = p.shared.failures id + 1 := by
          rw [hs]
          unfold OutboxWorld.failures
          have hhead : (decide (mail.id = id) && !Except.isOk r) = true := by
            rw [hf, decide_eq_true hid]
            rfl
          rw [List.filter_cons, if_pos hhead, List.length_cons]
        omega
      · rw [h.known_ne hj] at hres
        obtain ⟨hsend, hfail⟩ := (hp.on j).told m result hm hid hres
        refine ⟨hmem _ hsend, fun failure hf => ?_⟩
        have := hfail failure hf
        omega
  · obtain ⟨m, hm, hid⟩ := hj
    obtain ⟨m', hm', hid'⟩ := hl
    exact hp.alone j l ⟨m, hholds j ▸ hm, hid⟩ ⟨m', hholds l ▸ hm', hid'⟩

/-- The record ids after a statement. -/
theorem mail_ids_of_answers {s s' : OutboxWorld} (hids : (s.rows.map (·.1)).Nodup)
    {stmt : MailStatement} {r : Except BrokerError stmt.Rows} (h : s.Answers (.sql stmt) r s') :
    (s'.rows.map (·.1)).Nodup := by
  obtain ⟨_, hrows | ⟨_, _, _, _, hrows⟩⟩ := mail_sql_cases h
  · exact hrows ▸ hids
  · rw [hrows, OutboxTable.ids_update]
    exact hids

/-- A claim. If it moves the message, then the message was queued, and is in the hand of the
worker unless the claim failed. -/
theorem Outgoing.claim (hp : Outgoing id p row) {i : ι} {rid workerId : String}
    {r : Except BrokerError (List OutboxRecord)}
    (h : Step mailTraffic p ⟨i, .sql (claimMailSql rid workerId), r⟩ p')
    (hfree : (p.known i).holding = none) :
    ∃ row', Outgoing id p' row' ∧
      ((row' = row ∧ ¬(p'.known i).Holds id) ∨
        row.status = .queued ∧ ((p'.known i).Holds id ∨ ∃ e, r = .error e)) := by
  have hself : p'.known i = (p.known i).claim rid r := h.known_self
  have hids := mail_ids_of_answers hp.ids h.answers
  obtain ⟨hsends, hrows⟩ := mail_sql_cases h.answers
  have hclaimed := claimed_mail hp.ids h.answers (k := p.known i)
  rw [← hself] at hclaimed
  by_cases hcase : rid = id ∧ row.status = .queued ∧ p'.shared.rows
      = p.shared.rows.update p'.shared.now rid
          [.status .sending, .claimedBy (some workerId), .claimedNow] true
  · obtain ⟨rfl, hqueued, hupdate⟩ := hcase
    -- nobody had the message in hand
    have hnobody : ∀ j, ¬(p.known j).Holds rid := by
      rintro j ⟨mail, hm, hid⟩
      exact absurd (hqueued.symm.trans ((hp.on j).sending mail hm hid)) (by simp)
    have hothers : ∀ j, j ≠ i → ¬(p'.known j).Holds rid := fun j hj => by
      rw [h.known_ne hj]
      exact hnobody j
    have hfound : p'.shared.rows.lookup rid = some { row with
        status := .sending, claimedBy := some workerId, claimedAt := some p'.shared.now } := by
      rw [hupdate, OutboxTable.lookup_update, hp.found, Option.map_some,
        if_pos (by simp [OutboxTable.hits, hqueued])]
      rfl
    have hcount : row.attempts ≤ p'.shared.failures rid := by
      rw [failures_mono hsends]
      exact hp.honest.counted (Or.inl hqueued)
    refine ⟨_, ⟨hids, hfound, ⟨fun _ => hcount, by simp, by simp⟩, fun j => ?_, fun j l hj hl => ?_⟩,
      Or.inr ⟨hqueued, ?_⟩⟩
    · by_cases hj : j = i
      · subst hj
        rcases hclaimed with hsame | ⟨mail, row₀, hbook, hid, hfound₀, _, hattempts, _⟩
        · exact .of_not_holds (not_holds_of_free (hsame ▸ hfree) rid) _ _
        · rw [hp.found] at hfound₀
          cases hfound₀
          rw [hbook]
          refine ⟨fun _ _ _ => rfl, fun m hm _ => ?_, fun m result _ _ hres => by cases hres⟩
          cases hm
          rw [hattempts]
          exact hcount
      · rw [h.known_ne hj]
        exact (hp.on j).sends hsends fun hholds => absurd hholds (hnobody j)
    · by_cases hj' : j = i
      · by_cases hl' : l = i
        · exact hj'.trans hl'.symm
        · exact absurd hl (hothers l hl')
      · exact absurd hj (hothers j hj')
    · cases r with
      | error e => exact Or.inr ⟨e, rfl⟩
      | ok rows => exact Or.inl (hself ▸ claimed_of_queued h.answers hp.found hqueued)
  · -- the message stays as it is, and the worker has another one in hand or none
    have hmiss : p'.shared.rows.lookup id = some row := by
      rcases hrows with hsame | ⟨rid', sets, ifQueued, hstmt, hupdate⟩
      · rw [hsame]
        exact hp.found
      · unfold claimMailSql at hstmt
        injection hstmt with hrid hsets hif
        subst hrid hsets hif
        have hhits : ¬OutboxTable.hits rid true (id, row) = true := by
          simp only [OutboxTable.hits, Bool.not_true, Bool.false_or, Bool.and_eq_true,
            decide_eq_true_eq]
          exact fun hh => hcase ⟨hh.1, hh.2, hupdate⟩
        rw [hupdate, OutboxTable.lookup_update, hp.found, Option.map_some, if_neg hhits]
    have hnot : ¬(p'.known i).Holds id := by
      rintro ⟨m, hm, rfl⟩
      rcases hclaimed with hsame | ⟨mail, row₀, hbook, hid, hfound₀, hqueued, _, hupdate⟩
      · rw [hsame, hfree] at hm
        cases hm
      · rw [hbook] at hm
        cases hm
        rw [← hid, hp.found] at hfound₀
        cases hfound₀
        exact hcase ⟨hid.symm, hqueued, hupdate⟩
    refine ⟨row, hp.quiet hids hmiss hsends fun j => ?_, Or.inl ⟨rfl, hnot⟩⟩
    by_cases hj : j = i
    · subst hj
      exact Or.inr hnot
    · exact Or.inl (h.known_ne hj)

/-- A row after the write of an outcome. -/
theorem outcome_honest (row : OutboxRow) {w : OutboxWorld} (now : Time) {attempts : Int}
    {result : Except Failure String} (hsend : (id, result) ∈ w.sends)
    (hcount : ∀ failure, result = .error failure → attempts + 1 ≤ w.failures id) :
    ((outcomeSets attempts result).foldl (MailSet.apply now) row).Honest w id ∧
      ((outcomeSets attempts result).foldl (MailSet.apply now) row).status ≠ .sending := by
  cases result with
  | ok receipt => exact ⟨⟨by simp [outcomeSets, markSent, MailSet.apply], fun _ => ⟨receipt, hsend⟩,
      by simp [outcomeSets, markSent, MailSet.apply]⟩, by simp [outcomeSets, markSent, MailSet.apply]⟩
  | error failure =>
      have hfailed := hcount failure rfl
      have hsets : outcomeSets attempts (.error failure)
          = if failure.isPermanent || maxMailAttempts ≤ attempts + 1 then
              markDead (attempts + 1) failure.reason
            else markRetry (attempts + 1) failure.reason := rfl
      rw [hsets]
      by_cases hdead : (failure.isPermanent || decide (maxMailAttempts ≤ attempts + 1)) = true
      · rw [if_pos hdead]
        refine ⟨⟨by simp [markDead, MailSet.apply], by simp [markDead, MailSet.apply], fun _ => ?_⟩,
          by simp [markDead, MailSet.apply]⟩
        rw [Bool.or_eq_true, decide_eq_true_eq] at hdead
        rcases hdead with hpermanent | hspent
        · cases failure with
          | transient reason => cases hpermanent
          | permanent reason => exact Or.inl ⟨reason, hsend⟩
        · exact Or.inr (by omega)
      · rw [if_neg hdead]
        exact ⟨⟨fun _ => hfailed, by simp [markRetry, MailSet.apply],
          by simp [markRetry, MailSet.apply]⟩, by simp [markRetry, MailSet.apply]⟩

/-- The write of an outcome. If it moves the message, then the worker had it in hand. -/
theorem Outgoing.mark (hp : Outgoing id p row) {i : ι} {mail : MailRow}
    {result : Except Failure String} {r : Except BrokerError (List OutboxRecord)}
    (h : Step mailTraffic p ⟨i, .sql (markSql mail result), r⟩ p')
    (hholding : (p.known i).holding = some mail) (hresult : (p.known i).result = some result) :
    ∃ row', Outgoing id p' row' ∧
      ((row' = row ∧ (mail.id = id → p'.shared.rows = p.shared.rows)) ∨
        (mail.id = id ∧ row'.status ≠ .sending)) := by
  have hself : p'.known i = { p.known i with holding := none, result := none } := h.known_self
  have hids := mail_ids_of_answers hp.ids h.answers
  have hfree : ∀ j, p'.known j = p.known j ∨ ¬(p'.known j).Holds id := by
    intro j
    by_cases hj : j = i
    · subst hj
      exact Or.inr (not_holds_of_free (hself ▸ rfl) id)
    · exact Or.inl (h.known_ne hj)
  obtain ⟨hsends, hrows⟩ := mail_sql_cases h.answers
  rcases hrows with hsame | ⟨rid, sets, ifQueued, hstmt, hupdate⟩
  · exact ⟨row, hp.quiet hids (hsame ▸ hp.found) hsends hfree, Or.inl ⟨rfl, fun _ => hsame⟩⟩
  · unfold markSql at hstmt
    injection hstmt with hrid hsets hif
    subst hrid hsets hif
    by_cases hid : mail.id = id
    · -- nobody else has it in hand
      obtain ⟨hsend, hcount⟩ := (hp.on i).told mail result hholding hid hresult
      have hnobody : ∀ j, ¬(p'.known j).Holds id := by
        intro j hj
        by_cases hji : j = i
        · rw [hji, hself] at hj
          exact not_holds_of_free rfl id hj
        · rw [h.known_ne hji] at hj
          exact hji (hp.alone j i hj ⟨mail, hholding, hid⟩)
      have hhonest := outcome_honest row p'.shared.now (hsends ▸ hsend)
        (fun failure hf => failures_mono hsends id ▸ hcount failure hf)
      refine ⟨_, ⟨hids, ?_, hhonest.1, fun j => .of_not_holds (hnobody j) _ _,
        fun j l hj => absurd hj (hnobody j)⟩, Or.inr ⟨hid, hhonest.2⟩⟩
      rw [hupdate, OutboxTable.lookup_update, hp.found, Option.map_some,
        if_pos (by simp [OutboxTable.hits, hid])]
    · refine ⟨row, hp.quiet hids ?_ hsends hfree, Or.inl ⟨rfl, fun heq => absurd heq hid⟩⟩
      rw [hupdate, OutboxTable.lookup_update, hp.found, Option.map_some,
        if_neg (by simp [OutboxTable.hits, hid])]

/-! ### Events -/

/-- What keeps messages from being stranded: a worker stops with nothing in hand, a claim that
fails had no effect, and the write of an outcome takes effect. -/
def Attentive (p : MailPool ι) : MailEvent ι → MailPool ι → Prop
  | .crash i, _ => (p.known i).holding = none
  | .turn ⟨_, .sql (.update _ _ true), r⟩, p' => ∀ e, r = .error e → p'.shared.rows = p.shared.rows
  | .turn ⟨_, .sql (.update rid sets false), _⟩, p' =>
      p'.shared.rows = p.shared.rows.update p'.shared.now rid sets false
  | .turn _, _ => True

/-- A message that is `sending` is in somebody's hand. -/
def Attended (id : String) (p : MailPool ι) (row : OutboxRow) : Prop :=
  row.status = .sending → ∃ i, (p.known i).Holds id

variable {e : MailEvent ι}

/-- What an event does to a message. It is moved out of the queue, or by one who has it in
hand and goes on; it is taken in hand from the queue; and it stays in somebody's hand if the
event is attended to. -/
structure Handled (id : String) (p : MailPool ι) (e : MailEvent ι) (p' : MailPool ι)
    (row row' : OutboxRow) : Prop where
  moved : row' = row ∨ row.status = .queued ∨ ∃ i, (p.known i).Holds id ∧ ∀ r, p.prog i ≠ .done r
  taken : ∀ i, (p'.known i).Holds id → (p.known i).Holds id ∨ row.status = .queued
  attended : Attentive p e p' → Attended id p row → Attended id p' row'

omit [DecidableEq ι] in
/-- An event without effect on the message or on whose hand it is in. -/
theorem Handled.of_same [DecidableEq ι] (hholds : ∀ i, (p'.known i).Holds id ↔ (p.known i).Holds id) :
    Handled id p e p' row row where
  moved := Or.inl rfl
  taken i h := Or.inl ((hholds i).mp h)
  attended _ hatt hsending := (hatt hsending).imp fun i h => (hholds i).mpr h

theorem handled_claim (hp : Outgoing id p row) {i : ι} {rid workerId : String}
    {r : Except BrokerError (List OutboxRecord)}
    (h : Step mailTraffic p ⟨i, .sql (claimMailSql rid workerId), r⟩ p')
    (hfree : (p.known i).holding = none) :
    ∃ row', Outgoing id p' row' ∧
      Handled id p (.turn ⟨i, .sql (claimMailSql rid workerId), r⟩) p' row row' := by
  obtain ⟨row', hp', hrow'⟩ := hp.claim h hfree
  refine ⟨row', hp', ⟨?_, fun j hj => ?_, fun hattentive hatt hsending => ?_⟩⟩
  · rcases hrow' with ⟨heq, _⟩ | ⟨hqueued, _⟩
    · exact Or.inl heq
    · exact Or.inr (Or.inl hqueued)
  · rcases hrow' with ⟨_, hnot⟩ | ⟨hqueued, _⟩
    · have hne : j ≠ i := by
        rintro rfl
        exact hnot hj
      exact Or.inl (h.known_ne hne ▸ hj)
    · exact Or.inr hqueued
  · rcases hrow' with ⟨rfl, _⟩ | ⟨hqueued, hholds | ⟨e, he⟩⟩
    · obtain ⟨j, hj⟩ := hatt hsending
      have hne : j ≠ i := by
        rintro rfl
        exact not_holds_of_free hfree id hj
      exact ⟨j, by rw [h.known_ne hne]; exact hj⟩
    · exact ⟨i, hholds⟩
    · -- a failed claim had no effect
      have hsame : p'.shared.rows = p.shared.rows := hattentive e he
      have hfound := hp'.found
      rw [hsame, hp.found] at hfound
      cases hfound
      exact absurd (hqueued.symm.trans hsending) (by simp)

theorem handled_mark (hp : Outgoing id p row) {i : ι} {mail : MailRow}
    {result : Except Failure String} {r : Except BrokerError (List OutboxRecord)}
    (h : Step mailTraffic p ⟨i, .sql (markSql mail result), r⟩ p')
    (hholding : (p.known i).holding = some mail) (hresult : (p.known i).result = some result) :
    ∃ row', Outgoing id p' row' ∧
      Handled id p (.turn ⟨i, .sql (markSql mail result), r⟩) p' row row' := by
  have hself : p'.known i = { p.known i with holding := none, result := none } := h.known_self
  have hgoes : ∀ res, p.prog i ≠ .done res := by
    obtain ⟨next, hask, _⟩ := h
    intro res hdone
    rw [hdone] at hask
    cases hask
  obtain ⟨row', hp', hrow'⟩ := hp.mark h hholding hresult
  refine ⟨row', hp', ⟨?_, fun j hj => ?_, fun hattentive hatt hsending => ?_⟩⟩
  · rcases hrow' with ⟨heq, _⟩ | ⟨hid, _⟩
    · exact Or.inl heq
    · exact Or.inr (Or.inr ⟨i, ⟨mail, hholding, hid⟩, hgoes⟩)
  · have hne : j ≠ i := by
      rintro rfl
      rw [hself] at hj
      exact not_holds_of_free rfl id hj
    exact Or.inl (h.known_ne hne ▸ hj)
  · rcases hrow' with ⟨rfl, _⟩ | ⟨_, hnot⟩
    · obtain ⟨j, hj⟩ := hatt hsending
      by_cases hji : j = i
      · -- the write of its own outcome took effect
        obtain ⟨m, hm, hid⟩ := hji ▸ hj
        rw [hholding] at hm
        cases hm
        have hupdate : p'.shared.rows = p.shared.rows.update p'.shared.now mail.id
          (outcomeSets mail.attempts result) false := hattentive
        have hfound := hp'.found
        rw [hupdate, OutboxTable.lookup_update, hp.found, Option.map_some,
          if_pos (by simp [OutboxTable.hits, hid])] at hfound
        obtain ⟨hsend, hcount⟩ := (hp.on i).told mail result hholding hid hresult
        have hstatus := (outcome_honest row' p'.shared.now hsend hcount).2
        rw [Option.some.inj hfound] at hstatus
        exact absurd hsending hstatus
      · exact ⟨j, by rw [h.known_ne hji]; exact hj⟩
    · exact absurd hsending hnot

theorem Outgoing.moves (hp : Outgoing id p row) (hbook : p.ByTheBook)
    (h : Moves mailTraffic p e p') : ∃ row', Outgoing id p' row' ∧ Handled id p e p' row row' := by
  cases e with
  | crash i =>
      obtain ⟨hshared, hknown, _⟩ := h
      refine ⟨row, hp.quiet (hshared ▸ hp.ids) (hshared ▸ hp.found) (hshared ▸ rfl) fun j =>
        Or.inl (by rw [hknown]), .of_same fun j => ?_⟩
      rw [hknown]
  | turn t =>
      have hasks := Safe.asks h (hbook t.thread)
      obtain ⟨i, q, r⟩ := t
      -- what it is not about its own book stays
      have hholds : (p'.known i).holding = (p.known i).holding →
          ∀ j, (p'.known j).Holds id ↔ (p.known j).Holds id := by
        intro hsame j
        unfold MailBook.Holds
        by_cases hj : j = i
        · rw [hj, hsame]
        · rw [h.known_ne hj]
      cases q with
      | deliver mail =>
          obtain ⟨hholding, hresult⟩ := hasks
          have hself : p'.known i
      = { p.known i with result := some r, tried := mail.id :: (p.known i).tried } := h.known_self
          exact ⟨row, hp.deliver h hholding hresult, .of_same (hholds (by rw [hself]))⟩
      | sql stmt =>
          have hids := mail_ids_of_answers hp.ids h.answers
          cases stmt with
          | queuedIds =>
              have hself : p'.known i = p.known i := h.known_self
              obtain ⟨hsends, hrows | ⟨_, _, _, hstmt, _⟩⟩ := mail_sql_cases h.answers
              · refine ⟨row, hp.quiet hids (hrows ▸ hp.found) hsends fun j => Or.inl ?_,
                  .of_same (hholds (by rw [hself]))⟩
                by_cases hj : j = i
                · exact hj ▸ hself
                · exact h.known_ne hj
              · cases hstmt
          | update rid sets ifQueued =>
              cases ifQueued with
              | true =>
                  obtain ⟨hfree, workerId, hstmt⟩ := hasks
                  unfold claimMailSql at hstmt
                  injection hstmt with hrid hsets
                  subst hsets
                  exact handled_claim hp h hfree
              | false =>
                  obtain ⟨mail, result, hholding, hresult, hstmt⟩ := hasks
                  unfold markSql at hstmt
                  injection hstmt with hrid hsets
                  subst hrid hsets
                  exact handled_mark hp h hholding hresult

/-! ### Runs -/

theorem MailPool.ByTheBook.moves (hbook : p.ByTheBook) (h : Moves mailTraffic p e p') :
    p'.ByTheBook := by
  intro i
  cases e with
  | turn t => exact Safe.step h trivial (hbook i)
  | crash j => exact Safe.crash h (fun _ => trivial) (hbook i)

theorem Outgoing.run {es : List (MailEvent ι)} (hp : Outgoing id p row) (hbook : p.ByTheBook)
    (h : Run (Moves mailTraffic) p es p') : (∃ row', Outgoing id p' row') ∧ p'.ByTheBook := by
  refine h.invariant (I := fun q => (∃ row', Outgoing id q row') ∧ q.ByTheBook) ⟨⟨row, hp⟩, hbook⟩ ?_
  rintro a e b ⟨⟨row₁, ha⟩, hbook⟩ hab
  obtain ⟨row₂, hb, _⟩ := ha.moves hbook hab
  exact ⟨⟨row₂, hb⟩, hbook.moves hab⟩

/-- The message is in the hand of a worker that goes on, or in nobody's and not `sending`. -/
structure InHand (id : String) (p : MailPool ι) (row : OutboxRow) : Prop where
  outgoing : Outgoing id p row
  attended : Attended id p row
  book : ∀ i, Mails (fun k _ => k.holding = none) (p.known i) (p.prog i)

omit [DecidableEq ι] in
theorem InHand.byTheBook (hp : InHand id p row) : p.ByTheBook := fun i =>
  (hp.book i).mono fun _ _ _ => trivial

theorem InHand.moves (hp : InHand id p row) (h : Moves mailTraffic p e p')
    (hattentive : Attentive p e p') : ∃ row', InHand id p' row' := by
  obtain ⟨row', hp', hhandled⟩ := hp.outgoing.moves hp.byTheBook h
  refine ⟨row', hp', hhandled.attended hattentive hp.attended, fun i => ?_⟩
  cases e with
  | turn t => exact Safe.step h trivial (hp.book i)
  | crash j => exact Safe.crash h (fun _ => hattentive) (hp.book i)

/-- Workers with nothing in hand, and a message that was queued. -/
structure Posted (w : ι → MailWorker) (counts : ι → Nat) (id : String) (p : MailPool ι) : Prop where
  begins : ∀ i, p.prog i = (w i).passes (counts i)
  empty : ∀ i, p.known i = {}
  ids : (p.shared.rows.map (·.1)).Nodup
  queued : ∃ row, p.shared.rows.lookup id = some row ∧ row.status = .queued ∧ row.attempts = 0

omit [DecidableEq ι] in
/-- The invariant holds at the start. -/
theorem Posted.inHand {w : ι → MailWorker} {counts : ι → Nat} (h : Posted w counts id p) :
    ∃ row, InHand id p row := by
  obtain ⟨row, hfound, hqueued, hattempts⟩ := h.queued
  have hnobody : ∀ i, ¬(p.known i).Holds id := fun i => by
    rw [h.empty i]
    exact not_holds_of_free rfl id
  refine ⟨row, ⟨h.ids, hfound, ⟨fun _ => ?_, by simp [hqueued], by simp [hqueued]⟩,
    fun i => .of_not_holds (hnobody i) _ _, fun i j hi => absurd hi (hnobody i)⟩,
    fun hs => absurd (hqueued.symm.trans hs) (by simp), fun i => ?_⟩
  · omega
  · rw [h.begins i, h.empty i]
    exact mails_passes (w i) (counts i) rfl

/-- Nobody who goes on has the message in hand, and it is `sending`. -/
def Stranded (id : String) (p : MailPool ι) (row : OutboxRow) : Prop :=
  row.status = .sending ∧ ∀ i, (p.known i).Holds id → ∃ r, p.prog i = .done r

/-- A message that is stranded stays as it is. -/
theorem stranded_forever {es : List (MailEvent ι)} (hp : Outgoing id p row) (hbook : p.ByTheBook)
    (hstranded : Stranded id p row) (h : Run (Moves mailTraffic) p es p') :
    p'.shared.rows.lookup id = some row ∧ Stranded id p' row := by
  suffices Outgoing id p' row ∧ p'.ByTheBook ∧ Stranded id p' row from ⟨this.1.found, this.2.2⟩
  refine h.invariant (I := fun q => Outgoing id q row ∧ q.ByTheBook ∧ Stranded id q row)
    ⟨hp, hbook, hstranded⟩ ?_
  rintro a e b ⟨ha, hbook, hsending, hdone⟩ hab
  obtain ⟨row', hb, hmoved, htaken, _⟩ := ha.moves hbook hab
  have hnot : ¬row.status = .queued := fun hq => by
    rw [hsending] at hq
    cases hq
  have hrow : row' = row := by
    rcases hmoved with heq | hqueued | ⟨i, hholds, hgoes⟩
    · exact heq
    · exact absurd hqueued hnot
    · obtain ⟨r, hr⟩ := hdone i hholds
      exact absurd hr (hgoes r)
  subst hrow
  refine ⟨hb, hbook.moves hab, hsending, fun i hholds => ?_⟩
  obtain ⟨r, hr⟩ := hdone i ((htaken i hholds).resolve_right hnot)
  exact hab.done hr

/-- Of any message that was queued, whatever any number of mail workers do and wherever each
of them stops: if it is `sent` then the mailer accepted it, and if it is `dead` then it failed
for good, or it failed `MAX_ATTEMPTS` times. And as long as a worker stops with nothing in hand
only, a claim that fails had no effect and the writes of outcomes take effect, a message that
is neither is queued, so that a claim takes it, or in the hand of a worker that goes on. -/
theorem outbox_not_stranded {w : ι → MailWorker} {counts : ι → Nat} (h : Posted w counts id p) :
    (∀ es p', Run (Moves mailTraffic) p es p' → ∃ row, p'.shared.rows.lookup id = some row ∧
      (row.status = .sent → ∃ receipt, (id, .ok receipt) ∈ p'.shared.sends) ∧
      (row.status = .dead → (∃ reason, (id, .error (.permanent reason)) ∈ p'.shared.sends) ∨
        maxMailAttempts ≤ p'.shared.failures id)) ∧
    ∀ es p', Run.Steps (Moves mailTraffic) p Attentive es p' →
      ∃ row, p'.shared.rows.lookup id = some row ∧
        (row.status = .sent ∨ row.status = .dead ∨ OutboxTable.hits id true (id, row) = true ∨
          ∃ i, (p'.known i).Holds id ∧ ∀ r, p'.prog i ≠ .done r) := by
  obtain ⟨row₀, hp₀⟩ := h.inHand
  constructor
  · intro es p' hrun
    obtain ⟨⟨row, hp⟩, _⟩ := hp₀.outgoing.run hp₀.byTheBook hrun
    exact ⟨row, hp.found, hp.honest.sent, hp.honest.dead⟩
  · intro es p' hrun
    -- The message stays in the hand of a worker that goes on, or in nobody's.
    obtain ⟨row, hp⟩ : ∃ row, InHand id p' row :=
      hrun.invariant (I := fun q => ∃ row, InHand id q row) ⟨row₀, hp₀⟩
        fun _ _ _ ⟨_, ha⟩ hab hattentive => ha.moves hab hattentive
    refine ⟨row, hp.outgoing.found, ?_⟩
    cases hs : row.status with
    | sent => exact Or.inl rfl
    | dead => exact Or.inr (Or.inl rfl)
    | queued => exact Or.inr (Or.inr (Or.inl (by simp [OutboxTable.hits, hs])))
    | sending =>
        obtain ⟨i, hholds⟩ := hp.attended hs
        refine Or.inr (Or.inr (Or.inr ⟨i, hholds, fun r hdone => ?_⟩))
        -- a worker that has ended has nothing in hand
        have hbook := hp.book i
        rw [hdone] at hbook
        exact not_holds_of_free hbook id hholds

end

/-! ### A worker that stops -/

/-- Mail workers, as many as there are numbers. -/
def anyWorker (i : Nat) : MailWorker := ⟨"mail-" ++ toString i⟩

/-- One queued message. -/
def mailStart : MailPool Nat where
  shared := ⟨0, [("_frust_mail:1", {})], []⟩
  prog i := (anyWorker i).passes 1
  known _ := {}

theorem posted_mailStart : Posted anyWorker (fun _ => 1) "_frust_mail:1" mailStart where
  begins _ := rfl
  empty _ := rfl
  ids := List.nodup_singleton _
  queued := ⟨_, rfl, rfl, rfl⟩

/-- What `serve` does is one of the things that may happen. -/
theorem answers_mail_serve (deliver : MailRow → Except Failure String) (w : OutboxWorld)
    (q : MailRequest) : w.Answers q (w.serve deliver q).1 (w.serve deliver q).2 := by
  cases q with
  | deliver row => rfl
  | sql stmt =>
      cases stmt with
      | queuedIds =>
          refine ⟨w.now, Nat.le_refl _, rfl, fun ids hids => ?_⟩
          cases hids
          have : Std.Total fun a b : OutboxRecord => a.2.enqueuedAt ≤ b.2.enqueuedAt :=
            ⟨fun a b => Nat.le_total _ _⟩
          have : IsTrans OutboxRecord fun a b => a.2.enqueuedAt ≤ b.2.enqueuedAt :=
            ⟨fun _ _ _ => Nat.le_trans⟩
          exact ⟨_, List.perm_insertionSort _ _, List.pairwise_insertionSort _ _, rfl⟩
      | update rid sets ifQueued => exact ⟨w.now, Nat.le_refl _, Or.inl ⟨rfl, rfl⟩⟩

/-- Every delivery succeeds. -/
def accepted (_ : MailRow) : Except Failure String := .ok "250"

theorem outbox_not_stranded_sent :
    ∃ row, (played mailTraffic (OutboxWorld.serve accepted) mailStart [0, 0, 0, 0]).shared.rows.lookup
      "_frust_mail:1" = some row ∧ (row.status = .sent → ∃ receipt, ("_frust_mail:1", .ok receipt) ∈
        (played mailTraffic (OutboxWorld.serve accepted) mailStart [0, 0, 0, 0]).shared.sends) := by
  have hrun : Run (Moves mailTraffic) mailStart _ _ :=
    run_moves (run_play (answers_mail_serve accepted) [0, 0, 0, 0] mailStart)
  obtain ⟨row, hfound, hsent, _⟩ := (outbox_not_stranded posted_mailStart).1 _ _ hrun
  exact ⟨row, hfound, hsent⟩

/-- The first worker claims the message and stops. -/
def claimedAndGone : MailPool Nat :=
  { played mailTraffic (OutboxWorld.serve accepted) mailStart [0, 0] with
    prog := Function.update (played mailTraffic (OutboxWorld.serve accepted) mailStart [0, 0]).prog 0
      (.done (.error .identityUnresolved)) }

theorem run_claimedAndGone : ∃ es, Run (Moves mailTraffic) mailStart es claimedAndGone := by
  have hrun : Run (Moves mailTraffic) mailStart _ _ :=
    run_moves (run_play (answers_mail_serve accepted) [0, 0] mailStart)
  have hcrash : Moves mailTraffic (played mailTraffic (OutboxWorld.serve accepted) mailStart [0, 0])
      (.crash 0) claimedAndGone := ⟨rfl, rfl, .identityUnresolved, rfl⟩
  exact ⟨_, hrun.snoc hcrash⟩

/-- No later claim ever takes the message. -/
theorem not_outbox_not_stranded :
    ¬∀ (w : Nat → MailWorker) (counts : Nat → Nat) (id : String) (p : MailPool Nat),
      Posted w counts id p → ∀ es p', Run (Moves mailTraffic) p es p' →
        ∀ row, p'.shared.rows.lookup id = some row →
          row.status = .sent ∨ row.status = .dead ∨
            ∃ es' p'' row', Run (Moves mailTraffic) p' es' p'' ∧
              p''.shared.rows.lookup id = some row' ∧ OutboxTable.hits id true (id, row') = true := by
  intro h
  obtain ⟨es, hrun⟩ := run_claimedAndGone
  obtain ⟨row₀, hp₀⟩ := posted_mailStart.inHand
  obtain ⟨⟨row, hp⟩, hbook⟩ := hp₀.outgoing.run hp₀.byTheBook hrun
  have hsending : row.status = .sending := by
    have hlookup : (claimedAndGone.shared.rows.lookup "_frust_mail:1").map OutboxRow.status
        = some .sending := by decide +kernel
    rw [hp.found] at hlookup
    exact Option.some.inj hlookup
  have hholds : (claimedAndGone.known 0).Holds "_frust_mail:1" := ⟨_, rfl, rfl⟩
  -- The only worker that holds the message is gone.
  have hstranded : Stranded "_frust_mail:1" claimedAndGone row := by
    refine ⟨hsending, fun i hi => ?_⟩
    rw [hp.alone i 0 hi hholds]
    exact ⟨_, rfl⟩
  rcases h _ _ _ _ posted_mailStart es _ hrun row hp.found with hs | hs | ⟨es', p'', row', hmore, hfound, hhits⟩
  · rw [hsending] at hs
    cases hs
  · rw [hsending] at hs
    cases hs
  · -- A stranded message stays as it is, and no claim takes a message that is being sent.
    have hsame := (stranded_forever hp hbook hstranded hmore).1
    rw [hfound] at hsame
    cases hsame
    simp [OutboxTable.hits, hsending] at hhits

/-! ### How often a message is delivered -/

/-- What the mailer said of a message, the last delivery first. -/
def OutboxWorld.told (w : OutboxWorld) (id : String) : List (Except Failure String) :=
  (w.sends.filter fun e => e.1 = id).map (·.2)

/-- Deliveries after which one more is made: fewer than `MAX_ATTEMPTS`, that failed for the
moment. -/
structure LeavesOne (attempts : Int) (told : List (Except Failure String)) : Prop where
  transient : ∀ r ∈ told, ∃ reason, r = .error (.transient reason)
  counted : attempts = told.length
  left : attempts < maxMailAttempts

/-- At most `MAX_ATTEMPTS` deliveries, of which all but the last failed for the moment. -/
structure Rationed (told : List (Except Failure String)) : Prop where
  atMost : (told.length : Int) ≤ maxMailAttempts
  last : ∀ r ∈ told.tail, ∃ reason, r = .error (.transient reason)

/-- A row that is not `sending` counts the deliveries and says what came of the last one. -/
structure OutboxRow.Accounts (row : OutboxRow) (told : List (Except Failure String)) : Prop where
  counted : row.status ≠ .sending → row.attempts = told.length
  queued : row.status = .queued → LeavesOne row.attempts told
  sent : row.status = .sent → ∃ receipt earlier, told = .ok receipt :: earlier ∧
    row.receipt = some receipt
  dead : row.status = .dead → ∃ failure earlier, told = .error failure :: earlier ∧
    row.lastError = some failure.reason ∧
    (failure.isPermanent = true ∨ row.attempts = maxMailAttempts)

/-- A worker with the message in hand knows how often it was delivered. -/
def MailBook.Accounts (k : MailBook) (id : String) (row : OutboxRow)
    (told : List (Except Failure String)) : Prop :=
  ∀ mail, k.holding = some mail → mail.id = id → mail.attempts = row.attempts ∧
    (k.result = none → LeavesOne mail.attempts told) ∧
    ∀ r, k.result = some r → ∃ earlier, told = r :: earlier ∧ LeavesOne mail.attempts earlier

theorem LeavesOne.rationed {n : Int} {told : List (Except Failure String)} (h : LeavesOne n told)
    (r : Except Failure String) : Rationed (r :: told) where
  atMost := by
    have hcounted := h.counted
    have hleft := h.left
    rw [List.length_cons]
    omega
  last := h.transient

theorem accounts_of_sending {row : OutboxRow} (h : row.status = .sending)
    (told : List (Except Failure String)) : row.Accounts told := by
  constructor <;> simp [h]

theorem MailBook.Accounts.of_not_holds {k : MailBook} {id : String} (hk : ¬k.Holds id)
    (row : OutboxRow) (told : List (Except Failure String)) : k.Accounts id row told :=
  fun mail hm hid => absurd ⟨mail, hm, hid⟩ hk

/-- What is written after one more delivery accounts for it. -/
theorem accounts_outcome {row : OutboxRow} {earlier : List (Except Failure String)}
    (h : LeavesOne row.attempts earlier) (now : Time) (result : Except Failure String) :
    ((outcomeSets row.attempts result).foldl (MailSet.apply now) row).Accounts
      (result :: earlier) := by
  have hcount : row.attempts + 1 = ((result :: earlier).length : Int) := by
    have hcounted := h.counted
    rw [List.length_cons]
    omega
  cases result with
  | ok receipt =>
      exact ⟨fun _ => hcount, by simp [outcomeSets, markSent, MailSet.apply],
        fun _ => ⟨receipt, earlier, rfl, rfl⟩, by simp [outcomeSets, markSent, MailSet.apply]⟩
  | error failure =>
      show ((if failure.isPermanent || maxMailAttempts ≤ row.attempts + 1 then
          markDead (row.attempts + 1) failure.reason
        else markRetry (row.attempts + 1) failure.reason).foldl (MailSet.apply now) row).Accounts _
      by_cases hdead : (failure.isPermanent || decide (maxMailAttempts ≤ row.attempts + 1)) = true
      · rw [if_pos hdead]
        refine ⟨fun _ => hcount, by simp [markDead, MailSet.apply], by simp [markDead, MailSet.apply],
          fun _ => ⟨failure, earlier, rfl, rfl, ?_⟩⟩
        rw [Bool.or_eq_true, decide_eq_true_eq] at hdead
        refine hdead.imp_right fun hspent => ?_
        have hleft := h.left
        show row.attempts + 1 = maxMailAttempts
        omega
      · rw [if_neg hdead]
        simp only [Bool.or_eq_true, decide_eq_true_eq, not_or] at hdead
        refine ⟨fun _ => hcount, fun _ => ⟨fun r hr => ?_, hcount, ?_⟩,
          by simp [markRetry, MailSet.apply], by simp [markRetry, MailSet.apply]⟩
        · rcases List.mem_cons.mp hr with rfl | hr
          · cases failure with
            | transient reason => exact ⟨reason, rfl⟩
            | permanent reason => exact absurd rfl hdead.1
          · exact h.transient r hr
        · show row.attempts + 1 < maxMailAttempts
          omega

section

variable {ι : Type} [DecidableEq ι]

/-- The deliveries of a message are accounted for, by its row and by whoever has it in hand. -/
structure Accounted (id : String) (p : MailPool ι) (row : OutboxRow) : Prop where
  outgoing : Outgoing id p row
  rationed : Rationed (p.shared.told id)
  told : row.Accounts (p.shared.told id)
  book : ∀ i, (p.known i).Accounts id row (p.shared.told id)

variable {id : String} {p p' : MailPool ι} {row row' : OutboxRow}

omit [DecidableEq ι] in
/-- An event that leaves the message and its deliveries alone. -/
theorem Accounted.quiet (hp : Accounted id p row) (hout : Outgoing id p' row)
    (htold : p'.shared.told id = p.shared.told id)
    (hknown : ∀ i, p'.known i = p.known i ∨ ¬(p'.known i).Holds id) : Accounted id p' row := by
  refine ⟨hout, htold ▸ hp.rationed, htold ▸ hp.told, fun i => ?_⟩
  rcases hknown i with hk | hk
  · rw [hk, htold]
    exact hp.book i
  · exact .of_not_holds hk _ _

/-- A delivery: only whoever has the message in hand makes it, and has not made it yet. -/
theorem Accounted.deliver (hp : Accounted id p row) (hout : Outgoing id p' row) {i : ι}
    {mail : MailRow} {r : Except Failure String}
    (h : Step mailTraffic p ⟨i, .deliver mail, r⟩ p')
    (hholding : (p.known i).holding = some mail) (hresult : (p.known i).result = none) :
    Accounted id p' row := by
  have hs : p'.shared = { p.shared with sends := (mail.id, r) :: p.shared.sends } := h.answers
  have hself : p'.known i
      = { p.known i with result := some r, tried := mail.id :: (p.known i).tried } := h.known_self
  by_cases hid : mail.id = id
  · have htold : p'.shared.told id = r :: p.shared.told id := by
      rw [hs]
      simp [OutboxWorld.told, hid]
    obtain ⟨hattempts, hleft, _⟩ := hp.book i mail hholding hid
    refine ⟨hout, htold ▸ (hleft hresult).rationed r,
      accounts_of_sending ((hp.outgoing.on i).sending mail hholding hid) _, fun j => ?_⟩
    by_cases hj : j = i
    · intro m hm _
      rw [hj, hself] at hm ⊢
      cases hholding.symm.trans hm
      refine ⟨hattempts, by simp, fun r' hr' => ⟨_, ?_, hleft hresult⟩⟩
      cases hr'
      exact htold
    · refine .of_not_holds (fun hholds => hj ?_) _ _
      rw [h.known_ne hj] at hholds
      exact hp.outgoing.alone j i hholds ⟨mail, hholding, hid⟩
  · refine hp.quiet hout (by rw [hs]; simp [OutboxWorld.told, hid]) fun j => ?_
    by_cases hj : j = i
    · refine Or.inr ?_
      rintro ⟨m, hm, hmid⟩
      rw [hj, hself] at hm
      cases hholding.symm.trans hm
      exact hid hmid
    · exact Or.inl (h.known_ne hj)

theorem told_of_sql {w w' : OutboxWorld} {stmt : MailStatement} {r : Except BrokerError stmt.Rows}
    (h : w.Answers (.sql stmt) r w') (id : String) : w'.told id = w.told id := by
  unfold OutboxWorld.told
  rw [(mail_sql_cases h).1]

omit [DecidableEq ι] in
/-- The message after a statement: as it was, or as the statement has it. -/
theorem Outgoing.found_cases (hp : Outgoing id p row) (hout : Outgoing id p' row')
    {stmt : MailStatement} {r : Except BrokerError stmt.Rows}
    (h : p.shared.Answers (.sql stmt) r p'.shared) :
    row' = row ∨ ∃ sets ifQueued, stmt = .update id sets ifQueued ∧
      (ifQueued = true → row.status = .queued) ∧
      row' = sets.foldl (MailSet.apply p'.shared.now) row := by
  have hfound := hout.found
  obtain ⟨_, hsame | ⟨rid, sets, ifQueued, hstmt, hupdate⟩⟩ := mail_sql_cases h
  · rw [hsame, hp.found] at hfound
    exact Or.inl (Option.some.inj hfound).symm
  · rw [hupdate, OutboxTable.lookup_update, hp.found, Option.map_some] at hfound
    by_cases hhits : OutboxTable.hits rid ifQueued (id, row) = true
    · rw [if_pos hhits] at hfound
      simp only [OutboxTable.hits, Bool.and_eq_true, Bool.or_eq_true, Bool.not_eq_true',
        decide_eq_true_eq] at hhits
      refine Or.inr ⟨sets, ifQueued, hhits.1 ▸ hstmt, fun hif => ?_, (Option.some.inj hfound).symm⟩
      exact hhits.2.resolve_left (by simp [hif])
    · rw [if_neg hhits] at hfound
      exact Or.inl (Option.some.inj hfound).symm

/-- A claim: the attempts are those of the row. -/
theorem Accounted.claim (hp : Accounted id p row) (hout : Outgoing id p' row') {i : ι}
    {rid workerId : String} {r : Except BrokerError (List OutboxRecord)}
    (h : Step mailTraffic p ⟨i, .sql (claimMailSql rid workerId), r⟩ p') :
    Accounted id p' row' := by
  have htold := told_of_sql h.answers id
  -- the message is as it was, or it was queued and is `sending` with the same attempts
  have hrow : row'.attempts = row.attempts ∧
      (row' = row ∨ row.status = .queued ∧ row'.status = .sending) := by
    rcases hp.outgoing.found_cases hout h.answers with rfl | ⟨sets, ifQueued, hstmt, hqueued, rfl⟩
    · exact ⟨rfl, Or.inl rfl⟩
    · unfold claimMailSql at hstmt
      injection hstmt with _ hsets hif
      subst hsets
      exact ⟨rfl, Or.inr ⟨hqueued hif.symm, rfl⟩⟩
  refine ⟨hout, htold ▸ hp.rationed, ?_, fun j mail hm hid => ?_⟩
  · rw [htold]
    rcases hrow.2 with rfl | ⟨_, hsending⟩
    · exact hp.told
    · exact accounts_of_sending hsending _
  · rw [htold, hrow.1]
    by_cases hj : j = i
    · subst hj
      have hself : p'.known j = (p.known j).claim rid r := h.known_self
      rw [hself] at hm ⊢
      rcases claimed_mail hp.outgoing.ids h.answers (k := p.known j) with
        hsame | ⟨claimed, row₀, hbook, hrid, hfound₀, hqueued, hattempts, _⟩
      · rw [hsame] at hm ⊢
        exact hp.book j mail hm hid
      · rw [hbook] at hm ⊢
        cases hm
        rw [← hrid, hid, hp.outgoing.found] at hfound₀
        cases hfound₀
        exact ⟨hattempts, fun _ => hattempts ▸ hp.told.queued hqueued, by simp⟩
    · rw [h.known_ne hj] at hm ⊢
      exact hp.book j mail hm hid

/-- The write of an outcome accounts for the last delivery. -/
theorem Accounted.mark (hp : Accounted id p row) (hout : Outgoing id p' row') {i : ι}
    {mail : MailRow} {result : Except Failure String} {r : Except BrokerError (List OutboxRecord)}
    (h : Step mailTraffic p ⟨i, .sql (markSql mail result), r⟩ p')
    (hholding : (p.known i).holding = some mail) (hresult : (p.known i).result = some result) :
    Accounted id p' row' := by
  have hself : p'.known i = { p.known i with holding := none, result := none } := h.known_self
  have htold := told_of_sql h.answers id
  have hfree : ∀ j, p'.known j = p.known j ∨ ¬(p'.known j).Holds id := by
    intro j
    by_cases hj : j = i
    · subst hj
      exact Or.inr (not_holds_of_free (hself ▸ rfl) id)
    · exact Or.inl (h.known_ne hj)
  rcases hp.outgoing.found_cases hout h.answers with rfl | ⟨sets, ifQueued, hstmt, _, rfl⟩
  · exact hp.quiet hout htold hfree
  · unfold markSql at hstmt
    injection hstmt with hid hsets _
    subst hsets
    obtain ⟨hattempts, _, hheard⟩ := hp.book i mail hholding hid
    obtain ⟨earlier, hlast, hleft⟩ := hheard result hresult
    rw [hattempts] at hout hleft ⊢
    refine ⟨hout, htold ▸ hp.rationed, ?_, fun j => ?_⟩
    · rw [htold, hlast]
      exact accounts_outcome hleft _ result
    · refine .of_not_holds (fun hholds => ?_) _ _
      rcases hfree j with hk | hk
      · have hji : j = i := hp.outgoing.alone j i (hk ▸ hholds) ⟨mail, hholding, hid⟩
        rw [hji, hself] at hholds
        exact not_holds_of_free rfl id hholds
      · exact hk hholds

/-- Every event keeps account of the deliveries. -/
theorem Accounted.moves {e : MailEvent ι} (hp : Accounted id p row) (hbook : p.ByTheBook)
    (h : Moves mailTraffic p e p') : ∃ row', Accounted id p' row' := by
  obtain ⟨row', hout, _⟩ := hp.outgoing.moves hbook h
  refine ⟨row', ?_⟩
  cases e with
  | crash i =>
      obtain ⟨hshared, hknown, _⟩ := h
      have hfound := hout.found
      rw [hshared, hp.outgoing.found] at hfound
      cases hfound
      exact hp.quiet hout (by rw [hshared]) fun j => Or.inl (by rw [hknown])
  | turn t =>
      have hasks := Safe.asks h (hbook t.thread)
      obtain ⟨i, q, r⟩ := t
      cases q with
      | deliver mail =>
          have hs : p'.shared = { p.shared with sends := (mail.id, r) :: p.shared.sends } := h.answers
          have hfound := hout.found
          rw [hs, hp.outgoing.found] at hfound
          cases hfound
          exact hp.deliver hout h hasks.1 hasks.2
      | sql stmt =>
          cases stmt with
          | queuedIds =>
              rcases hp.outgoing.found_cases hout h.answers with rfl | ⟨_, _, hstmt, _⟩
              · have hself : p'.known i = p.known i := h.known_self
                refine hp.quiet hout (told_of_sql h.answers id) fun j => Or.inl ?_
                by_cases hj : j = i
                · exact hj ▸ hself
                · exact h.known_ne hj
              · cases hstmt
          | update rid sets ifQueued =>
              cases ifQueued with
              | true =>
                  obtain ⟨_, workerId, hstmt⟩ := hasks
                  unfold claimMailSql at hstmt
                  injection hstmt with _ hsets
                  subst hsets
                  exact hp.claim hout h
              | false =>
                  obtain ⟨mail, result, hholding, hresult, hstmt⟩ := hasks
                  unfold markSql at hstmt
                  injection hstmt with hrid hsets
                  subst hrid hsets
                  exact hp.mark hout h hholding hresult

/-- Of any message that was queued and never delivered, whatever any number of mail workers do,
wherever each of them stops and whichever statements fail: the mailer is given it
`MAX_ATTEMPTS` times at most, and not again once it accepted it or failed for good. And unless
it is `sending`, its row says how often it was given, and what the mailer said last. -/
theorem outbox_delivers_once {w : ι → MailWorker} {counts : ι → Nat} (h : Posted w counts id p)
    (hnew : ∀ e ∈ p.shared.sends, e.1 ≠ id) {es : List (MailEvent ι)}
    (hrun : Run (Moves mailTraffic) p es p') :
    Rationed (p'.shared.told id) ∧ ∃ row, p'.shared.rows.lookup id = some row ∧
      row.Accounts (p'.shared.told id) := by
  obtain ⟨row₀, hp₀⟩ := h.inHand
  have hnone : p.shared.told id = [] := by
    unfold OutboxWorld.told
    rw [List.map_eq_nil_iff, List.filter_eq_nil_iff]
    simpa using hnew
  have hbegins : Accounted id p row₀ := by
    obtain ⟨row, hfound, hqueued, hattempts⟩ := h.queued
    cases hp₀.outgoing.found.symm.trans hfound
    have hleft : LeavesOne row₀.attempts [] := ⟨by simp, hattempts, by rw [hattempts]; decide⟩
    refine ⟨hp₀.outgoing, ?_, ?_, fun i => .of_not_holds ?_ _ _⟩
    · rw [hnone]
      exact ⟨by decide, by simp⟩
    · rw [hnone]
      exact ⟨fun _ => hattempts, fun _ => hleft, by simp [hqueued], by simp [hqueued]⟩
    · rw [h.empty i]
      exact not_holds_of_free rfl id
  obtain ⟨⟨row, hp⟩, _⟩ := hrun.invariant
    (I := fun q => (∃ row, Accounted id q row) ∧ q.ByTheBook) ⟨⟨row₀, hbegins⟩, hp₀.byTheBook⟩
    fun _ _ _ ⟨⟨_, ha⟩, hbook⟩ hab => ⟨ha.moves hbook hab, hbook.moves hab⟩
  exact ⟨hp.rationed, row, hp.outgoing.found, hp.told⟩

end

theorem outbox_delivers_once_sent :
    Rationed ((played mailTraffic (OutboxWorld.serve accepted) mailStart
      [0, 1, 0, 1, 0, 0]).shared.told "_frust_mail:1") := by
  have hrun : Run (Moves mailTraffic) mailStart _ _ :=
    run_moves (run_play (answers_mail_serve accepted) [0, 1, 0, 1, 0, 0] mailStart)
  exact (outbox_delivers_once posted_mailStart (List.forall_mem_nil _) hrun).1

end Frust.Kernel
