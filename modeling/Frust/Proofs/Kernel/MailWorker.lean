import Frust.Kernel.Outbox
import Frust.Proofs.Kernel.Row

/-!
# `Frust.Proofs.Kernel.MailWorker`: what a mail worker asks

`MailBook` is what a worker has in hand: the message that it claimed, and what the mailer
said of it. `mails_passes` shows that a worker goes by its book: it claims with nothing in
hand, it gives the mailer what it claimed, once, and it writes what the mailer said.
`claimed_mail` and `mail_sql_cases` say what its statements do to the outbox.
-/

set_option autoImplicit false

namespace Frust.Kernel

open Frust.Lib Frust.Lib.Prog Frust.Lib.Pool

/-! ### What a worker has in hand -/

/-- The message that a worker claimed, and what the mailer said of it. -/
structure MailBook where
  holding : Option MailRow := none
  result : Option (Except Failure String) := none
  /-- The messages that it gave to the mailer. -/
  tried : List String := []

/-- The message is in the hand of the worker. -/
def MailBook.Holds (k : MailBook) (id : String) : Prop := ∃ mail, k.holding = some mail ∧ mail.id = id

/-- The book after a claim was answered. -/
def MailBook.claim (k : MailBook) (id : String) : Except BrokerError (List OutboxRecord) → MailBook
  | .ok (record :: _) => { k with holding := some (mailRowOf id record.2), result := none }
  | _ => k

/-- Keeps the book. -/
def learnMail (_ : OutboxWorld) (k : MailBook) : (q : MailRequest) → MailAnswer q → MailBook
  | .sql .queuedIds, _ => k
  | .sql (.update rid _ true), r => k.claim rid r
  | .sql (.update _ _ false), _ => { k with holding := none, result := none }
  | .deliver row, r => { k with result := some r, tried := row.id :: k.tried }

/-- The environment of the mail workers on an outbox. -/
abbrev mailTraffic : Env MailRequest MailAnswer OutboxWorld MailBook := ⟨OutboxWorld.Answers, learnMail⟩

/-- What a worker may ask that goes by its book. -/
def MailBook.Asks (k : MailBook) : MailRequest → Prop
  | .sql .queuedIds => k.holding = none
  | .sql (.update rid sets true) =>
      k.holding = none ∧ ∃ workerId, MailStatement.update rid sets true = claimMailSql rid workerId
  | .sql (.update rid sets false) => ∃ row result, k.holding = some row ∧ k.result = some result ∧
      MailStatement.update rid sets false = markSql row result
  | .deliver row => k.holding = some row ∧ k.result = none

/-- Goes by the book, whatever it is answered. -/
abbrev Mails {α : Type} (post : MailBook → Except BrokerError α → Prop) (k : MailBook)
    (p : MailWork α) : Prop :=
  Safe mailTraffic (fun _ _ _ => True) MailBook.Asks post k p

/-! ### Rules for the requests -/

section

variable {α : Type} {allowed : OutboxWorld → (q : MailRequest) → MailAnswer q → Prop}
  {ok : MailBook → MailRequest → Prop} {post : MailBook → Except BrokerError α → Prop}
  {k : MailBook}

theorem safe_mail_ask (q : MailRequest) {f : MailAnswer q → MailWork α} (hok : ok k q)
    (hf : ∀ (s : OutboxWorld) (r : MailAnswer q) (s' : OutboxWorld), s.Answers q r s' →
      allowed s q r → Safe mailTraffic allowed ok post (learnMail s k q r) (f r)) :
    Safe mailTraffic allowed ok post k (MailWork.ask q >>= f) := ⟨hok, hf⟩

theorem safe_mail_trySql (stmt : MailStatement) {f : Except BrokerError stmt.Rows → MailWork α}
    (hok : ok k (.sql stmt))
    (herr : ∀ e, stmt.text = .error e → Safe mailTraffic allowed ok post k (f (.error e)))
    (hf : ∀ (s : OutboxWorld) (r : Except BrokerError stmt.Rows) (s' : OutboxWorld) (text : String),
      stmt.text = .ok text → s.Answers (.sql stmt) r s' → allowed s (.sql stmt) r →
        Safe mailTraffic allowed ok post (learnMail s k (.sql stmt) r) (f r)) :
    Safe mailTraffic allowed ok post k (MailWork.trySql stmt >>= f) := by
  unfold MailWork.trySql
  cases htext : stmt.text with
  | ok text => exact safe_mail_ask _ hok fun s r s' => hf s r s' text htext
  | error e => exact herr e htext

theorem safe_mail_sqlRoot (stmt : MailStatement) {f : stmt.Rows → MailWork α}
    (hok : ok k (.sql stmt)) (herr : ∀ e, post k (.error e))
    (hfail : ∀ (s : OutboxWorld) (e : BrokerError), post (learnMail s k (.sql stmt) (.error e)) (.error e))
    (hf : ∀ (s : OutboxWorld) (rows : stmt.Rows) (s' : OutboxWorld) (text : String),
      stmt.text = .ok text → s.Answers (.sql stmt) (.ok rows) s' → allowed s (.sql stmt) (.ok rows) →
        Safe mailTraffic allowed ok post (learnMail s k (.sql stmt) (.ok rows)) (f rows)) :
    Safe mailTraffic allowed ok post k (MailWork.sqlRoot stmt >>= f) := by
  have hassoc : MailWork.sqlRoot stmt >>= f
      = MailWork.trySql stmt >>= fun r => Prog.done r >>= f := by
    unfold MailWork.sqlRoot MailWork.trySql
    cases stmt.text <;> rfl
  rw [hassoc]
  refine safe_mail_trySql stmt hok (fun e _ => herr e) fun s r s' text htext hans hallowed => ?_
  cases r with
  | error e => exact hfail s e
  | ok rows => exact hf s rows s' text htext hans hallowed

end

/-! ### The programs of a worker -/

theorem text_update_of_renders {id : String} (h : Renders id) (sets : List MailSet)
    (ifQueued : Bool) : ∃ text, (MailStatement.update id sets ifQueued).text = .ok text := by
  obtain ⟨text, htext⟩ := h
  exact ⟨_, by simp only [MailStatement.text, htext]; rfl⟩

theorem renders_of_text {id : String} {sets : List MailSet} {ifQueued : Bool} {text : String}
    (h : (MailStatement.update id sets ifQueued).text = .ok text) : Renders id := by
  unfold MailStatement.text at h
  obtain ⟨target, htarget, _⟩ := bind_eq_ok h
  exact ⟨target, htarget⟩

section

variable {k : MailBook} (w : MailWorker)

/-- The message at hand is one that was claimed. -/
def Handed (k : MailBook) : Except BrokerError (Option MailRow) → Prop
  | .ok (some row) => k.holding = some row ∧ k.result = none ∧ Renders row.id
  | _ => k.holding = none

theorem mails_tryClaimMail (hk : k.holding = none) (id : String) :
    Mails Handed k (w.tryClaimMail id) := by
  refine safe_mail_sqlRoot _ ⟨hk, w.workerId, rfl⟩ (fun _ => hk) (fun _ _ => hk) ?_
  intro s rows s' text htext _ _
  cases rows with
  | nil => exact hk
  | cons record rest => exact ⟨rfl, rfl, renders_of_text htext⟩

theorem mails_sendOne {row : MailRow} (hholding : k.holding = some row) (hresult : k.result = none)
    (hid : Renders row.id) :
    Mails (fun k' _ => k'.holding = none) k (MailWorker.sendOne row) := by
  refine safe_mail_ask _ ⟨hholding, hresult⟩ fun s result s' _ _ => ?_
  refine safe_mail_trySql (markSql row result) ⟨row, result, hholding, rfl, rfl⟩ (fun e he => ?_)
    fun s r s' _ _ _ _ => rfl
  -- the claim had the same record id in its text
  obtain ⟨text, htext⟩ := text_update_of_renders hid (outcomeSets row.attempts result) false
  exact absurd (htext.symm.trans he) (by simp)

theorem mails_drainIds (ids : List String) (hk : k.holding = none) :
    Mails (fun k' _ => k'.holding = none) k (w.drainIds ids) := by
  induction ids generalizing k with
  | nil => exact hk
  | cons id rest ih =>
      refine Safe.bind (mails_tryClaimMail w hk id) (fun k₁ r h₁ => ?_) fun _ _ h => h
      cases r with
      | none => exact ih h₁
      | some row =>
          obtain ⟨hholding, hresult, hid⟩ := h₁
          refine Safe.bind (mails_sendOne hholding hresult hid) (fun k₂ _ h₂ => ?_) fun _ _ h => h
          exact Safe.bind (ih h₂) (fun _ _ h => h) fun _ _ h => h

theorem mails_drain (hk : k.holding = none) :
    Mails (fun k' _ => k'.holding = none) k w.drain := by
  refine safe_mail_sqlRoot .queuedIds hk (fun _ => hk) (fun _ _ => hk) ?_
  intro s ids s' _ _ _ _
  exact mails_drainIds w ids hk

theorem mails_passes (count : Nat) (hk : k.holding = none) :
    Mails (fun k' _ => k'.holding = none) k (w.passes count) := by
  induction count generalizing k with
  | zero => exact hk
  | succ count ih =>
      have hdrain : Mails (fun k' r => (∃ r', r = .ok r') ∧ k'.holding = none) k w.drain.attempt :=
        Safe.attempt (mails_drain w hk) fun _ r hr => ⟨⟨r, rfl⟩, hr⟩
      refine Safe.bind hdrain (fun k' _ h => ih h.2) fun _ _ h => h.2

end

/-! ### Statements -/

namespace OutboxTable

variable {now : Time} {rid : String} {sets : List MailSet} {ifQueued : Bool} {table : OutboxTable}

theorem updated_fst (record : OutboxRecord) :
    (updated now rid sets ifQueued record).1 = record.1 := by
  unfold updated
  split <;> rfl

theorem lookup_update (id : String) :
    (table.update now rid sets ifQueued).lookup id = (table.lookup id).map fun row =>
      if hits rid ifQueued (id, row) then sets.foldl (MailSet.apply now) row else row := by
  unfold OutboxTable.update
  rw [lookup_map_keyed updated_fst]
  refine congrArg (Option.map · _) (funext fun row => ?_)
  unfold updated
  split <;> rfl

@[simp] theorem ids_update : (table.update now rid sets ifQueued).map (·.1) = table.map (·.1) :=
  keys_map_keyed updated_fst table

/-- A row that an `UPDATE` answers is the message that it took. -/
theorem mem_updatedRows (hnodup : (table.map (·.1)).Nodup) {record : OutboxRecord}
    (h : record ∈ table.updatedRows now rid sets ifQueued) :
    record.1 = rid ∧ ∃ row, table.lookup rid = some row ∧ hits rid ifQueued (rid, row) = true ∧
      record.2 = sets.foldl (MailSet.apply now) row := by
  obtain ⟨record₀, hmem₀, rfl⟩ := List.mem_map.mp h
  obtain ⟨hmem, hhits⟩ := List.mem_filter.mp hmem₀
  have hid : rid = record₀.1 := by
    unfold hits at hhits
    rw [Bool.and_eq_true, decide_eq_true_eq] at hhits
    exact hhits.1
  refine ⟨hid.symm, record₀.2, ?_, ?_, rfl⟩
  · rw [hid]
    exact lookup_of_mem hnodup hmem
  · rw [hid] at hhits ⊢
    exact hhits

end OutboxTable

/-- What a statement can do to the outbox. -/
theorem mail_sql_cases {s s' : OutboxWorld} {stmt : MailStatement}
    {r : Except BrokerError stmt.Rows} (h : s.Answers (.sql stmt) r s') :
    s'.sends = s.sends ∧ (s'.rows = s.rows ∨ ∃ rid sets ifQueued,
      stmt = .update rid sets ifQueued ∧ s'.rows = s.rows.update s'.now rid sets ifQueued) := by
  obtain ⟨now, _, hexec⟩ := h
  cases stmt with
  | queuedIds =>
      obtain ⟨rfl, _⟩ := hexec
      exact ⟨rfl, Or.inl rfl⟩
  | update rid sets ifQueued =>
      rcases hexec with ⟨_, rfl⟩ | ⟨_, _, rfl | rfl⟩
      · exact ⟨rfl, Or.inr ⟨rid, sets, ifQueued, rfl, rfl⟩⟩
      · exact ⟨rfl, Or.inl rfl⟩
      · exact ⟨rfl, Or.inr ⟨rid, sets, ifQueued, rfl, rfl⟩⟩

/-- What a claim hands out is a message that was queued. -/
theorem claimed_mail {s s' : OutboxWorld} (hnodup : (s.rows.map (·.1)).Nodup) {id workerId : String}
    {r : Except BrokerError (List OutboxRecord)}
    (h : s.Answers (.sql (claimMailSql id workerId)) r s') {k : MailBook} :
    k.claim id r = k ∨ ∃ mail row,
      k.claim id r = { k with holding := some mail, result := none } ∧ mail.id = id ∧
      s.rows.lookup id = some row ∧ row.status = .queued ∧ mail.attempts = row.attempts ∧
      s'.rows = s.rows.update s'.now id [.status .sending, .claimedBy (some workerId), .claimedNow]
        true := by
  obtain ⟨now, _, hexec⟩ := h
  rcases hexec with ⟨rfl, rfl⟩ | ⟨_, rfl, _⟩
  · cases hrows : s.rows.updatedRows now id
      [.status .sending, .claimedBy (some workerId), .claimedNow] true with
    | nil => exact Or.inl rfl
    | cons record rest =>
        obtain ⟨_, row, hfound, hhits, hrow⟩ :=
          OutboxTable.mem_updatedRows hnodup (hrows ▸ List.mem_cons_self)
        refine Or.inr ⟨mailRowOf id record.2, row, rfl, rfl, hfound, ?_, ?_, rfl⟩
        · simpa [OutboxTable.hits] using hhits
        · rw [hrow]
          rfl
  · exact Or.inl rfl

/-- A claim of a queued message that is answered hands it out. -/
theorem claimed_of_queued {s s' : OutboxWorld} {id workerId : String} {rows : List OutboxRecord}
    (h : s.Answers (.sql (claimMailSql id workerId)) (.ok rows) s') {row : OutboxRow}
    (hfound : s.rows.lookup id = some row) (hqueued : row.status = .queued) {k : MailBook} :
    (k.claim id (.ok rows)).Holds id := by
  obtain ⟨now, _, hexec⟩ := h
  rcases hexec with ⟨hrows, _⟩ | ⟨e, he, _⟩
  · have hmem : (id, row) ∈ s.rows.filter (OutboxTable.hits id true) :=
      List.mem_filter.mpr ⟨mem_of_lookup hfound, by simp [OutboxTable.hits, hqueued]⟩
    have hne : s.rows.updatedRows now id
        [.status .sending, .claimedBy (some workerId), .claimedNow] true ≠ [] :=
      List.ne_nil_of_mem (List.mem_map_of_mem hmem)
    cases rows with
    | nil =>
        injection hrows with hrows
        exact absurd hrows.symm hne
    | cons record rest => exact ⟨_, rfl, rfl⟩
  · cases he

end Frust.Kernel
