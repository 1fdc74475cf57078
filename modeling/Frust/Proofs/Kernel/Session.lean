import Frust.Kernel.Session

/-!
# `Frust.Proofs.Kernel.Session`: a revoked token admits nobody

Requests of any tenants run side by side. A request that is admitted was given the row of its
secret since the session generation that it sampled began (`safe_thread`), be it by the cache or
by the table. After a deletion and a bump there is no such row (`Gone`), if the database does
not mint a secret twice. So a request that samples after the bump is never admitted
(`revoked_never_admitted`), whatever the cache still holds.

A request that sampled before the bump may still be admitted: this is not excluded.
-/

set_option autoImplicit false

namespace Frust.Kernel

open Frust.Lib Frust.Lib.GenCache

namespace Session

variable {ι : Type}

/-- What requests have seen. -/
abbrev SessionSeen := Seen String SessionKey fun _ => SessionEntry

/-- The table has the row of the token, and it names the entry's caller. -/
def Names (table : SessionTable) (k : SessionKey) (entry : SessionEntry) : Prop :=
  ∃ row ∈ table.rows, row.token = k.token ∧ entry.caller = callerOf row

/-- What a request learns. -/
def learn (seen : SessionSeen) : (q : SessionRequest) → SessionAnswer q → SessionSeen
  | .generation t, g => seen.sample t g
  | .lookup k, entry => seen.find k entry
  | .select k, r => seen.keep SessionKey.tenant k fun entry =>
      ∃ row, r = .ok (some row) ∧ entry.caller = callerOf row
  | _, _ => seen

/-- The process, and what its requests learn. -/
def env : Env SessionRequest SessionAnswer SessionState SessionSeen where
  answers := SessionState.Answers
  learn _ seen q r := learn seen q r

/-- The requests of a process. -/
abbrev Process (ι : Type) :=
  Pool BrokerError SessionRequest SessionAnswer Unit SessionState SessionSeen ι

/-- A process at its start. -/
def start (rows : String → List SessionRow) (threads : ι → Thread) : Process ι where
  shared := .start rows
  prog i := (threads i).prog
  known _ := .nothing

/-- What only an admitted request asks. -/
def NeedsAdmission : SessionRequest → Prop
  | .serve _ _ | .deleteToken _ | .deleteUser _ _ | .bump _ => True
  | _ => False

/-- The request was given an entry of the token since the generation that it sampled began. -/
def Admitted (seen : SessionSeen) (k : SessionKey) (caller : Caller) : Prop :=
  ∃ g entry, seen.sampled k.tenant = some g ∧ seen.got ⟨k, g, entry⟩ ∧ entry.caller = caller

/-- Only what was given is kept, and only who was admitted goes on. -/
def May (thread : Thread) (seen : SessionSeen) (q : SessionRequest) : Prop :=
  (∀ k g entry, q = .insert k g entry → seen.got ⟨k, g, entry⟩) ∧
    (NeedsAdmission q → ∃ k action caller, thread = .request k action ∧ Admitted seen k caller)

/-! ### One request -/

section

variable {seen : SessionSeen} {k : SessionKey}

/-- A request of which nothing is asked. -/
theorem may_of_free {thread : Thread} {q : SessionRequest} (hneeds : ¬ NeedsAdmission q)
    (hinsert : ∀ k g entry, q ≠ .insert k g entry) : May thread seen q :=
  ⟨fun k g entry h => absurd h (hinsert k g entry), fun h => absurd h hneeds⟩

/-- A check, with what comes after it. -/
theorem safe_done_bind {α : Type} {thread : Thread} {x : Except BrokerError α}
    {f : α → SessionProg Unit}
    (hf : ∀ a, Pool.Safe env (fun _ _ _ => True) (May thread) (fun _ _ => True) seen (f a)) :
    Pool.Safe env (fun _ _ _ => True) (May thread) (fun _ _ => True) seen (.done x >>= f) := by
  cases x with
  | error e => trivial
  | ok a => exact hf a

/-- A request that may fail, with what comes after it. -/
theorem safe_ask_bind {α : Type} {thread : Thread} {q : SessionRequest}
    {h : SessionAnswer q = Except BrokerError α} {f : α → SessionProg Unit}
    (hmay : May thread seen q)
    (hf : ∀ r a, Pool.Safe env (fun _ _ _ => True) (May thread) (fun _ _ => True)
      (learn seen q r) (f a)) :
    Pool.Safe env (fun _ _ _ => True) (May thread) (fun _ _ => True) seen (ask q h >>= f) :=
  ⟨hmay, fun _ r _ _ _ => safe_done_bind fun a => hf r a⟩

/-- Who is told a caller was admitted as that caller. -/
def Told (k : SessionKey) (seen : SessionSeen) (r : Except BrokerError Caller) : Prop :=
  ∀ caller, r = .ok caller → Admitted seen k caller

theorem told_error (e : BrokerError) : Told k seen (.error e) := fun _ h => by cases h

theorem safe_readRow {thread : Thread} {gen : Nat} (hsampled : seen.sampled k.tenant = some gen) :
    Pool.Safe env (fun _ _ _ => True) (May thread) (Told k) seen (readRow k gen) := by
  unfold readRow
  refine ⟨may_of_free (fun h => h) (by simp), fun s r s' _ _ => ?_⟩
  match r with
  | .error e => exact told_error e
  | .ok none => exact told_error _
  | .ok (some row) =>
      -- whatever time the entry is kept with, it names the caller of the row
      have hgot : ∀ now jwt, (learn seen (.select k) (.ok (some row))).got
          ⟨k, gen, ⟨now, callerOf row, jwt⟩⟩ := fun now jwt =>
        Or.inr ⟨gen, _, hsampled, ⟨row, rfl, rfl⟩, rfl⟩
      have hkept : ∀ jwt, Pool.Safe env (fun _ _ _ => True) (May thread) (Told k)
          (learn seen (.select k) (.ok (some row)))
          (.ask .now fun (now : Nat) => .ask (.insert k gen ⟨now, callerOf row, jwt⟩) fun _ =>
            .done (.ok (callerOf row)) : SessionProg Caller) := by
        intro jwt
        refine ⟨may_of_free (fun h => h) (by simp), fun _ now _ _ _ => ⟨⟨?_, fun h => h.elim⟩,
          fun _ _ _ _ _ => ?_⟩⟩
        · intro k' g' entry' h
          cases h
          exact hgot now jwt
        · intro caller h
          cases h
          exact ⟨gen, _, hsampled, hgot now jwt, rfl⟩
      show Pool.Safe env (fun _ _ _ => True) (May thread) (Told k) _ (if _ then _ else _)
      split
      · exact hkept _
      · exact ⟨may_of_free (fun h => h) (by simp), fun _ _ _ _ _ => hkept _⟩

theorem safe_sessionCaller {thread : Thread} :
    Pool.Safe env (fun _ _ _ => True) (May thread) (Told k) seen (sessionCaller k) := by
  unfold sessionCaller
  split
  · exact told_error _
  · refine ⟨may_of_free (fun h => h) (by simp), fun _ (gen : Nat) _ _ _ =>
      ⟨may_of_free (fun h => h) (by simp), fun _ cached _ _ _ => ?_⟩⟩
    have hsampled : (learn (learn seen (.generation k.tenant) gen) (.lookup k) cached).sampled
        k.tenant = some gen := Function.update_self ..
    match cached with
    | none => exact safe_readRow hsampled
    | some (g, entry) =>
        refine ⟨may_of_free (fun h => h) (by simp), fun _ now _ _ _ => ?_⟩
        show Pool.Safe env (fun _ _ _ => True) (May thread) (Told k) _ (if _ then _ else _)
        split
        · rename_i hhit
          obtain ⟨rfl, _⟩ := hhit
          refine ⟨may_of_free (fun h => h) (by simp), fun _ _ _ _ _ => ?_⟩
          intro caller h
          cases h
          exact ⟨g, entry, hsampled, Or.inr ⟨(g, entry), rfl, rfl⟩, rfl⟩
        · exact safe_readRow hsampled

theorem safe_dispatch {action : Action} {caller : Caller} (hadmitted : Admitted seen k caller) :
    Pool.Safe env (fun _ _ _ => True) (May (.request k action)) (fun _ _ => True) seen
      (dispatch k caller action) := by
  have hmay : ∀ q, (∀ k g entry, q ≠ .insert k g entry) → May (.request k action) seen q :=
    fun q hq => ⟨fun k g entry h => absurd h (hq k g entry),
      fun _ => ⟨k, action, caller, rfl, hadmitted⟩⟩
  cases action with
  | logout => exact safe_ask_bind (hmay _ (by simp)) fun _ _ =>
      ⟨hmay _ (by simp), fun _ _ _ _ _ => trivial⟩
  | revoke user =>
      refine safe_done_bind fun _ => safe_done_bind fun _ => ?_
      exact safe_ask_bind (hmay _ (by simp)) fun _ _ =>
        ⟨hmay _ (by simp), fun _ _ _ _ _ => trivial⟩
  | other => exact ⟨hmay _ (by simp), fun _ _ _ _ _ => trivial⟩

theorem safe_login (tenant user pass : String) {thread : Thread} :
    Pool.Safe env (fun _ _ _ => True) (May thread) (fun _ _ => True) seen
      (login tenant user pass) := by
  have hfree : ∀ {seen : SessionSeen} {q : SessionRequest}, ¬ NeedsAdmission q →
      (∀ k g entry, q ≠ .insert k g entry) → May thread seen q := may_of_free
  unfold login
  split
  · trivial
  · refine safe_ask_bind (hfree (fun h => h) (by simp)) fun _ jwt => ?_
    refine safe_ask_bind (hfree (fun h => h) (by simp)) fun _ found => ?_
    dsimp only
    split
    · trivial
    · refine safe_ask_bind (hfree (fun h => h) (by simp)) fun _ secret => ?_
      split
      · trivial
      · exact ⟨hfree (fun h => h) (by simp), fun _ _ _ _ _ => trivial⟩

theorem safe_thread (thread : Thread) :
    Pool.Safe env (fun _ _ _ => True) (May thread) (fun _ _ => True) seen thread.prog := by
  cases thread with
  | login tenant user pass => exact safe_login tenant user pass
  | request k action =>
      refine Pool.Safe.bind (safe_sessionCaller (k := k)) (fun seen caller h => ?_)
        fun _ _ _ => trivial
      exact safe_dispatch (h caller rfl)

end

/-! ### All requests -/

/-- What every step keeps. -/
abbrev SessionSound (threads : ι → Thread) (p : Process ι) : Prop :=
  Sound SessionKey.tenant Names env (fun i => May (threads i)) (fun _ _ _ => True) p

theorem sound_start (rows : String → List SessionRow) (threads : ι → Thread) :
    SessionSound threads (start rows threads) where
  good :=
    { began_le := fun t g _ => Nat.zero_le _
      cached := fun k g v h => by cases h }
  knows i := knows_nothing _
  safe i := safe_thread (threads i)

/-- The rows that a `SELECT` answers with are there. -/
theorem find_names {table : SessionTable} {k : SessionKey} {row : SessionRow} {entry : SessionEntry}
    (hfind : table.find k.token = some row) (hcaller : entry.caller = callerOf row) :
    Names table k entry :=
  ⟨row, List.mem_of_find?_eq_some hfind, by simpa using List.find?_some hfind, hcaller⟩

theorem protocol (threads : ι → Thread) :
    Protocol SessionKey.tenant Names env fun i => May (threads i) where
  keeps {s s' q r seen i} h hmay hgood hknows := by
    have hcommit : ∀ t edit, Later s (s.commit t edit) ∧
        Good SessionKey.tenant Names (s.commit t edit) ∧
        Knows SessionKey.tenant Names (s.commit t edit) seen := fun t edit =>
      ⟨later_commit s t edit, hgood.commit t edit, hknows.mono (later_commit s t edit)⟩
    have hsame : Later s s ∧ Good SessionKey.tenant Names s ∧ Knows SessionKey.tenant Names s seen :=
      ⟨.refl s, hgood, hknows⟩
    cases q with
    | generation t =>
        obtain ⟨rfl, rfl⟩ := h
        exact ⟨.refl s', hgood, hknows.sample t⟩
    | lookup k =>
        obtain ⟨rfl, rfl⟩ := h
        exact ⟨.refl s', hgood, hknows.find hgood k⟩
    | select k =>
        obtain ⟨rfl, hr⟩ := h
        refine ⟨.refl s', hgood, hknows.keep hgood k ?_⟩
        -- Only a row that is found becomes an entry, and it names its token.
        rintro entry ⟨row, hrow, hcaller⟩
        rcases hr with ⟨e, he⟩ | hr | hr
        · exact absurd (hrow.symm.trans he) (by simp)
        · exact absurd (hrow.symm.trans hr) (by simp)
        · exact find_names (Except.ok.inj (hr.symm.trans hrow)) hcaller
    | insert k g entry =>
        cases h
        exact ⟨later_insert s k g entry, hgood.insert (hknows.got k g entry (hmay.1 k g entry rfl)),
          hknows.mono (later_insert s k g entry)⟩
    | bump t =>
        cases h
        exact ⟨later_bump s t, hgood.bump t, hknows.mono (later_bump s t)⟩
    | deleteToken k =>
        rcases h with rfl | ⟨rfl, _⟩
        · exact hcommit _ _
        · exact hsame
    | deleteUser t user =>
        rcases h with rfl | ⟨rfl, _⟩
        · exact hcommit _ _
        · exact hsame
    | create t row =>
        rcases h with rfl | ⟨rfl, _⟩
        · exact hcommit _ _
        · exact hsame
    | now | seedToken _ _ _ | serve _ _ | signin _ _ _ | appUser _ _ | mint _ =>
        cases h
        exact hsame
  samples {s s' q r seen t g} h hg := by
    cases q with
    | generation t' =>
        obtain ⟨rfl, rfl⟩ := h
        -- A sample is of the generation that the state has.
        by_cases ht : t = t'
        · subst ht
          exact Or.inr (Option.some.inj (by simpa [env, learn, Seen.sample] using hg)).symm
        · exact Or.inl (by simpa [env, learn, Seen.sample, ht] using hg)
    | lookup _ | select _ | insert _ _ _ | bump _ | deleteToken _ | deleteUser _ _ | create _ _
    | now | seedToken _ _ _ | serve _ _ | signin _ _ _ | appUser _ _ | mint _ => exact Or.inl hg

/-! ### Deleted rows -/

/-- No secret is minted twice: the row that a step creates has a secret that no row of the tenant
was created with before. -/
def FreshSecrets (a : Process ι) : Pool.Event SessionRequest SessionAnswer ι → Process ι → Prop
  | .turn ⟨_, .create t row, _⟩, _ => row.token ∉ (a.shared.current t).minted
  | _, _ => True

/-- Since version `n₀` the tenant has no row of the token, and the token is not a new secret. -/
structure Gone (k : SessionKey) (n₀ : Nat) (s : SessionState) : Prop where
  le_version : n₀ ≤ s.version k.tenant
  minted : k.token ∈ (s.current k.tenant).minted
  no_row : ∀ n, n₀ ≤ n → n ≤ s.version k.tenant →
    ∀ row ∈ (s.content k.tenant n).rows, row.token ≠ k.token

/-- An edit of a tenant's table that brings no row of the token back. -/
theorem Gone.commit {k : SessionKey} {n₀ : Nat} {s : SessionState} (h : Gone k n₀ s) {t : String}
    {edit : SessionTable → SessionTable}
    (hminted : ∀ table x, x ∈ table.minted → x ∈ (edit table).minted)
    (hrows : ∀ row ∈ (edit (s.current t)).rows, row ∈ (s.current t).rows ∨
      row.token ∉ (s.current t).minted) : Gone k n₀ (s.commit t edit) := by
  by_cases ht : k.tenant = t
  · subst ht
    have hversion : (s.commit k.tenant edit).version k.tenant = s.version k.tenant + 1 := by
      simp [GenCache.commit]
    have hnew : (s.commit k.tenant edit).content k.tenant (s.version k.tenant + 1)
        = edit (s.current k.tenant) := by simp [GenCache.commit]
    refine ⟨?_, ?_, fun n hn hle row hrow => ?_⟩
    · rw [hversion]
      exact h.le_version.trans (Nat.le_succ _)
    · unfold GenCache.current
      rw [hversion, hnew]
      exact hminted _ _ h.minted
    · rw [hversion] at hle
      -- The new version has only rows that the old one had, or fresh ones; the older versions are
      -- as they were.
      by_cases hlast : n = s.version k.tenant + 1
      · rw [hlast, hnew] at hrow
        rcases hrows row hrow with hold | hfresh
        · exact h.no_row _ h.le_version le_rfl row hold
        · rintro heq
          exact hfresh (heq ▸ h.minted)
      · rw [(later_commit s k.tenant edit).content_eq k.tenant n (by omega)] at hrow
        exact h.no_row n hn (by omega) row hrow
  · -- A commit for another tenant leaves this one alone.
    have hversion : (s.commit t edit).version k.tenant = s.version k.tenant := by
      simp [GenCache.commit, ht]
    have hcontent : (s.commit t edit).content k.tenant = s.content k.tenant := by
      simp [GenCache.commit, ht]
    refine ⟨hversion ▸ h.le_version, ?_, fun n hn hle row hrow => ?_⟩
    · unfold GenCache.current
      rw [hversion, hcontent]
      exact h.minted
    · rw [hversion] at hle
      rw [hcontent] at hrow
      exact h.no_row n hn hle row hrow

theorem Gone.answers {k : SessionKey} {n₀ : Nat} {s s' : SessionState} {q : SessionRequest}
    {r : SessionAnswer q} (h : Gone k n₀ s) (hans : SessionState.Answers s q r s')
    (hfresh : ∀ t row, q = .create t row → row.token ∉ (s.current t).minted) : Gone k n₀ s' := by
  cases q with
  | insert _ _ _ | bump _ =>
      cases hans
      exact ⟨h.le_version, h.minted, h.no_row⟩
  | generation _ | lookup _ =>
      obtain ⟨_, rfl⟩ := hans
      exact h
  | select _ =>
      obtain ⟨rfl, _⟩ := hans
      exact h
  | deleteToken _ =>
      rcases hans with rfl | ⟨rfl, _⟩
      · exact h.commit (fun _ _ hx => hx) fun row hrow => Or.inl (List.mem_of_mem_filter hrow)
      · exact h
  | deleteUser _ _ =>
      rcases hans with rfl | ⟨rfl, _⟩
      · exact h.commit (fun _ _ hx => hx) fun row hrow => Or.inl (List.mem_of_mem_filter hrow)
      · exact h
  -- A new row has a fresh token, so it does not bring this one back.
  | create t row =>
      rcases hans with rfl | ⟨rfl, _⟩
      · refine h.commit (fun _ _ hx => List.mem_cons_of_mem _ hx) fun row' hrow' => ?_
        rcases List.mem_append.mp hrow' with hold | hnew
        · exact Or.inl hold
        · rw [List.mem_singleton.mp hnew]
          exact Or.inr (hfresh t row rfl)
      · exact h
  | now | seedToken _ _ _ | serve _ _ | signin _ _ _ | appUser _ _ | mint _ =>
      cases hans
      exact h

/-- Every row was created with a secret that is no new one. -/
def Minted (s : SessionState) : Prop :=
  ∀ t, ∀ row ∈ (s.current t).rows, row.token ∈ (s.current t).minted

/-- An edit of a tenant's table whose rows are minted. -/
theorem Minted.commit {s : SessionState} (h : Minted s) {t : String}
    {edit : SessionTable → SessionTable}
    (hedit : ∀ row ∈ (edit (s.current t)).rows, row.token ∈ (edit (s.current t)).minted) :
    Minted (s.commit t edit) := by
  intro u row hrow
  by_cases hu : u = t
  · subst hu
    have hcurrent : (s.commit u edit).current u = edit (s.current u) := by
      simp [GenCache.commit, GenCache.current]
    rw [hcurrent] at hrow ⊢
    exact hedit row hrow
  · have hcurrent : (s.commit t edit).current u = s.current u := by
      simp [GenCache.commit, GenCache.current, hu]
    rw [hcurrent] at hrow ⊢
    exact h u row hrow

theorem Minted.answers {s s' : SessionState} {q : SessionRequest} {r : SessionAnswer q}
    (h : Minted s) (hans : SessionState.Answers s q r s') : Minted s' := by
  cases q with
  | insert _ _ _ | bump _ =>
      cases hans
      exact h
  | generation _ | lookup _ =>
      obtain ⟨_, rfl⟩ := hans
      exact h
  | select _ =>
      obtain ⟨rfl, _⟩ := hans
      exact h
  | deleteToken k =>
      rcases hans with rfl | ⟨rfl, _⟩
      · exact h.commit fun row hrow => h k.tenant row (List.mem_of_mem_filter hrow)
      · exact h
  | deleteUser t _ =>
      rcases hans with rfl | ⟨rfl, _⟩
      · exact h.commit fun row hrow => h t row (List.mem_of_mem_filter hrow)
      · exact h
  -- The row that is created has its token minted with it.
  | create t row =>
      rcases hans with rfl | ⟨rfl, _⟩
      · refine h.commit fun row' hrow' => ?_
        rcases List.mem_append.mp hrow' with hold | hnew
        · exact List.mem_cons_of_mem _ (h t row' hold)
        · rw [List.mem_singleton.mp hnew]
          exact List.mem_cons_self
      · exact h
  | now | seedToken _ _ _ | serve _ _ | signin _ _ _ | appUser _ _ | mint _ =>
      cases hans
      exact h

theorem Gone.moves [DecidableEq ι] {k : SessionKey} {n₀ : Nat} {a b : Process ι}
    {e : Pool.Event SessionRequest SessionAnswer ι} (h : Gone k n₀ a.shared)
    (hmove : Pool.Moves env a e b) (hfresh : FreshSecrets a e b) : Gone k n₀ b.shared := by
  cases e with
  | crash _ => exact hmove.1 ▸ h
  | turn u =>
      refine h.answers (Pool.Step.answers hmove) fun t row hq => ?_
      obtain ⟨thread, q, r⟩ := u
      cases hq
      exact hfresh

theorem Minted.moves [DecidableEq ι] {a b : Process ι}
    {e : Pool.Event SessionRequest SessionAnswer ι} (h : Minted a.shared)
    (hmove : Pool.Moves env a e b) : Minted b.shared := by
  cases e with
  | crash _ => exact hmove.1 ▸ h
  | turn u => exact h.answers (Pool.Step.answers hmove)

/-- Right after a deletion of the token's row, the token is gone. -/
theorem gone_of_deleted {k : SessionKey} {a c : SessionState} (hminted : Minted a)
    (hlater : ∀ x, x ∈ (a.current k.tenant).minted → x ∈ (c.current k.tenant).minted)
    (hrow : (a.current k.tenant).find k.token ≠ none)
    (hgone : (c.current k.tenant).find k.token = none) : Gone k (c.version k.tenant) c := by
  obtain ⟨row, hfind⟩ := Option.ne_none_iff_exists'.mp hrow
  have htoken : row.token = k.token := by simpa using List.find?_some hfind
  refine ⟨le_rfl, hlater _ (htoken ▸ hminted _ row (List.mem_of_find?_eq_some hfind)), ?_⟩
  intro n hn hle row' hrow' heq
  have hcurrent : n = c.version k.tenant := by omega
  subst hcurrent
  have hnone := List.find?_eq_none.mp hgone row' hrow'
  exact hnone (by simpa using heq)

/-! ### Revoked tokens -/

section

variable [DecidableEq ι]

/-- A logout or a revocation deletes the token's row in this step. -/
def Deletes (k : SessionKey) (u : Turn SessionRequest SessionAnswer ι) (a c : Process ι) : Prop :=
  Pool.Step env a u c ∧
    (u.request = .deleteToken k ∨ ∃ user, u.request = .deleteUser k.tenant user) ∧
    (a.shared.current k.tenant).find k.token ≠ none ∧
    (c.shared.current k.tenant).find k.token = none

/-- In a run to `p` in which no secret is minted twice, a row of the token was deleted, later the
tenant's generation was bumped, and after that the request sampled it. -/
def SamplesAfterDelete (rows : String → List SessionRow) (threads : ι → Thread) (k : SessionKey)
    (i : ι) (p : Process ι) : Prop :=
  ∃ es a u c, Run (Pool.Moves env) (start rows threads) es a ∧ Deletes k u a c ∧
    BumpedThenSampled env FreshSecrets i k.tenant c p

theorem gone_of_deletes {k : SessionKey} {u : Turn SessionRequest SessionAnswer ι}
    {a c : Process ι} (h : Deletes k u a c) (hminted : Minted a.shared) :
    Gone k (c.shared.version k.tenant) c.shared := by
  obtain ⟨hstep, hreq, hrow, hgone⟩ := h
  have hans := hstep.answers
  refine gone_of_deleted hminted (fun x hx => ?_) hrow hgone
  have hdelete : ∀ edit : SessionTable → SessionTable,
      (∀ table, (edit table).minted = table.minted) →
      c.shared = a.shared.commit k.tenant edit ∨ c.shared = a.shared →
      x ∈ (c.shared.current k.tenant).minted := by
    rintro edit hedit (hc | hc)
    · have hcurrent : (a.shared.commit k.tenant edit).current k.tenant
          = edit (a.shared.current k.tenant) := by simp [GenCache.commit, GenCache.current]
      rw [hc, hcurrent, hedit]
      exact hx
    · rw [hc]
      exact hx
  obtain ⟨thread, q, r⟩ := u
  rcases hreq with hq | ⟨user, hq⟩
  · cases hq
    exact hdelete (.deleteToken k.token) (fun _ => rfl) (hans.imp id And.left)
  · cases hq
    exact hdelete (.deleteUser user) (fun _ => rfl) (hans.imp id And.left)

theorem not_admitted_after {rows : String → List SessionRow} {threads : ι → Thread}
    {k : SessionKey} {i : ι} {action : Action} {p : Process ι}
    (hi : threads i = .request k action) (hafter : SamplesAfterDelete rows threads k i p)
    {q : SessionRequest} {r : SessionAnswer q} {p' : Process ι}
    (hstep : Pool.Step env p ⟨i, q, r⟩ p') : ¬ NeedsAdmission q := by
  intro hneeds
  obtain ⟨es, a, u, c, hrun, hdeletes, hbumped⟩ := hafter
  have hminted : Minted a.shared := hrun.invariant (I := fun p => Minted p.shared)
    (fun t row hrow => List.mem_map_of_mem hrow) fun _ _ _ h hmove => h.moves hmove
  obtain ⟨_, ha⟩ := (sound_start rows threads).run (protocol threads) (fun _ _ _ => trivial) hrun
  have hc := (ha.turn (protocol threads) hdeletes.1).2
  obtain ⟨es', hrun'⟩ := hbumped.run
  obtain ⟨_, hp⟩ := hc.run (protocol threads) (fun _ _ _ => trivial) hrun'.run
  -- who is admitted was given a row of the token since the bump, and there is none
  obtain ⟨k', action', caller, hk, g, entry, hg, hgot, _⟩ := ((hp.safe i).asks hstep).2 hneeds
  rw [hi] at hk
  cases hk
  obtain ⟨n, hn, hle, row, hrow, htoken, _⟩ :=
    hc.fresh (protocol threads) (fun _ _ _ => trivial) hbumped hg hgot
  have hgone : Gone k (c.shared.version k.tenant) p.shared :=
    hrun'.invariant (I := fun p => Gone k (c.shared.version k.tenant) p.shared)
      (gone_of_deletes hdeletes hminted) fun _ _ _ h hmove hfresh => h.moves hmove hfresh
  exact hgone.no_row n hn hle row hrow htoken

end

/-! ### Other tenants -/

/-- The part of `session_caller` that reads the row, by itself. -/
theorem run_readRow (now : Nat) (s : SessionState) (k : SessionKey) (g : Nat) :
    ((readRow k g).run (SessionState.answer now) s).1
      = ((s.current k.tenant).find k.token).elim (.error unauthenticated)
          fun row => .ok (callerOf row) := by
  have hanswer : SessionState.answer now s (.select k)
      = (.ok ((s.current k.tenant).find k.token), s) := rfl
  unfold readRow ask
  rw [Prog.bind_ask, Prog.run_ask, hanswer]
  cases (s.current k.tenant).find k.token with
  | none => rfl
  | some row =>
      show (Prog.run (SessionState.answer now) (if _ then _ else _) s).1 = _
      split <;> rfl

/-- Who a token is: the caller of an entry of the current generation that is not too old, or
else the one that the table names. -/
theorem callerNow_eq (now : Nat) (s : SessionState) (k : SessionKey) :
    s.callerNow now k =
      let named := ((s.current k.tenant).find k.token).elim (.error unauthenticated)
        fun row => .ok (callerOf row)
      if !TenantRouter.isSecret k.token then .error unauthenticated
      else match s.cache k with
        | none => named
        | some (g, entry) =>
            if g = s.gen k.tenant ∧ now - entry.since < sessionTtl then .ok entry.caller
            else named := by
  unfold SessionState.callerNow sessionCaller
  split
  · rfl
  · show (Prog.run (SessionState.answer now) (match s.cache k with
      | none => _
      | some (g, entry) => _) s).1 = _
    cases s.cache k with
    | none => exact run_readRow now s k _
    | some e =>
        show (Prog.run (SessionState.answer now)
          (if e.1 = s.gen k.tenant ∧ now - e.2.since < sessionTtl then _
            else readRow k (s.gen k.tenant)) s).1 = _
        dsimp only
        by_cases hhit : e.1 = s.gen k.tenant ∧ now - e.2.since < sessionTtl
        · rw [if_pos hhit, if_pos hhit]
          rfl
        · rw [if_neg hhit, if_neg hhit]
          exact run_readRow now s k _

/-- A bump does not change who the tokens of other tenants are. -/
theorem callerNow_bump (now : Nat) (s : SessionState) {t : String} {k : SessionKey}
    (hk : k.tenant ≠ t) : SessionState.callerNow now (s.bump t) k = s.callerNow now k := by
  obtain ⟨hgen, hcurrent, hcache⟩ := bump_of_ne s hk
  rw [callerNow_eq, callerNow_eq, hgen, hcurrent, hcache]

/-- In every run of sign-ins, requests, logouts and revocations of any tenants, in which no
secret is minted twice: a request that samples the session generation after a deletion of its
token and a bump is not admitted, and a bump does not change who the tokens of other tenants
are. -/
theorem revoked_never_admitted [DecidableEq ι] (rows : String → List SessionRow)
    (threads : ι → Thread) :
    (∀ k i action p, threads i = .request k action → SamplesAfterDelete rows threads k i p →
      ∀ q r p', Pool.Step env p ⟨i, q, r⟩ p' → ¬ NeedsAdmission q) ∧
    ∀ (p p' : Process ι) i t, Pool.Step env p ⟨i, .bump t, ()⟩ p' →
      ∀ (k : SessionKey) now, k.tenant ≠ t →
        p'.shared.callerNow now k = p.shared.callerNow now k := by
  refine ⟨fun k i action p hi hafter q r p' hstep => not_admitted_after hi hafter hstep, ?_⟩
  intro p p' i t hstep k now hk
  -- A bump writes the generation of its tenant only.
  have hshared : p'.shared = p.shared.bump t := hstep.answers
  rw [hshared]
  exact callerNow_bump now p.shared hk

/-! ### A logout and a request after it -/

/-- A session of the tenant `acme`. -/
def annsKey : SessionKey := ⟨"acme", "s1"⟩

/-- The rows at the start. -/
def annsRows (_ : String) : List SessionRow := [⟨"s1", some "ann", some "clerk", some "jwt"⟩]

/-- A request that fills the cache, a logout, and one more request. -/
def annsThreads : Fin 3 → Thread
  | 0 => .request annsKey .other
  | 1 => .request annsKey .logout
  | 2 => .request annsKey .other

/-- The process of `annsThreads` after a schedule. -/
def annsAfter (schedule : List (Fin 3)) : Process (Fin 3) :=
  Pool.played env (SessionState.answer 0) (start annsRows annsThreads) schedule

theorem answers_answer (s : SessionState) (q : SessionRequest) :
    SessionState.Answers s q (SessionState.answer 0 s q).1 (SessionState.answer 0 s q).2 := by
  cases q with
  | generation _ | lookup _ => exact ⟨rfl, rfl⟩
  | select _ => exact ⟨rfl, Or.inr (Or.inr rfl)⟩
  | insert _ _ _ | bump _ => rfl
  | deleteToken _ | deleteUser _ _ | create _ _ => exact Or.inl rfl
  | now | seedToken _ _ _ | serve _ _ | signin _ _ _ | appUser _ _ | mint _ => rfl

theorem three_threads : NeZero 3 := ⟨by decide⟩

/-- The first request was served, and the logout is admitted, by the cache. -/
def annsLogout : List (Fin 3) :=
  haveI := three_threads
  [0, 0, 0, 0, 0, 0, 0, 1, 1, 1, 1]

theorem revoked_never_admitted_ann : ∀ q r p', Pool.Step env
    (annsAfter (annsLogout ++ [1, 1, 2])) ⟨2, q, r⟩ p' → ¬ NeedsAdmission q := by
  have hrun : Run (Pool.Moves env) (start annsRows annsThreads) _ (annsAfter annsLogout) :=
    Pool.run_moves (Pool.run_play answers_answer annsLogout _)
  have hdelete : Pool.Step env (annsAfter annsLogout) ⟨1, .deleteToken annsKey, .ok ()⟩
      (annsAfter (annsLogout ++ [1])) := Pool.step_of_next? (i := 1) answers_answer rfl
  have hbump : Pool.Step env (annsAfter (annsLogout ++ [1])) ⟨1, .bump "acme", ()⟩
      (annsAfter (annsLogout ++ [1, 1])) := Pool.step_of_next? (i := 1) answers_answer rfl
  have hsample : Pool.Step env (annsAfter (annsLogout ++ [1, 1])) ⟨2, .generation "acme", (1 : Nat)⟩
      (annsAfter (annsLogout ++ [1, 1, 2])) := Pool.step_of_next? (i := 2) answers_answer rfl
  refine (revoked_never_admitted annsRows annsThreads).1 annsKey 2 .other _ rfl
    ⟨_, _, _, _, hrun, ⟨hdelete, Or.inl rfl, by decide +kernel, by decide +kernel⟩, ?_⟩
  exact ⟨[], [], [], _, _, _, _, _, _, .nil, hbump, trivial, rfl, .nil, hsample, trivial, rfl, rfl,
    .nil⟩

end Session

end Frust.Kernel
