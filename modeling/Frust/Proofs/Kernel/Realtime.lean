import Frust.Kernel.Realtime
import Mathlib.Data.List.DropRight

/-!
# `Frust.Proofs.Kernel.Realtime`: whose ticks a drain returns

Calls of any tenants run side by side, and each keeps what it was answered. `May` says what a
call asks by then, and `safe_program` proves it of one call alone. What is in the map, in the
buffers and in the hands of the calls is traced back from there to the call that opened it
(`Sound`), step by step. `drains_exact` says which ticks these are.
-/

set_option autoImplicit false

namespace Frust.Kernel

open Frust.Lib

namespace Subscriptions

variable {subs : Subscriptions} {id : String} {entry : String × Subscription}

theorem mem_of_mem_erase (h : entry ∈ subs.erase id) : entry ∈ subs := List.mem_of_mem_filter h

theorem mem_insert {sub : Subscription} (h : entry ∈ subs.insert id sub) :
    entry = (id, sub) ∨ entry ∈ subs := by
  cases h with
  | head => exact Or.inl rfl
  | tail _ h => exact Or.inr (mem_of_mem_erase h)

theorem mem_of_get {sub : Subscription} (h : subs.get id = some sub) : (id, sub) ∈ subs := by
  induction subs with
  | nil => cases h
  | cons head rest ih =>
      unfold get at h
      rw [List.lookup_cons] at h
      split at h
      · rename_i heq
        have hid : id = head.1 := by simpa using heq
        cases h
        rw [hid]
        exact List.mem_cons_self
      · exact List.mem_cons_of_mem _ (ih h)

/-- The map after the critical section of `unsubscribe`. -/
theorem subset_removeOwn {user : String} (h : entry ∈ (subs.removeOwn id user).2) :
    entry ∈ subs := by
  unfold removeOwn at h
  split at h
  · split at h
    · exact mem_of_mem_erase h
    · exact h
  · exact h

/-- What the critical section of `unsubscribe` takes out. -/
theorem removeOwn_inv {user : String} {sub : Subscription}
    (h : (subs.removeOwn id user).1 = .ok (some sub)) :
    subs.get id = some sub ∧ sub.user = user := by
  unfold removeOwn at h
  split at h
  · rename_i s hget
    split at h
    · rename_i huser
      cases h
      exact ⟨hget, huser⟩
    · cases h
  · cases h

end Subscriptions

namespace LiveState

variable {s s' : LiveState} {q : LiveRequest} {r : LiveAnswer q}

/-- The state holds no tick and no entry that `s` does not. -/
structure Within (s s' : LiveState) : Prop where
  subs : ∀ entry ∈ s'.subs, entry ∈ s.subs
  ticks : ∀ (conn : Nat) (line : LiveLine), s'.lines[conn]? = some line → ∀ tick ∈ line.ticks,
    ∃ line', s.lines[conn]? = some line' ∧ tick ∈ line'.ticks

theorem Within.refl (s : LiveState) : Within s s where
  subs _ h := h
  ticks _ line h _ ht := ⟨line, h, ht⟩

theorem Within.trans {s'' : LiveState} (h : Within s s') (h' : Within s' s'') :
    Within s s'' where
  subs entry he := h.subs entry (h'.subs entry he)
  ticks conn line hline tick ht := by
    obtain ⟨line', hline', ht'⟩ := h'.ticks conn line hline tick ht
    exact h.ticks conn line' hline' tick ht'

/-- A connection after a change of one. -/
theorem line_onLine {conn c : Nat} {f : LiveLine → LiveLine} {line : LiveLine}
    (h : (s.onLine conn f).lines[c]? = some line) :
    ∃ line', s.lines[c]? = some line' ∧ (line = line' ∨ (c = conn ∧ line = f line')) := by
  unfold onLine at h
  rw [List.getElem?_modify] at h
  cases hold : s.lines[c]? with
  | none => simp [hold] at h
  | some line' =>
      refine ⟨line', rfl, ?_⟩
      by_cases hc : conn = c
      · exact Or.inr ⟨hc.symm, by simpa [hold, hc] using h.symm⟩
      · exact Or.inl (by simpa [hold, hc] using h.symm)

/-- A change of a connection that adds no tick. -/
theorem within_onLine (conn : Nat) {f : LiveLine → LiveLine}
    (hf : ∀ line, ∀ tick ∈ (f line).ticks, tick ∈ line.ticks) : Within s (s.onLine conn f) where
  subs _ h := h
  ticks c line hline tick ht := by
    obtain ⟨line', hold, rfl | ⟨_, rfl⟩⟩ := line_onLine hline
    · exact ⟨line, hold, ht⟩
    · exact ⟨line', hold, hf line' tick ht⟩

theorem within_subs {subs : Subscriptions} (h : ∀ entry ∈ subs, entry ∈ s.subs) :
    Within s { s with subs := subs } where
  subs := h
  ticks _ line hline _ ht := ⟨line, hline, ht⟩

theorem within_removeAll (doomed : Subscriptions) (s : LiveState) :
    Within s (s.removeAll doomed) := by
  induction doomed generalizing s with
  | nil => exact .refl s
  | cons entry rest ih =>
      have herase : Within s { s with subs := s.subs.erase entry.1 } :=
        within_subs fun _ => Subscriptions.mem_of_mem_erase
      have hclose := within_onLine (s := { s with subs := s.subs.erase entry.1 }) entry.2.conn
        (f := fun line => { line with alive := false, ticks := [] }) (by simp)
      exact (herase.trans hclose).trans (ih _)

theorem within_meanwhile (h : Meanwhile s s') : Within s s' where
  subs entry he := h.1 ▸ he
  ticks conn line hline tick ht := by
    obtain ⟨hlen, hall⟩ := List.forall₂_iff_get.mp h.2.2
    obtain ⟨hlt', rfl⟩ := List.getElem?_eq_some_iff.mp hline
    have hlt : conn < s.lines.length := hlen ▸ hlt'
    refine ⟨s.lines[conn], List.getElem?_eq_getElem hlt, ?_⟩
    have hticks := (hall conn hlt hlt').1
    simp only [List.get_eq_getElem] at hticks
    rwa [← hticks]

/-- What is new in the map or in a buffer was put there by the request. -/
def Adds (s : LiveState) (q : LiveRequest) (s' : LiveState) : Prop :=
  (∀ entry ∈ s'.subs, entry ∈ s.subs ∨ ∃ at_, q = .insert entry.1 entry.2 at_) ∧
    ∀ (conn : Nat) (line : LiveLine), s'.lines[conn]? = some line → ∀ tick ∈ line.ticks,
      q = .push conn tick ∨ ∃ line', s.lines[conn]? = some line' ∧ tick ∈ line'.ticks

theorem Within.adds (h : Within s s') : Adds s q s' :=
  ⟨fun entry he => Or.inl (h.subs entry he), fun conn line hl tick ht =>
    Or.inr (h.ticks conn line hl tick ht)⟩

theorem Adds.within {s'' : LiveState} (h : Adds s q s') (h' : Within s' s'') :
    Adds s q s'' := by
  refine ⟨fun entry he => h.1 entry (h'.subs entry he), fun conn line hline tick ht => ?_⟩
  obtain ⟨line', hline', ht'⟩ := h'.ticks conn line hline tick ht
  exact h.2 conn line' hline' tick ht'

theorem mem_ticks_push {line : LiveLine} {tick t : Json} (h : t ∈ (line.push tick).ticks) :
    t = tick ∨ t ∈ line.ticks := by
  unfold LiveLine.push at h
  simp only [List.mem_append, List.mem_singleton] at h
  rcases h with h | h
  · split at h
    · exact Or.inr (List.mem_of_mem_tail h)
    · exact Or.inr h
  · exact Or.inl h

theorem adds_push (conn : Nat) (tick : Json) :
    Adds s (.push conn tick) (s.onLine conn (·.push tick)) := by
  refine ⟨fun _ h => Or.inl h, fun c line hline t ht => ?_⟩
  obtain ⟨line', hold, rfl | ⟨rfl, rfl⟩⟩ := line_onLine hline
  · exact Or.inr ⟨line, hold, ht⟩
  · rcases mem_ticks_push ht with rfl | ht
    · exact Or.inl rfl
    · exact Or.inr ⟨line', hold, ht⟩

theorem adds_insert (id : String) (sub : Subscription) (lastPolled : Nat) :
    Adds s (.insert id sub lastPolled)
      ({ s with subs := s.subs.insert id sub }.onLine sub.conn ({ · with lastPolled })) := by
  have hput : Adds s (.insert id sub lastPolled) { s with subs := s.subs.insert id sub } := by
    refine ⟨fun entry he => ?_, fun _ line hline _ ht => Or.inr ⟨line, hline, ht⟩⟩
    rcases Subscriptions.mem_insert he with rfl | he
    · exact Or.inr ⟨lastPolled, rfl⟩
    · exact Or.inl he
  exact hput.within (within_onLine _ fun _ _ h => h)

/-- A new connection has an empty buffer. -/
theorem within_connect : Within s { s with lines := s.lines ++ [{}] } where
  subs _ h := h
  ticks conn line hline tick ht := by
    rw [List.getElem?_append] at hline
    split at hline
    · exact ⟨line, hline, ht⟩
    · obtain ⟨_, rfl⟩ := List.getElem?_eq_some_iff.mp hline
      simp at ht

theorem Answers.adds (h : Answers s q r s') : Adds s q s' := by
  obtain ⟨s₁, heffect, hmeanwhile⟩ := h
  refine Adds.within ?_ (within_meanwhile hmeanwhile)
  cases q with
  | selectJwt _ _ => exact heffect ▸ (Within.refl s).adds
  | call _ _ _ => exact heffect ▸ (Within.refl s).adds
  | traceId => exact heffect ▸ (Within.refl s).adds
  | connect =>
      rcases heffect with ⟨_, _, rfl⟩ | ⟨_, rfl⟩
      · exact (Within.refl s₁).adds
      · exact within_connect.adds
  | countForTable _ _ => cases heffect; exact (Within.refl s).adds
  | now => cases heffect; exact (Within.refl s).adds
  | get _ => cases heffect; exact (Within.refl s).adds
  | isAlive _ => cases heffect; exact (Within.refl s).adds
  | doomed => cases heffect; exact (Within.refl s).adds
  | insert id sub lastPolled => cases heffect; exact adds_insert id sub lastPolled
  | push conn tick => cases heffect; exact adds_push conn tick
  | poll conn =>
      cases heffect
      exact (within_onLine conn (f := ({ · with lastPolled := s.now })) fun _ _ h => h).adds
  | take conn => cases heffect; exact (within_onLine conn (by simp)).adds
  | close conn =>
      cases heffect
      exact (within_onLine conn (f := ({ · with alive := false })) fun _ _ h => h).adds
  | removeOwn id user =>
      cases heffect
      exact (within_subs fun _ => Subscriptions.subset_removeOwn).adds
  | removeAll doomed => cases heffect; exact (within_removeAll doomed s).adds

theorem length_removeAll (doomed : Subscriptions) (s : LiveState) :
    (s.removeAll doomed).lines.length = s.lines.length := by
  induction doomed generalizing s with
  | nil => rfl
  | cons entry rest ih =>
      show ((LiveState.onLine _ _ _).removeAll rest).lines.length = _
      rw [ih]
      simp [onLine]

theorem Answers.length_le (h : Answers s q r s') : s.lines.length ≤ s'.lines.length := by
  obtain ⟨s₁, heffect, hmeanwhile⟩ := h
  rw [← hmeanwhile.2.2.length_eq]
  cases q with
  | selectJwt _ _ => exact heffect ▸ le_rfl
  | call _ _ _ => exact heffect ▸ le_rfl
  | traceId => exact heffect ▸ le_rfl
  | connect =>
      rcases heffect with ⟨_, _, rfl⟩ | ⟨_, rfl⟩
      · exact le_rfl
      · simp
  | removeAll doomed =>
      cases heffect
      exact (length_removeAll doomed s).ge
  | countForTable _ _ | now | get _ | isAlive _ | doomed | removeOwn _ _ =>
      cases heffect
      exact le_rfl
  | insert _ _ _ | push _ _ | poll _ | take _ | close _ =>
      cases heffect
      simp [onLine]

end LiveState

namespace Realtime

variable {ι : Type}

/-- What a call was asked and answered. -/
abbrev LiveAsked := Pool.Asked LiveRequest LiveAnswer

/-- The process, and what its calls keep. -/
def traffic : Env LiveRequest LiveAnswer LiveState (List LiveAsked) :=
  Pool.keeping LiveState.Answers

/-- The calls of a process. -/
abbrev LivePool (ι : Type) := Pool BrokerError LiveRequest LiveAnswer Json LiveState (List LiveAsked) ι

/-- A process at its start, with all calls that will come. -/
def start (calls : ι → Call) : LivePool ι where
  shared := {}
  prog i := (calls i).program
  known _ := []

/-! ### One call -/

/-- The call found the table below its budget. -/
def Passed (k : List LiveAsked) (tenant table : String) : Prop :=
  ∃ n < liveSubBudgetPerTable, ⟨.countForTable tenant table, n⟩ ∈ k

/-- The call put a subscription into the map. -/
def Inserted (k : List LiveAsked) : Prop := ∃ id sub at_, ⟨.insert id sub at_, ()⟩ ∈ k

/-- What a call asks, by what it was answered before. -/
def May (call : Call) (k : List LiveAsked) : LiveRequest → Prop
  | .insert _ sub _ => ∃ party token, call = .subscribe party token sub.table ∧
      sub.tenant = party.target.tenantId.asStr ∧ sub.user = party.user ∧
      ⟨.connect, .ok sub.conn⟩ ∈ k ∧ Passed k sub.tenant sub.table ∧ ¬Inserted k
  | .push conn tick => ∃ msg, call = .notify conn msg ∧ tickOf msg = some tick
  | .close conn => ∃ party id sub, call = .unsubscribe party id ∧
      ⟨.removeOwn id party.user, .ok (some sub)⟩ ∈ k ∧ sub.conn = conn
  | .removeOwn id user => ∃ party, call = .unsubscribe party id ∧ user = party.user
  | _ => True

/-- What a drain ends with: the buffer of the subscription it looked up, which is its user's. -/
def Ends (call : Call) (k : List LiveAsked) (r : Except BrokerError Json) : Prop :=
  ∀ party id reply, call = .events party id → r = .ok reply →
    ∃ sub events alive, ⟨.get id, some sub⟩ ∈ k ∧ sub.user = party.user ∧
      ⟨.take sub.conn, events⟩ ∈ k ∧ reply = eventsReply events alive

section

variable {call : Call} {k : List LiveAsked} {α : Type}
  {post : List LiveAsked → Except BrokerError α → Prop}

/-- A check, with what comes after it. -/
theorem safe_done_bind {β : Type} {x : Except BrokerError β} {f : β → LiveProg α}
    (herr : ∀ e, post k (.error e))
    (hf : ∀ b, x = .ok b → Pool.Safe traffic (fun _ _ _ => True) (May call) post k (f b)) :
    Pool.Safe traffic (fun _ _ _ => True) (May call) post k (.done x >>= f) := by
  cases x with
  | error e => exact herr e
  | ok b => exact hf b rfl

/-- A call to the database, with what comes after it. -/
theorem safe_rpc_bind {conn : Nat} {method : String} {params : Json} {f : Json → LiveProg α}
    (herr : ∀ k e, post k (.error e))
    (hf : ∀ r v, Pool.Safe traffic (fun _ _ _ => True) (May call) post
      (k ++ [⟨.call conn method params, r⟩]) (f v)) :
    Pool.Safe traffic (fun _ _ _ => True) (May call) post k (rpc conn method params >>= f) := by
  refine ⟨trivial, fun _ r _ _ _ => ?_⟩
  exact safe_done_bind (herr _) fun v _ => hf r v

theorem safe_openLive {party : Party} {token : Option String} {doctype jwt : String}
    (hcall : call = .subscribe party token doctype)
    (hpassed : Passed k party.target.tenantId.asStr doctype) (hnone : ¬Inserted k) :
    Pool.Safe traffic (fun _ _ _ => True) (May call) (fun _ _ => True) k
      (openLive party.user jwt party.target doctype) := by
  unfold openLive
  refine ⟨trivial, fun _ (r : Except BrokerError Nat) _ _ _ => ?_⟩
  refine safe_done_bind (fun _ => trivial) fun conn hr => ?_
  refine safe_rpc_bind (fun _ _ => trivial) fun _ _ => ?_
  refine safe_rpc_bind (fun _ _ => trivial) fun _ _ => ?_
  refine safe_done_bind (fun _ => trivial) fun _ _ => ?_
  refine safe_rpc_bind (fun _ _ => trivial) fun _ _ => ?_
  refine ⟨trivial, fun _ id _ _ _ => ⟨trivial, fun _ now _ _ _ => ⟨?_, fun _ _ _ _ _ => trivial⟩⟩⟩
  subst hr
  refine ⟨party, token, hcall, rfl, rfl, ?_, ?_, ?_⟩
  · simp [traffic, Pool.keeping]
  · obtain ⟨n, hn, hmem⟩ := hpassed
    refine ⟨n, hn, ?_⟩
    simp only [traffic, Pool.keeping, List.append_assoc]
    exact List.mem_append_left _ hmem
  · rintro ⟨id', sub, at_, hmem⟩
    simp only [traffic, Pool.keeping, List.append_assoc, List.mem_append] at hmem
    rcases hmem with hmem | hmem
    · exact hnone ⟨id', sub, at_, hmem⟩
    · simp at hmem

theorem safe_subscribe {party : Party} {token : Option String} {doctype jwt : String}
    (hcall : call = .subscribe party token doctype) (hnone : ¬Inserted k) :
    Pool.Safe traffic (fun _ _ _ => True) (May call) (fun _ _ => True) k
      (Realtime.subscribe party.user jwt party.target doctype) := by
  unfold Realtime.subscribe
  split
  · trivial
  · refine ⟨trivial, fun _ (count : Nat) _ _ _ => ?_⟩
    show Pool.Safe traffic _ _ _ _ (if liveSubBudgetPerTable ≤ count then _ else _)
    split
    · trivial
    · rename_i hcount
      refine safe_openLive hcall ⟨count, Nat.lt_of_not_le hcount, ?_⟩ ?_
      · simp [traffic, Pool.keeping]
      · rintro ⟨id, sub, at_, hmem⟩
        rcases List.mem_append.mp hmem with hmem | hmem
        · exact hnone ⟨id, sub, at_, hmem⟩
        · simp at hmem

theorem safe_sessionJwt (target : ResolvedTenant) (token : Option String) :
    Pool.Safe traffic (fun _ _ _ => True) (May call) (fun k' _ => Inserted k' → Inserted k) k
      (sessionJwt target token) := by
  unfold sessionJwt
  split
  · exact fun h => h
  · split
    · exact fun h => h
    · refine ⟨trivial, fun _ _ _ _ _ => ?_⟩
      rintro ⟨id, sub, at_, hmem⟩
      rcases List.mem_append.mp hmem with hmem | hmem
      · exact ⟨id, sub, at_, hmem⟩
      · simp at hmem

theorem safe_drain (party : Party) {id : String} :
    Pool.Safe traffic (fun _ _ _ => True) (May call)
      (fun k' r => ∀ events alive, r = .ok (events, alive) → ∃ sub, ⟨.get id, some sub⟩ ∈ k' ∧
        sub.user = party.user ∧ ⟨.take sub.conn, events⟩ ∈ k') k (drain id party.user) := by
  unfold drain
  refine ⟨trivial, fun _ (sub : Option Subscription) _ _ _ => ?_⟩
  cases sub with
  | none => exact fun _ _ h => by cases h
  | some sub =>
      show Pool.Safe traffic _ _ _ _ (if sub.user ≠ party.user then _ else _)
      split
      · exact fun _ _ h => by cases h
      · rename_i huser
        refine ⟨trivial, fun _ _ _ _ _ => ⟨trivial, fun _ events _ _ _ =>
          ⟨trivial, fun _ alive _ _ _ => ?_⟩⟩⟩
        intro events' alive' h
        cases h
        refine ⟨sub, ?_, not_not.mp huser, ?_⟩ <;> simp [traffic, Pool.keeping]

theorem safe_unsubscribe {party : Party} {id : String} (hcall : call = .unsubscribe party id) :
    Pool.Safe traffic (fun _ _ _ => True) (May call) (fun _ _ => True) k
      (Realtime.unsubscribe id party.user) := by
  unfold Realtime.unsubscribe
  refine ⟨⟨party, hcall, rfl⟩, fun _ (r : Except BrokerError (Option Subscription)) _ _ _ => ?_⟩
  match r with
  | .error _ => trivial
  | .ok none => trivial
  | .ok (some sub) =>
      refine ⟨⟨party, id, sub, hcall, ?_, rfl⟩, fun _ _ _ _ _ => trivial⟩
      simp [traffic, Pool.keeping]

theorem safe_sink {conn : Nat} {msg : Json} (hcall : call = .notify conn msg) :
    Pool.Safe traffic (fun _ _ _ => True) (May call) (fun _ _ => True) k (sink conn msg) := by
  unfold sink
  split
  · trivial
  · rename_i tick htick
    exact ⟨⟨msg, hcall, htick⟩, fun _ _ _ _ _ => trivial⟩

theorem safe_program (call : Call) :
    Pool.Safe traffic (fun _ _ _ => True) (May call) (Ends call) [] call.program := by
  cases call with
  | subscribe party token doctype =>
      have hends : ∀ k r, Ends (.subscribe party token doctype) k r := fun _ _ _ _ _ h => by cases h
      unfold Call.program
      refine safe_done_bind (fun _ => hends _ _) fun _ _ => ?_
      refine Pool.Safe.bind (safe_sessionJwt party.target token) (fun k jwt hnone => ?_)
        fun _ _ _ => hends _ _
      -- The token is checked before anything is inserted.
      have hempty : ¬Inserted k := fun h => by
        obtain ⟨_, _, _, hmem⟩ := hnone h
        cases hmem
      exact Pool.Safe.bind (safe_subscribe rfl hempty) (fun _ _ _ => hends _ _) fun _ _ _ => hends _ _
  | events party id =>
      unfold Call.program
      refine Pool.Safe.bind (safe_drain party) (fun k r hr => ?_) fun k e _ => ?_
      · intro party' id' reply hcall hreply
        cases hcall
        cases hreply
        -- The events that are handed out were taken from a subscription of the user.
        obtain ⟨sub, hget, huser, htake⟩ := hr r.1 r.2 rfl
        exact ⟨sub, r.1, r.2, hget, huser, htake, rfl⟩
      · exact fun _ _ _ _ h => by cases h
  | unsubscribe party id =>
      have hends : ∀ k r, Ends (.unsubscribe party id) k r := fun _ _ _ _ _ h => by cases h
      exact Pool.Safe.bind (safe_unsubscribe rfl) (fun _ _ _ => hends _ _) fun _ _ _ => hends _ _
  | notify conn msg =>
      have hends : ∀ k r, Ends (.notify conn msg) k r := fun _ _ _ _ _ h => by cases h
      exact Pool.Safe.bind (safe_sink rfl) (fun _ _ _ => hends _ _) fun _ _ _ => hends _ _
  | reap =>
      have hends : ∀ k r, Ends .reap k r := fun _ _ _ _ _ h => by cases h
      unfold Call.program Realtime.reap
      refine ⟨trivial, fun _ (doomed : Subscriptions) _ _ _ => ?_⟩
      show Pool.Safe traffic _ _ _ _ ((if doomed.isEmpty then _ else _) >>= _)
      split
      · exact hends _ _
      · exact ⟨trivial, fun _ _ _ _ _ => hends _ _⟩

end

/-! ### All calls -/

section

variable [DecidableEq ι] {calls : ι → Call} {p p' : LivePool ι}
  {t : Turn LiveRequest LiveAnswer ι}

/-- A subscription that a call of its user and tenant opened the connection of. -/
def Opened (calls : ι → Call) (p : LivePool ι) (sub : Subscription) : Prop :=
  ∃ i party token, calls i = .subscribe party token sub.table ∧
    party.target.tenantId.asStr = sub.tenant ∧ party.user = sub.user ∧
    ⟨.connect, .ok sub.conn⟩ ∈ p.known i

/-- A tick that a notification of the connection has put into its buffer. -/
def Notified (calls : ι → Call) (p : LivePool ι) (conn : Nat) (tick : Json) : Prop :=
  ∃ i msg, calls i = .notify conn msg ∧ tickOf msg = some tick ∧
    ⟨.push conn tick, ()⟩ ∈ p.known i

/-- A call that names a subscription of a user of the same name is of the same tenant. -/
def Named (calls : ι → Call) (p : LivePool ι) (t : Turn LiveRequest LiveAnswer ι)
    (_ : LivePool ι) : Prop :=
  ∀ party id sub, calls t.thread = .events party id ∨ calls t.thread = .unsubscribe party id →
    p.shared.subs.get id = some sub → sub.user = party.user →
      sub.tenant = party.target.tenantId.asStr

/-- Everything is traced back to the call that it comes from. -/
structure Sound (calls : ι → Call) (p : LivePool ι) : Prop where
  safe : ∀ i, Pool.Safe traffic (fun _ _ _ => True) (May (calls i)) (Ends (calls i)) (p.known i)
    (p.prog i)
  held : ∀ entry ∈ p.shared.subs, Opened calls p entry.2
  buffered : ∀ (conn : Nat) (line : LiveLine), p.shared.lines[conn]? = some line →
    ∀ tick ∈ line.ticks, Notified calls p conn tick
  got : ∀ i party id sub, calls i = .events party id → ⟨.get id, some sub⟩ ∈ p.known i →
    Opened calls p sub ∧ (sub.user = party.user → sub.tenant = party.target.tenantId.asStr)
  taken : ∀ i conn events, ⟨.take conn, events⟩ ∈ p.known i → ∀ tick ∈ events,
    Notified calls p conn tick
  made : ∀ i conn, ⟨.connect, .ok conn⟩ ∈ p.known i → conn < p.shared.lines.length
  once : ∀ i j conn, ⟨.connect, .ok conn⟩ ∈ p.known i → ⟨.connect, .ok conn⟩ ∈ p.known j → i = j
  removes : ∀ i id user r, ⟨.removeOwn id user, r⟩ ∈ p.known i →
    ∃ party, calls i = .unsubscribe party id ∧ user = party.user
  closes : ∀ i conn, ⟨.close conn, ()⟩ ∈ p.known i → ∃ party id sub,
    calls i = .unsubscribe party id ∧ ⟨.removeOwn id party.user, .ok (some sub)⟩ ∈ p.known i ∧
      sub.conn = conn
  closed : ∀ i party id sub, calls i = .unsubscribe party id →
    ⟨.removeOwn id party.user, .ok (some sub)⟩ ∈ p.known i → Opened calls p sub ∧
      sub.user = party.user ∧ sub.tenant = party.target.tenantId.asStr

theorem Opened.step (h : Pool.Step traffic p t p') {sub : Subscription} (ho : Opened calls p sub) :
    Opened calls p' sub := by
  obtain ⟨i, party, token, hcall, htenant, huser, hconn⟩ := ho
  exact ⟨i, party, token, hcall, htenant, huser, Pool.kept_mono h hconn⟩

theorem Notified.step (h : Pool.Step traffic p t p') {conn : Nat} {tick : Json}
    (hn : Notified calls p conn tick) : Notified calls p' conn tick := by
  obtain ⟨i, msg, hcall, htick, hpush⟩ := hn
  exact ⟨i, msg, hcall, htick, Pool.kept_mono h hpush⟩

theorem got_of_answers {s s' : LiveState} {id : String} {r : Option Subscription}
    (h : s.Answers (.get id) r s') : r = s.subs.get id := by
  obtain ⟨s₁, heffect, _⟩ := h
  cases heffect
  rfl

theorem taken_of_answers {s s' : LiveState} {conn : Nat} {events : List Json}
    (h : s.Answers (.take conn) events s') : ∀ tick ∈ events,
      ∃ line, s.lines[conn]? = some line ∧ tick ∈ line.ticks := by
  obtain ⟨s₁, heffect, _⟩ := h
  cases heffect
  intro tick htick
  cases hline : s.lines[conn]? with
  | none => simp [hline] at htick
  | some line => exact ⟨line, rfl, by simpa [hline] using htick⟩

theorem removed_of_answers {s s' : LiveState} {id user : String} {sub : Subscription}
    (h : s.Answers (.removeOwn id user) (.ok (some sub)) s') :
    s.subs.get id = some sub ∧ sub.user = user := by
  obtain ⟨s₁, heffect, _⟩ := h
  have hfst : Except.ok (some sub) = (s.subs.removeOwn id user).1 := congrArg Prod.fst heffect
  exact Subscriptions.removeOwn_inv hfst.symm

/-- The connection that a call is given is a new one. -/
theorem connected_of_answers {s s' : LiveState} {conn : Nat}
    (h : s.Answers .connect (.ok conn) s') :
    conn = s.lines.length ∧ s'.lines.length = conn + 1 := by
  obtain ⟨s₁, heffect, hmeanwhile⟩ := h
  rcases heffect with ⟨_, hr, _⟩ | ⟨hr, rfl⟩
  · cases hr
  · cases hr
    refine ⟨rfl, ?_⟩
    rw [← hmeanwhile.2.2.length_eq]
    simp

/-- A step keeps everything traced back. -/
theorem Sound.step (hs : Sound calls p) (h : Pool.Step traffic p t p')
    (hnamed : Named calls p t p') : Sound calls p' where
  safe i := Pool.Safe.step h trivial (hs.safe i)
  held entry he := by
    rcases h.answers.adds.1 entry he with he | ⟨at_, hq⟩
    · exact (hs.held entry he).step h
    · -- the call that inserts has connected before
      have hmay := Pool.Safe.asks h (hs.safe t.thread)
      rw [hq] at hmay
      obtain ⟨party, token, hcall, htenant, huser, hconn, _⟩ := hmay
      exact ⟨t.thread, party, token, hcall, htenant.symm, huser.symm, Pool.kept_mono h hconn⟩
  buffered conn line hline tick htick := by
    rcases h.answers.adds.2 conn line hline tick htick with hq | ⟨line', hline', htick'⟩
    · have hmay := Pool.Safe.asks h (hs.safe t.thread)
      rw [hq] at hmay
      obtain ⟨msg, hcall, hof⟩ := hmay
      refine ⟨t.thread, msg, hcall, hof, (Pool.mem_kept h).mpr (Or.inr ⟨rfl, ?_⟩)⟩
      obtain ⟨thread, request, answer⟩ := t
      cases hq
      rfl
    · exact (hs.buffered conn line' hline' tick htick').step h
  got i party id sub hcall hmem := by
    rcases (Pool.mem_kept h).mp hmem with hmem | ⟨rfl, hx⟩
    · obtain ⟨hopened, htenant⟩ := hs.got i party id sub hcall hmem
      exact ⟨hopened.step h, htenant⟩
    · have hans := h.answers
      obtain ⟨thread, request, answer⟩ := t
      cases hx
      have hget : p.shared.subs.get id = some sub := (got_of_answers hans).symm
      exact ⟨(hs.held _ (Subscriptions.mem_of_get hget)).step h,
        hnamed party id sub (Or.inl hcall) hget⟩
  taken i conn events hmem tick htick := by
    rcases (Pool.mem_kept h).mp hmem with hmem | ⟨rfl, hx⟩
    · exact (hs.taken i conn events hmem tick htick).step h
    · have hans := h.answers
      obtain ⟨thread, request, answer⟩ := t
      cases hx
      obtain ⟨line, hline, hin⟩ := taken_of_answers hans tick htick
      exact (hs.buffered conn line hline tick hin).step h
  made i conn hmem := by
    rcases (Pool.mem_kept h).mp hmem with hmem | ⟨rfl, hx⟩
    · exact Nat.lt_of_lt_of_le (hs.made i conn hmem) h.answers.length_le
    · have hans := h.answers
      obtain ⟨thread, request, answer⟩ := t
      cases hx
      rw [(connected_of_answers hans).2]
      exact Nat.lt_succ_self conn
  once i j conn hi hj := by
    -- the connection of this step is new
    have hnew : ∀ {k}, ⟨.connect, .ok conn⟩ ∈ p.known k →
        (⟨.connect, .ok conn⟩ : LiveAsked) ≠ ⟨t.request, t.answer⟩ := by
      intro k hk hx
      have hlt := hs.made k conn hk
      have hans := h.answers
      obtain ⟨thread, request, answer⟩ := t
      cases hx
      exact absurd (connected_of_answers hans).1 (Nat.ne_of_lt hlt)
    rcases (Pool.mem_kept h).mp hi with hi | ⟨rfl, hxi⟩
    · rcases (Pool.mem_kept h).mp hj with hj | ⟨rfl, hxj⟩
      · exact hs.once i j conn hi hj
      · exact absurd hxj (hnew hi)
    · rcases (Pool.mem_kept h).mp hj with hj | ⟨rfl, _⟩
      · exact absurd hxi (hnew hj)
      · rfl
  removes i id user r hmem := by
    rcases (Pool.mem_kept h).mp hmem with hmem | ⟨rfl, hx⟩
    · exact hs.removes i id user r hmem
    · have hmay := Pool.Safe.asks h (hs.safe t.thread)
      obtain ⟨thread, request, answer⟩ := t
      cases hx
      exact hmay
  closes i conn hmem := by
    rcases (Pool.mem_kept h).mp hmem with hmem | ⟨rfl, hx⟩
    · obtain ⟨party, id, sub, hcall, hremoved, hconn⟩ := hs.closes i conn hmem
      exact ⟨party, id, sub, hcall, Pool.kept_mono h hremoved, hconn⟩
    · have hmay := Pool.Safe.asks h (hs.safe t.thread)
      have hkept := fun x => Pool.kept_mono (i := t.thread) (x := x) h
      obtain ⟨thread, request, answer⟩ := t
      cases hx
      obtain ⟨party, id, sub, hcall, hremoved, hconn⟩ := hmay
      exact ⟨party, id, sub, hcall, hkept _ hremoved, hconn⟩
  closed i party id sub hcall hmem := by
    rcases (Pool.mem_kept h).mp hmem with hmem | ⟨rfl, hx⟩
    · obtain ⟨hopened, hparty⟩ := hs.closed i party id sub hcall hmem
      exact ⟨hopened.step h, hparty⟩
    · have hans := h.answers
      obtain ⟨thread, request, answer⟩ := t
      cases hx
      obtain ⟨hget, huser⟩ := removed_of_answers hans
      exact ⟨(hs.held _ (Subscriptions.mem_of_get hget)).step h, huser,
        hnamed party id sub (Or.inr hcall) hget huser⟩

omit [DecidableEq ι] in
theorem sound_start (calls : ι → Call) : Sound calls (start calls) where
  safe i := safe_program (calls i)
  held _ h := by cases h
  buffered _ _ h := by cases h
  got _ _ _ _ _ h := by cases h
  taken _ _ _ h := by cases h
  made _ _ h := by cases h
  once _ _ _ h := by cases h
  removes _ _ _ _ h := by cases h
  closes _ _ h := by cases h
  closed _ _ _ _ _ h := by cases h

end

/-! ### Isolation -/

/-- Tenant and user. -/
def Party.pair (party : Party) : String × String := (party.target.tenantId.asStr, party.user)

/-- A subscribe of this tenant and user was given the connection, and no other call. -/
def OpenedBy (calls : ι → Call) (p : LivePool ι) (pair : String × String) (conn : Nat) : Prop :=
  ∃ i party token doctype, calls i = .subscribe party token doctype ∧ party.pair = pair ∧
    ∀ j, ⟨.connect, .ok conn⟩ ∈ p.known j ↔ j = i

/-- Every drain returns only ticks of a connection that its own tenant and user opened, and
every unsubscribe takes out of the map and closes only such a connection. -/
def Isolated (calls : ι → Call) (p : LivePool ι) : Prop :=
  (∀ i party id reply, calls i = .events party id → p.prog i = .done (.ok reply) →
    ∃ conn ticks alive, reply = eventsReply ticks alive ∧ OpenedBy calls p party.pair conn ∧
      ∀ tick ∈ ticks, Notified calls p conn tick) ∧
  (∀ i id user sub, ⟨.removeOwn id user, .ok (some sub)⟩ ∈ p.known i →
    ∃ party, calls i = .unsubscribe party id ∧ OpenedBy calls p party.pair sub.conn) ∧
  ∀ i conn, ⟨.close conn, ()⟩ ∈ p.known i →
    ∃ party id, calls i = .unsubscribe party id ∧ OpenedBy calls p party.pair conn

section

variable [DecidableEq ι] {calls : ι → Call} {p : LivePool ι} {ts : List (Turn LiveRequest LiveAnswer ι)}

omit [DecidableEq ι] in
theorem Sound.openedBy (hs : Sound calls p) {sub : Subscription} {party : Party}
    (ho : Opened calls p sub) (huser : sub.user = party.user)
    (htenant : sub.tenant = party.target.tenantId.asStr) :
    OpenedBy calls p party.pair sub.conn := by
  obtain ⟨i, opener, token, hcall, htenant', huser', hconn⟩ := ho
  refine ⟨i, opener, token, sub.table, hcall, ?_, fun j => ⟨fun hj => hs.once j i _ hj hconn, ?_⟩⟩
  · unfold Party.pair
    rw [htenant', huser', huser, htenant]
  · rintro rfl
    exact hconn

/-- In a run in which every drain and unsubscribe that names a subscription of a user of the
same name is of the same tenant, what a drain returns and what an unsubscribe closes was opened
by the same tenant and user. -/
theorem subscriptions_isolated
    (h : Run.Steps (Pool.Step traffic) (start calls) (Named calls) ts p) : Isolated calls p := by
  -- Everything is traced back to the call that it comes from.
  have hs : Sound calls p := h.invariant (sound_start calls) fun _ _ _ ha hstep hnamed =>
    ha.step hstep hnamed
  refine ⟨?_, ?_, ?_⟩
  · intro i party id reply hcall hreply
    have hends := hs.safe i
    rw [hreply] at hends
    -- A reply has the ticks of the subscription that was looked up, when it is the user's.
    obtain ⟨sub, ticks, alive, hget, huser, htake, rfl⟩ := hends party id reply hcall rfl
    obtain ⟨hopened, htenant⟩ := hs.got i party id sub hcall hget
    exact ⟨sub.conn, ticks, alive, rfl, hs.openedBy hopened huser (htenant huser),
      hs.taken i sub.conn ticks htake⟩
  · intro i id user sub hmem
    -- What an unsubscribe removes is its caller's.
    obtain ⟨party, hcall, rfl⟩ := hs.removes i id user _ hmem
    obtain ⟨hopened, huser, htenant⟩ := hs.closed i party id sub hcall hmem
    exact ⟨party, hcall, hs.openedBy hopened huser htenant⟩
  · intro i conn hmem
    -- A connection is closed after its subscription was removed.
    obtain ⟨party, id, sub, hcall, hremoved, rfl⟩ := hs.closes i conn hmem
    obtain ⟨hopened, huser, htenant⟩ := hs.closed i party id sub hcall hremoved
    exact ⟨party, id, hcall, hs.openedBy hopened huser htenant⟩

end

/-! ### Two tenants with a user of one name -/

theorem meanwhile_refl (s : LiveState) : s.Meanwhile s := by
  refine ⟨rfl, le_rfl, ?_⟩
  exact List.forall₂_same.mpr fun _ _ => ⟨rfl, rfl, fun h => h⟩

theorem answers_answer (s : LiveState) (q : LiveRequest) :
    traffic.answers s q (s.answer q).1 (s.answer q).2 := by
  refine ⟨_, ?_, meanwhile_refl _⟩
  cases q with
  | connect => exact Or.inr ⟨rfl, rfl⟩
  | _ => rfl

/-- A tenant of the shared namespace. -/
def targetOf (name : String) (h : validName name = true) : ResolvedTenant where
  tenantId := ⟨⟨name, h⟩⟩
  placement := ⟨⟨⟨"frust", by decide +kernel⟩⟩, ⟨⟨name, h⟩⟩, none⟩
  strategy := .databasePerTenant ⟨⟨"frust", by decide +kernel⟩⟩

/-- Ann of acme, and Ann of globex. -/
def annOfAcme : Party := ⟨targetOf "acme" (by decide +kernel), "ann"⟩
def annOfGlobex : Party := ⟨targetOf "globex" (by decide +kernel), "ann"⟩

/-- A notification that a note was written. -/
def noteWritten : Json :=
  .object [("result", .object [("action", .string "CREATE"),
    ("result", .object [("id", .string "note:1")])])]

/-- Ann of acme subscribes and is notified, and someone drains. -/
def oneDrain (drainer : Party) : Fin 3 → Call
  | 0 => .subscribe annOfAcme (some "secret") "note"
  | 1 => .notify 0 noteWritten
  | 2 => .events drainer "1"

/-- The calls, one after the other. -/
def inTurn : List (Fin 3) := [0, 0, 0, 0, 0, 0, 0, 0, 0, 1, 2, 2, 2, 2]

/-- The process after them. -/
def afterDrain (drainer : Party) : LivePool (Fin 3) :=
  Pool.played traffic LiveState.answer (start (oneDrain drainer)) inTurn

/-- The tick of the note. -/
def noteTick : Json := .object [("action", .string "CREATE"), ("id", .string "note:1")]

/-- Whoever drains is handed the tick. -/
theorem drained (drainer : Party) (h : drainer = annOfAcme ∨ drainer = annOfGlobex) :
    (afterDrain drainer).prog 2 = .done (.ok (eventsReply [noteTick] true)) := by
  rcases h with rfl | rfl <;> rfl

/-- Ann of acme drains her own subscription. -/
theorem subscriptions_isolated_drain :
    (afterDrain annOfAcme).prog 2 = .done (.ok (eventsReply [noteTick] true)) ∧
      Isolated (oneDrain annOfAcme) (afterDrain annOfAcme) := by
  -- every subscription is of acme, and so is who drains
  have hacme : ∀ x ∈ Pool.play traffic LiveState.answer (start (oneDrain annOfAcme)) inTurn,
      ∀ entry ∈ x.1.shared.subs, entry.2.tenant = "acme" := by decide +kernel
  have hrun : Run.Steps (Pool.Step traffic) (start (oneDrain annOfAcme))
      (Named (oneDrain annOfAcme)) _ (afterDrain annOfAcme) :=
    Pool.steps_play answers_answer inTurn _ fun x hx party id sub hcall hget _ => by
      rw [hacme x hx _ (Subscriptions.mem_of_get hget)]
      match x.2.1.thread, hcall with
      | 2, .inl hcall => cases hcall; rfl
  exact ⟨drained _ (Or.inl rfl), subscriptions_isolated hrun⟩

/-- Ann of globex drains the subscription of Ann of acme, whose id she knows. -/
theorem not_subscriptions_isolated :
    ¬∀ (calls : Fin 3 → Call) ts p, Run (Pool.Step traffic) (start calls) ts p →
      Isolated calls p := by
  intro h
  have hrun : Run (Pool.Step traffic) (start (oneDrain annOfGlobex)) _ (afterDrain annOfGlobex) :=
    Pool.run_play answers_answer inTurn _
  obtain ⟨hdrain, _⟩ := h _ _ _ hrun
  obtain ⟨conn, _, _, _, ⟨i, opener, token, doctype, hcall, hpair, _⟩, _⟩ :=
    hdrain 2 annOfGlobex "1" _ rfl (drained _ (Or.inr rfl))
  -- only Ann of acme has subscribed
  match i, hcall with
  | 0, hcall =>
      cases hcall
      revert hpair
      decide +kernel
  | 1, hcall | 2, hcall => cases hcall

/-! ### What a drain returns -/

/-- The ticks of a connection that were not taken or thrown away so far, had the buffer no bound,
after one more request. There are none before the connection is made. -/
def pendingAfter (conn : Nat) (pending : Option (List Json)) :
    (q : LiveRequest) → LiveAnswer q → Option (List Json)
  | .connect, r => if r = .ok conn then some [] else pending
  | .push c tick, _ => if c = conn then pending.map (· ++ [tick]) else pending
  | .take c, _ => if c = conn then pending.map fun _ => [] else pending
  | .removeAll doomed, _ =>
      if doomed.any (·.2.conn = conn) then pending.map fun _ => [] else pending
  | _, _ => pending

/-- The same, after the turns of a run. -/
def pending (conn : Nat) (ts : List (Turn LiveRequest LiveAnswer ι)) : Option (List Json) :=
  ts.foldl (fun pending t => pendingAfter conn pending t.request t.answer) none

/-- The ticks in the buffer of a connection, if it was made. -/
def buffered (s : LiveState) (conn : Nat) : Option (List Json) := (s.lines[conn]?).map (·.ticks)

/-- As many of the ticks as a buffer keeps. -/
def kept (ticks : List Json) : List Json := ticks.rtake tickBufferCap

@[simp] theorem kept_nil : kept [] = [] := by simp [kept, List.rtake]

theorem push_rtake {α : Type} {n : Nat} (hn : 0 < n) (l : List α) (a : α) :
    (if (l.rtake n).length = n then (l.rtake n).tail else l.rtake n) ++ [a]
      = (l ++ [a]).rtake n := by
  have hlength : (l.rtake n).length = l.length - (l.length - n) := by
    rw [List.rtake, List.length_drop]
  by_cases hfull : n ≤ l.length
  · rw [if_pos (by omega), List.rtake, List.rtake, List.tail_drop, List.length_append,
      List.length_singleton, List.drop_append_of_le_length (by omega)]
    congr 2
    omega
  · rw [if_neg (by omega), List.rtake, List.rtake, List.length_append, List.length_singleton,
      Nat.sub_eq_zero_of_le (by omega), Nat.sub_eq_zero_of_le (by omega)]
    simp

theorem buffered_onLine {f : LiveLine → LiveLine} (g : List Json → List Json) (s : LiveState)
    (c conn : Nat) (h : ∀ line, (f line).ticks = g line.ticks) :
    buffered (s.onLine c f) conn
      = if c = conn then (buffered s conn).map g else buffered s conn := by
  unfold buffered LiveState.onLine
  rw [List.getElem?_modify]
  by_cases hc : c = conn
  · simp [hc, Function.comp_def, h]
  · simp [hc]

theorem buffered_meanwhile {s s' : LiveState} (h : s.Meanwhile s') (conn : Nat) :
    buffered s' conn = buffered s conn := by
  obtain ⟨hlength, hall⟩ := List.forall₂_iff_get.mp h.2.2
  unfold buffered
  by_cases hlt : conn < s.lines.length
  · have hlt' : conn < s'.lines.length := hlength ▸ hlt
    rw [List.getElem?_eq_getElem hlt, List.getElem?_eq_getElem hlt']
    exact congrArg some (hall conn hlt hlt').1
  · rw [List.getElem?_eq_none (by omega), List.getElem?_eq_none (by omega)]

theorem buffered_removeAll (doomed : Subscriptions) (s : LiveState) (conn : Nat) :
    buffered (s.removeAll doomed) conn
      = if doomed.any (·.2.conn = conn) then (buffered s conn).map fun _ => []
        else buffered s conn := by
  induction doomed generalizing s with
  | nil => rfl
  | cons entry rest ih =>
      show buffered (LiveState.removeAll (LiveState.onLine _ _ _) rest) conn = _
      rw [ih, buffered_onLine (fun _ => []) _ _ _ fun _ => rfl]
      by_cases hentry : entry.2.conn = conn
      · simp [hentry, buffered, Function.comp_def]
      · simp only [List.any_cons, decide_eq_false hentry, Bool.false_or, if_neg hentry]
        rfl

/-- A request does to the buffer what it does to the ticks, of which the last ones are kept. -/
theorem buffered_of_answers {s s' : LiveState} {q : LiveRequest} {r : LiveAnswer q}
    (h : s.Answers q r s') {conn : Nat} {ticks : Option (List Json)}
    (hs : buffered s conn = ticks.map kept) :
    buffered s' conn = (pendingAfter conn ticks q r).map kept := by
  obtain ⟨s₁, heffect, hmeanwhile⟩ := h
  rw [buffered_meanwhile hmeanwhile]
  cases q with
  | selectJwt _ _ | call _ _ _ | traceId => exact heffect ▸ hs
  | connect =>
      rcases heffect with ⟨e, rfl, rfl⟩ | ⟨rfl, rfl⟩
      · exact hs
      · -- the new connection has its place at the end
        show _ = (if Except.ok s.lines.length = Except.ok conn then some [] else ticks).map _
        by_cases hnew : s.lines.length = conn
        · subst hnew
          simp [buffered]
        · have hsame : (s.lines ++ [({} : LiveLine)])[conn]? = s.lines[conn]? := by grind
          rw [if_neg (by simpa using hnew), ← hs]
          unfold buffered
          rw [hsame]
  | countForTable _ _ | now | get _ | isAlive _ | doomed | removeOwn _ _ =>
      cases heffect
      exact hs
  | push c tick =>
      cases heffect
      -- a full buffer loses its oldest tick
      refine (buffered_onLine (fun ts => (if ts.length = tickBufferCap then ts.tail else ts) ++ [tick])
        s c conn fun _ => rfl).trans ?_
      rw [hs]
      show _ = (if c = conn then ticks.map (· ++ [tick]) else ticks).map _
      split
      · cases ticks with
        | none => simp only [Option.map_none]
        | some ts => exact congrArg some (push_rtake (by decide) ts tick)
      · rfl
  | take c =>
      cases heffect
      refine (buffered_onLine (fun _ => []) s c conn fun _ => rfl).trans ?_
      rw [hs]
      show _ = (if c = conn then ticks.map fun _ => [] else ticks).map _
      split
      · simp [Function.comp_def]
      · rfl
  | removeAll doomed =>
      cases heffect
      rw [buffered_removeAll]
      show _ = (if doomed.any (·.2.conn = conn) then ticks.map fun _ => [] else ticks).map _
      split
      · rw [hs]
        simp [Function.comp_def]
      · exact hs
  | insert _ _ _ | poll _ | close _ =>
      cases heffect
      rw [buffered_onLine id, Option.map_id, id, ite_self]
      · exact hs
      · exact fun _ => rfl

section

variable [DecidableEq ι] {calls : ι → Call} {p : LivePool ι}
  {ts : List (Turn LiveRequest LiveAnswer ι)}

/-- The buffer of a connection holds the last ticks of those that were not taken yet. -/
theorem buffered_eq (h : Run (Pool.Step traffic) (start calls) ts p) (conn : Nat) :
    buffered p.shared conn = (pending conn ts).map kept := by
  induction h with
  | nil => rfl
  | snoc _ hstep ih =>
      unfold pending at ih ⊢
      rw [List.foldl_append]
      exact buffered_of_answers hstep.answers ih

/-- Whatever calls run side by side, a drain returns what its connection was notified of since
its buffer was last emptied, in the order of the notifications: all of it, or the last
`TICK_BUFFER_CAP` ticks. So none is returned by two drains. -/
theorem drains_exact (h : Run (Pool.Step traffic) (start calls) ts p) {i : ι} {party : Party}
    {id : String} {reply : Json} (hcall : calls i = .events party id)
    (hreply : p.prog i = .done (.ok reply)) :
    ∃ conn before after ticks alive, ts = before ++ ⟨i, .take conn, ticks⟩ :: after ∧
      reply = eventsReply ticks alive ∧
      ticks = kept ((pending conn before).getD []) := by
  have hsafe : Pool.Safe traffic (fun _ _ _ => True) (May (calls i)) (Ends (calls i))
      (p.known i) (p.prog i) :=
    h.invariant (I := fun q => Pool.Safe traffic (fun _ _ _ => True) (May (calls i))
      (Ends (calls i)) (q.known i) (q.prog i)) (safe_program (calls i))
      fun _ _ _ ha hstep => Pool.Safe.step hstep trivial ha
  rw [hreply] at hsafe
  obtain ⟨sub, ticks, alive, _, _, htake, rfl⟩ := hsafe party id reply hcall rfl
  -- the turn in which it took them
  obtain ⟨before, after, rfl⟩ := Pool.exists_turn_of_kept h (List.not_mem_nil) htake
  refine ⟨sub.conn, before, after, ticks, alive, rfl, rfl, ?_⟩
  obtain ⟨a, b, hbefore, hstep, _⟩ := h.split
  obtain ⟨s₁, heffect, _⟩ := hstep.answers
  have hticks : ticks = (buffered a.shared sub.conn).getD [] := (Prod.mk.inj heffect).1
  rw [hticks, buffered_eq hbefore]
  cases pending sub.conn before with
  | none => exact kept_nil.symm
  | some ticks => simp only [Option.map_some, Option.getD_some]

end

theorem drains_exact_drain :
    ∃ conn before after ticks alive,
      (Pool.play traffic LiveState.answer (start (oneDrain annOfAcme)) inTurn).map (·.2.1)
        = before ++ ⟨2, .take conn, ticks⟩ :: after ∧
      eventsReply [noteTick] true = eventsReply ticks alive ∧
      ticks = kept ((pending conn before).getD []) :=
  drains_exact (Pool.run_play answers_answer inTurn _) rfl (drained annOfAcme (Or.inl rfl))

end Realtime

end Frust.Kernel
