import Frust.Proofs.Kernel.Rollup

/-!
# `Frust.Proofs.Kernel.Replay`: every entry is counted once

The batches that were committed are the entries up to the cursor, each once, and the rollup is
the sum of what they gain (`Inv`). A tick keeps this wherever it is cut off (`always_tick`), and
so does every run (`inv_of_life`).

A drain stops when a tick has decoded no changes. That is the end of the feed only if a batch
without changes is never followed by more entries (`Idle`).

A handler may look customers up, and its process remembers what it found. `Memoizes` says what
a handler contributes under a memo.
-/

set_option autoImplicit false

namespace Frust.Kernel

open Frust.Lib Frust.Lib.Prog

namespace Aggregates

open Feed RollupState

/-! ### Handlers -/

/-- A memo that remembers at least as much. -/
def Memo.Le (m m' : Memo) : Prop := ∀ c g, m c = some g → m' c = some g

theorem Memo.Le.refl (m : Memo) : m.Le m := fun _ _ h => h

theorem Memo.Le.trans {m m' m'' : Memo} (h : m.Le m') (h' : m'.Le m'') : m.Le m'' :=
  fun c g hc => h' c g (h c g hc)

/-- What a document contributes, where the memo knows enough. -/
abbrev Share := Memo → Json → Option Contribution

/-- The contribution, or nothing. -/
def known (share : Share) (m : Memo) (doc : Json) : Contribution := (share m doc).getD []

/-- What a worker leaves as it is while it reads. The memo and the feed grow. -/
structure Grown (s t : RollupState) : Prop where
  cursor : t.cursor = s.cursor
  rollup : t.rollup = s.rollup
  committed : t.committed = s.committed
  feed : s.feed <+: t.feed
  memo : s.memo.Le t.memo

theorem Grown.refl (s : RollupState) : Grown s s := ⟨rfl, rfl, rfl, List.prefix_rfl, .refl _⟩

theorem Grown.trans {s t u : RollupState} (h : Grown s t) (h' : Grown t u) : Grown s u :=
  ⟨h'.cursor.trans h.cursor, h'.rollup.trans h.rollup, h'.committed.trans h.committed,
    h.feed.trans h'.feed, h.memo.trans h'.memo⟩

theorem grown_of_others {s t : RollupState} (h : Others s t) : Grown s t :=
  ⟨h.1, h.2.1, h.2.2.2.1, h.2.2.2.2, h.2.2.1 ▸ .refl _⟩

/-- What a handler contributes under a memo: more memory does not change it, and the handler ends
with it under the memo that it leaves. -/
structure Memoizes (w : Contrib) (share : Share) : Prop where
  mono : ∀ {m m' : Memo} {doc : Json} {c : Contribution}, m.Le m' → share m doc = some c →
    share m' doc = some c
  always : ∀ (cond : RollupState → Request → Prop) (doc : Json) (s : RollupState),
    Always (RollupState.Answers cond w) (Grown s)
      (fun r t => ∀ c, r = .ok c → share t.memo doc = some c) (w.contrib doc) s

/-- A handler that contributes a function of the document. -/
theorem memoizes_pure {w : Contrib} {f : Json → Except BrokerError Contribution}
    (hf : ∀ doc, w.contrib doc = .done (f doc)) : Memoizes w fun _ doc => (f doc).toOption where
  mono _ h := h
  always cond doc s := by
    rw [hf]
    exact ⟨.refl s, fun c hc => by rw [hc]; rfl⟩

theorem memoizes_itemSales (i : ItemSales) :
    Memoizes i.handler fun _ doc => some (ItemSales.amounts doc) :=
  memoizes_pure (f := fun doc => .ok (ItemSales.amounts doc)) fun _ => rfl

/-- What a document contributes to its customer's group, where the memo knows the group. -/
def GroupRevenue.share : Share := fun m doc =>
  match GroupRevenue.customerOf doc with
  | none => some []
  | some customer => (m customer).map fun group => [(group, GroupRevenue.amounts doc)]

/-- A customer that was not in the memo. -/
theorem grown_of_keep {s : RollupState} {customer : String} (h : s.memo customer = none)
    (group : String) : Grown s { s with memo := Function.update s.memo customer (some group) } := by
  refine ⟨rfl, rfl, rfl, List.prefix_rfl, fun c g hc => ?_⟩
  have hne : c ≠ customer := by
    rintro rfl
    rw [h] at hc
    cases hc
  show Function.update s.memo customer (some group) c = some g
  rw [Function.update_of_ne hne]
  exact hc

theorem always_groupOf (g : GroupRevenue) (cond : RollupState → Request → Prop)
    (customer : String) (w : Contrib) (s : RollupState) :
    Always (RollupState.Answers cond w) (Grown s)
      (fun r t => ∀ group, r = .ok group → t.memo customer = some group) (g.groupOf customer) s := by
  unfold GroupRevenue.groupOf
  refine ⟨.refl s, fun cached t hans => ?_⟩
  obtain ⟨_, s₁, ⟨rfl, hcached⟩, hothers⟩ := hans
  have ht := grown_of_others hothers
  have hmemo : t.memo customer = cached := (congrFun hothers.2.2.1 customer).trans hcached.symm
  -- A group that is memoized is the one that is returned; otherwise it is looked up once, and kept.
  cases cached with
  | some group => exact ⟨ht, fun group' h => Except.ok.inj h ▸ hmemo⟩
  | none =>
      dsimp only
      cases renderValue (.recordId customer) with
      | error e => exact ⟨ht, fun group h => by cases h⟩
      | ok rid =>
          rw [bind_ok]
          split
          · exact ⟨ht, fun group h => by cases h⟩
          refine ⟨ht, fun v t₂ hans₂ => ?_⟩
          obtain ⟨_, t₁, ⟨rfl, _⟩, hothers₂⟩ := hans₂
          have ht₂ := ht.trans (grown_of_others hothers₂)
          cases v with
          | error e => exact ⟨ht₂, fun group h => by cases h⟩
          | ok v =>
              refine ⟨ht₂, fun _ u hans₃ => ?_⟩
              obtain ⟨_, u₁, rfl, hothers₃⟩ := hans₃
              -- Nothing was memoized since, so what is kept replaces nothing.
              have hnone : t₂.memo customer = none := (congrFun hothers₂.2.2.1 customer).trans hmemo
              have hkept := grown_of_keep hnone (v.asStr.getD "(none)")
              refine ⟨(ht₂.trans hkept).trans (grown_of_others hothers₃), fun group h => ?_⟩
              cases h
              rw [hothers₃.2.2.1]
              exact Function.update_self ..

theorem memoizes_groupRevenue (g : GroupRevenue) : Memoizes g.handler GroupRevenue.share where
  mono {m m' doc c} hle h := by
    unfold GroupRevenue.share at h ⊢
    split at h
    · exact h
    · obtain ⟨group, hgroup, rfl⟩ := Option.map_eq_some_iff.mp h
      rw [hle _ _ hgroup]
      rfl
  always cond doc s := by
    cases hcustomer : GroupRevenue.customerOf doc with
    -- A document without a customer has no share, whatever is memoized.
    | none =>
        have hcontrib : g.handler.contrib doc = .done (.ok []) := by
          simp only [GroupRevenue.handler, hcustomer]
          rfl
        have hshare : ∀ m, GroupRevenue.share m doc = some [] := by
          intro m
          simp only [GroupRevenue.share, hcustomer]
        rw [hcontrib]
        exact ⟨.refl s, fun c h => (hshare s.memo).trans (congrArg some (Except.ok.inj h))⟩
    -- With a customer, its share is that of the memoized group.
    | some customer =>
        have hcontrib : g.handler.contrib doc
            = g.groupOf customer >>= fun group => return [(group, GroupRevenue.amounts doc)] := by
          simp only [GroupRevenue.handler, hcustomer]
        have hshare : ∀ m, GroupRevenue.share m doc
            = (m customer).map fun group => [(group, GroupRevenue.amounts doc)] := by
          intro m
          simp only [GroupRevenue.share, hcustomer]
        rw [hcontrib]
        refine (always_groupOf g cond customer g.handler s).bind (fun group t ht hgroup => ?_)
          fun e t _ _ c h => (by cases h)
        refine ⟨ht, fun c h => ?_⟩
        cases h
        rw [hshare, hgroup group rfl]
        rfl

/-! ### The fold -/

/-- The loop over the documents of a batch: the sums under the memo that it leaves. -/
theorem always_fold {w : Contrib} {share : Share} (hw : Memoizes w share)
    (cond : RollupState → Request → Prop) (docs : List (Json × Bool)) (acc : Contribution)
    (s : RollupState) :
    Always (RollupState.Answers cond w) (Grown s)
      (fun r t => ∀ acc', r = .ok acc' → (∀ d ∈ docs, (share t.memo d.1).isSome) ∧
        acc' = sums (known share t.memo) docs acc) (fold w docs acc) s := by
  induction docs generalizing acc s with
  | nil => exact ⟨.refl s, fun acc' h => ⟨by simp, (Except.ok.inj h).symm⟩⟩
  | cons d docs ih =>
      unfold fold
      refine (hw.always cond d.1 s).bind (fun c t hst hc => ?_) fun e t _ _ acc' h => by cases h
      refine (ih (addTo d.2 acc c) t).mono (fun u hu => hst.trans hu) fun r u hu hpost acc' hr => ?_
      obtain ⟨hall, rfl⟩ := hpost acc' hr
      have hd : share u.memo d.1 = some c := hw.mono hu.memo (hc c rfl)
      refine ⟨fun d' hd' => ?_, ?_⟩
      · rcases List.mem_cons.mp hd' with rfl | hd'
        · rw [hd]
          rfl
        · exact hall d' hd'
      · have hknown : known share u.memo d.1 = c := by
          unfold known
          rw [hd]
          rfl
        unfold sums
        rw [List.foldl_cons, hknown]

/-! ### The invariant -/

/-- What the changes of entries gain under a memo, by key and field. -/
def gains (share : Share) (m : Memo) (es : List FeedEntry) : String → String → ℚ :=
  ((es.flatMap FeedEntry.moves).map (Move.gain fun d => worthOf (known share m d))).sum

theorem zero_value : Decimal.zero.value = 0 := by simp [Decimal.value, Decimal.zero]

/-- The amounts of entries add up under a memo, in every slot. -/
def Exact (share : Share) (m : Memo) (es : List FeedEntry) : Prop :=
  ∀ k f, AddsUp 0 0 (signedAmounts (known share m) (docsOf (es.flatMap FeedEntry.moves)) k f)

/-- What entries are counted for under a memo, by key and field. -/
abbrev Book := Memo → List FeedEntry → String → String → ℚ

/-- What the fold of a tick makes of entries. -/
def folded (share : Share) : Book := fun m es k f =>
  ((slot (sums (known share m) (docsOf (es.flatMap FeedEntry.moves)) []) k f).getD Decimal.zero).value

/-- The fold of the entries is what they are counted for. -/
def Books (book : Book) (share : Share) (m : Memo) (es : List FeedEntry) : Prop :=
  folded share m es = book m es

/-- Amounts that add up are worth what their changes gain. -/
theorem books_of_exact {share : Share} {m : Memo} {es : List FeedEntry} (h : Exact share m es) :
    Books (gains share) share m es := by
  funext k f
  have hslot := slot_sums (known share m) (docsOf (es.flatMap FeedEntry.moves)) [] k f
  have hadds : AddsUp ((slot [] k f).getD Decimal.zero).value 0 (signedAmounts
      (known share m) (docsOf (es.flatMap FeedEntry.moves)) k f) := by
    show AddsUp Decimal.zero.value 0 _
    rw [zero_value]
    exact h k f
  unfold folded
  rw [hslot, foldl_addSlot hadds, sum_signedAmounts]
  show Decimal.zero.value + gains share m es k f = _
  rw [zero_value, zero_add]

/-- Every entry up to the cursor was committed once, and the rollup is the sum of what the batches
are counted for, each under its memo. -/
structure Inv (book : Book) (s : RollupState) : Prop where
  entries : s.committed.flatMap (·.1) = s.feed.filter fun e => e.versionstamp ≤ s.at_
  amounts : ∀ k f, (s.rollup k f).getD 0 = (s.committed.map fun b => book b.2 b.1).sum k f
  cursor : s.at_ = 0 ∨ ∃ e ∈ s.feed, e.versionstamp = s.at_

section

variable {book : Book} {share : Share} {s t : RollupState}

theorem Grown.at_ (h : Grown s t) : t.at_ = s.at_ := congrArg (Option.getD · 0) h.cursor

/-- The entries up to a versionstamp of the feed stay the same as the feed grows. -/
theorem filter_grown (h : Grown s t) {a : Nat} (ha : a = 0 ∨ ∃ e ∈ s.feed, e.versionstamp = a)
    {p : FeedEntry → Bool} (hp : ∀ e, p e = true → e.versionstamp ≤ a) :
    t.feed.filter p = s.feed.filter p := by
  obtain ⟨new, hnew⟩ := h.feed
  have hordered := feed_ordered t
  rw [← hnew] at hordered ⊢
  have hnone : new.filter p = [] := by
    rw [List.filter_eq_nil_iff]
    intro e he hpe
    have hlate := later_of_append hordered ha he
    have hearly := hp e hpe
    omega
  rw [List.filter_append, hnone, List.append_nil]

theorem pending_grown (h : Grown s t) {vs : Nat} (hvs : ∃ e ∈ s.feed, e.versionstamp = vs) :
    t.pending vs = s.pending vs := by
  unfold pending
  rw [h.at_]
  exact filter_grown h (Or.inr hvs) fun e he => (of_decide_eq_true he).2

theorem Inv.grown (hinv : Inv book s) (h : Grown s t) : Inv book t where
  entries := by
    rw [h.committed, hinv.entries, h.at_]
    exact (filter_grown h hinv.cursor fun e he => of_decide_eq_true he).symm
  amounts k f := by
    rw [h.rollup, h.committed]
    exact hinv.amounts k f
  cursor := by
    rw [h.at_]
    exact hinv.cursor.imp_right fun ⟨e, he, hvs⟩ => ⟨e, h.feed.subset he, hvs⟩

/-- A commit of the sums of what is pending. -/
theorem Inv.commit (hinv : Inv book s) {vs : Nat} (hle : s.at_ ≤ vs)
    (hvs : ∃ e ∈ s.feed, e.versionstamp = vs) (hbooks : Books book share s.memo (s.pending vs)) :
    Inv book (s.commit (sums (known share s.memo)
      (docsOf ((s.pending vs).flatMap FeedEntry.moves)) []) vs) where
  entries := by
    show (s.committed ++ [(s.pending vs, s.memo)]).flatMap (·.1) = s.feed.filter _
    rw [List.flatMap_append, hinv.entries, List.flatMap_singleton]
    exact filter_split (feed_ordered s) hle
  amounts k f := by
    have hadded : ((s.commit (sums (known share s.memo)
        (docsOf ((s.pending vs).flatMap FeedEntry.moves)) []) vs).rollup k f).getD 0
          = (s.rollup k f).getD 0 + folded share s.memo (s.pending vs) k f := by
      unfold RollupState.commit folded
      dsimp only
      cases slot (sums (known share s.memo)
        (docsOf ((s.pending vs).flatMap FeedEntry.moves)) []) k f with
      | none =>
          show (s.rollup k f).getD 0 = (s.rollup k f).getD 0 + Decimal.zero.value
          rw [zero_value, add_zero]
      | some d => rfl
    rw [hadded, hinv.amounts k f, hbooks]
    show _ = ((s.committed ++ [(s.pending vs, s.memo)]).map fun b => book b.2 b.1).sum k f
    rw [List.map_append, List.sum_append]
    simp
  cursor := Or.inr hvs

end

/-! ### A tick -/

/-- A batch without changes is the end of the feed. -/
def Idle (s : RollupState) (since limit : Nat) : Prop :=
  (s.batch since limit).flatMap FeedEntry.moves = [] →
    ∀ e ∈ s.feed, since ≤ e.versionstamp → e ∈ s.batch since limit

/-- Every entry of a feed that was there after `s` is counted in `t`. -/
def CaughtUp (s t : RollupState) : Prop :=
  ∃ feed, s.feed <+: feed ∧ feed <+: t.feed ∧ (∀ e ∈ feed, e.versionstamp ≤ t.at_) ∧
    (t.at_ = 0 ∨ ∃ e ∈ feed, e.versionstamp = t.at_)

/-- The worker had caught up and committed nothing, or its cursor has moved on. -/
def MovedOn (s t : RollupState) : Prop := (CaughtUp s t ∧ t.at_ = s.at_) ∨ s.at_ < t.at_

/-- What a run keeps that a process makes: the invariant, what it has remembered, and that it
knows the documents of the batches it has committed. -/
structure Kept (book : Book) (share : Share) (s t : RollupState) : Prop where
  inv : Inv book t
  feed : s.feed <+: t.feed
  memo : s.memo.Le t.memo
  batches : ∃ new, t.committed = s.committed ++ new ∧ ∀ b ∈ new, b.2.Le t.memo ∧
    ∀ d ∈ docsOf (b.1.flatMap FeedEntry.moves), (share b.2 d.1).isSome

theorem Grown.kept {book : Book} {share : Share} {s t : RollupState} (h : Grown s t)
    (hinv : Inv book s) : Kept book share s t :=
  ⟨hinv.grown h, h.feed, h.memo, [], by rw [h.committed, List.append_nil], by simp⟩

theorem Kept.refl {book : Book} {share : Share} {s : RollupState} (hinv : Inv book s) :
    Kept book share s s :=
  (Grown.refl s).kept hinv

theorem Kept.trans {book : Book} {share : Share} {s t u : RollupState} (h : Kept book share s t)
    (h' : Kept book share t u) : Kept book share s u := by
  obtain ⟨new, hnew, hknown⟩ := h.batches
  obtain ⟨new', hnew', hknown'⟩ := h'.batches
  refine ⟨h'.inv, h.feed.trans h'.feed, h.memo.trans h'.memo, new ++ new', ?_, fun b hb => ?_⟩
  · rw [hnew', hnew, List.append_assoc]
  · rcases List.mem_append.mp hb with hb | hb
    · exact ⟨(hknown b hb).1.trans h'.memo, (hknown b hb).2⟩
    · exact hknown' b hb

section

variable {w : Contrib} {book : Book} {share : Share} {cond : RollupState → Request → Prop} {s : RollupState}

/-- The rest of a tick, with a batch of entries that is pending. -/
theorem always_applyBatch (hw : Memoizes w share)
    (hbooks : ∀ s acc vs, cond s (.apply w.rollup acc vs) → Books book share s.memo (s.pending vs))
    {es : List FeedEntry} {e : FeedEntry} (hlast : es.getLast? = some e)
    (hpending : s.pending e.versionstamp = es) (hmem : e ∈ s.feed) (hle : s.at_ ≤ e.versionstamp)
    (hinv : Inv book s) :
    Always (RollupState.Answers cond w) (Kept book share s)
      (fun r t => ∀ n, r = .ok n → n = (es.flatMap FeedEntry.moves).length ∧
        t.at_ = e.versionstamp) (applyBatch w (es.map FeedEntry.json)) s := by
  -- The entries are read back as they are in the feed.
  have hdecode : decodeEntries (es.map FeedEntry.json)
      = .ok (es.flatMap FeedEntry.moves, e.versionstamp) := by
    unfold decodeEntries
    rw [decodeFrom_json, hlast]
    rfl
  have hmid : ∀ t, Grown s t → Kept book share s t := fun t ht => ht.kept hinv
  unfold applyBatch
  rw [hdecode, bind_ok]
  have hfold : Always (RollupState.Answers cond w) (Kept book share s)
      (fun r t => Grown s t ∧ ∀ acc, r = .ok acc →
        (∀ d ∈ docsOf (es.flatMap FeedEntry.moves), (share t.memo d.1).isSome) ∧
          acc = sums (known share t.memo) (docsOf (es.flatMap FeedEntry.moves)) [])
      (fold w (docsOf (es.flatMap FeedEntry.moves)) []) s :=
    (always_fold hw cond (docsOf (es.flatMap FeedEntry.moves)) [] s).mono hmid
      fun r t ht hpost => ⟨ht, hpost⟩
  refine hfold.bind (fun acc t _ hpost => ?_) fun e' t _ _ n h => (by cases h)
  obtain ⟨ht, hacc⟩ := hpost
  obtain ⟨hknown, hacc⟩ := hacc acc rfl
  -- While the documents are folded the feed only grows behind the batch.
  have hpending' : t.pending e.versionstamp = es :=
    (pending_grown ht ⟨e, hmem, rfl⟩).trans hpending
  refine ⟨hmid t ht, fun r u hans => ?_⟩
  obtain ⟨hcond, t₁, heffect, hothers⟩ := hans
  have hu := grown_of_others hothers
  rcases heffect rfl with rfl | ⟨rfl, e', he'⟩
  · -- The books and the cursor move in one commit, so the invariant is back at once.
    have hcommit := (hinv.grown ht).commit (ht.at_.trans_le hle)
      ⟨e, ht.feed.subset hmem, rfl⟩ (hbooks t acc e.versionstamp hcond)
    rw [hpending', ← hacc] at hcommit
    have hbatch : Kept book share t (t.commit acc e.versionstamp) :=
      ⟨hcommit, List.prefix_rfl, .refl _, [(t.pending e.versionstamp, t.memo)], rfl, fun b hb => by
        rw [List.mem_singleton.mp hb, hpending']
        exact ⟨.refl _, hknown⟩⟩
    refine ⟨((hmid t ht).trans hbatch).trans (hu.kept hcommit), fun n hn => ⟨?_, hu.at_⟩⟩
    cases r with
    | error e' => cases hn
    | ok v => exact (Except.ok.inj hn).symm
  · -- A commit that fails changes nothing.
    refine ⟨hmid u (ht.trans hu), fun n hn => ?_⟩
    rw [he'] at hn
    cases hn

/-- The cursor is an integer of the database. -/
theorem Inv.at_lt (hinv : Inv book s) : s.at_ < 2 ^ 63 := by
  rcases hinv.cursor with h | ⟨e, _, he⟩
  · rw [h]
    norm_num
  · rw [← he]
    exact e.bounded

theorem cursor_read (hlt : s.at_ < 2 ^ 63) :
    (((Json.array (s.cursor.toList.map fun (vs : Nat) => .int vs)).rows.head?).bind asU64).getD 0
      = s.at_ := by
  unfold RollupState.at_ at hlt ⊢
  cases hcursor : s.cursor with
  | none => rfl
  | some vs =>
      rw [hcursor, Option.getD_some] at hlt
      have hread : (asU64 (.int vs)).getD 0 = vs := by
        rw [asU64_natCast (hlt.trans (by norm_num)), Option.getD_some]
      simpa [Json.rows] using hread

/-- A tick keeps the invariant wherever it is cut off. One that has decoded no changes has caught
up, if every idle batch is the end of the feed. One that returns has caught up, or has moved the
cursor on. -/
theorem always_tick (hw : Memoizes w share)
    (hbooks : ∀ s acc vs, cond s (.apply w.rollup acc vs) → Books book share s.memo (s.pending vs))
    (hinv : Inv book s) (limit : Nat) :
    Always (RollupState.Answers cond w) (Kept book share s)
      (fun r t => (r = .ok 0 →
        (∀ u since, cond u (.showChanges w.source since limit) → Idle u since limit) →
          CaughtUp s t) ∧ ∀ n, r = .ok n → 0 < limit → MovedOn s t) (tick w limit) s := by
  have hmid : ∀ t, Grown s t → Kept book share s t := fun t ht => ht.kept hinv
  refine ⟨hmid s (.refl s), fun v t₁ hans₁ => ?_⟩
  obtain ⟨_, s₁, ⟨rfl, hv⟩, hothers₁⟩ := hans₁
  have ht₁ := grown_of_others hothers₁
  cases v with
  | error e => exact ⟨hmid t₁ ht₁, fun h => (by cases h), fun n h => (by cases h)⟩
  | ok v =>
      have hsince : ((v.rows.head?.bind asU64).getD 0 + 1) % 2 ^ 64 = s₁.at_ + 1 := by
        have hlt := hinv.at_lt
        rw [hv rfl v rfl, cursor_read hlt]
        omega
      refine ⟨hmid t₁ ht₁, fun v' t₂ hans₂ => ?_⟩
      obtain ⟨hcond, s₂, ⟨rfl, hv'⟩, hothers₂⟩ := hans₂
      have ht₂ := grown_of_others hothers₂
      have ht := ht₁.trans ht₂
      cases v' with
      | error e => exact ⟨hmid t₂ ht, fun h => (by cases h), fun n h => (by cases h)⟩
      | ok v' =>
          have hrows : v'.rows = (s₂.batch (s₁.at_ + 1) limit).map FeedEntry.json := by
            rw [hv' rfl v' rfl, hsince]
            rfl
          rw [hsince] at hcond
          -- what an idle end of the feed leaves out was counted before
          have hearly : Idle s₂ (s₁.at_ + 1) limit →
              (s₂.batch (s₁.at_ + 1) limit).flatMap FeedEntry.moves = [] →
              ∀ e ∈ s₂.feed, e ∈ s₂.batch (s₁.at_ + 1) limit ∨ e.versionstamp ≤ s₁.at_ := by
            intro hidle hnone e he
            by_cases hlate : s₁.at_ + 1 ≤ e.versionstamp
            · exact Or.inl (hidle hnone e he hlate)
            · exact Or.inr (by omega)
          dsimp only
          rw [hrows]
          cases hlast : (s₂.batch (s₁.at_ + 1) limit).getLast? with
          | none =>
              have hnil := List.getLast?_eq_none_iff.mp hlast
              rw [hnil] at hearly ⊢
              have hcaught : Idle s₂ (s₁.at_ + 1) limit → CaughtUp s₁ t₂ := by
                intro hidle
                refine ⟨s₂.feed, ht₁.feed, ht₂.feed, fun e he => ?_, ?_⟩
                · rw [ht.at_]
                  exact (hearly hidle rfl e he).resolve_left (by simp)
                · rw [ht.at_]
                  exact hinv.cursor.imp_right fun ⟨e, he, hvs⟩ => ⟨e, ht₁.feed.subset he, hvs⟩
              refine ⟨hmid t₂ ht, fun _ hidle => hcaught (hidle s₂ _ hcond), fun n _ hlimit =>
                Or.inl ⟨hcaught fun _ e he hlate => ?_, ht.at_⟩⟩
              -- no entry follows, as the limit is not zero
              unfold RollupState.batch at hnil
              rw [List.take_eq_nil_iff] at hnil
              exact absurd (decide_eq_true hlate)
                (List.filter_eq_nil_iff.mp (hnil.resolve_left hlimit.ne') e he)
          | some e =>
              have hbatch : e ∈ s₂.batch (s₁.at_ + 1) limit := List.mem_of_getLast? hlast
              have hfilter := List.mem_filter.mp (List.mem_of_mem_take hbatch)
              have hle : s₁.at_ + 1 ≤ e.versionstamp := of_decide_eq_true hfilter.2
              have hmem : e ∈ s₂.feed := hfilter.1
              have hpending : t₂.pending e.versionstamp = s₂.batch (s₁.at_ + 1) limit := by
                rw [pending_grown ht₂ ⟨e, hmem, rfl⟩]
                rw [← ht₁.at_] at hlast ⊢
                exact pending_of_batch hlast
              have hne : ((s₂.batch (s₁.at_ + 1) limit).map FeedEntry.json).isEmpty = false := by
                rw [List.isEmpty_eq_false_iff, ne_eq, List.map_eq_nil_iff]
                exact List.ne_nil_of_mem hbatch
              rw [hne, if_neg (by decide)]
              refine (always_applyBatch hw hbooks hlast hpending (ht₂.feed.subset hmem)
                (by rw [ht.at_]; omega) (hmid t₂ ht).inv).mono
                (fun t h => (hmid t₂ ht).trans h) fun r t hinv' hpost => ⟨fun hr hidle => ?_,
                  fun n hr _ => Or.inr (by rw [(hpost n hr).2]; omega)⟩
              obtain ⟨hn, hat⟩ := hpost 0 hr
              have hnone := List.eq_nil_of_length_eq_zero hn.symm
              refine ⟨s₂.feed, ht₁.feed, ht₂.feed.trans hinv'.feed, fun e' he' => ?_,
                Or.inr ⟨e, hmem, hat.symm⟩⟩
              rw [hat]
              rcases hearly (hidle s₂ _ hcond) hnone e' he' with hin | hbefore
              · have hupto : e' ∈ t₂.pending e.versionstamp := hpending ▸ hin
                exact (of_decide_eq_true (List.mem_filter.mp hupto).2).2
              · omega

theorem others_refl (s : RollupState) : Others s s := ⟨rfl, rfl, rfl, rfl, List.prefix_rfl⟩

theorem runs_cursor (hlt : s.at_ < 2 ^ 63) (hread : cond s (.cursor w.rollup)) :
    Runs (RollupState.Answers cond w) (cursor w) s
      [⟨.cursor w.rollup, .ok (.array (s.cursor.toList.map fun (vs : Nat) => .int vs))⟩]
      (.done (.ok s.at_)) s := by
  refine Run.single ⟨_, rfl, ?_, hread, s, ⟨rfl, fun _ v hv => (Except.ok.inj hv).symm⟩,
    others_refl s⟩
  exact congrArg (fun n : Nat => (Prog.done (.ok n) : Program Nat)) (cursor_read hlt).symm

/-- The entries after the cursor are read. -/
theorem exchange_showChanges {limit : Nat} (hlt : s.at_ < 2 ^ 63)
    (hshow : cond s (.showChanges w.source (s.at_ + 1) limit)) :
    ∃ e, Exchange (RollupState.Answers cond w)
      (.ask (.showChanges w.source ((s.at_ + 1) % 2 ^ 64) limit) fun (v : Except BrokerError Json) =>
        match v with
        | .error e => .done (.error e)
        | .ok v => if v.rows.isEmpty then return 0 else applyBatch w v.rows, s) e
      (if ((s.batch (s.at_ + 1) limit).map FeedEntry.json).isEmpty then return 0
        else applyBatch w ((s.batch (s.at_ + 1) limit).map FeedEntry.json), s) := by
  have hsince : (s.at_ + 1) % 2 ^ 64 = s.at_ + 1 := by omega
  rw [hsince]
  exact ⟨⟨.showChanges w.source (s.at_ + 1) limit,
      .ok (.array ((s.batch (s.at_ + 1) limit).map FeedEntry.json))⟩, _, rfl, rfl, hshow, s,
    ⟨rfl, fun _ _ hv => (Except.ok.inj hv).symm⟩, others_refl s⟩

theorem runs_tick_idle {limit : Nat} (hlt : s.at_ < 2 ^ 63)
    (hnone : s.batch (s.at_ + 1) limit = []) (hread : cond s (.cursor w.rollup))
    (hshow : cond s (.showChanges w.source (s.at_ + 1) limit)) :
    ∃ es, Runs (RollupState.Answers cond w) (tick w limit) s es (.done (.ok 0)) s := by
  obtain ⟨e, hlook⟩ := exchange_showChanges hlt hshow
  rw [hnone] at hlook
  exact ⟨_, runs_bind (runs_cursor hlt hread) (Run.single hlook)⟩

/-- A tick whose requests are all answered. -/
theorem runs_tick {s₁ : RollupState} {limit : Nat} {e : FeedEntry} {acc : Contribution}
    {fs : List (Σ q, Answer q)} (hlt : s.at_ < 2 ^ 63)
    (hlast : (s.batch (s.at_ + 1) limit).getLast? = some e)
    (hfold : Runs (RollupState.Answers cond w)
      (fold w (docsOf ((s.batch (s.at_ + 1) limit).flatMap FeedEntry.moves)) []) s fs
      (.done (.ok acc)) s₁)
    (hread : cond s (.cursor w.rollup)) (hshow : cond s (.showChanges w.source (s.at_ + 1) limit))
    (happlied : cond s₁ (.apply w.rollup acc e.versionstamp)) :
    ∃ es, Runs (RollupState.Answers cond w) (tick w limit) s es
      (.done (.ok ((s.batch (s.at_ + 1) limit).flatMap FeedEntry.moves).length))
      (s₁.commit acc e.versionstamp) := by
  have hbusy : ¬ ((s.batch (s.at_ + 1) limit).map FeedEntry.json).isEmpty = true := by
    rw [List.isEmpty_iff, List.map_eq_nil_iff]
    exact List.ne_nil_of_mem (List.mem_of_getLast? hlast)
  have hdecode : decodeEntries ((s.batch (s.at_ + 1) limit).map FeedEntry.json)
      = .ok ((s.batch (s.at_ + 1) limit).flatMap FeedEntry.moves, e.versionstamp) := by
    unfold decodeEntries
    rw [decodeFrom_json, hlast]
    rfl
  -- the batch is applied
  have hbatch : ∃ es, Runs (RollupState.Answers cond w)
      (applyBatch w ((s.batch (s.at_ + 1) limit).map FeedEntry.json)) s es
      (.done (.ok ((s.batch (s.at_ + 1) limit).flatMap FeedEntry.moves).length))
      (s₁.commit acc e.versionstamp) := by
    unfold applyBatch
    rw [hdecode, bind_ok]
    have hcommit : Exchange (RollupState.Answers cond w)
        (.ask (.apply w.rollup acc e.versionstamp) fun (r : Except BrokerError Json) =>
          .done (r.map fun _ => ((s.batch (s.at_ + 1) limit).flatMap FeedEntry.moves).length), s₁)
        ⟨.apply w.rollup acc e.versionstamp, .ok .null⟩
        (.done (.ok ((s.batch (s.at_ + 1) limit).flatMap FeedEntry.moves).length),
          s₁.commit acc e.versionstamp) :=
      ⟨_, rfl, rfl, happlied, s₁.commit acc e.versionstamp, fun _ => Or.inl rfl, others_refl _⟩
    exact ⟨_, runs_bind hfold (Run.single hcommit)⟩
  obtain ⟨es, hbatch⟩ := hbatch
  obtain ⟨e', hlook⟩ := exchange_showChanges hlt hshow
  rw [if_neg hbusy] at hlook
  exact ⟨_, runs_bind (runs_cursor hlt hread) (Run.cons hlook hbatch)⟩

/-- A drain that returns has caught up, if every idle batch is the end of the feed. In any case
it has caught up or moved the cursor on. -/
theorem always_drain (hw : Memoizes w share)
    (hbooks : ∀ s acc vs, cond s (.apply w.rollup acc vs) → Books book share s.memo (s.pending vs))
    (fuel total : Nat) (hinv : Inv book s) :
    Always (RollupState.Answers cond w) (Kept book share s)
      (fun r t => ∀ n, r = .ok n →
        ((∀ u since, cond u (.showChanges w.source since 1000) → Idle u since 1000) →
          CaughtUp s t) ∧ MovedOn s t) (drain w fuel total) s := by
  -- On the fuel: a tick that moves nothing has caught up, and ends the drain.
  induction fuel generalizing s total with
  | zero => exact ⟨.refl hinv, fun n h => (by cases h)⟩
  | succ fuel ih =>
      unfold drain
      refine (always_tick hw hbooks hinv 1000).bind (fun n t ht hpost => ?_)
        fun e t _ _ n h => (by cases h)
      obtain ⟨hcaught, hmoved⟩ := hpost
      split
      · rename_i hn
        exact ⟨ht, fun _ _ => ⟨fun hidle => hcaught (by rw [hn]) hidle, hmoved n rfl (by decide)⟩⟩
      · refine (ih (total + n) ht.inv).mono (fun u hu => ht.trans hu) ?_
        intro r u hu hdone m hr
        obtain ⟨hcaught', hmoved'⟩ := hdone m hr
        -- What was in the feed at the start was in it at the tick.
        have hearlier : CaughtUp t u → CaughtUp s u := fun ⟨feed, hfirst, hrest⟩ =>
          ⟨feed, ht.feed.trans hfirst, hrest⟩
        refine ⟨fun hidle => hearlier (hcaught' hidle), ?_⟩
        rcases hmoved n rfl (by decide) with ⟨_, hsame⟩ | hlt
        · rcases hmoved' with ⟨hcaught', hsame'⟩ | hlt'
          · exact Or.inl ⟨hearlier hcaught', hsame'.trans hsame⟩
          · exact Or.inr (hsame ▸ hlt')
        · rcases hmoved' with ⟨_, hsame'⟩ | hlt'
          · exact Or.inr (hsame' ▸ hlt)
          · exact Or.inr (hlt.trans hlt')

/-! ### Runs -/

theorem Inv.cleared (s : RollupState) : Inv book s.cleared where
  entries := by
    have hnone : s.feed.filter (fun e => decide (e.versionstamp ≤ 0)) = [] := by
      rw [List.filter_eq_nil_iff]
      intro e _
      have := e.pos
      simp
      omega
    exact hnone.symm
  amounts k f := rfl
  cursor := Or.inl rfl

theorem Inv.restart (hinv : Inv book s) (m : Memo) : Inv book { s with memo := m } :=
  ⟨hinv.entries, hinv.amounts, hinv.cursor⟩

/-- A recompute that returns has caught up from the start of the feed. -/
theorem always_recompute (hw : Memoizes w share)
    (hbooks : ∀ s acc vs, cond s (.apply w.rollup acc vs) → Books book share s.memo (s.pending vs))
    (fuel : Nat) (hinv : Inv book s) :
    Always (RollupState.Answers cond w) (fun t => Inv book t ∧ s.feed <+: t.feed)
      (fun r t => ∀ n, r = .ok n →
        (∀ u since, cond u (.showChanges w.source since 1000) → Idle u since 1000) →
          CaughtUp s t) (recompute w fuel) s := by
  unfold recompute
  refine ⟨⟨hinv, List.prefix_rfl⟩, fun r t hans => ?_⟩
  obtain ⟨_, s₁, heffect, hothers⟩ := hans
  have ht := grown_of_others hothers
  have hkept : Inv book t ∧ s.feed <+: t.feed := by
    rcases heffect rfl with rfl | ⟨rfl, _⟩
    · exact ⟨(Inv.cleared s).grown ht, ht.feed⟩
    · exact ⟨hinv.grown ht, ht.feed⟩
  cases r with
  | error e => exact ⟨hkept, fun n h => (by cases h)⟩
  | ok v =>
      refine (always_drain hw hbooks fuel 0 hkept.1).mono
        (fun u hu => ⟨hu.inv, hkept.2.trans hu.feed⟩) fun r u hu hdone n hr hidle => ?_
      obtain ⟨feed, hfirst, hrest⟩ := (hdone n hr).1 hidle
      exact ⟨feed, hkept.2.trans hfirst, hrest⟩

/-- In every run, however often it is cut off, every entry up to the cursor is counted once. -/
theorem inv_of_life (hw : Memoizes w share)
    (hbooks : ∀ s acc vs, cond s (.apply w.rollup acc vs) → Books book share s.memo (s.pending vs))
    {calls : List Call} {t : RollupState} (hinv : Inv book s) (h : Run (Life cond w) s calls t) :
    Inv book t := by
  refine h.invariant hinv fun a c b ha hstep => ?_
  cases c with
  | tick limit =>
      obtain ⟨es, p', hrun⟩ := hstep
      exact ((always_tick hw hbooks ha limit).of_run hrun).holds.inv
  | drain fuel =>
      obtain ⟨es, p', hrun⟩ := hstep
      exact ((always_drain hw hbooks fuel 0 ha).of_run hrun).holds.inv
  | recompute fuel =>
      obtain ⟨es, p', hrun⟩ := hstep
      exact ((always_recompute hw hbooks fuel ha).of_run hrun).holds.1
  | restart => exact (ha.restart fun _ => none).grown (grown_of_others hstep)

end

end Aggregates

end Frust.Kernel
