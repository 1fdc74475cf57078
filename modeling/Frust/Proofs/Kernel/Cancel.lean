import Frust.Proofs.Kernel.Drain

/-!
# `Frust.Proofs.Kernel.Cancel`: contributions over a document's life

What a change takes away is computed again when the change is replayed. `bookings` remembers
under which memo each version of a document was added, and `Undone` asks that it is taken away
under a memo that gives the same. Then a rollup is the sum of what was last added for the
documents that are there (`worth_of_balanced`), and nothing when none is.

Contributions by item depend on the document alone. Contributions by customer group depend on
the group that the memo has, which a restart reads again (`not_contributions_cancel`).
-/

set_option autoImplicit false

namespace Frust.Kernel

open Frust.Lib Frust.Lib.Prog

namespace Aggregates

open Feed RollupState Frust.Rust.Str

/-- The changes that were counted, each with the memo of its batch. -/
def bookings (s : RollupState) : List (Memo × Change) :=
  s.committed.flatMap fun b => (b.1.flatMap FeedEntry.moves).map (b.2, ·)

/-- What every change of a batch takes away was added under a memo that gives the same. -/
def Undone (same : Memo → Memo → Json → Prop) : RollupState → Request → Prop
  | s, .apply _ _ vs => ∀ pre m post held,
      (s.pending vs).flatMap FeedEntry.moves = pre ++ m :: post →
      Run Move.Books [] (bookings s ++ pre.map (s.memo, ·)) held →
      ∀ p ∈ held, m.before = some p.1 → same p.2 s.memo p.1
  | _, _ => True

/-- What documents are worth, each under its memo. -/
def worthUnder (share : Share) (m : Memo) (doc : Json) : String → String → ℚ :=
  worthOf (known share m doc)

/-- The booked changes gain what the batches do. -/
theorem sum_bookings (share : Share) (s : RollupState) :
    ((bookings s).map fun e => e.2.gain (worthUnder share e.1)).sum
      = (s.committed.map fun b => gains share b.2 b.1).sum := by
  unfold bookings
  induction s.committed with
  | nil => rfl
  | cons b batches ih =>
      have hbatch : (((b.1.flatMap FeedEntry.moves).map (b.2, ·)).map
          fun e => e.2.gain (worthUnder share e.1)).sum = gains share b.2 b.1 := by
        rw [List.map_map]
        rfl
      rw [List.flatMap_cons, List.map_append, List.sum_append, hbatch, ih, List.map_cons,
        List.sum_cons]

section

variable {w : Contrib} {share : Share} {same : Memo → Memo → Json → Prop}
  {cond : RollupState → Request → Prop} {s t : RollupState}

/-- What is booked is worth what was gained. -/
def Balanced (share : Share) (s : RollupState) : Prop :=
  ∀ held, Run Move.Books [] (bookings s) held →
    Move.worth (worthUnder share) held = ((bookings s).map fun e => e.2.gain (worthUnder share e.1)).sum

theorem bookings_of_committed (h : t.committed = s.committed) : bookings t = bookings s := by
  unfold bookings
  rw [h]

theorem Balanced.of_committed (hs : Balanced share s) (h : t.committed = s.committed) :
    Balanced share t := by
  unfold Balanced
  rw [bookings_of_committed h]
  exact hs

/-- A batch that undoes what it takes away. -/
theorem Balanced.commit (hs : Balanced share s)
    (hsame : ∀ {m m' doc}, same m m' doc → share m doc = share m' doc) {rollup : String}
    {acc : Contribution} {vs : Nat} (hundo : Undone same s (.apply rollup acc vs)) :
    Balanced share (s.commit acc vs) := by
  have hbookings : bookings (s.commit acc vs)
      = bookings s ++ ((s.pending vs).flatMap FeedEntry.moves).map (s.memo, ·) := by
    show (s.committed ++ [(s.pending vs, s.memo)]).flatMap _ = _
    rw [List.flatMap_append, List.flatMap_singleton]
    rfl
  intro held' hrun
  rw [hbookings] at hrun ⊢
  obtain ⟨held, hbefore, hbatch⟩ := Run.append_inv hrun
  have hsteps : Run.Steps Move.Books held
      (fun held e _ => Move.Undoes (worthUnder share) held e)
      (((s.pending vs).flatMap FeedEntry.moves).map (s.memo, ·)) held' := by
    refine hbatch.steps_of_prefix fun pre e post held₁ hsplit hpre p hp hb => ?_
    obtain ⟨ms, rest, hms, rfl, hrest⟩ := List.map_eq_append_iff.mp hsplit
    obtain ⟨m, ms', rfl, rfl, rfl⟩ := List.map_eq_cons_iff.mp hrest
    have hgives := hsame (hundo ms m ms' held₁ hms (hbefore.append hpre) p hp hb)
    unfold worthUnder known
    rw [hgives]
  rw [Move.worth_of_steps _ hsteps, hs held hbefore, List.map_append, List.sum_append]

/-! ### What a worker asks -/

/-- A worker changes no rollup but its own. -/
def Own (w : Contrib) : Request → Prop
  | .apply r _ _ | .reset r => r = w.rollup
  | _ => True

variable (hown : ∀ doc, (w.contrib doc).Only (Own w))

include hown

theorem only_fold (docs : List (Json × Bool)) (acc : Contribution) :
    (fold w docs acc).Only (Own w) := by
  induction docs generalizing acc with
  | nil => trivial
  | cons d docs ih =>
      unfold fold
      exact (hown d.1).bind fun c => ih _

theorem only_applyBatch (entries : List Json) : (applyBatch w entries).Only (Own w) := by
  unfold applyBatch
  refine Only.bind (by simp) fun decoded => ?_
  exact (only_fold hown _ _).bind fun acc => ⟨rfl, fun r => trivial⟩

theorem only_tick (limit : Nat) : (tick w limit).Only (Own w) := by
  unfold tick
  refine Only.bind ⟨trivial, fun v => trivial⟩ fun cur => ⟨trivial, fun v => ?_⟩
  cases v with
  | error e => trivial
  | ok v =>
      dsimp only
      split
      · trivial
      · exact only_applyBatch hown _

theorem only_drain (fuel total : Nat) : (drain w fuel total).Only (Own w) := by
  induction fuel generalizing total with
  | zero => trivial
  | succ fuel ih =>
      unfold drain
      refine (only_tick hown 1000).bind fun n => ?_
      split
      · trivial
      · exact ih _

theorem only_recompute (fuel : Nat) : (recompute w fuel).Only (Own w) := by
  refine ⟨rfl, fun r => ?_⟩
  cases r with
  | error e => trivial
  | ok v => exact only_drain hown fuel 0

omit hown

/-! ### Runs -/

/-- What is booked stays worth what was gained, whatever a worker asks. -/
theorem Balanced.answers (hsame : ∀ {m m' doc}, same m m' doc → share m doc = share m' doc)
    (hundo : ∀ s q, cond s q → Undone same s q) {q : Request} {r : Answer q} (hq : Own w q)
    (hs : Balanced share s) (h : RollupState.Answers cond w s q r t) : Balanced share t := by
  obtain ⟨hcond, s₁, heffect, hothers⟩ := h
  refine Balanced.of_committed ?_ (grown_of_others hothers).committed
  cases q with
  | cursor _ => exact heffect.1 ▸ hs
  | showChanges _ _ _ => exact heffect.1 ▸ hs
  | «recall» _ => exact heffect.1 ▸ hs
  | hop _ _ => exact heffect.1 ▸ hs
  | keep c g =>
      cases heffect
      exact hs.of_committed rfl
  | apply rollup acc vs =>
      rcases heffect hq with rfl | ⟨rfl, _⟩
      · exact hs.commit hsame (hundo _ _ hcond)
      · exact hs
  | reset rollup =>
      rcases heffect hq with rfl | ⟨rfl, _⟩
      · intro held hrun
        cases Run.nil_inv hrun
        rfl
      · exact hs

/-- In every run, what is booked is worth what was gained. -/
theorem balanced_of_life (hown : ∀ doc, (w.contrib doc).Only (Own w))
    (hsame : ∀ {m m' doc}, same m m' doc → share m doc = share m' doc)
    (hundo : ∀ s q, cond s q → Undone same s q) {calls : List Call} (hs : Balanced share s)
    (h : Run (Life cond w) s calls t) : Balanced share t := by
  refine h.invariant hs fun a c b ha hstep => ?_
  have hkeep : ∀ a q r b, Own w q → Balanced share a → RollupState.Answers cond w a q r b →
      Balanced share b := fun a q r b hq ha hans => ha.answers hsame hundo hq hans
  cases c with
  | tick limit =>
      obtain ⟨es, p', hrun⟩ := hstep
      exact (((only_tick hown limit).always ha hkeep).of_run hrun).holds
  | drain fuel =>
      obtain ⟨es, p', hrun⟩ := hstep
      exact (((only_drain hown fuel 0).always ha hkeep).of_run hrun).holds
  | recompute fuel =>
      obtain ⟨es, p', hrun⟩ := hstep
      exact (((only_recompute hown fuel).always ha hkeep).of_run hrun).holds
  | restart => exact ha.of_committed (grown_of_others hstep).committed

/-- No document is left, or every one is booked with the memo under which it was added last. -/
theorem worth_of_balanced (hs : Balanced share s) (hinv : Inv (gains share) s) {live : List Json}
    (hlive : Run Move.Leads [] ((bookings s).map Prod.snd) live) :
    ∃ held, (held.map Prod.fst).Perm live ∧ Run Move.Books [] (bookings s) held ∧
      ∀ k f, (s.rollup k f).getD 0 = Move.worth (worthUnder share) held k f := by
  have hempty : (([] : List (Json × Memo)).map Prod.fst).Perm [] := .rfl
  obtain ⟨held, hbooks, hperm⟩ := Move.exists_books hlive hempty
  refine ⟨held, hperm, hbooks, fun k f => ?_⟩
  rw [hinv.amounts k f, ← sum_bookings, ← hs held hbooks]

/-- What a worker has booked, when it has caught up. -/
theorem bookings_of_caughtUp (hinv : Inv (gains share) s) (hupto : ∀ e ∈ s.feed, e.versionstamp ≤ s.at_) :
    (bookings s).map Prod.snd = s.feed.flatMap FeedEntry.moves := by
  have hall : s.feed.filter (fun e => decide (e.versionstamp ≤ s.at_)) = s.feed :=
    List.filter_eq_self.mpr fun e he => decide_eq_true (hupto e he)
  rw [← hall, ← hinv.entries]
  unfold bookings
  rw [List.map_flatMap, List.flatMap_assoc]
  refine List.flatMap_congr fun b _ => ?_
  rw [List.map_map]
  exact List.map_id _

end

/-! ### The two rollups -/

/-- A rollup of which contributions cancel. In every run whose batches add up and undo what they
take away, each bucket is the sum of what was last added for the documents that are there; and it
is zero when every document has been deleted and every entry counted. -/
def Cancels (w : Contrib) (share : Share) (same : Memo → Memo → Json → Prop) : Prop :=
  ∀ (s₀ : RollupState) (calls : List Call) (s : RollupState), Fresh s₀ →
    Run (Life (fun s q => AddsExactly share s q ∧ Undone same s q) w) s₀ calls s →
    (∀ live, Run Move.Leads [] ((bookings s).map Prod.snd) live →
      ∃ held, (held.map Prod.fst).Perm live ∧ Run Move.Books [] (bookings s) held ∧
        ∀ k f, (s.rollup k f).getD 0 = Move.worth (worthUnder share) held k f) ∧
    (Run Move.Leads [] (s.feed.flatMap FeedEntry.moves) [] →
      (∀ e ∈ s.feed, e.versionstamp ≤ s.at_) → ∀ k f, (s.rollup k f).getD 0 = 0)

theorem cancels {w : Contrib} {share : Share} {same : Memo → Memo → Json → Prop}
    (hw : Memoizes w share) (hown : ∀ doc, (w.contrib doc).Only (Own w))
    (hsame : ∀ {m m' doc}, same m m' doc → share m doc = share m' doc) :
    Cancels w share same := by
  intro s₀ calls s hfresh hlife
  have hinv : Inv (gains share) s := inv_of_life hw (fun _ _ _ h => books_of_exact h.1) (hfresh.inv _) hlife
  have hstart : Balanced share s₀ := by
    intro held hrun
    unfold bookings at hrun ⊢
    rw [hfresh.committed] at hrun ⊢
    cases Run.nil_inv hrun
    rfl
  have hbalanced : Balanced share s :=
    balanced_of_life hown hsame (fun _ _ h => h.2) hstart hlife
  refine ⟨fun live hlive => worth_of_balanced hbalanced hinv hlive, fun hgone hupto k f => ?_⟩
  rw [← bookings_of_caughtUp hinv hupto] at hgone
  obtain ⟨held, hperm, _, hworth⟩ := worth_of_balanced hbalanced hinv hgone
  rw [hworth k f, List.map_eq_nil_iff.mp (List.perm_nil.mp hperm)]
  rfl

/-- The memo has the same group for the customer of a document, or none in both. -/
def SameGroup (m m' : Memo) (doc : Json) : Prop :=
  ∀ customer, GroupRevenue.customerOf doc = some customer → m customer = m' customer

theorem SameGroup.share {m m' : Memo} {doc : Json} (h : SameGroup m m' doc) :
    GroupRevenue.share m doc = GroupRevenue.share m' doc := by
  unfold GroupRevenue.share
  split
  · rfl
  · rename_i customer hcustomer
    rw [h customer hcustomer]

theorem own_groupRevenue (g : GroupRevenue) (doc : Json) :
    (g.handler.contrib doc).Only (Own g.handler) := by
  unfold GroupRevenue.handler
  dsimp only
  split
  · trivial
  rename_i customer _
  refine Only.bind ?_ fun group => trivial
  unfold GroupRevenue.groupOf
  refine ⟨trivial, fun cached => ?_⟩
  cases cached with
  | some group => trivial
  | none =>
      refine Only.bind (by simp) fun rid => ?_
      split
      · trivial
      refine ⟨trivial, fun v => ?_⟩
      cases v with
      | error e => trivial
      | ok v => exact ⟨trivial, fun _ => trivial⟩

/-- Contributions by item always cancel. Those by customer group do as long as a version of a
document is taken away while its customer is remembered with the group under which the version
was added. -/
theorem contributions_cancel (g : GroupRevenue) (i : ItemSales) :
    Cancels g.handler GroupRevenue.share SameGroup ∧
      Cancels i.handler (fun _ doc => some (ItemSales.amounts doc)) fun _ _ _ => True :=
  ⟨cancels (memoizes_groupRevenue g) (own_groupRevenue g) SameGroup.share,
    cancels (memoizes_itemSales i) (fun _ => trivial) fun _ => rfl⟩

/-! ### A customer whose group was edited -/

/-- The revenue of invoices by the group of their customer. -/
def revenueByGroup : GroupRevenue := ⟨"invoice", "revenue_by_group", "grp"⟩

/-- An invoice. -/
def invoice : List (String × Json) :=
  [("id", .string "invoice:1"), ("customer", .string "customer:1"), ("total", .int 10)]

theorem one_lt_stamp : 1 < 2 ^ 63 := by decide

/-- Its creation, and its deletion. -/
def sold : FeedEntry := ⟨1, [.create invoice], Nat.one_pos, one_lt_stamp⟩

def withdrawn : FeedEntry := ⟨2, [.delete (.string "invoice:1") (.object invoice)], by decide, by decide⟩

/-- A feed with the invoice's creation, a customer of the first group, and no rollup yet. -/
def afterSale : RollupState where
  feed := [sold]
  hops := fun _ _ => .string "retail"
  ordered := by simp

/-- The process starts anew. Meanwhile the invoice was deleted, and the customer's group edited. -/
def regrouped (s : RollupState) : RollupState :=
  { s with
    feed := [sold, withdrawn]
    hops := fun _ _ => .string "wholesale"
    memo := fun _ => none
    ordered := by simp [sold, withdrawn] }

/-- A batch of one document of a customer that the memo does not have. -/
theorem runs_fold_one {g : GroupRevenue} {cond : RollupState → Request → Prop} {s : RollupState}
    {customer rid group : String} (doc : Json) (subtract : Bool)
    (hcustomer : GroupRevenue.customerOf doc = some customer) (hmemo : s.memo customer = none)
    (hrid : renderValue (.recordId customer) = .ok rid)
    (hhop : g.hop.toList.all (fun c => isAsciiAlphanumeric c || c = '_') = true)
    (hgroup : s.hops g.hop rid = .string group) (hrecall : cond s (.recall customer))
    (hask : cond s (.hop g.hop rid)) (hkeep : cond s (.keep customer group)) :
    ∃ es, Runs (RollupState.Answers cond g.handler) (fold g.handler [(doc, subtract)] []) s es
      (.done (.ok (addTo subtract [] [(group, GroupRevenue.amounts doc)])))
      { s with memo := Function.update s.memo customer (some group) } := by
  have hsame : ∀ u, Others u u := fun u => ⟨rfl, rfl, rfl, rfl, List.prefix_rfl⟩
  -- The group is looked up, asked for over the hop, and kept.
  have hgroupOf : ∃ es, Runs (RollupState.Answers cond g.handler) (g.groupOf customer) s es
      (.done (.ok group)) { s with memo := Function.update s.memo customer (some group) } := by
    refine ⟨[⟨.recall customer, none⟩, ⟨.hop g.hop rid, .ok (.string group)⟩,
      ⟨.keep customer group, ()⟩], ?_⟩
    have hkept : Exchange (RollupState.Answers cond g.handler)
        (.ask (.keep customer group) fun _ => (return group : Program String), s)
        ⟨.keep customer group, ()⟩
        (.done (.ok group), { s with memo := Function.update s.memo customer (some group) }) :=
      ⟨_, rfl, rfl, hkeep, _, rfl, hsame _⟩
    have hlook : Exchange (RollupState.Answers cond g.handler) (g.groupOf customer, s)
        ⟨.recall customer, none⟩ (.ask (.hop g.hop rid) fun (v : Except BrokerError Json) =>
          Prog.done v >>= fun v => .ask (.keep customer (v.asStr.getD "(none)")) fun _ =>
              return v.asStr.getD "(none)", s) := by
      refine ⟨_, rfl, ?_, hrecall, s, ⟨rfl, hmemo.symm⟩, hsame s⟩
      dsimp only
      rw [hrid, bind_ok, hhop]
      exact congrArg (Prog.ask _) (funext fun v => by cases v <;> rfl)
    exact Run.cons hlook (Run.cons
      ⟨_, rfl, rfl, hask, s, ⟨rfl, fun v hv => hgroup ▸ (Except.ok.inj hv).symm⟩, hsame s⟩
      (Run.single hkept))
  obtain ⟨es, hgroupOf⟩ := hgroupOf
  have hcontrib : g.handler.contrib doc
      = g.groupOf customer >>= fun group => return [(group, GroupRevenue.amounts doc)] := by
    simp only [GroupRevenue.handler, hcustomer]
  unfold fold
  rw [hcontrib]
  exact ⟨es ++ [] ++ [], runs_bind (runs_bind hgroupOf .nil) .nil⟩

/-- A batch with the invoice alone adds up. -/
theorem exact_invoice (m : Memo) {es : List FeedEntry} (subtract : Bool)
    (hes : docsOf (es.flatMap FeedEntry.moves) = [(.object invoice, subtract)]) :
    Exact GroupRevenue.share m es := by
  intro k f
  have hshare : known GroupRevenue.share m (.object invoice) = ((m "customer:1").map fun group =>
      [(group, [("revenue", ⟨10, 0⟩), ("n", ⟨1, 0⟩)])]).getD [] := rfl
  have hroom : ∀ d : Decimal, d = ⟨10, 0⟩ ∨ d = ⟨1, 0⟩ → AddsUp 0 0 [(subtract, d)] := by
    intro d hd
    rcases hd with rfl | rfl <;> cases subtract <;>
      norm_num [AddsUp, Decimal.Room, amountValue, Decimal.value, Decimal.minMantissa,
          Decimal.maxMantissa]
  rw [hes]
  unfold signedAmounts
  rw [List.flatMap_singleton, hshare]
  cases m "customer:1" with
  | none => trivial
  | some group =>
      by_cases hk : group = k
      · subst hk
        by_cases hrevenue : "revenue" = f
        · subst hrevenue
          simpa [slotAmounts] using hroom _ (Or.inl rfl)
        · by_cases hn : "n" = f
          · subst hn
            simpa [slotAmounts] using hroom _ (Or.inr rfl)
          · simp [slotAmounts, hrevenue, hn, AddsUp]
      · simp [slotAmounts, hk, AddsUp]

theorem runs_tick_invoice (cond : RollupState → Request → Prop) {s : RollupState} {e : FeedEntry}
    (group : String) (subtract : Bool) (hlt : s.at_ < 2 ^ 63)
    (hbatch : s.batch (s.at_ + 1) 1000 = [e])
    (hdocs : docsOf e.moves = [(.object invoice, subtract)]) (hmemo : s.memo "customer:1" = none)
    (hhops : s.hops = fun _ _ => .string group)
    (hask : ∀ u q, (∀ r acc vs, q ≠ .apply r acc vs) → cond u q)
    (happlied : ∀ acc, cond { s with memo := Function.update s.memo "customer:1" (some group) }
      (.apply revenueByGroup.rollup acc e.versionstamp)) :
    ∃ n es, Runs (RollupState.Answers cond revenueByGroup.handler)
      (tick revenueByGroup.handler 1000) s es (.done (.ok n))
      (({ s with memo := Function.update s.memo "customer:1" (some group) } : RollupState).commit
        (addTo subtract [] [(group, GroupRevenue.amounts (.object invoice))]) e.versionstamp) := by
  obtain ⟨rid, hrid⟩ : ∃ rid, renderValue (.recordId "customer:1") = .ok rid := ⟨_, rfl⟩
  have hone : docsOf ((s.batch (s.at_ + 1) 1000).flatMap FeedEntry.moves)
      = [(.object invoice, subtract)] := by
    rw [hbatch, List.flatMap_singleton, hdocs]
  obtain ⟨fs, hfold⟩ := runs_fold_one (g := revenueByGroup) (s := s) (.object invoice)
    subtract rfl hmemo hrid (by decide +kernel)
    (congrFun (congrFun hhops _) _) (hask _ _ (by simp)) (hask _ _ (by simp)) (hask _ _ (by simp))
  rw [← hone] at hfold
  obtain ⟨es, hrun⟩ := runs_tick hlt (by rw [hbatch]; rfl) hfold (hask _ _ (by simp))
    (hask _ _ (by simp)) (happlied _)
  exact ⟨_, es, hrun⟩

/-- What the first tick leaves. -/
def afterTick : RollupState :=
  ({ afterSale with memo := Function.update afterSale.memo "customer:1" (some "retail") } :
    RollupState).commit (addTo false [] [("retail", GroupRevenue.amounts (.object invoice))]) 1

theorem fresh_afterSale : Fresh afterSale := ⟨rfl, rfl, rfl⟩

/-- The revenue of a group whose customer has bought for ten. -/
theorem rollup_afterTick : afterTick.rollup "retail" "revenue" = some 10 := by
  have hslot : slot (addTo false [] [("retail", GroupRevenue.amounts (.object invoice))]) "retail"
      "revenue" = some ⟨10, 0⟩ := by decide +kernel
  unfold afterTick RollupState.commit
  dsimp only
  rw [hslot]
  simp [Decimal.value, afterSale]

/-- A run whose tick meets the condition: the bucket has what was added for the invoice. -/
theorem contributions_cancel_sale : ∃ s,
    Run (Life (fun s q => AddsExactly GroupRevenue.share s q ∧ Undone SameGroup s q)
      revenueByGroup.handler) afterSale [.tick 1000] s ∧
    ∃ held, (held.map Prod.fst).Perm [.object invoice] ∧ Run Move.Books [] (bookings s) held ∧
      ∀ k f, (s.rollup k f).getD 0 = Move.worth (worthUnder GroupRevenue.share) held k f := by
  -- the creation takes nothing away
  have hundone : ∀ m acc, Undone SameGroup { afterSale with memo := m } (.apply "" acc 1) := by
    intro m acc pre mv post held hsplit _ p _ hbefore
    have hmem : mv ∈ sold.moves := by
      have hsold : mv ∈ pre ++ mv :: post := by simp
      rw [← hsplit] at hsold
      exact hsold
    have hnone : mv.before = none := by
      rw [List.mem_singleton.mp hmem]
    rw [hnone] at hbefore
    cases hbefore
  obtain ⟨n, es, hrun⟩ := runs_tick_invoice
    (fun s q => AddsExactly GroupRevenue.share s q ∧ Undone SameGroup s q) (s := afterSale)
    (e := sold) "retail" false (by decide) rfl rfl rfl rfl
    (fun u q hne => by
      cases q with
      | apply r acc vs => exact absurd rfl (hne r acc vs)
      | _ => exact ⟨trivial, trivial⟩)
    fun acc => ⟨exact_invoice _ false rfl, hundone _ acc⟩
  have hlife : Run (Life (fun s q => AddsExactly GroupRevenue.share s q ∧ Undone SameGroup s q)
      revenueByGroup.handler) afterSale [.tick 1000] afterTick := Run.single ⟨es, _, hrun⟩
  have hcancels := (contributions_cancel revenueByGroup ⟨"invoice", "sales_by_item"⟩).1
  exact ⟨afterTick, hlife, (hcancels afterSale _ afterTick fresh_afterSale hlife).1 _
    (Run.single ⟨[], .rfl, .rfl⟩)⟩

/-- The group of the customer was edited between the two ticks, and the process started anew: the
invoice has been deleted and every entry counted, but the first group keeps its revenue. -/
theorem not_contributions_cancel : Fresh afterSale ∧ ∃ s,
    Run (Life (AddsExactly GroupRevenue.share) revenueByGroup.handler) afterSale
      [.tick 1000, .restart, .tick 1000] s ∧
    Run Move.Leads [] (s.feed.flatMap FeedEntry.moves) [] ∧
    (∀ e ∈ s.feed, e.versionstamp ≤ s.at_) ∧ (s.rollup "retail" "revenue").getD 0 ≠ 0 := by
  have hask : ∀ u q, (∀ r acc vs, q ≠ .apply r acc vs) → AddsExactly GroupRevenue.share u q := by
    intro u q hne
    cases q with
    | apply r acc vs => exact absurd rfl (hne r acc vs)
    | _ => trivial
  -- The first tick counts the sale for one group, the second takes it from the other.
  obtain ⟨n₁, es₁, hfirst⟩ := runs_tick_invoice (AddsExactly GroupRevenue.share) (s := afterSale)
    (e := sold) "retail" false (by decide) rfl rfl rfl rfl hask
    fun acc => exact_invoice _ false rfl
  obtain ⟨n₂, es₂, hsecond⟩ := runs_tick_invoice (AddsExactly GroupRevenue.share)
    (s := regrouped afterTick) (e := withdrawn) "wholesale" true (by decide) rfl rfl rfl
    rfl hask fun acc => exact_invoice _ true rfl
  have hrestart : Others { afterTick with memo := fun _ => none } (regrouped afterTick) :=
    ⟨rfl, rfl, rfl, rfl, [withdrawn], rfl⟩
  refine ⟨fresh_afterSale, _, Run.cons ⟨es₁, _, hfirst⟩ (Run.cons hrestart
    (Run.single ⟨es₂, _, hsecond⟩)), ?_, ?_, ?_⟩
  · have hleads : Move.Leads [] ⟨none, some (Json.object invoice)⟩ [Json.object invoice] :=
      ⟨[], .rfl, .rfl⟩
    exact Run.cons hleads (Run.single ⟨[], .rfl, .rfl⟩)
  · intro e he
    have hfeed : e ∈ [sold, withdrawn] := he
    show e.versionstamp ≤ 2
    rcases List.mem_pair.mp hfeed with rfl | rfl <;> decide
  · -- The second batch has nothing for the first group.
    have hslot : slot (addTo true [] [("wholesale", GroupRevenue.amounts (.object invoice))])
        "retail" "revenue" = none := by decide +kernel
    have hkept : ∀ m, ({ regrouped afterTick with memo := m }.commit
        (addTo true [] [("wholesale", GroupRevenue.amounts (.object invoice))]) 2).rollup "retail"
          "revenue" = some 10 := by
      intro m
      unfold RollupState.commit
      dsimp only
      rw [hslot]
      exact rollup_afterTick
    have hten := hkept (Function.update (regrouped afterTick).memo "customer:1" (some "wholesale"))
    intro hzero
    have hget := hzero.symm.trans (congrArg (Option.getD · 0) hten)
    norm_num at hget

end Aggregates

end Frust.Kernel
