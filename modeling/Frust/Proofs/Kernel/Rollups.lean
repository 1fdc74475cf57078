import Frust.Kernel.Rollups
import Frust.Proofs.Kernel.Replay
import Mathlib.Data.Fintype.BigOperators

/-!
# `Frust.Proofs.Kernel.Rollups`: every worker sees every change

The cursor of a rollup is moved by every worker that maintains it. If no two declared worker
aggregates name one rollup, what the others do leaves a worker's cursor, rows and batches alone
(`invs_of_maintain`), so that the invariant of one worker holds for all of them (`Invs`), and a
drain that returns has caught up or has moved the cursor on (`MovedOn`). After as many such drains
as a feed has entries, every entry is folded (`behind_of_turns`).

If two of them name one rollup, the worker that is drained first moves the cursor past what the
other has not read (`not_foldsAll`).
-/

set_option autoImplicit false

namespace Frust.Kernel

open Frust.Lib Frust.Lib.Prog

namespace Aggregates

open Feed RollupState

/-! ### Handlers -/

/-- What a document contributes. -/
def RollupHandler.share : RollupHandler → Share
  | groupRevenue _ => GroupRevenue.share
  | itemSales _ => fun _ doc => some (ItemSales.amounts doc)

theorem RollupHandler.memoizes (h : RollupHandler) : Memoizes h.contrib h.share :=
  match h with
  | groupRevenue g => memoizes_groupRevenue g
  | itemSales i => memoizes_itemSales i

/-! ### What the workers are for -/

/-- What the batches of worker `i` are counted for. -/
def counted (s : Maintenance) (i : Nat) (h : RollupHandler) (k f : String) : ℚ :=
  ((s.batches i).map fun b => folded h.share b.2 b.1).sum k f

/-- A worker has folded entries of its source in their order, each once, and the rows of its
rollup are the sums of what the workers of the rollup have folded. -/
structure Folds (ws : List RollupHandler) (s : Maintenance) (i : Nat) (h : RollupHandler) :
    Prop where
  once : (s.batches i).flatMap (·.1) <+: s.feeds h.contrib.source
  amounts : ∀ k f, (s.rollups h.contrib.rollup k f).getD 0 = ∑ j : Fin ws.length,
    if (ws.get j).contrib.rollup = h.contrib.rollup then counted s j (ws.get j) k f else 0

/-- A drain of worker `i` that has returned. -/
def Turn.returns (i : Nat) : Turn → Bool
  | drain j _ (some (.ok _)) => i = j
  | _ => false

/-- How many drains of worker `i` have returned. -/
def drained (i : Nat) (turns : List Turn) : Nat := turns.countP (Turn.returns i)

/-- In every run, every worker folds the changes of its source once, and all that a feed holds
once it has been drained as often as the feed has entries. -/
def FoldsAll (ws : List RollupHandler) : Prop :=
  ∀ s turns a turns' t, s.Fresh → Run (Maintain ws) s turns a → Run (Maintain ws) a turns' t →
    ∀ i h, ws[i]? = some h → Folds ws t i h ∧
      ((a.feeds h.contrib.source).length ≤ drained i turns' →
        a.feeds h.contrib.source <+: (t.batches i).flatMap (·.1))

/-- No two workers maintain one rollup. -/
def Distinct (ws : List RollupHandler) : Prop := (ws.map fun h => h.contrib.rollup).Nodup

/-! ### What one worker meets of the others -/

section

variable {ws : List RollupHandler} {s t : Maintenance} {i j : Nat} {h h' : RollupHandler}

theorem Distinct.ne (hws : Distinct ws) (hi : ws[i]? = some h) (hj : ws[j]? = some h')
    (hne : i ≠ j) : h.contrib.rollup ≠ h'.contrib.rollup := by
  intro heq
  have hlt : i < (ws.map fun h => h.contrib.rollup).length := by
    rw [List.length_map]
    exact (List.getElem?_eq_some_iff.mp hi).1
  refine hne ((List.getElem?_inj hlt hws).mp ?_)
  rw [List.getElem?_map, List.getElem?_map, hi, hj, Option.map_some, Option.map_some, heq]

/-- A request of a worker leaves the workers of other rollups alone. -/
theorem grown_of_leaves {w w' : Contrib} (hleaves : Maintenance.Leaves i w.rollup s t)
    (hne : j ≠ i) (hrollup : w'.rollup ≠ w.rollup) : Grown (s.view j w') (t.view j w') where
  cursor := hleaves.cursors _ hrollup
  rollup := hleaves.rollups _ hrollup
  committed := hleaves.batches _ hne
  feed := hleaves.feeds _
  memo := by
    show Memo.Le (s.memos j) (t.memos j)
    rw [hleaves.memos j hne]
    exact .refl _

theorem grown_of_runs {w w' : Contrib} {p p' : Program Nat} {es : List (Σ q, Answer q)}
    (hrun : Runs (Maintenance.Answers i w) p s es p' t) (hne : j ≠ i)
    (hrollup : w'.rollup ≠ w.rollup) : Grown (s.view j w') (t.view j w') := by
  refine runs_invariant (I := fun u => Grown (s.view j w') (u.view j w')) ?_ hrun (.refl _)
  intro u q r u' hu hans
  exact hu.trans (grown_of_leaves hans.2 hne hrollup)

/-- What worker `i` itself sees of its run. -/
theorem runs_view {w : Contrib} {p p' : Program Nat} {es : List (Σ q, Answer q)}
    (hrun : Runs (Maintenance.Answers i w) p s es p' t) :
    Runs (RollupState.Answers (fun _ _ => True) w) p (s.view i w) es p' (t.view i w) :=
  runs_map (·.view i w) (fun _ _ _ _ hans => hans.1) hrun

end

/-! ### Progress -/

section

variable {book : Book} {share : Share} {s t : RollupState} {feed : List FeedEntry}

/-- A process never moves the cursor back. -/
theorem Kept.at_le (h : Kept book share s t) (hinv : Inv book s) : s.at_ ≤ t.at_ := by
  rcases hinv.cursor with hzero | ⟨e, he, hvs⟩
  · omega
  · obtain ⟨new, hnew, _⟩ := h.batches
    have hbefore : e ∈ s.committed.flatMap (·.1) := by
      rw [hinv.entries, List.mem_filter]
      exact ⟨he, decide_eq_true hvs.le⟩
    have hafter : e ∈ t.feed.filter fun e => e.versionstamp ≤ t.at_ := by
      rw [← h.inv.entries, hnew, List.flatMap_append]
      exact List.mem_append_left _ hbefore
    rw [← hvs]
    exact of_decide_eq_true (List.mem_filter.mp hafter).2

/-- How many entries of a feed are not counted yet. -/
def behind (feed : List FeedEntry) (s : RollupState) : Nat :=
  feed.countP fun e => s.at_ < e.versionstamp

theorem behind_le (feed : List FeedEntry) (h : s.at_ ≤ t.at_) :
    behind feed t ≤ behind feed s := by
  refine List.countP_mono_left fun e _ he => ?_
  exact decide_eq_true (h.trans_lt (of_decide_eq_true he))

theorem behind_eq_zero : behind feed s = 0 ↔ ∀ e ∈ feed, e.versionstamp ≤ s.at_ := by
  unfold behind
  rw [List.countP_eq_zero]
  simp

/-- A drain that has moved on has fewer entries left, or none. -/
theorem behind_of_movedOn (hfeed : feed <+: s.feed) (hgrown : s.feed <+: t.feed)
    (hinv : Inv book t) (h : MovedOn s t) :
    behind feed t = 0 ∨ behind feed t < behind feed s := by
  rcases h with ⟨⟨feed', hfirst, _, hupto, _⟩, _⟩ | hlt
  · exact Or.inl (behind_eq_zero.mpr fun e he => hupto e ((hfeed.trans hfirst).subset he))
  rcases hinv.cursor with hzero | ⟨e, he, hvs⟩
  · omega
  by_cases hmem : e ∈ feed
  · right
    obtain ⟨pre, post, rfl⟩ := List.append_of_mem hmem
    have hpre := behind_le pre hlt.le
    have hpost := behind_le post hlt.le
    unfold behind at hpre hpost ⊢
    simp only [List.countP_append, List.countP_cons]
    have hnow : ¬ t.at_ < e.versionstamp := by omega
    have hthen : s.at_ < e.versionstamp := by omega
    simp only [hnow, hthen, decide_true, decide_false, if_true]
    simp
    omega
  · -- the cursor is behind all of the feed
    left
    obtain ⟨new, hnew⟩ := hfeed.trans hgrown
    have hordered := feed_ordered t
    rw [← hnew] at he hordered
    have hlast := (List.mem_append.mp he).resolve_left hmem
    refine behind_eq_zero.mpr fun e' he' => ?_
    have := (List.pairwise_append.mp hordered).2.2 e' he' e hlast
    omega

end

/-! ### Runs of all workers -/

section

variable {ws : List RollupHandler} {s t : Maintenance} {i : Nat} {h : RollupHandler}

/-- Every worker has counted the entries up to its cursor once. -/
def Invs (ws : List RollupHandler) (s : Maintenance) : Prop :=
  ∀ i h, ws[i]? = some h → Inv (folded h.share) (s.view i h.contrib)

/-- What a turn is to one worker: its cursor does not go back, and after a drain of its own that
has returned it has moved on. -/
structure Advanced (turn : Turn) (i : Nat) (w : Contrib) (s t : Maintenance) : Prop where
  feed : s.feeds w.source <+: t.feeds w.source
  cursor : (s.view i w).at_ ≤ (t.view i w).at_
  moved : ∀ fuel n, turn = .drain i fuel (some (.ok n)) → MovedOn (s.view i w) (t.view i w)

theorem Turn.eq_drain {turn : Turn} (hreturns : turn.returns i = true) :
    ∃ fuel n, turn = .drain i fuel (some (.ok n)) := by
  unfold Turn.returns at hreturns
  split at hreturns
  · obtain rfl := of_decide_eq_true hreturns
    exact ⟨_, _, rfl⟩
  · cases hreturns

/-- A turn keeps the invariant of every worker and advances it. -/
theorem advanced_of_maintain (hws : Distinct ws) {turn : Turn} (hinv : Invs ws s)
    (hturn : Maintain ws s turn t) (hi : ws[i]? = some h) :
    Inv (folded h.share) (t.view i h.contrib) ∧ Advanced turn i h.contrib s t := by
  have hs := hinv i h hi
  cases turn with
  | restart =>
      have hcursor : (t.view i h.contrib).at_ = (s.view i h.contrib).at_ := by
        show (t.cursors _).getD 0 = (s.cursors _).getD 0
        rw [hturn.cursors]
      have hgrown : Grown { s.view i h.contrib with memo := fun _ => none } (t.view i h.contrib) :=
        ⟨congrFun hturn.cursors _, congrFun hturn.rollups _, congrFun hturn.batches _,
          hturn.feeds _, fun _ _ hm => (by cases hm)⟩
      exact ⟨(hs.restart _).grown hgrown, hturn.feeds _, hcursor.ge, fun _ _ heq => (by cases heq)⟩
  | drain j fuel returned =>
      obtain ⟨h', hj, es, p', hrun, hend⟩ := hturn
      by_cases hij : i = j
      · subst hij
        cases hi.symm.trans hj
        have hdrain := (always_drain h.memoizes (fun _ _ _ _ => rfl) fuel 0 hs).of_run (runs_view hrun)
        have hkept := hdrain.holds
        refine ⟨hkept.inv, hkept.feed, hkept.at_le hs, fun _ n heq => ?_⟩
        cases heq
        rw [hend _ rfl] at hdrain
        exact (hdrain.2 n rfl).2
      · have hgrown := grown_of_runs hrun hij (hws.ne hi hj hij)
        refine ⟨hs.grown hgrown, hgrown.feed, hgrown.at_.ge, fun _ n heq => ?_⟩
        cases heq
        exact absurd rfl hij

theorem invs_of_maintain (hws : Distinct ws) {turn : Turn} (hinv : Invs ws s)
    (hturn : Maintain ws s turn t) : Invs ws t :=
  fun _ _ hi => (advanced_of_maintain hws hinv hturn hi).1

theorem invs_of_run (hws : Distinct ws) {turns : List Turn} (hinv : Invs ws s)
    (hrun : Run (Maintain ws) s turns t) : Invs ws t :=
  hrun.invariant hinv fun _ _ _ ha hturn => invs_of_maintain hws ha hturn

theorem invs_of_fresh (hs : s.Fresh) : Invs ws s := by
  intro i h _
  have hzero : (s.view i h.contrib).at_ = 0 := congrArg (Option.getD · 0) (hs.cursors _)
  refine ⟨?_, fun k f => ?_, Or.inl hzero⟩
  · show (s.batches i).flatMap (·.1) = _
    rw [hs.batches i, hzero]
    refine (List.filter_eq_nil_iff.mpr fun e _ => ?_).symm
    have := e.pos
    simp only [decide_eq_true_eq]
    omega
  · show (s.rollups _ k f).getD 0 = counted s i h k f
    unfold counted
    rw [hs.rollups, hs.batches]
    rfl

/-- Every drain of a worker that returns leaves fewer entries of a feed behind, until there are
none. -/
theorem behind_of_turns (hws : Distinct ws) {turns : List Turn} (hinv : Invs ws s)
    (hrun : Run (Maintain ws) s turns t) (hi : ws[i]? = some h) :
    s.feeds h.contrib.source <+: t.feeds h.contrib.source ∧
      (behind (s.feeds h.contrib.source) (t.view i h.contrib) = 0 ∨
        behind (s.feeds h.contrib.source) (t.view i h.contrib) + drained i turns
          ≤ behind (s.feeds h.contrib.source) (s.view i h.contrib)) := by
  induction hrun with
  | nil => exact ⟨List.prefix_rfl, Or.inr le_rfl⟩
  | @snoc turns a b turn hrun hturn ih =>
      obtain ⟨hfeed, hbehind⟩ := ih
      obtain ⟨hb, hadv⟩ := advanced_of_maintain hws (invs_of_run hws hinv hrun) hturn hi
      refine ⟨hfeed.trans hadv.feed, ?_⟩
      have hle := behind_le (s.feeds h.contrib.source) hadv.cursor
      unfold drained at hbehind ⊢
      rw [List.countP_append, List.countP_singleton]
      by_cases hreturns : turn.returns i = true
      · obtain ⟨fuel, n, rfl⟩ := Turn.eq_drain hreturns
        have hless := behind_of_movedOn hfeed hadv.feed hb (hadv.moved fuel n rfl)
        rw [if_pos hreturns]
        omega
      · rw [if_neg hreturns]
        omega

/-- The entries of an ordered feed up to a versionstamp come first. -/
theorem filter_prefix {feed : List FeedEntry} {a : Nat}
    (hordered : feed.Pairwise fun e e' => e.versionstamp < e'.versionstamp) :
    feed.filter (fun e => e.versionstamp ≤ a) <+: feed := by
  induction feed with
  | nil => exact List.prefix_rfl
  | cons e feed ih =>
      obtain ⟨hfirst, hrest⟩ := List.pairwise_cons.mp hordered
      by_cases he : e.versionstamp ≤ a
      · have hkept : decide (e.versionstamp ≤ a) = true := decide_eq_true he
        simp only [List.filter_cons, hkept, if_true]
        exact List.cons_prefix_cons.mpr ⟨rfl, ih hrest⟩
      · have hnone : (e :: feed).filter (fun e => e.versionstamp ≤ a) = [] := by
          rw [List.filter_eq_nil_iff]
          intro e' he'
          rcases List.mem_cons.mp he' with rfl | he'
          · simpa using he
          · have := hfirst e' he'
            simp only [decide_eq_true_eq]
            omega
        rw [hnone]
        exact List.nil_prefix

/-- What the invariant of every worker says about one of them. -/
theorem folds_of_invs (hws : Distinct ws) (hinv : Invs ws s) (hi : ws[i]? = some h) :
    Folds ws s i h := by
  have hs := hinv i h hi
  refine ⟨?_, fun k f => ?_⟩
  · show (s.view i h.contrib).committed.flatMap (·.1) <+: (s.view i h.contrib).feed
    rw [hs.entries]
    exact filter_prefix (feed_ordered _)
  · obtain ⟨hlt, rfl⟩ := List.getElem?_eq_some_iff.mp hi
    rw [Finset.sum_eq_single ⟨i, hlt⟩]
    · exact (hs.amounts k f).trans (if_pos rfl).symm
    · intro j _ hne
      have hj : ws[j.1]? = some (ws.get j) := List.getElem?_eq_getElem j.2
      exact if_neg (hws.ne hj hi fun heq => hne (Fin.ext heq))
    · intro habsent
      exact absurd (Finset.mem_univ _) habsent

/-- Without a shared rollup, every change is folded once. -/
theorem foldsAll_of_distinct (hws : Distinct ws) : FoldsAll ws := by
  intro s turns a turns' t hs hrun hrun' i h hi
  have ha := invs_of_run hws (invs_of_fresh hs) hrun
  have ht := invs_of_run hws ha hrun'
  refine ⟨folds_of_invs hws ht hi, fun hmany => ?_⟩
  obtain ⟨⟨new, hnew⟩, hbehind⟩ := behind_of_turns hws ha hrun' hi
  have hlength : behind (a.feeds h.contrib.source) (a.view i h.contrib)
      ≤ (a.feeds h.contrib.source).length := List.countP_le_length
  have hnone := behind_eq_zero.mp (show behind (a.feeds h.contrib.source) (t.view i h.contrib) = 0
    by omega)
  show a.feeds h.contrib.source <+: (t.view i h.contrib).committed.flatMap (·.1)
  rw [(ht i h hi).entries]
  show _ <+: (t.feeds h.contrib.source).filter _
  rw [← hnew, List.filter_append, List.filter_eq_self.mpr fun e he => decide_eq_true (hnone e he)]
  exact List.prefix_append _ _

end

/-! ### A shared rollup -/

/-- The state after worker `i` has made `v` of what it meets. -/
def Maintenance.put (s : Maintenance) (i : Nat) (w : Contrib) (v : RollupState) : Maintenance where
  feeds := Function.update s.feeds w.source v.feed
  cursors := Function.update s.cursors w.rollup v.cursor
  rollups := Function.update s.rollups w.rollup v.rollup
  hops := v.hops
  memos := Function.update s.memos i v.memo
  batches := Function.update s.batches i v.committed
  ordered table := by
    by_cases htable : table = w.source
    · subst htable
      rw [Function.update_self]
      exact v.ordered
    · rw [Function.update_of_ne htable]
      exact s.ordered table

section

variable {s : Maintenance} {i : Nat} {w : Contrib} {v v' : RollupState}

theorem view_put : (s.put i w v).view i w = v := by
  cases v
  simp only [Maintenance.view, Maintenance.put, Function.update_self]

theorem put_view : s.put i w (s.view i w) = s := by
  cases s
  simp only [Maintenance.view, Maintenance.put, Function.update_eq_self]

theorem leaves_put (h : v.feed <+: v'.feed) :
    Maintenance.Leaves i w.rollup (s.put i w v) (s.put i w v') where
  cursors r hr := (Function.update_of_ne hr ..).trans (Function.update_of_ne hr ..).symm
  rollups r hr := (Function.update_of_ne hr ..).trans (Function.update_of_ne hr ..).symm
  memos j hj := (Function.update_of_ne hj ..).trans (Function.update_of_ne hj ..).symm
  batches j hj := (Function.update_of_ne hj ..).trans (Function.update_of_ne hj ..).symm
  feeds table := by
    show Function.update s.feeds w.source v.feed table <+:
      Function.update s.feeds w.source v'.feed table
    by_cases htable : table = w.source
    · subst htable
      rw [Function.update_self, Function.update_self]
      exact h
    · rw [Function.update_of_ne htable, Function.update_of_ne htable]

/-- A request that is not about another rollup's rows. -/
def OwnRollup (w : Contrib) (_ : RollupState) : Request → Prop
  | .apply r _ _ => r = w.rollup
  | .reset r => r = w.rollup
  | _ => True

theorem feed_of_answers {q : Request} {r : Answer q}
    (h : RollupState.Answers (OwnRollup w) w v q r v') : v.feed <+: v'.feed := by
  obtain ⟨hown, v₁, heffect, hothers⟩ := h
  have hsame : v₁.feed = v.feed := by
    cases q with
    | cursor _ | showChanges _ _ _ | «recall» _ | hop _ _ => rw [heffect.1]
    | keep _ _ => rw [heffect]
    | apply _ _ _ | reset _ => rcases heffect hown with rfl | ⟨rfl, _⟩ <;> rfl
  exact hsame ▸ hothers.2.2.2.2

/-- A run of a worker alone is a run of it among all workers. -/
theorem runs_put {p p' : Program Nat} {es : List (Σ q, Answer q)}
    (h : Runs (RollupState.Answers (OwnRollup w) w) p v es p' v') :
    Runs (Maintenance.Answers i w) p (s.put i w v) es p' (s.put i w v') := by
  refine runs_map (s.put i w) (fun u q r u' hans => ⟨?_, leaves_put (feed_of_answers hans)⟩) h
  rw [view_put, view_put]
  exact ⟨trivial, hans.2⟩

end

/-- A sale of apples, with the fields that the handlers read. -/
def sale : Json := .object [("lines", .array [.object
  [("item", .string "apple"), ("qty", .int 1), ("amount", .int 10)]])]

/-- The entry of a sale. -/
def saleEntry (vs : Nat) (hpos : 0 < vs) (hbounded : vs < 2 ^ 63) : FeedEntry where
  versionstamp := vs
  changes := [.create [("lines", .array [.object
    [("item", .string "apple"), ("qty", .int 1), ("amount", .int 10)]])]]
  pos := hpos
  bounded := hbounded

theorem first_lt_stamp : 1 < 2 ^ 63 := by decide

theorem two_lt_stamp : 2 < 2 ^ 63 := by decide

/-- The table `late` has a sale with a later versionstamp than the sale of `early`. -/
def twoSales (early late : String) : Maintenance where
  feeds table :=
    if table = late then [saleEntry 2 Nat.two_pos two_lt_stamp]
    else if table = early then [saleEntry 1 Nat.one_pos first_lt_stamp]
    else []
  hops _ _ := .null
  ordered table := by
    split
    · simp
    · split <;> simp

theorem fresh_twoSales (early late : String) : (twoSales early late).Fresh :=
  ⟨fun _ => rfl, fun _ _ _ => rfl, fun _ => rfl⟩

/-- A handler asks nothing for a sale. -/
theorem contrib_sale (h : RollupHandler) : ∃ c, h.contrib.contrib sale = .done (.ok c) := by
  cases h with
  | groupRevenue g => exact ⟨[], rfl⟩
  | itemSales i => exact ⟨ItemSales.amounts sale, rfl⟩

theorem drain_sale {h : RollupHandler} {v : RollupState} (hcursor : v.cursor = none)
    (hfeed : v.feed = [saleEntry 2 (by decide) (by decide)]) :
    ∃ es v', Runs (RollupState.Answers (OwnRollup h.contrib) h.contrib) (drain h.contrib 2 0) v es
      (.done (.ok 1)) v' ∧ v'.cursor = some 2 ∧ v'.feed = v.feed := by
  obtain ⟨c, hc⟩ := contrib_sale h
  have hat : v.at_ = 0 := congrArg (Option.getD · 0) hcursor
  have hbatch : v.batch (v.at_ + 1) 1000 = [saleEntry 2 (by decide) (by decide)] := by
    rw [hat]
    unfold RollupState.batch
    rw [hfeed]
    rfl
  have hfold : Runs (RollupState.Answers (OwnRollup h.contrib) h.contrib)
      (fold h.contrib (docsOf ((v.batch (v.at_ + 1) 1000).flatMap FeedEntry.moves)) []) v []
      (.done (.ok (addTo false [] c))) v := by
    rw [hbatch]
    show Runs _ (h.contrib.contrib sale >>= fun c => fold h.contrib [] (addTo false [] c)) v [] _ v
    rw [hc]
    exact .nil
  obtain ⟨es, htick⟩ := runs_tick (by rw [hat]; decide) (by rw [hbatch]; rfl) hfold trivial trivial
    (rfl : OwnRollup h.contrib v (.apply h.contrib.rollup _ _))
  rw [hbatch] at htick
  -- the next tick finds nothing
  have hidle : (v.commit (addTo false [] c) 2).batch
      ((v.commit (addTo false [] c) 2).at_ + 1) 1000 = [] := by
    show (v.feed.filter fun e => 2 + 1 ≤ e.versionstamp).take 1000 = []
    rw [hfeed]
    rfl
  obtain ⟨es', hlast⟩ : ∃ es', Runs (RollupState.Answers (OwnRollup h.contrib) h.contrib)
      (tick h.contrib 1000) (v.commit (addTo false [] c) 2) es' (.done (.ok 0))
      (v.commit (addTo false [] c) 2) :=
    runs_tick_idle (show (2 : Nat) < 2 ^ 63 by decide) hidle trivial trivial
  exact ⟨_, _, runs_bind htick (runs_bind hlast .nil), rfl, rfl⟩

/-- A drain behind the end of the feed. -/
theorem drain_idle {w : Contrib} {v : RollupState} (hcursor : v.cursor = some 2)
    (hfeed : ∀ e ∈ v.feed, e.versionstamp ≤ 2) :
    ∃ es, Runs (RollupState.Answers (OwnRollup w) w) (drain w 1 0) v es (.done (.ok 0)) v := by
  have hat : v.at_ = 2 := congrArg (Option.getD · 0) hcursor
  have hidle : v.batch (v.at_ + 1) 1000 = [] := by
    unfold RollupState.batch
    rw [hat, List.filter_eq_nil_iff.mpr fun e he => ?_, List.take_nil]
    have := hfeed e he
    simp only [decide_eq_true_eq]
    omega
  obtain ⟨es, htick⟩ : ∃ es, Runs (RollupState.Answers (OwnRollup w) w) (tick w 1000) v es
      (.done (.ok 0)) v := runs_tick_idle (by rw [hat]; decide) hidle trivial trivial
  exact ⟨_, runs_bind htick .nil⟩

/-- Of two workers with one rollup, the second misses what the first has moved the cursor past. -/
theorem not_foldsAll {ws : List RollupHandler} {i j : Nat} {h h' : RollupHandler}
    (hi : ws[i]? = some h) (hj : ws[j]? = some h') (hne : i ≠ j)
    (hrollup : h.contrib.rollup = h'.contrib.rollup) : ¬ FoldsAll ws := by
  intro hall
  let s := twoSales h'.contrib.source h.contrib.source
  obtain ⟨es, v, hdrain, hcursor, hfeed⟩ := drain_sale (h := h) (v := s.view i h.contrib) rfl
    (if_pos rfl)
  -- the first drain
  have hrun := runs_put (s := s) (i := i) hdrain
  rw [put_view] at hrun
  have hfeeds : (s.put i h.contrib v).feeds = s.feeds := by
    show Function.update s.feeds _ v.feed = _
    rw [hfeed]
    exact Function.update_eq_self ..
  have hlater : ((s.put i h.contrib v).view j h'.contrib).cursor = some 2 := by
    show Function.update s.cursors _ v.cursor _ = _
    rw [← hrollup, Function.update_self, hcursor]
  have hbatches : (s.put i h.contrib v).batches j = [] := Function.update_of_ne hne.symm ..
  -- the second drain
  obtain ⟨es', hidle⟩ := drain_idle (w := h'.contrib) hlater fun e he => by
    replace he : e ∈ s.feeds h'.contrib.source := hfeeds ▸ he
    show e.versionstamp ≤ 2
    simp only [s, twoSales] at he
    split at he <;> simp [saleEntry] at he <;> subst he <;> decide
  have hrun' := runs_put (s := s.put i h.contrib v) (i := j) hidle
  rw [put_view] at hrun'
  have hturns : Run (Maintain ws) s [.drain i 2 (some (.ok 1)), .drain j 1 (some (.ok 0))]
      (s.put i h.contrib v) :=
    Run.cons ⟨h, hi, _, _, hrun, fun r hr => by cases hr; rfl⟩
      (Run.single ⟨h', hj, _, _, hrun', fun r hr => by cases hr; rfl⟩)
  have hlast := (hall s [] s _ _ (fresh_twoSales _ _) .nil hturns j h' hj).2
  have hone : (s.feeds h'.contrib.source).length = 1 := by
    simp only [s, twoSales]
    split
    · rfl
    · simp
  have hcount : drained j [.drain i 2 (some (.ok 1)), .drain j 1 (some (.ok 0))] = 1 := by
    simp [drained, Turn.returns, hne.symm]
  rw [hbatches] at hlast
  have hnone := List.prefix_nil.mp (hlast (by omega))
  rw [hnone] at hone
  cases hone

/-! ### The declared aggregates -/

/-- The worker of an aggregate replays its source into its rollup. -/
theorem rollupWorker_ok {tenant : String} {d : DocTypeDef × AggregateDef} {h : RollupHandler}
    (hd : rollupWorker tenant d = .ok h) :
    rollupHandler tenant d.1 d.2 = .ok h ∧ h.contrib.source = d.1.name ∧
      h.contrib.rollup = d.2.rollup := by
  unfold rollupWorker at hd
  obtain ⟨h', hhandler, hnew⟩ := bind_eq_ok hd
  have hsame : h' = h := by
    unfold rollupWorkerNew at hnew
    split at hnew <;> cases hnew
    rfl
  subst hsame
  refine ⟨hhandler, ?_⟩
  unfold rollupHandler at hhandler
  split at hhandler <;> cases hhandler <;> exact ⟨rfl, rfl⟩

/-- Every declared worker aggregate has its worker, and every change of every source is folded
once by each of them in every run, if and only if no two of the aggregates name one rollup. -/
theorem every_change_folded {tenant : String} {dts : List DocTypeDef} {ws : List RollupHandler}
    (hws : rollupWorkers tenant dts = .ok ws) :
    List.Forall₂ (fun d h => rollupHandler tenant d.1 d.2 = .ok h ∧ h.contrib.source = d.1.name ∧
        h.contrib.rollup = d.2.rollup) (workerAggregates dts) ws ∧
      (FoldsAll ws ↔ ((workerAggregates dts).map fun d => d.2.rollup).Nodup) := by
  have hall := (forall₂_of_mapM_ok hws).imp fun _ _ hd => rollupWorker_ok hd
  refine ⟨hall, ?_⟩
  -- The workers are those of the aggregates, in their order.
  have hrollups : ws.map (fun h => h.contrib.rollup)
      = (workerAggregates dts).map fun d => d.2.rollup := by
    refine (congrFun (congrFun List.forall₂_eq_eq_eq _) _).mp ?_
    rw [List.forall₂_map_left_iff, List.forall₂_map_right_iff]
    exact (hall.imp fun _ _ hd => hd.2.2).flip
  rw [← hrollups]
  refine ⟨fun hfolds => ?_, foldsAll_of_distinct⟩
  by_contra hshared
  rw [List.nodup_iff_getElem?_ne_getElem?] at hshared
  push Not at hshared
  -- Two workers share a rollup: the second misses what the first has moved the cursor past.
  obtain ⟨i, j, hij, hlt, hsame⟩ := hshared
  rw [List.length_map] at hlt
  simp only [List.getElem?_map, List.getElem?_eq_getElem hlt,
    List.getElem?_eq_getElem (hij.trans hlt), Option.map_some, Option.some.injEq] at hsame
  exact not_foldsAll (List.getElem?_eq_getElem (hij.trans hlt)) (List.getElem?_eq_getElem hlt)
    hij.ne hsame hfolds

/-- A DocType with a worker aggregate that adds up its items. -/
def soldItems (name rollup : String) : DocTypeDef where
  name := name
  fields := []
  aggregates := [{ kind := "worker", rollup := rollup, handler := some "item_sales" }]

/-- Orders and invoices with rollups of their own. -/
theorem every_change_folded_two : ∃ ws,
    rollupWorkers "acme" [soldItems "invoice" "invoiced", soldItems "order" "ordered"] = .ok ws ∧
      FoldsAll ws := by
  have hws : rollupWorkers "acme" [soldItems "invoice" "invoiced", soldItems "order" "ordered"]
      = .ok [.itemSales ⟨"invoice", "invoiced"⟩, .itemSales ⟨"order", "ordered"⟩] := rfl
  exact ⟨_, hws, (every_change_folded hws).2.mpr (by decide)⟩

/-- Orders and invoices with one rollup: with an invoice at versionstamp 1 and an order at
versionstamp 2, the invoice is never folded once the orders have been drained. -/
theorem not_every_change_folded : ∃ ws,
    rollupWorkers "acme" [soldItems "order" "sales", soldItems "invoice" "sales"] = .ok ws ∧
      ¬ FoldsAll ws := by
  refine ⟨_, rfl, not_foldsAll (i := 0) (j := 1) rfl rfl (by decide) rfl⟩

end Aggregates

end Frust.Kernel
