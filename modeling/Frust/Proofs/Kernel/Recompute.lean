import Frust.Proofs.Kernel.Drain

/-!
# `Frust.Proofs.Kernel.Recompute`: a rollup that is rebuilt from the feed

A recompute deletes the rollup and replays the feed from its start. A feed is kept for seven days,
so the documents that were there before its first entry are not in it. What is rebuilt is the
sum over the documents that are there, less the sum over those (`recompute_exact`).

The feed of the state is what is kept of it while the call runs. `History` says what was before.
-/

set_option autoImplicit false

namespace Frust.Kernel

open Frust.Lib Frust.Lib.Prog

namespace Aggregates

open Feed RollupState

/-- The documents that the expired entries left, and those that the kept entries led to. -/
structure History (expired kept : List FeedEntry) (old live : List Json) : Prop where
  before : Run Move.Leads [] (expired.flatMap FeedEntry.moves) old
  window : Run Move.Leads old (kept.flatMap FeedEntry.moves) live

/-- The sum of what documents contribute under a memo. -/
def sumOf (share : Share) (m : Memo) (docs : List Json) : String → String → ℚ :=
  (docs.map fun d => worthOf (known share m d)).sum

section

variable {w : Contrib} {share : Share} {s t : RollupState} {n : Nat} {es : List (Σ q, Answer q)}

/-- A memo that remembers more gives the same gains, where the documents are known. -/
theorem gains_of_le (hw : Memoizes w share) {m m' : Memo} (hle : m.Le m') {entries : List FeedEntry}
    (hknown : ∀ d ∈ docsOf (entries.flatMap FeedEntry.moves), (share m d.1).isSome) :
    gains share m entries = gains share m' entries := by
  have hsame : ∀ d ∈ docsOf (entries.flatMap FeedEntry.moves),
      worthOf (known share m d.1) = worthOf (known share m' d.1) := by
    intro d hd
    obtain ⟨c, hc⟩ := Option.isSome_iff_exists.mp (hknown d hd)
    unfold known
    rw [hc, hw.mono hle hc]
  unfold gains
  refine congrArg List.sum (List.map_congr_left fun m hm => ?_)
  have hbefore : ∀ d, m.before = some d → (d, true) ∈ docsOf (entries.flatMap FeedEntry.moves) :=
    fun d hd => List.mem_flatMap.mpr ⟨m, hm, by simp [hd]⟩
  have hafter : ∀ d, m.after = some d → (d, false) ∈ docsOf (entries.flatMap FeedEntry.moves) :=
    fun d hd => List.mem_flatMap.mpr ⟨m, hm, by simp [hd]⟩
  unfold Move.gain
  congr 1
  · cases ha : m.after with
    | none => rfl
    | some d => exact hsame _ (hafter d ha)
  · cases hb : m.before with
    | none => rfl
    | some d => exact hsame _ (hbefore d hb)

/-- What is rebuilt: the gains of the feed, under every memo that remembers at least what the
process does in the end. -/
theorem gains_of_recompute (hw : Memoizes w share) {fuel : Nat}
    (hrun : Runs (RollupState.Answers (fun s q => AddsExactly share s q ∧ EndsIdle s q) w)
      (recompute w fuel) s es (.done (.ok n)) t) :
    ∃ feed, s.feed <+: feed ∧ feed <+: t.feed ∧ (∀ e ∈ feed, e.versionstamp ≤ t.at_) ∧
      ∀ m, t.memo.Le m → ∀ k f, (t.rollup k f).getD 0 = gains share m feed k f := by
  rcases run_ask_inv hrun with ⟨_, hask, _⟩ | ⟨r, s₁, es', _, hreset, hrest⟩
  · cases hask
  obtain ⟨_, s₂, heffect, hothers⟩ := hreset
  cases r with
  | error e =>
      obtain ⟨_, hend, _⟩ := run_ended hrest
      cases hend
  | ok v =>
      have hcleared : s₂ = s.cleared := (heffect rfl).resolve_right fun ⟨_, e, he⟩ => (by cases he)
      subst hcleared
      have hs₁ := grown_of_others hothers
      have hinv : Inv (gains share) s₁ := (Inv.cleared s).grown hs₁
      obtain ⟨hkept, hpost⟩ := (always_done _).mp
        ((always_drain hw (fun _ _ _ h => books_of_exact h.1) fuel 0 hinv).of_run hrest)
      obtain ⟨feed, hfirst, hlast, hupto, hcommitted⟩ :=
        committed_of_caughtUp hkept.inv ((hpost n rfl).1 fun _ _ h => h.2)
      refine ⟨feed, hs₁.feed.trans hfirst, hlast, hupto, fun m hm k f => ?_⟩
      obtain ⟨new, hnew, hknown⟩ := hkept.batches
      have hall : t.committed = new := by
        rw [hnew, hs₁.committed]
        rfl
      rw [hkept.inv.amounts k f, ← hcommitted, sum_gains t.committed fun b hb => ?_]
      rw [hall] at hb
      exact gains_of_le hw ((hknown b hb).1.trans hm) (hknown b hb).2

end

/-! ### A document that was not touched for seven days -/

/-- A recompute of a feed of which nothing is kept. -/
theorem runs_recompute_empty (cond : RollupState → Request → Prop) (w : Contrib) {s : RollupState}
    (hfeed : s.feed = [])
    (hask : ∀ u q, u.feed = [] → (∀ r acc vs, q ≠ .apply r acc vs) → cond u q) :
    ∃ es, Runs (RollupState.Answers cond w) (recompute w 1) s es (.done (.ok 0)) s.cleared := by
  have hsame : ∀ u, Others u u := fun u => ⟨rfl, rfl, rfl, rfl, List.prefix_rfl⟩
  -- No entry is in a feed that is empty, whatever the cursor.
  have hbatch : s.cleared.batch 1 1000 = [] := by
    show (s.feed.filter _).take 1000 = []
    rw [hfeed]
    rfl
  have hcursor : Runs (RollupState.Answers cond w) (cursor w) s.cleared
      [⟨.cursor w.rollup, .ok (.array [.int 0])⟩] (.done (.ok 0)) s.cleared :=
    Run.single ⟨_, rfl, rfl, hask _ _ hfeed (by simp), _, ⟨rfl, fun _ v hv => (Except.ok.inj hv).symm⟩,
      hsame _⟩
  have htick : Runs (RollupState.Answers cond w) (tick w 1000) s.cleared
      ([⟨.cursor w.rollup, .ok (.array [.int 0])⟩] ++
        [⟨.showChanges w.source 1 1000, .ok (.array [])⟩]) (.done (.ok 0)) s.cleared := by
    refine runs_bind hcursor (Run.single
      ⟨_, rfl, rfl, hask _ _ hfeed (by simp), _, ⟨rfl, fun _ v hv => ?_⟩, hsame _⟩)
    rw [hbatch]
    exact (Except.ok.inj hv).symm
  -- The first tick finds nothing, and ends the drain.
  have hdrain : Runs (RollupState.Answers cond w) (drain w 1 0) s.cleared _ (.done (.ok 0))
      s.cleared := runs_bind htick .nil
  have hreset : Exchange (RollupState.Answers cond w) (recompute w 1, s)
      ⟨.reset w.rollup, .ok .null⟩ (drain w 1 0, s.cleared) :=
    ⟨_, rfl, rfl, hask _ _ hfeed (by simp), s.cleared, fun _ => Or.inl rfl, hsame _⟩
  exact ⟨_, Run.cons hreset hdrain⟩

/-- A feed of which nothing is kept, and a rollup with the sales that there were. -/
def untouched : RollupState where
  feed := []
  cursor := some 1001
  rollup := fun k f => if k = "a" ∧ f = "qty" then some 2 else none
  hops := fun _ _ => .null
  ordered := by simp

end Aggregates

end Frust.Kernel
