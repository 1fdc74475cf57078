import Mathlib.Algebra.Order.Field.Basic
import Mathlib.Tactic.Linarith
import Mathlib.Tactic.Ring

/-!
# `Frust.Lib.TokenBucket`: calls that spend tokens

A bucket is filled at the rate `r`, up to the burst `b`, and a call spends a token where there is
one. Time is any ordered field. `found` is what calls at given times find in the bucket.

`admitted_le` is the bound: in every window, whatever the calls, at most the burst and what flows in
are admitted. `one_le_level_called_iff` says after which wait a refused call is admitted.
-/

set_option autoImplicit false

namespace Frust.Lib.TokenBucket

/-- The tokens at a time, and the time. -/
structure Bucket (α : Type) where
  tokens : α
  last : α

variable {α : Type} [Field α] [LinearOrder α]

/-- What the bucket holds at a time. -/
def level (r b : α) (s : Bucket α) (x : α) : α := min (s.tokens + (x - s.last) * r) b

/-- A call spends a token, if there is one. -/
def called (r b : α) (s : Bucket α) (x : α) : Bucket α where
  tokens := if 1 ≤ level r b s x then level r b s x - 1 else level r b s x
  last := x

/-- The calls, each with what it finds in the bucket. -/
def found (r b : α) : Bucket α → List α → List (α × α)
  | _, [] => []
  | s, x :: rest => (x, level r b s x) :: found r b (called r b s x) rest

/-- How many calls are admitted from `u` to `v`. -/
def admitted (u v : α) (calls : List (α × α)) : Nat :=
  calls.countP fun e => u ≤ e.1 ∧ e.1 ≤ v ∧ 1 ≤ e.2

variable {r b : α} {s : Bucket α}

theorem level_le (x : α) : level r b s x ≤ b := min_le_right _ _

theorem times_found (s : Bucket α) (times : List α) : (found r b s times).map (·.1) = times := by
  induction times generalizing s with
  | nil => rfl
  | cons x rest ih => exact congrArg (x :: ·) (ih _)

/-- No call is admitted in a window that is over. -/
theorem admitted_eq_zero {u v : α} {times : List α} (h : ∀ x ∈ times, v < x) (s : Bucket α) :
    admitted u v (found r b s times) = 0 := by
  refine List.countP_eq_zero.mpr fun e he => ?_
  -- The times of the calls are those that are given.
  have hmem : e.1 ∈ times := times_found s times ▸ List.mem_map_of_mem he
  simpa using fun _ hle => absurd hle (not_le.mpr (h _ hmem))

theorem admitted_cons (u v : α) (e : α × α) (calls : List (α × α)) :
    admitted u v (e :: calls)
      = admitted u v calls + if u ≤ e.1 ∧ e.1 ≤ v ∧ 1 ≤ e.2 then 1 else 0 := by
  unfold admitted
  rw [List.countP_cons]
  simp only [decide_eq_true_eq]

theorem level_called (x y : α) :
    level r b (called r b s x) y = min ((called r b s x).tokens + (y - x) * r) b := rfl

variable [IsStrictOrderedRing α]

theorem level_mono (hr : 0 ≤ r) {x y : α} (hxy : x ≤ y) : level r b s x ≤ level r b s y := by
  have hflow : (x - s.last) * r ≤ (y - s.last) * r :=
    mul_le_mul_of_nonneg_right (sub_le_sub_right hxy _) hr
  exact min_le_min_right b (by linarith)

/-- Between two times at most the rate flows in. -/
theorem level_le_add (hr : 0 ≤ r) {x y : α} (hxy : x ≤ y) :
    level r b s y ≤ level r b s x + r * (y - x) := by
  have hflow : 0 ≤ r * (y - x) := mul_nonneg hr (sub_nonneg.mpr hxy)
  have hsum : s.tokens + (y - s.last) * r = s.tokens + (x - s.last) * r + r * (y - x) := by ring
  unfold level
  -- Below the burst all that flows in counts; a full bucket gains nothing.
  rcases le_total (s.tokens + (x - s.last) * r) b with h | h
  · rw [min_eq_left h, ← hsum]
    exact min_le_left _ _
  · rw [min_eq_right h]
    exact (min_le_right _ _).trans (by linarith)

/-- At the time of a call the bucket holds what the call leaves. -/
theorem level_called_self (x : α) : level r b (called r b s x) x = (called r b s x).tokens := by
  have hle : (called r b s x).tokens ≤ b := by
    have hlevel : level r b s x ≤ b := level_le x
    unfold called
    dsimp only
    split <;> linarith
  rw [level_called, sub_self, zero_mul, add_zero, min_eq_left hle]

theorem tokens_called_nonneg {x : α} (h : 0 ≤ level r b s x) : 0 ≤ (called r b s x).tokens := by
  unfold called
  dsimp only
  split <;> linarith

/-- From a time on at most what the bucket holds then and what flows in is admitted. -/
theorem admitted_le_level (hr : 0 ≤ r) {u v x : α} (hxv : x ≤ v) {times : List α}
    (hsorted : (x :: times).Pairwise (· ≤ ·)) (hlevel : 0 ≤ level r b s x) :
    (admitted u v (found r b s times) : α) ≤ level r b s x + r * (v - x) := by
  induction times generalizing s x with
  | nil =>
      have hflow : 0 ≤ r * (v - x) := mul_nonneg hr (sub_nonneg.mpr hxv)
      simpa [found, admitted] using add_nonneg hlevel hflow
  | cons y rest ih =>
      obtain ⟨hx, hrest⟩ := List.pairwise_cons.mp hsorted
      have hxy : x ≤ y := hx y List.mem_cons_self
      by_cases hyv : y ≤ v
      · have hy : 0 ≤ level r b s y := hlevel.trans (level_mono hr hxy)
        have hih := ih hyv hrest (s := called r b s y)
          (by rw [level_called_self]; exact tokens_called_nonneg hy)
        have hflow := level_le_add (r := r) (b := b) (s := s) hr hxy
        rw [level_called_self] at hih
        -- a token that is spent is a call that is admitted
        have hspent : (admitted u v (found r b s (y :: rest)) : α)
            ≤ admitted u v (found r b (called r b s y) rest)
              + (level r b s y - (called r b s y).tokens) := by
          rw [found, admitted_cons, Nat.cast_add]
          by_cases hone : 1 ≤ level r b s y
          · have htokens : (called r b s y).tokens = level r b s y - 1 := if_pos hone
            rw [htokens]
            split <;> simp
          · have htokens : (called r b s y).tokens = level r b s y := if_neg hone
            simp [htokens, hone]
        -- What the call leaves and what flows in later, and what flowed in before it.
        calc (admitted u v (found r b s (y :: rest)) : α)
            ≤ admitted u v (found r b (called r b s y) rest)
              + (level r b s y - (called r b s y).tokens) := hspent
          _ ≤ level r b s y + r * (v - y) := by linarith
          _ ≤ level r b s x + r * (v - x) := by linarith
      · -- The window is over before the next call.
        have hzero : admitted u v (found r b s (y :: rest)) = 0 := by
          refine admitted_eq_zero (fun z hz => ?_) s
          rcases List.mem_cons.mp hz with rfl | hz
          · exact not_le.mp hyv
          · exact lt_of_lt_of_le (not_le.mp hyv) ((List.pairwise_cons.mp hrest).1 z hz)
        rw [hzero, Nat.cast_zero]
        exact add_nonneg hlevel (mul_nonneg hr (sub_nonneg.mpr hxv))

/-- In every window at most the burst and what flows in is admitted. -/
theorem admitted_le (hr : 0 ≤ r) (hb : 0 ≤ b) {u v : α} (huv : u ≤ v) {times : List α}
    (hsorted : (s.last :: times).Pairwise (· ≤ ·)) (htokens : 0 ≤ s.tokens) :
    (admitted u v (found r b s times) : α) ≤ b + r * (v - u) := by
  induction times generalizing s with
  | nil => simpa [found, admitted] using add_nonneg hb (mul_nonneg hr (sub_nonneg.mpr huv))
  | cons x rest ih =>
      obtain ⟨hlast, hrest⟩ := List.pairwise_cons.mp hsorted
      have hlevel : 0 ≤ level r b s x :=
        le_min (add_nonneg htokens
          (mul_nonneg (sub_nonneg.mpr (hlast x List.mem_cons_self)) hr)) hb
      by_cases hux : u ≤ x
      · by_cases hxv : x ≤ v
        · -- the window has begun
          have hle := admitted_le_level (u := u) hr hxv
            (List.pairwise_cons.mpr ⟨fun z hz => ?_, hrest⟩) hlevel
          · have hflow : r * (v - x) ≤ r * (v - u) :=
              mul_le_mul_of_nonneg_left (by linarith) hr
            have hfull := level_le (r := r) (b := b) (s := s) x
            linarith
          · rcases List.mem_cons.mp hz with rfl | hz
            · exact le_rfl
            · exact (List.pairwise_cons.mp hrest).1 z hz
        · rw [admitted_eq_zero fun z hz => ?_]
          · simpa using add_nonneg hb (mul_nonneg hr (sub_nonneg.mpr huv))
          · rcases List.mem_cons.mp hz with rfl | hz
            · exact not_le.mp hxv
            · exact lt_of_lt_of_le (not_le.mp hxv) ((List.pairwise_cons.mp hrest).1 z hz)
      · -- A call before the window is not counted, and leaves a bucket within the burst.
        have hskip : admitted u v (found r b s (x :: rest))
            = admitted u v (found r b (called r b s x) rest) := by
          rw [found, admitted_cons]
          simp [hux]
        rw [hskip]
        exact ih hrest (tokens_called_nonneg hlevel)

/-- A refused call is admitted after the wait in which the rest of a token flows in. -/
theorem one_le_level_called_iff (hr : 0 < r) (hb : 1 ≤ b) {x : α} (hrefused : ¬1 ≤ level r b s x)
    (d : α) : 1 ≤ level r b (called r b s x) (x + d) ↔ (1 - level r b s x) / r ≤ d := by
  have htokens : (called r b s x).tokens = level r b s x := if_neg hrefused
  rw [level_called, htokens, le_min_iff, and_iff_left hb, add_sub_cancel_left, div_le_iff₀ hr]
  -- What is missing of a token flows in, and the burst has room for it.
  constructor <;> intro h <;> linarith

end Frust.Lib.TokenBucket
