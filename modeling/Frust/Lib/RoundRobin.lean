import Mathlib.Data.List.Nodup
import Mathlib.Data.List.Perm.Subperm
import Mathlib.Data.Nat.ModEq

/-!
# `Frust.Lib.RoundRobin`: taking from lanes in turn

Each lane has a key and a list of items. A pass takes the next item of every lane that has one, in
the order of the lanes. `inTurn` is the passes one after the other: it keeps the order of every lane
(`taken_inTurn`), and at every point of it two lanes that still have items have given almost the
same number (`balanced_inTurn`). `FairOrder` is what it is to be a fair order of a queue, and
`fairOrder_inTurn` is that the lanes of a queue in turn are one.
-/

set_option autoImplicit false

namespace Frust.Lib.RoundRobin

variable {κ α : Type} [DecidableEq κ]

/-- What the pass `k` takes. -/
def pass (lanes : List (κ × List α)) (k : Nat) : List (κ × α) :=
  lanes.filterMap fun lane => (lane.2[k]?).map (lane.1, ·)

/-- The first `n` passes. -/
def inTurn (n : Nat) (lanes : List (κ × List α)) : List (κ × α) :=
  (List.range n).flatMap (pass lanes)

/-- The items that were taken from a lane. -/
def taken (x : κ) (picks : List (κ × α)) : List α := (picks.filter (·.1 = x)).map (·.2)

@[simp] theorem taken_nil (x : κ) : taken x ([] : List (κ × α)) = [] := rfl

@[simp] theorem taken_append (x : κ) (p q : List (κ × α)) :
    taken x (p ++ q) = taken x p ++ taken x q := by
  simp [taken]

variable {lanes : List (κ × List α)}

omit [DecidableEq κ] in
theorem inTurn_succ (n : Nat) (lanes : List (κ × List α)) :
    inTurn (n + 1) lanes = inTurn n lanes ++ pass lanes n := by
  simp [inTurn, List.range_succ]

omit [DecidableEq κ] in
/-- Once a pass takes nothing, no later one does. -/
theorem pass_eq_nil {k n : Nat} (hk : k ≤ n) (h : pass lanes k = []) : pass lanes n = [] := by
  unfold pass at h ⊢
  rw [List.filterMap_eq_nil_iff] at h ⊢
  intro lane hlane
  have hend := List.getElem?_eq_none_iff.mp (Option.map_eq_none_iff.mp (h lane hlane))
  rw [List.getElem?_eq_none (by omega)]
  rfl

/-- Nothing is taken from a lane that is not there. -/
theorem taken_pass_of_not_mem {x : κ} (h : x ∉ lanes.map (·.1)) (k : Nat) :
    taken x (pass lanes k) = [] := by
  unfold taken
  rw [List.map_eq_nil_iff, List.filter_eq_nil_iff]
  intro e he
  obtain ⟨lane, hlane, hitem⟩ := List.mem_filterMap.mp he
  obtain ⟨item, _, rfl⟩ := Option.map_eq_some_iff.mp hitem
  simpa using fun hx : lane.1 = x => h (hx ▸ List.mem_map_of_mem hlane)

/-- A pass takes one item of a lane, as long as there is one. -/
theorem taken_pass (hnd : (lanes.map (·.1)).Nodup) {x : κ} {items : List α}
    (hmem : (x, items) ∈ lanes) (k : Nat) : taken x (pass lanes k) = (items[k]?).toList := by
  induction lanes with
  | nil => cases hmem
  | cons lane rest ih =>
      rw [List.map_cons, List.nodup_cons] at hnd
      -- The first lane gives its item before the others, and no other lane has its key.
      have hcons : pass (lane :: rest) k
          = ((lane.2[k]?).map (lane.1, ·)).toList ++ pass rest k := by
        unfold pass
        rw [List.filterMap_cons]
        cases lane.2[k]? <;> rfl
      rw [hcons, taken_append]
      rcases List.mem_cons.mp hmem with rfl | hmem
      · rw [taken_pass_of_not_mem hnd.1, List.append_nil]
        cases items[k]? <;> simp [taken]
      · have hne : lane.1 ≠ x := fun h => hnd.1 (h ▸ List.mem_map_of_mem hmem)
        rw [ih hnd.2 hmem]
        cases lane.2[k]? <;> simp [taken, hne]

/-- The first passes take the first items of a lane. -/
theorem taken_inTurn (hnd : (lanes.map (·.1)).Nodup) {x : κ} {items : List α}
    (hmem : (x, items) ∈ lanes) (n : Nat) : taken x (inTurn n lanes) = items.take n := by
  induction n with
  | zero => simp [inTurn]
  | succ n ih => rw [inTurn_succ, taken_append, ih, taken_pass hnd hmem, ← List.take_add_one]

theorem taken_inTurn_of_not_mem {x : κ} (h : x ∉ lanes.map (·.1)) (n : Nat) :
    taken x (inTurn n lanes) = [] := by
  induction n with
  | zero => rfl
  | succ n ih => rw [inTurn_succ, taken_append, ih, taken_pass_of_not_mem h, List.append_nil]

omit [DecidableEq κ] in
/-- Everything up to a point is whole passes, and a part of the next one. -/
theorem exists_pass {n : Nat} {pre : List (κ × α)} (h : pre <+: inTurn n lanes) :
    ∃ k p, p <+: pass lanes k ∧ pre = inTurn k lanes ++ p := by
  induction n with
  | zero =>
      have hnil : pre = [] := List.prefix_nil.mp h
      exact ⟨0, [], List.nil_prefix, by rw [hnil]; rfl⟩
  | succ n ih =>
      rw [inTurn_succ] at h
      rcases List.prefix_or_prefix_of_prefix h (List.prefix_append _ _) with hpre | ⟨p, rfl⟩
      · exact ih hpre
      · exact ⟨n, p, (List.prefix_append_right_inj _).mp h, rfl⟩

/-- A lane that still has items, at a point in the pass `k`, has given `k` or one more. -/
theorem length_taken (hnd : (lanes.map (·.1)).Nodup) {x : κ} {items : List α}
    (hmem : (x, items) ∈ lanes) {k : Nat} {p : List (κ × α)} (hp : p <+: pass lanes k)
    (hleft : (taken x (inTurn k lanes ++ p)).length < items.length) :
    k ≤ (taken x (inTurn k lanes ++ p)).length ∧
      (taken x (inTurn k lanes ++ p)).length ≤ k + 1 := by
  -- The whole passes took one item each, and a part of a pass takes one at most.
  have hone : (taken x p).length ≤ (taken x (pass lanes k)).length := by
    unfold taken
    rw [List.length_map, List.length_map]
    exact (hp.sublist.filter _).length_le
  have hsingle : (items[k]?).toList.length ≤ 1 := by cases items[k]? <;> simp
  rw [taken_pass hnd hmem] at hone
  rw [taken_append, List.length_append, taken_inTurn hnd hmem, List.length_take] at hleft ⊢
  omega

/-- At every point two lanes that still have items have given the same number, or one more. -/
theorem balanced_inTurn (hnd : (lanes.map (·.1)).Nodup) {n : Nat} {pre : List (κ × α)}
    (h : pre <+: inTurn n lanes) {x y : κ} {items items' : List α} (hx : (x, items) ∈ lanes)
    (hy : (y, items') ∈ lanes) (hleftx : (taken x pre).length < items.length)
    (hlefty : (taken y pre).length < items'.length) :
    (taken x pre).length ≤ (taken y pre).length + 1 := by
  -- Both lanes have given `k` or one more, in the same pass.
  obtain ⟨k, p, hp, rfl⟩ := exists_pass h
  have hx' := length_taken hnd hx hp hleftx
  have hy' := length_taken hnd hy hp hlefty
  omega

omit [DecidableEq κ] in
/-- An item of the first lane that has one comes first. -/
theorem head?_inTurn {x : κ} {item : α} {items : List α} (rest : List (κ × List α)) {n : Nat}
    (hn : 0 < n) : (inTurn n ((x, item :: items) :: rest)).head? = some (x, item) := by
  obtain ⟨n, rfl⟩ := Nat.exists_eq_succ_of_ne_zero (Nat.ne_of_gt hn)
  unfold inTurn
  rw [List.range_succ_eq_map, List.flatMap_cons]
  rfl

/-! ### A queue -/

/-- The order `picks` of a queue is fair: each key has its first items, up to its cap; no item is
taken twice; and at every point two keys that are still to give items have given the same number,
or one more. -/
structure FairOrder (cap : κ → Nat) (queue picks : List (κ × α)) : Prop where
  share : ∀ x, taken x picks = (taken x queue).take (cap x)
  once : picks.Subperm queue
  balanced : ∀ pre, pre <+: picks → ∀ x y, (taken x pre).length < (taken x picks).length →
    (taken y pre).length < (taken y picks).length →
    (taken x pre).length ≤ (taken y pre).length + 1

theorem count_taken [DecidableEq α] (x : κ) (item : α) (picks : List (κ × α)) :
    (taken x picks).count item = picks.count (x, item) := by
  induction picks with
  | nil => rfl
  | cons e rest ih =>
      have hcons : taken x (e :: rest) = taken x [e] ++ taken x rest :=
        taken_append x [e] rest
      rw [hcons, List.count_append, ih, List.count_cons, Nat.add_comm]
      congr 1
      obtain ⟨y, b⟩ := e
      by_cases hy : y = x
      · subst hy
        by_cases hb : b = item <;> simp [taken, hb]
      · simp [taken, hy]

theorem length_taken_le (x : κ) (queue : List (κ × α)) : (taken x queue).length ≤ queue.length := by
  unfold taken
  rw [List.length_map]
  exact List.length_filter_le _ _

/-- What is taken from a lane is in it. -/
theorem mem_taken {x : κ} {item : α} {picks : List (κ × α)} :
    item ∈ taken x picks ↔ (x, item) ∈ picks := by
  simp [taken]

/-- The lanes of a queue, each cut to its cap, taken in turn. -/
theorem fairOrder_inTurn [DecidableEq α] {cap : κ → Nat} {queue : List (κ × α)}
    (hnd : (lanes.map (·.1)).Nodup)
    (hlane : ∀ lane ∈ lanes, lane.2 = (taken lane.1 queue).take (cap lane.1))
    (hall : ∀ e ∈ queue, e.1 ∈ lanes.map (·.1)) {n : Nat} (hn : queue.length ≤ n) :
    FairOrder cap queue (inTurn n lanes) := by
  have hitems : ∀ x, x ∈ lanes.map (·.1) → (x, (taken x queue).take (cap x)) ∈ lanes := by
    intro x hx
    obtain ⟨⟨y, items⟩, hmem, rfl⟩ := List.mem_map.mp hx
    rw [← hlane _ hmem]
    exact hmem
  -- The passes are as many as the queue is long, so no lane is left with items.
  have hshare : ∀ x, taken x (inTurn n lanes) = (taken x queue).take (cap x) := by
    intro x
    by_cases hx : x ∈ lanes.map (·.1)
    · rw [taken_inTurn hnd (hitems x hx)]
      refine List.take_of_length_le ?_
      exact Nat.le_trans (List.take_sublist _ _).length_le
        (Nat.le_trans (length_taken_le x queue) hn)
    · have hnil : taken x queue = [] := by
        refine List.eq_nil_iff_forall_not_mem.mpr fun item hitem => ?_
        exact hx (hall _ (mem_taken.mp hitem))
      rw [taken_inTurn_of_not_mem hx, hnil, List.take_nil]
  refine ⟨hshare, List.subperm_ext_iff.mpr fun e _ => ?_, fun pre hpre x y hleftx hlefty => ?_⟩
  · -- An item is counted in the lane of its key, which has part of the queue's.
    rw [← count_taken, ← count_taken, hshare]
    exact (List.take_sublist _ _).count_le _
  · -- a key that is still to give items has a lane
    have hthere : ∀ z, (taken z pre).length < (taken z (inTurn n lanes)).length →
        z ∈ lanes.map (·.1) := by
      intro z hz
      by_contra hmem
      rw [taken_inTurn_of_not_mem hmem] at hz
      exact Nat.not_lt_zero _ hz
    have hx := hthere x hleftx
    have hy := hthere y hlefty
    rw [hshare] at hleftx hlefty
    exact balanced_inTurn hnd hpre (hitems x hx) (hitems y hy) hleftx hlefty

/-! ### The turn -/

/-- A counter that starts again at `m`, over `n` steps: it meets each remainder of `n` once exactly
where it does not start again, or where `n` divides `m`. -/
theorem injOn_counter_iff {r m n : Nat} (hr : r < m) :
    (∀ i < n, ∀ j < n, (r + i) % m % n = (r + j) % m % n → i = j) ↔ r + n ≤ m ∨ n ∣ m := by
  -- A counter that only runs on meets each remainder once.
  have hinj : ∀ i < n, ∀ j < n, (r + i) % n = (r + j) % n → i = j := by
    intro i hi j hj h
    have hmod : i % n = j % n := Nat.ModEq.add_left_cancel' r h
    rwa [Nat.mod_eq_of_lt hi, Nat.mod_eq_of_lt hj] at hmod
  constructor
  · intro h
    by_contra hnot
    obtain ⟨hwrap, hdvd⟩ := not_or.mp hnot
    have hrest : 0 < m % n := Nat.pos_of_ne_zero fun h0 => hdvd (Nat.dvd_of_mod_eq_zero h0)
    have hlt : m % n < n := Nat.mod_lt _ (by omega)
    have hle : m % n ≤ m := Nat.mod_le _ _
    have hdiv : n * (m / n) + m % n = m := Nat.div_add_mod m n
    -- a step before the start and one after it, `m % n` later
    obtain ⟨i, hi⟩ : ∃ i, i = m - r - m % n := ⟨_, rfl⟩
    have hbefore : (r + i) % m = r + i := Nat.mod_eq_of_lt (by omega)
    have hafter : (r + (i + m % n)) % m = r + (i + m % n) - m := by
      rw [Nat.mod_eq_sub_mod (by omega), Nat.mod_eq_of_lt (by omega)]
    have hsame : (r + i) % n = (r + (i + m % n) - m) % n := by
      have hsum : r + i = r + (i + m % n) - m + n * (m / n) := by omega
      rw [hsum, Nat.add_mul_mod_self_left]
    have heq := h i (by omega) (i + m % n) (by omega) (by rw [hbefore, hafter, hsame])
    omega
  · rintro (hle | hdvd) i hi j hj h
    · rw [Nat.mod_eq_of_lt (by omega : r + i < m), Nat.mod_eq_of_lt (by omega : r + j < m)] at h
      exact hinj i hi j hj h
    · rw [Nat.mod_mod_of_dvd _ hdvd, Nat.mod_mod_of_dvd _ hdvd] at h
      exact hinj i hi j hj h

end Frust.Lib.RoundRobin
