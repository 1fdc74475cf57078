import Frust.Lib.RoundRobin
import Frust.Proofs.Kernel.Fairness

/-!
# `Frust.Proofs.Kernel.RoundRobin`: what is fair in a claim round

`run_fairRound_picks` is that a round takes from the tenants in turn, from the one whose turn it
is. So each round is fair by itself. `perm_firsts_iff` is about rounds one after the other: every tenant
is first once exactly where no cap is zero and the turn falls on tenants that are distinct. The
place of the turn advances once for each round, but the order of the tenants is the queue's.
-/

set_option autoImplicit false

namespace Frust.Kernel

open Frust.Lib Frust.Lib.Prog Frust.Lib.RoundRobin

/-! ### The passes -/

/-- A share after `k` passes. -/
def Share.after (k : Nat) (s : Share) : Share :=
  { s with taken := min k (min s.cap s.jobs.length) }

/-- The pass `k` takes the job `k`, up to the cap. -/
theorem Share.next_after (k : Nat) (s : Share) : (s.after k).next = (s.jobs.take s.cap)[k]? := by
  unfold Share.next Share.after
  rw [List.getElem?_take]
  -- Below the cap and the end the job is there; beyond either there is none.
  by_cases hcap : k < s.cap
  · by_cases hlen : k < s.jobs.length
    · simp [hcap, show min k (min s.cap s.jobs.length) = k by omega]
    · have hnone : s.jobs[k]? = none := List.getElem?_eq_none (by omega)
      have hend : s.jobs[min k (min s.cap s.jobs.length)]? = none :=
        List.getElem?_eq_none (by omega)
      simp [hnone, hend]
  · by_cases hlen : s.cap ≤ s.jobs.length
    · simp [hcap, show min k (min s.cap s.jobs.length) = s.cap by omega]
    · have hend : s.jobs[min k (min s.cap s.jobs.length)]? = none :=
        List.getElem?_eq_none (by omega)
      simp [hcap, hend]

theorem Share.advance_after (k : Nat) (s : Share) : (s.after k).advance = s.after (k + 1) := by
  unfold Share.advance
  rw [Share.next_after]
  by_cases hk : k < min s.cap s.jobs.length
  · have hsome : ((s.jobs.take s.cap)[k]?).isSome := by
      rw [List.getElem?_eq_getElem (by rw [List.length_take]; exact hk)]
      rfl
    rw [if_pos hsome]
    unfold Share.after
    rw [show min k (min s.cap s.jobs.length) + 1 = min (k + 1) (min s.cap s.jobs.length) by omega]
  · have hnone : (s.jobs.take s.cap)[k]? = none :=
      List.getElem?_eq_none (by rw [List.length_take]; omega)
    rw [hnone, if_neg (by simp)]
    unfold Share.after
    rw [show min k (min s.cap s.jobs.length) = min (k + 1) (min s.cap s.jobs.length) by omega]

/-- The lanes of a rotation: each tenant's jobs up to its cap. -/
def lanesOf (cap : String → Nat) (groups : List (String × List String)) :
    List (String × List String) := groups.map fun e => (e.1, e.2.take (cap e.1))

theorem filterMap_next (cap : String → Nat) (groups : List (String × List String)) (k : Nat) :
    ((sharesOf cap groups).map (Share.after k)).filterMap Share.next
      = (RoundRobin.pass (lanesOf cap groups) k).map (·.2) := by
  unfold sharesOf lanesOf RoundRobin.pass
  rw [List.filterMap_map, List.filterMap_map, List.filterMap_map, List.map_filterMap]
  refine List.filterMap_congr fun e _ => ?_
  simp only [Function.comp_apply, Share.next_after, Option.map_map]
  exact (congrFun Option.map_id _).symm

/-- The loop is the passes one after the other. -/
theorem takePasses_after (cap : String → Nat) (groups : List (String × List String))
    (fuel k : Nat) :
    takePasses fuel ((sharesOf cap groups).map (Share.after k))
      = ((List.range' k fuel).flatMap (RoundRobin.pass (lanesOf cap groups))).map (·.2) := by
  induction fuel generalizing k with
  | zero => rfl
  | succ fuel ih =>
      -- One round of the loop: what it takes is a pass, and the shares are those of the next one.
      have hadvance : ((sharesOf cap groups).map (Share.after k)).map Share.advance
          = (sharesOf cap groups).map (Share.after (k + 1)) := by
        rw [List.map_map]
        exact List.map_congr_left fun s _ => Share.advance_after k s
      unfold takePasses
      simp only [filterMap_next, hadvance, ih, List.range'_succ, List.flatMap_cons, List.map_append]
      by_cases hempty : RoundRobin.pass (lanesOf cap groups) k = []
      · -- the loop ends, and the other passes take nothing
        have hrest :
            (List.range' (k + 1) fuel).flatMap (RoundRobin.pass (lanesOf cap groups)) = [] := by
          rw [List.flatMap_eq_nil_iff]
          intro n hn
          exact pass_eq_nil (by have := List.mem_range'_1.mp hn; omega) hempty
        simp [hempty, hrest]
      · rw [if_neg (by simpa using hempty)]

theorem takePasses_eq (cap : String → Nat) (groups : List (String × List String)) (fuel : Nat) :
    takePasses fuel (sharesOf cap groups) = (inTurn fuel (lanesOf cap groups)).map (·.2) := by
  have hstart : (sharesOf cap groups).map (Share.after 0) = sharesOf cap groups := by
    unfold sharesOf
    rw [List.map_map]
    exact List.map_congr_left fun e _ => by simp [Share.after]
  rw [← hstart, takePasses_after, inTurn, List.range_eq_range']

/-! ### The groups -/

/-- The tenants of a queue, as they come. -/
def arrivals (queued : List (String × String)) : List String :=
  (queued.map (·.2)).foldl addName []

theorem arrivals_concat (init : List (String × String)) (e : String × String) :
    arrivals (init ++ [e]) = addName (arrivals init) e.2 := by
  unfold arrivals
  rw [List.map_append, List.foldl_append]
  rfl

theorem mem_addName {names : List String} {tenant t : String} :
    t ∈ addName names tenant ↔ t ∈ names ∨ t = tenant := by
  unfold addName
  by_cases h : tenant ∈ names
  · rw [if_pos h]
    exact ⟨Or.inl, fun h' => h'.elim id fun heq => heq ▸ h⟩
  · rw [if_neg h, List.mem_append, List.mem_singleton]

theorem nodup_addName {names : List String} (h : names.Nodup) (tenant : String) :
    (addName names tenant).Nodup := by
  unfold addName
  by_cases hmem : tenant ∈ names
  · rw [if_pos hmem]
    exact h
  · rw [if_neg hmem]
    exact List.Nodup.append h (List.nodup_singleton _) (by simpa using hmem)

theorem nodup_arrivals (queued : List (String × String)) : (arrivals queued).Nodup := by
  induction queued using List.reverseRecOn with
  | nil => exact List.nodup_nil
  | append_singleton init e ih =>
      rw [arrivals_concat]
      exact nodup_addName ih e.2

theorem mem_arrivals {queued : List (String × String)} {t : String} :
    t ∈ arrivals queued ↔ t ∈ queued.map (·.2) := by
  induction queued using List.reverseRecOn with
  | nil => exact Iff.rfl
  | append_singleton init e ih =>
      rw [arrivals_concat, mem_addName, ih, List.map_append, List.mem_append]
      exact or_congr_right List.mem_singleton.symm

/-- Only the group of the tenant changes. -/
theorem mem_addToTenant {job tenant : String} {groups : List (String × List String)}
    (hnd : (groups.map (·.1)).Nodup) {group : String × List String}
    (h : group ∈ addToTenant job tenant groups) :
    (group ∈ groups ∧ group.1 ≠ tenant) ∨
      (∃ jobs, group = (tenant, jobs ++ [job]) ∧ (tenant, jobs) ∈ groups) ∨
      (group = (tenant, [job]) ∧ tenant ∉ groups.map (·.1)) := by
  induction groups with
  | nil => exact Or.inr (Or.inr ⟨List.mem_singleton.mp h, List.not_mem_nil⟩)
  | cons first rest ih =>
      obtain ⟨t, jobs⟩ := first
      rw [List.map_cons, List.nodup_cons] at hnd
      unfold addToTenant at h
      by_cases ht : t = tenant
      · subst ht
        rw [if_pos rfl] at h
        rcases List.mem_cons.mp h with rfl | hmem
        · exact Or.inr (Or.inl ⟨jobs, rfl, List.mem_cons_self⟩)
        · refine Or.inl ⟨List.mem_cons_of_mem _ hmem, fun heq => hnd.1 ?_⟩
          exact List.mem_map.mpr ⟨group, hmem, heq⟩
      · rw [if_neg ht] at h
        rcases List.mem_cons.mp h with rfl | hmem
        · exact Or.inl ⟨List.mem_cons_self, ht⟩
        · -- The group is further back, and this one stays as it is.
          rcases ih hnd.2 hmem with ⟨hold, hne⟩ | ⟨jobs', heq, hold⟩ | ⟨heq, hnew⟩
          · exact Or.inl ⟨List.mem_cons_of_mem _ hold, hne⟩
          · exact Or.inr (Or.inl ⟨jobs', heq, List.mem_cons_of_mem _ hold⟩)
          · refine Or.inr (Or.inr ⟨heq, fun hmem => ?_⟩)
            rcases List.mem_cons.mp hmem with heq' | hmem
            · exact ht heq'.symm
            · exact hnew hmem

theorem names_eq_arrivals (queued : List (String × String)) :
    (groupByTenant queued).map (·.1) = arrivals queued := names_groupByTenant queued

/-- A group has the jobs of its tenant, as they come. -/
theorem jobs_groupByTenant (queued : List (String × String)) :
    ∀ group ∈ groupByTenant queued, group.2 = taken group.1 (queued.map Prod.swap) := by
  induction queued using List.reverseRecOn with
  | nil => exact fun _ h => nomatch h
  | append_singleton init e ih =>
      obtain ⟨job, tenant⟩ := e
      intro group hgroup
      have hconcat : groupByTenant (init ++ [(job, tenant)])
          = addToTenant job tenant (groupByTenant init) := List.foldl_concat _ _ _ _
      rw [hconcat] at hgroup
      have hnd : ((groupByTenant init).map (·.1)).Nodup := by
        rw [names_eq_arrivals]
        exact nodup_arrivals init
      rw [List.map_append, taken_append]
      -- Another tenant's group, the tenant's own with the job behind it, or a new one.
      rcases mem_addToTenant hnd hgroup with ⟨hold, hne⟩ | ⟨jobs, rfl, hold⟩ | ⟨rfl, hnew⟩
      · rw [← ih group hold]
        simp [taken, Ne.symm hne]
      · rw [← ih _ hold]
        simp [taken]
      · -- the first job of its tenant
        have hnil : taken tenant (init.map Prod.swap) = [] := by
          refine List.eq_nil_iff_forall_not_mem.mpr fun j hj => hnew ?_
          rw [names_eq_arrivals, mem_arrivals]
          obtain ⟨e, he, heq⟩ := List.mem_map.mp (mem_taken.mp hj)
          exact List.mem_map.mpr ⟨e, he, congrArg Prod.fst heq⟩
        rw [hnil]
        simp [taken]

/-! ### One round -/

theorem perm_rotateLeft {α : Type} (xs : List α) (n : Nat) : (xs.rotateLeft n).Perm xs := by
  unfold List.rotateLeft
  by_cases hlen : xs.length ≤ 1
  · simp [hlen]
  · simp only [hlen, if_false]
    refine List.perm_append_comm.trans ?_
    rw [List.take_append_drop]

/-- What a round takes, with the tenants: from each in turn, up to its cap. -/
def picksOf (cap : String → Nat) (round : Nat) (queued : List (String × String)) :
    List (String × String) :=
  inTurn queued.length (lanesOf cap (inTurnOf round queued))

theorem fairOrder_picksOf (cap : String → Nat) (round : Nat) (queued : List (String × String)) :
    FairOrder cap (queued.map Prod.swap) (picksOf cap round queued) := by
  -- Rotating only orders the groups, so the lanes are one for each tenant.
  have hperm : (inTurnOf round queued).Perm (groupByTenant queued) := perm_rotateLeft _ _
  have hkeys : (lanesOf cap (inTurnOf round queued)).map (·.1)
      = (inTurnOf round queued).map (·.1) := by
    rw [lanesOf, List.map_map]
    rfl
  have hnames : ((inTurnOf round queued).map (·.1)).Perm (arrivals queued) := by
    rw [← names_eq_arrivals]
    exact hperm.map _
  refine fairOrder_inTurn ?_ (fun lane hlane => ?_) (fun e he => ?_) (by rw [List.length_map])
  · rw [hkeys]
    exact hnames.nodup_iff.mpr (nodup_arrivals queued)
  · obtain ⟨group, hgroup, rfl⟩ := List.mem_map.mp hlane
    rw [← jobs_groupByTenant queued group (hperm.mem_iff.mp hgroup)]
  · obtain ⟨entry, hentry, rfl⟩ := List.mem_map.mp he
    rw [hkeys, hnames.mem_iff, mem_arrivals]
    exact List.mem_map.mpr ⟨entry, hentry, rfl⟩

/-- The tenant whose turn it is. -/
def turnOf (round : Nat) (queued : List (String × String)) : Option String :=
  (arrivals queued)[round % (arrivals queued).length]?

/-- The tenant whose turn it is comes first, unless its cap is zero. -/
theorem head?_picksOf {cap : String → Nat} (round : Nat) {queued : List (String × String)}
    (hne : queued ≠ []) (hcap : ∀ t, turnOf round queued = some t → 1 ≤ cap t) :
    (picksOf cap round queued).head?.map (·.1) = turnOf round queued := by
  have hturn : turnOf round queued
      = (groupByTenant queued)[round % (groupByTenant queued).length]?.map (·.1) := by
    unfold turnOf
    rw [← names_eq_arrivals, List.length_map, List.getElem?_map]
  -- The rotation puts the group at the place of the turn first.
  have hlt : round % (groupByTenant queued).length < (groupByTenant queued).length :=
    Nat.mod_lt _ (List.length_pos_iff.mpr (groupByTenant_ne_nil hne))
  obtain ⟨group, hgroup⟩ : ∃ group, (groupByTenant queued)[round
      % (groupByTenant queued).length]? = some group := ⟨_, List.getElem?_eq_getElem hlt⟩
  obtain ⟨rest, hrotated⟩ : ∃ rest, inTurnOf round queued = group :: rest :=
    List.head?_eq_some_iff.mp ((head?_rotateLeft hlt).trans hgroup)
  rw [hgroup, Option.map_some] at hturn
  -- It has a job, and its cap lets the first pass take it.
  obtain ⟨job, jobs, hjobs⟩ :=
    List.exists_cons_of_ne_nil (groupByTenant_spec queued group (List.mem_of_getElem? hgroup)).1
  obtain ⟨n, hn⟩ := Nat.exists_eq_add_of_le (hcap _ hturn)
  have hlane : lanesOf cap (inTurnOf round queued)
      = (group.1, job :: jobs.take n) :: lanesOf cap rest := by
    rw [hrotated, lanesOf, List.map_cons, hjobs, hn, Nat.add_comm, List.take_succ_cons]
    rfl
  rw [picksOf, hlane, head?_inTurn _ (List.length_pos_iff.mpr hne), hturn]
  rfl

/-! ### Rounds one after the other -/

/-- Rounds, with nothing in between. -/
def fairRounds : List (List (String × String)) → Work (List (List String))
  | [] => pure []
  | queued :: rest => do
      let order ← Worker.fairRound queued
      let more ← fairRounds rest
      return order :: more

/-- The tenants whose turn it is: the counter advances with each round. -/
def turns : Nat → List (List (String × String)) → List (Option String)
  | _, [] => []
  | round, queued :: rest => turnOf round queued :: turns ((round + 1) % 2 ^ 64) rest

/-- What the rounds take, with the tenants. -/
def picksOfAll (cap : String → Nat) :
    Nat → List (List (String × String)) → List (List (String × String))
  | _, [] => []
  | round, queued :: rest => picksOf cap round queued :: picksOfAll cap ((round + 1) % 2 ^ 64) rest

variable (host : JobHost) (callers : String → Option Caller)
  (effects : Caller → String → Doc → Except BrokerError Json)

theorem run_fairRound_picks (world : JobWorld) (queued : List (String × String)) :
    (Worker.fairRound queued).run (host.serve callers effects) world
      = (.ok ((picksOf host.policies world.round queued).map (·.2)),
          world.turned (arrivals queued).length) := by
  rw [run_fairRound_eq, takePasses_eq, ← names_eq_arrivals, List.length_map]
  rfl

/-- Rounds over several tenants, or a single one. -/
theorem run_fairRounds {qs : List (List (String × String))}
    (h : qs.length ≤ 1 ∨ ∀ queued ∈ qs, 1 < (arrivals queued).length) (world : JobWorld) :
    ∃ world', (fairRounds qs).run (host.serve callers effects) world
      = (.ok ((picksOfAll host.policies world.round qs).map fun picks => picks.map (·.2)),
          world') := by
  induction qs generalizing world with
  | nil => exact ⟨world, rfl⟩
  | cons queued rest ih =>
      have hrest : rest.length ≤ 1 ∨ ∀ queued ∈ rest, 1 < (arrivals queued).length := by
        refine h.imp (fun hle => ?_) fun hall q hq => hall q (List.mem_cons_of_mem _ hq)
        rw [List.length_cons] at hle
        omega
      obtain ⟨world', hmore⟩ := ih hrest (world.turned (arrivals queued).length)
      refine ⟨world', ?_⟩
      unfold fairRounds
      rw [run_bind_ok (run_fairRound_picks host callers effects world queued), run_bind_ok hmore]
      -- The counter advances in a round over several tenants, so also before the next round.
      have hnext : picksOfAll host.policies (world.turned (arrivals queued).length).round rest
          = picksOfAll host.policies ((world.round + 1) % 2 ^ 64) rest := by
        rcases h with hle | hall
        · -- no other round
          have hnil : rest = [] :=
            List.length_eq_zero_iff.mp (by rw [List.length_cons] at hle; omega)
          rw [hnil]
          rfl
        · unfold JobWorld.turned
          rw [if_pos (hall queued List.mem_cons_self)]
      rw [hnext]
      rfl

theorem fairOrder_picksOfAll (cap : String → Nat) (round : Nat)
    (qs : List (List (String × String))) :
    List.Forall₂ (fun queued picks => FairOrder cap (queued.map Prod.swap) picks) qs
      (picksOfAll cap round qs) := by
  induction qs generalizing round with
  | nil => exact .nil
  | cons queued rest ih => exact .cons (fairOrder_picksOf cap round queued) (ih _)

/-- The tenants that the rounds start with. -/
def firsts (picks : List (List (String × String))) : List String :=
  picks.filterMap fun round => round.head?.map (·.1)

/-- Without a cap of zero the rounds start with the tenants in turn. -/
theorem firsts_picksOfAll {cap : String → Nat} {qs : List (List (String × String))}
    (hne : ∀ queued ∈ qs, queued ≠ [])
    (hcap : ∀ queued ∈ qs, ∀ t ∈ queued.map (·.2), 1 ≤ cap t) (round : Nat) :
    (firsts (picksOfAll cap round qs)).map some = turns round qs := by
  induction qs generalizing round with
  | nil => rfl
  | cons queued rest ih =>
      have hturn : (picksOf cap round queued).head?.map (·.1) = turnOf round queued := by
        refine head?_picksOf round (hne queued List.mem_cons_self) fun t ht => ?_
        exact hcap queued List.mem_cons_self t (mem_arrivals.mp (List.mem_of_getElem? ht))
      -- There is a turn, as the queue has a job.
      have harrivals : arrivals queued ≠ [] := by
        intro hnil
        obtain ⟨e, es, he⟩ := List.exists_cons_of_ne_nil (hne queued List.mem_cons_self)
        have hmem : e.2 ∈ arrivals queued := by
          rw [mem_arrivals, he]
          exact List.mem_cons_self
        rw [hnil] at hmem
        cases hmem
      obtain ⟨t, ht⟩ : ∃ t, turnOf round queued = some t :=
        ⟨_, List.getElem?_eq_getElem (Nat.mod_lt _ (List.length_pos_iff.mpr harrivals))⟩
      have ih' := ih (fun q hq => hne q (List.mem_cons_of_mem _ hq))
        (fun q hq => hcap q (List.mem_cons_of_mem _ hq)) ((round + 1) % 2 ^ 64)
      unfold firsts at ih' ⊢
      unfold picksOfAll turns
      rw [List.filterMap_cons, hturn, ht, ← ih']
      rfl

/-- A tenant whose cap is zero is never first. -/
theorem one_le_of_mem_firsts {cap : String → Nat} {round : Nat}
    {qs : List (List (String × String))} {t : String}
    (h : t ∈ firsts (picksOfAll cap round qs)) : 1 ≤ cap t := by
  induction qs generalizing round with
  | nil => cases h
  | cons queued rest ih =>
      obtain ⟨picks, hpicks, hfirst⟩ := List.mem_filterMap.mp h
      rcases List.mem_cons.mp hpicks with rfl | hpicks
      · obtain ⟨⟨t', job⟩, hhead, rfl⟩ := Option.map_eq_some_iff.mp hfirst
        -- The first job of a round is in its tenant's share, which is cut to the cap.
        have hjob : job ∈ taken t' (picksOf cap round queued) :=
          mem_taken.mpr (List.mem_of_mem_head? hhead)
        rw [(fairOrder_picksOf cap round queued).share] at hjob
        rcases Nat.eq_zero_or_pos (cap t') with hzero | hpos
        · rw [hzero, List.take_zero] at hjob
          cases hjob
        · exact hpos
      · exact ih (List.mem_filterMap.mpr ⟨picks, hpicks, hfirst⟩)

@[simp] theorem length_turns (round : Nat) (qs : List (List (String × String))) :
    (turns round qs).length = qs.length := by
  induction qs generalizing round with
  | nil => rfl
  | cons queued rest ih => exact congrArg (· + 1) (ih _)

theorem mem_turns {round : Nat} {qs : List (List (String × String))} {t : String}
    (h : some t ∈ turns round qs) : ∃ queued ∈ qs, t ∈ queued.map (·.2) := by
  induction qs generalizing round with
  | nil => cases h
  | cons queued rest ih =>
      rcases List.mem_cons.mp h with heq | h
      · exact ⟨queued, List.mem_cons_self, mem_arrivals.mp (List.mem_of_getElem? heq.symm)⟩
      · obtain ⟨q, hq, ht⟩ := ih h
        exact ⟨q, List.mem_cons_of_mem _ hq, ht⟩

/-- Where the tenants come in the same order in each round, the turn follows the counter. -/
theorem turns_eq {tenants : List String} {qs : List (List (String × String))}
    (h : ∀ queued ∈ qs, arrivals queued = tenants) {round : Nat} (hround : round < 2 ^ 64) :
    turns round qs
      = (List.range qs.length).map fun i => tenants[(round + i) % 2 ^ 64 % tenants.length]? := by
  induction qs generalizing round with
  | nil => rfl
  | cons queued rest ih =>
      unfold turns
      rw [ih (fun q hq => h q (List.mem_cons_of_mem _ hq)) (Nat.mod_lt _ (by decide)),
        List.length_cons, List.range_succ_eq_map, List.map_cons, List.map_map, turnOf,
        h queued List.mem_cons_self]
      simp only [Nat.add_zero, Nat.mod_eq_of_lt hround]
      refine congrArg _ (List.map_congr_left fun i _ => ?_)
      show tenants[((round + 1) % 2 ^ 64 + i) % 2 ^ 64 % tenants.length]?
        = tenants[(round + (i + 1)) % 2 ^ 64 % tenants.length]?
      rw [Nat.mod_add_mod, Nat.add_assoc, Nat.add_comm 1 i]

/-- The turn then falls on every tenant once exactly where the counter does not wrap, or their
number divides its range. -/
theorem nodup_turns_iff {tenants : List String} (hnd : tenants.Nodup)
    {qs : List (List (String × String))} (h : ∀ queued ∈ qs, arrivals queued = tenants)
    (hlen : qs.length = tenants.length) {round : Nat} (hround : round < 2 ^ 64) :
    (turns round qs).Nodup ↔ round + tenants.length ≤ 2 ^ 64 ∨ tenants.length ∣ 2 ^ 64 := by
  -- Tenants are distinct, so the turns are where the remainders of the counter are.
  rw [turns_eq h hround, List.nodup_map_iff_inj_on List.nodup_range, hlen,
    ← injOn_counter_iff hround]
  constructor
  · intro hinj i hi j hj heq
    exact hinj i (List.mem_range.mpr hi) j (List.mem_range.mpr hj) (by rw [heq])
  · intro hinj i hi j hj heq
    have hi' := List.mem_range.mp hi
    exact hinj i hi' j (List.mem_range.mp hj)
      ((List.getElem?_inj (Nat.mod_lt _ (by omega)) hnd).mp heq)

/-- Rounds as many as there are tenants, with the same tenants in each: every tenant is first once
exactly where no cap is zero and the turn does not fall on a tenant again. -/
theorem perm_firsts_iff {cap : String → Nat} {tenants : List String} (hnd : tenants.Nodup)
    {qs : List (List (String × String))}
    (hsame : ∀ queued ∈ qs, ∀ t, t ∈ queued.map (·.2) ↔ t ∈ tenants)
    (hlen : qs.length = tenants.length) (round : Nat) :
    (firsts (picksOfAll cap round qs)).Perm tenants ↔
      (∀ t ∈ tenants, 1 ≤ cap t) ∧ (turns round qs).Nodup := by
  -- A round without jobs has no tenants, and then there is no round.
  have hne : ∀ queued ∈ qs, queued ≠ [] := by
    rintro queued hq rfl
    have hpos : 0 < tenants.length := hlen ▸ List.length_pos_of_mem hq
    obtain ⟨t, ts, ht⟩ := List.exists_cons_of_ne_nil (List.length_pos_iff.mp hpos)
    exact List.not_mem_nil ((hsame [] hq t).mpr (ht ▸ List.mem_cons_self))
  have hfirsts : (∀ t ∈ tenants, 1 ≤ cap t) →
      (firsts (picksOfAll cap round qs)).map some = turns round qs := fun hcap =>
    firsts_picksOfAll hne (fun q hq t ht => hcap t ((hsame q hq t).mp ht)) round
  constructor
  · intro hperm
    -- Who is first has a cap, and the turns are the firsts.
    have hcap : ∀ t ∈ tenants, 1 ≤ cap t := fun t ht =>
      one_le_of_mem_firsts (hperm.mem_iff.mpr ht)
    refine ⟨hcap, ?_⟩
    rw [← hfirsts hcap]
    exact (hperm.nodup_iff.mpr hnd).map (Option.some_injective _)
  · rintro ⟨hcap, hturns⟩
    -- As many turns as tenants, distinct and all of them tenants.
    have hmap := hfirsts hcap
    rw [← hmap] at hturns
    refine (List.subperm_of_subset hturns.of_map fun t ht => ?_).perm_of_length_le ?_
    · have hturn : some t ∈ turns round qs := hmap ▸ List.mem_map_of_mem ht
      obtain ⟨q, hq, hmem⟩ := mem_turns hturn
      exact (hsame q hq t).mp hmem
    · have hlength := congrArg List.length hmap
      rw [List.length_map, length_turns, hlen] at hlength
      exact Nat.le_of_eq hlength.symm

/-- Every round is fair: it has each job at most once and no others, of each tenant the first ones
up to its cap, and at every point two tenants that still have jobs to give have given the same
number, or one more. In rounds one after the other, as many as there are tenants and with the same
tenants in each, every tenant is first once if and only if no cap is zero and the turn, at the
place of the counter in the order in which the tenants come, does not fall on a tenant again. Where
they come in the same order in each round, it does not if and only if the counter does not wrap or
the number of tenants divides its range. -/
theorem fairRound_fair_iff (host : JobHost) (callers : String → Option Caller)
    (effects : Caller → String → Doc → Except BrokerError Json) :
    (∀ (queued : List (String × String)) (world : JobWorld), ∃ picks world',
      (Worker.fairRound queued).run (host.serve callers effects) world
        = (.ok (picks.map (·.2)), world') ∧
      FairOrder host.policies (queued.map Prod.swap) picks) ∧
    ∀ (tenants : List String) (qs : List (List (String × String))) (world : JobWorld),
      tenants.Nodup → (∀ queued ∈ qs, ∀ t, t ∈ queued.map (·.2) ↔ t ∈ tenants) →
      qs.length = tenants.length → world.round < 2 ^ 64 →
      (∃ picks world', (fairRounds qs).run (host.serve callers effects) world
          = (.ok (picks.map fun round => round.map (·.2)), world') ∧
        List.Forall₂ (fun queued round => FairOrder host.policies (queued.map Prod.swap) round)
          qs picks ∧
        ((firsts picks).Perm tenants ↔
          (∀ t ∈ tenants, 1 ≤ host.policies t) ∧ (turns world.round qs).Nodup)) ∧
      ((∀ queued ∈ qs, arrivals queued = tenants) → ((turns world.round qs).Nodup ↔
        world.round + tenants.length ≤ 2 ^ 64 ∨ tenants.length ∣ 2 ^ 64)) := by
  refine ⟨fun queued world => ⟨_, _, run_fairRound_picks host callers effects world queued,
    fairOrder_picksOf _ _ _⟩, ?_⟩
  intro tenants qs world hnd hsame hlen hround
  refine ⟨?_, fun horder => nodup_turns_iff hnd horder hlen hround⟩
  -- All rounds have as many tenants as there are rounds, so several unless there is one.
  have hmany : qs.length ≤ 1 ∨ ∀ queued ∈ qs, 1 < (arrivals queued).length := by
    refine (Nat.lt_or_ge 1 qs.length).symm.imp id fun hlt queued hq => ?_
    have hperm : (arrivals queued).Perm tenants := by
      rw [List.perm_ext_iff_of_nodup (nodup_arrivals queued) hnd]
      exact fun t => mem_arrivals.trans (hsame queued hq t)
    rw [hperm.length_eq, ← hlen]
    exact hlt
  obtain ⟨world', hrun⟩ := run_fairRounds host callers effects hmany world
  exact ⟨_, world', hrun, fairOrder_picksOfAll _ _ _, perm_firsts_iff hnd hsame hlen world.round⟩

/-- Two tenants with the same order in both rounds. -/
theorem fairRound_fair_two :
    ∃ picks world', (fairRounds
          [[("job:1", "A"), ("job:2", "B")], [("job:3", "A"), ("job:4", "B")]]).run
        ((JobHost.plain fun _ => 10).serve (fun _ => none) fun _ _ _ => .error .identityUnresolved)
        ⟨0, [], [], 0, []⟩
      = (.ok (picks.map fun round => round.map (·.2)), world') ∧
      (firsts picks).Perm ["A", "B"] := by
  have hsame : ∀ queued ∈ [[("job:1", "A"), ("job:2", "B")], [("job:3", "A"), ("job:4", "B")]],
      ∀ t, t ∈ queued.map (·.2) ↔ t ∈ ["A", "B"] := by
    intro queued hqueued t
    simp only [List.mem_cons, List.not_mem_nil, or_false] at hqueued
    rcases hqueued with rfl | rfl <;> exact Iff.rfl
  obtain ⟨⟨picks, world', hrun, _, hiff⟩, hturns⟩ :=
    (fairRound_fair_iff (.plain fun _ => 10) (fun _ => none)
      fun _ _ _ => .error .identityUnresolved).2 ["A", "B"] _ ⟨0, [], [], 0, []⟩ (by decide) hsame
      rfl (by decide)
  refine ⟨picks, world', hrun, hiff.mpr ⟨fun _ _ => Nat.succ_pos 9, hturns ?_ |>.mpr ?_⟩⟩
  · intro queued hqueued
    simp only [List.mem_cons, List.not_mem_nil, or_false] at hqueued
    rcases hqueued with rfl | rfl <;> decide
  · exact Or.inl (by decide)

/-- Two tenants that come in the other order in the second round: one of them is first twice. -/
theorem not_fairRound_fair :
    ¬∀ (host : JobHost) (callers : String → Option Caller)
      (effects : Caller → String → Doc → Except BrokerError Json) (tenants : List String)
      (qs : List (List (String × String))) (world : JobWorld),
      tenants.Nodup → (∀ queued ∈ qs, ∀ t, t ∈ queued.map (·.2) ↔ t ∈ tenants) →
      qs.length = tenants.length → world.round < 2 ^ 64 → (∀ t, 1 ≤ host.policies t) →
      ∃ picks world', (fairRounds qs).run (host.serve callers effects) world
          = (.ok (picks.map fun round => round.map (·.2)), world') ∧
        List.Forall₂ (fun queued round => FairOrder host.policies (queued.map Prod.swap) round)
          qs picks ∧
        (firsts picks).Perm tenants := by
  intro h
  have hsame : ∀ queued ∈ [[("job:1", "A"), ("job:2", "B")], [("job:3", "B"), ("job:4", "A")]],
      ∀ t, t ∈ queued.map (·.2) ↔ t ∈ ["A", "B"] := by
    intro queued hqueued t
    simp only [List.mem_cons, List.not_mem_nil, or_false] at hqueued
    rcases hqueued with rfl | rfl
    · exact Iff.rfl
    · simp [or_comm]
  obtain ⟨picks, world', hrun, hfair, hperm⟩ :=
    h (.plain fun _ => 10) (fun _ => none) (fun _ _ _ => .error .identityUnresolved) ["A", "B"] _
      ⟨0, [], [], 0, []⟩ (by decide) hsame rfl (by decide)
      fun _ => Nat.succ_pos 9
  have horders : picks.map (fun round => round.map (·.2))
      = [["job:1", "job:2"], ["job:4", "job:3"]] := by
    have hfst := congrArg Prod.fst hrun
    exact (Except.ok.inj hfst).symm
  -- the rounds start with `job:1` and `job:4`, and both are of `A`
  have hstart : ∀ {queue orders : List (String × String)} {job : String} {jobs : List String},
      FairOrder (fun _ => 10) queue orders → orders.map (·.2) = job :: jobs →
      ("B", job) ∉ queue → orders.head?.map (·.1) ≠ some "B" := by
    intro queue orders job jobs hfair hjobs hnot hfirst
    obtain ⟨⟨t, job'⟩, hhead, rfl⟩ := Option.map_eq_some_iff.mp hfirst
    obtain ⟨rest, rfl⟩ := List.head?_eq_some_iff.mp hhead
    cases hjobs
    exact hnot (hfair.once.subset List.mem_cons_self)
  cases hfair with
  | cons hfair₁ hrest =>
    cases hrest with
    | cons hfair₂ hnil =>
      cases hnil
      obtain ⟨horder₁, horder₂⟩ := List.cons.inj horders
      have hmem : "B" ∈ firsts _ := hperm.mem_iff.mpr (by decide)
      obtain ⟨round, hround, hfirst⟩ := List.mem_filterMap.mp hmem
      rcases List.mem_cons.mp hround with rfl | hround
      · exact hstart hfair₁ horder₁ (by decide) hfirst
      · obtain rfl := List.mem_singleton.mp hround
        exact hstart hfair₂ (List.cons.inj horder₂).1 (by decide) hfirst

end Frust.Kernel
