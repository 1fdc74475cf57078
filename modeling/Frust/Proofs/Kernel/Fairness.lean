import Frust.Proofs.Kernel.Job

/-!
# `Frust.Proofs.Kernel.Fairness`: who is served in a claim round

`run_claimNext` follows `claim_next` through one call, at one instant and with no other
worker: it asks for the heads of the tenants listed first, and takes the head of the tenant
whose turn it is. `claim_next_reaches_iff` says when it finds a job at all, and that
tenants who stay listed are served in turn.
-/

set_option autoImplicit false

namespace Frust.Kernel

open Frust.Lib Frust.Lib.Prog

/-! ### The order of a round -/

/-- Puts a tenant at the end, if it is not there. -/
def addName (names : List String) (tenant : String) : List String :=
  if tenant ∈ names then names else names ++ [tenant]

theorem names_addToTenant (job tenant : String) (groups : List (String × List String)) :
    (addToTenant job tenant groups).map (·.1) = addName (groups.map (·.1)) tenant := by
  induction groups with
  | nil => rfl
  | cons group rest ih =>
      obtain ⟨t, jobs⟩ := group
      unfold addToTenant
      by_cases ht : t = tenant
      · simp [ht, addName]
      · rw [if_neg ht, List.map_cons, ih]
        unfold addName
        by_cases hmem : tenant ∈ rest.map (·.1)
        · simp [hmem]
        · simp [hmem, Ne.symm ht]

theorem names_groupByTenant (queued : List (String × String)) :
    (groupByTenant queued).map (·.1) = (queued.map (·.2)).foldl addName [] := by
  suffices ∀ groups, (queued.foldl (fun acc e => addToTenant e.1 e.2 acc) groups).map (·.1)
      = (queued.map (·.2)).foldl addName (groups.map (·.1)) from this []
  induction queued with
  | nil => exact fun _ => rfl
  | cons e rest ih =>
      intro groups
      simp only [List.foldl_cons, List.map_cons]
      rw [ih, names_addToTenant]

/-- The heads of distinct tenants, each with a job, make one group for each. -/
theorem foldl_addName_flatMap {names : List String} (jobs : String → List String)
    (hnodup : names.Nodup) (hjobs : ∀ name ∈ names, jobs name ≠ []) :
    ((names.flatMap fun name => (jobs name).map fun id => (id, name)).map (·.2)).foldl addName []
      = names := by
  -- A tenant that is there already adds no name.
  have hrepeat : ∀ (acc : List String) (name : String) (ids : List String), name ∈ acc →
      (ids.map fun _ => name).foldl addName acc = acc := by
    intro acc name ids hmem
    induction ids with
    | nil => rfl
    | cons id rest ih =>
        rw [List.map_cons, List.foldl_cons, addName, if_pos hmem]
        exact ih
  -- The names so far are the accumulator, and none of them is still to come.
  suffices ∀ acc : List String, (∀ name ∈ names, name ∉ acc) →
      ((names.flatMap fun name => (jobs name).map fun id => (id, name)).map (·.2)).foldl addName acc
        = acc ++ names by
    simpa using this [] (by simp)
  induction names with
  | nil => simp
  | cons name rest ih =>
      intro acc hnew
      obtain ⟨hname, hrest⟩ := List.nodup_cons.mp hnodup
      obtain ⟨id, ids, hids⟩ := List.exists_cons_of_ne_nil (hjobs name List.mem_cons_self)
      have hfirst : addName acc name = acc ++ [name] := if_neg (hnew name List.mem_cons_self)
      rw [List.flatMap_cons, List.map_append, List.foldl_append, hids]
      simp only [List.map_cons, List.map_map, List.foldl_cons, hfirst]
      have hids' : (ids.map fun _ => name).foldl addName (acc ++ [name]) = acc ++ [name] :=
        hrepeat _ _ _ (by simp)
      rw [show ((fun x : String × String => x.2) ∘ fun id => (id, name)) = fun _ => name from rfl,
        hids', ih hrest (fun n hn => hjobs n (List.mem_cons_of_mem _ hn)) (acc ++ [name])]
      · simp
      · intro n hn hmem
        rcases List.mem_append.mp hmem with hmem | hmem
        · exact hnew n (List.mem_cons_of_mem _ hn) hmem
        · exact hname (List.mem_singleton.mp hmem ▸ hn)

theorem groupByTenant_ne_nil {queued : List (String × String)} (h : queued ≠ []) :
    groupByTenant queued ≠ [] := by
  have hadd : ∀ job tenant groups, addToTenant job tenant groups ≠ [] := by
    intro job tenant groups
    cases groups with
    | nil => exact List.cons_ne_nil _ _
    | cons group rest =>
        unfold addToTenant
        split <;> exact List.cons_ne_nil _ _
  induction queued using List.reverseRecOn with
  | nil => exact absurd rfl h
  | append_singleton init e _ =>
      unfold groupByTenant
      rw [List.foldl_concat]
      exact hadd _ _ _

/-- A group has a job, and only jobs of its tenant. -/
theorem groupByTenant_spec (queued : List (String × String)) :
    ∀ group ∈ groupByTenant queued, group.2 ≠ [] ∧ ∀ job ∈ group.2, (job, group.1) ∈ queued := by
  -- Adding a job leaves the other groups, and puts it behind its tenant's jobs.
  have hadd : ∀ (job tenant : String) (groups : List (String × List String)),
      ∀ group ∈ addToTenant job tenant groups,
        group ∈ groups ∨ (group.1 = tenant ∧ ∃ jobs, group.2 = jobs ++ [job] ∧
          (jobs = [] ∨ (tenant, jobs) ∈ groups)) := by
    intro job tenant groups
    induction groups with
    | nil =>
        intro group hmem
        rw [List.mem_singleton.mp hmem]
        exact Or.inr ⟨rfl, [], rfl, Or.inl rfl⟩
    | cons g rest ih =>
        obtain ⟨t, jobs⟩ := g
        intro group hmem
        unfold addToTenant at hmem
        by_cases ht : t = tenant
        · rw [if_pos ht] at hmem
          rcases List.mem_cons.mp hmem with rfl | hmem
          · exact Or.inr ⟨ht, jobs, rfl, Or.inr (ht ▸ List.mem_cons_self)⟩
          · exact Or.inl (List.mem_cons_of_mem _ hmem)
        · rw [if_neg ht] at hmem
          rcases List.mem_cons.mp hmem with rfl | hmem
          · exact Or.inl List.mem_cons_self
          · rcases ih group hmem with h | ⟨h₁, jobs', h₂, h₃⟩
            · exact Or.inl (List.mem_cons_of_mem _ h)
            · exact Or.inr ⟨h₁, jobs', h₂, h₃.imp_right (List.mem_cons_of_mem _)⟩
  -- What holds of the groups so far holds of them with the jobs still to do.
  suffices ∀ groups : List (String × List String),
      (∀ group ∈ groups, group.2 ≠ [] ∧ ∀ job ∈ group.2, (job, group.1) ∈ queued) →
        ∀ todo : List (String × String), (∀ e ∈ todo, e ∈ queued) →
          ∀ group ∈ todo.foldl (fun acc e => addToTenant e.1 e.2 acc) groups,
            group.2 ≠ [] ∧ ∀ job ∈ group.2, (job, group.1) ∈ queued from
    this [] (by simp) queued fun _ h => h
  intro groups hgroups todo
  induction todo generalizing groups with
  | nil => exact fun _ => hgroups
  | cons e rest ih =>
      intro htodo
      refine ih _ (fun group hmem => ?_) fun e' h => htodo e' (List.mem_cons_of_mem _ h)
      rcases hadd e.1 e.2 groups group hmem with h | ⟨htenant, jobs, hjobs, hold⟩
      · exact hgroups group h
      · refine ⟨by simp [hjobs], fun job hjob => ?_⟩
        rw [hjobs] at hjob
        rcases List.mem_append.mp hjob with hjob | hjob
        · rcases hold with rfl | hold
          · cases hjob
          · rw [htenant]
            exact (hgroups _ hold).2 job hjob
        · rw [List.mem_singleton.mp hjob, htenant]
          exact htodo e List.mem_cons_self

/-- A round takes the first job of its first share. -/
theorem head?_takePasses {fuel : Nat} (hfuel : 0 < fuel) {job : String} {jobs : List String}
    {cap : Nat} (hcap : 1 ≤ cap) (rest : List Share) :
    (takePasses fuel ({ jobs := job :: jobs, cap := cap } :: rest)).head? = some job := by
  obtain ⟨fuel, rfl⟩ := Nat.exists_eq_succ_of_ne_zero (Nat.ne_of_gt hfuel)
  have hnext : Share.next { jobs := job :: jobs, cap := cap } = some job := by
    simp [Share.next, Nat.lt_of_lt_of_le Nat.zero_lt_one hcap]
  unfold takePasses
  simp [hnext]

theorem head?_rotateLeft {α : Type} {xs : List α} {n : Nat} (hn : n < xs.length) :
    (xs.rotateLeft n).head? = xs[n]? := by
  unfold List.rotateLeft
  by_cases hlen : xs.length ≤ 1
  · have hzero : n = 0 := by omega
    simp [hlen, hzero, List.head?_eq_getElem?]
  · simp only [hlen, if_false, Nat.mod_eq_of_lt hn]
    rw [List.head?_append, List.head?_drop, List.getElem?_eq_getElem hn]
    rfl

/-! ### One call, at one instant -/

/-- The text of a record id of `job`. -/
def IsJobId (id : String) : Prop := ∃ key, splitRecordId id = some ("job", key) ∧ key ≠ ""

/-- What the database keeps in the table: each record id once, and counts from zero on. -/
structure JobTable.WellFormed (table : JobTable) : Prop where
  nodup : (table.map (·.1)).Nodup
  ids : ∀ job ∈ table, IsJobId job.1
  counted : ∀ job ∈ table, ∀ n, job.2.attempts = some n → 0 ≤ n

theorem renders_of_isJobId {id : String} (h : IsJobId id) : Renders id := by
  obtain ⟨key, hsplit, hkey⟩ := h
  have hident : isIdent "job" = true := by decide
  have hlist : key.toList.isEmpty = false := by
    rw [List.isEmpty_eq_false_iff]
    exact fun h => hkey (String.toList_inj.mp h)
  unfold Renders
  simp [renderValue, hsplit, hident, hlist]

section

variable (host : JobHost) (callers : String → Option Caller)
  (effects : Caller → String → Doc → Except BrokerError Json) (w : Worker) (world : JobWorld)

theorem run_sqlRoot {stmt : JobStatement} {text : String} (h : stmt.text = .ok text) :
    (Work.sqlRoot stmt).run (host.serve callers effects) world
      = (.ok (host.exec world stmt).1, (host.exec world stmt).2) := by
  unfold Work.sqlRoot Work.trySql
  rw [h]
  rfl

/-- A statement, and what comes after it. -/
theorem run_sqlRoot_bind {α : Type} {stmt : JobStatement} {text : String} (h : stmt.text = .ok text)
    (f : stmt.Rows → Work α) :
    (Work.sqlRoot stmt >>= f).run (host.serve callers effects) world
      = (f (host.exec world stmt).1).run (host.serve callers effects) (host.exec world stmt).2 :=
  run_bind_ok (run_sqlRoot host callers effects world h)

theorem run_headsOf (names : List String) :
    (Worker.headsOf names).run (host.serve callers effects) world
      = (.ok (names.flatMap fun name =>
          (host.heads world.now name world.jobs).map (Worker.candidate name)), world) := by
  induction names with
  | nil => rfl
  | cons name rest ih =>
      unfold Worker.headsOf
      rw [run_sqlRoot_bind host callers effects world rfl]
      exact run_bind_ok ih

theorem run_capsOf (tenants : List String) :
    (Worker.capsOf tenants).run (host.serve callers effects) world
      = (.ok (tenants.map host.policies), world) := by
  induction tenants with
  | nil => rfl
  | cons tenant rest ih =>
      unfold Worker.capsOf
      exact run_bind_ok ih

/-- The world after a round over `n` tenants. -/
def JobWorld.turned (n : Nat) : JobWorld :=
  if 1 < n then { world with round := (world.round + 1) % 2 ^ 64 } else world

@[simp] theorem JobWorld.turned_now (n : Nat) : (world.turned n).now = world.now := by
  unfold turned
  split <;> rfl

@[simp] theorem JobWorld.turned_jobs (n : Nat) : (world.turned n).jobs = world.jobs := by
  unfold turned
  split <;> rfl

/-- The shares of a rotation. -/
def sharesOf (cap : String → Nat) (groups : List (String × List String)) : List Share :=
  groups.map fun e => { jobs := e.2, cap := cap e.1 }

/-- The groups of a queue, from the one whose turn it is. -/
def inTurnOf (round : Nat) (queued : List (String × String)) : List (String × List String) :=
  (groupByTenant queued).rotateLeft (round % (groupByTenant queued).length)

/-- A round is the passes over the groups. -/
theorem run_fairRound_eq (queued : List (String × String)) :
    (Worker.fairRound queued).run (host.serve callers effects) world
      = (.ok (takePasses queued.length (sharesOf host.policies (inTurnOf world.round queued))),
          world.turned (groupByTenant queued).length) := by
  have hshares : ∀ groups : List (String × List String),
      List.zipWith (fun e cap => ({ jobs := e.2, cap := cap } : Share)) groups
        ((groups.map (·.1)).map host.policies) = sharesOf host.policies groups := by
    intro groups
    rw [List.map_map, List.zipWith_map_right, List.zipWith_self]
    rfl
  unfold Worker.fairRound inTurnOf JobWorld.turned
  by_cases hlen : 1 < (groupByTenant queued).length
  · simp only [gt_iff_lt, hlen, if_true]
    show (Worker.capsOf _ >>= _).run (host.serve callers effects) _ = _
    rw [run_bind_ok (run_capsOf host callers effects _ _), hshares]
    rfl
  · -- nothing is rotated
    have hrotate : ∀ n, (groupByTenant queued).rotateLeft n = groupByTenant queued := by
      intro n
      unfold List.rotateLeft
      rw [if_pos (by omega)]
    simp only [gt_iff_lt, hlen, if_false, hrotate]
    show (Worker.capsOf _ >>= _).run (host.serve callers effects) _ = _
    rw [run_bind_ok (run_capsOf host callers effects _ _)]
    simp only [hshares]
    rfl

/-- A round begins with the first job of the tenant whose turn it is. -/
theorem run_fairRound (hpolicies : ∀ t, 1 ≤ host.policies t) {queued : List (String × String)}
    (hqueued : queued ≠ []) :
    ∃ name job jobs order,
      (groupByTenant queued)[world.round % (groupByTenant queued).length]?
        = some (name, job :: jobs) ∧
      (Worker.fairRound queued).run (host.serve callers effects) world
        = (.ok (job :: order), world.turned (groupByTenant queued).length) := by
  have hspec := groupByTenant_spec queued
  have hpos : 0 < (groupByTenant queued).length :=
    List.length_pos_iff.mpr (groupByTenant_ne_nil hqueued)
  have hturn : world.round % (groupByTenant queued).length < (groupByTenant queued).length :=
    Nat.mod_lt _ hpos
  obtain ⟨⟨name, js⟩, hgroup⟩ : ∃ group, (groupByTenant queued)[world.round
      % (groupByTenant queued).length]? = some group := ⟨_, List.getElem?_eq_getElem hturn⟩
  obtain ⟨job, jobs, rfl⟩ := List.exists_cons_of_ne_nil (hspec _ (List.mem_of_getElem? hgroup)).1
  -- the rotation starts there, also where there is nothing to rotate
  obtain ⟨rest, hrotated⟩ : ∃ rest, inTurnOf world.round queued = (name, job :: jobs) :: rest :=
    List.head?_eq_some_iff.mp ((head?_rotateLeft hturn).trans hgroup)
  obtain ⟨order, horder⟩ : ∃ order, takePasses queued.length
      (sharesOf host.policies (inTurnOf world.round queued)) = job :: order := by
    rw [hrotated]
    exact List.head?_eq_some_iff.mp
      (head?_takePasses (List.length_pos_iff.mpr hqueued) (hpolicies name) _)
  exact ⟨name, job, jobs, order, hgroup, by rw [run_fairRound_eq, horder]⟩

theorem decodeJob_claimed {row : JobRow} (hcounted : ∀ n, row.attempts = some n → 0 ≤ n)
    (hleft : row.tries < maxJobAttempts) (now : Time) {worker token : String}
    (hworker : worker ≠ "") (htoken : token ≠ "") (id : String) :
    ∃ job, decodeJob (id, applySets now (claimSets worker token) row) = .ok job ∧ job.id = id := by
  -- The attempt is one more than a count below the limit, so it fits.
  have hattempt : ∃ n, attemptOf (applySets now (claimSets worker token) row).attempts = .ok n := by
    show ∃ n, attemptOf (some (row.attempts.elim 1 (· + 1))) = .ok n
    unfold JobRow.tries at hleft
    cases ha : row.attempts with
    | none => exact ⟨1, rfl⟩
    | some n =>
        have hpos := hcounted n ha
        rw [ha] at hleft
        simp only [Option.getD_some] at hleft
        have hfive : maxJobAttempts = 5 := rfl
        refine ⟨(n + 1).toNat, ?_⟩
        have hrange : 0 < n + 1 ∧ n + 1 < 2 ^ 32 := by omega
        simp only [attemptOf, Option.elim_some, Option.filter_some, hrange, and_self, decide_true,
          if_true]
  obtain ⟨n, hn⟩ := hattempt
  generalize hrow : applySets now (claimSets worker token) row = row' at hn ⊢
  -- The claim has written the other required columns.
  have hby : requiredColumn "claimed_by" (row'.claimedBy.filter (· ≠ "")) = .ok worker := by
    subst hrow
    show requiredColumn _ ((some worker).filter _) = _
    rw [Option.filter_some, if_pos (decide_eq_true hworker)]
    rfl
  have htok : requiredColumn "claim_token" (row'.claimToken.filter (· ≠ "")) = .ok token := by
    subst hrow
    show requiredColumn _ ((some token).filter _) = _
    rw [Option.filter_some, if_pos (decide_eq_true htoken)]
    rfl
  have hlease : requiredColumn "lease_expires_at" row'.leaseExpiresAt
      = .ok (now.plusSecs jobLeaseSeconds) := by
    subst hrow
    rfl
  unfold decodeJob
  simp only [hn, hby, htok, hlease]
  exact ⟨_, rfl, rfl⟩

/-- A claim of a job that can be claimed. -/
theorem run_tryClaimFrom {worker : Worker} (hworker : worker.workerId ≠ "")
    (hwf : world.jobs.WellFormed) {id : String} {row : JobRow}
    (hfound : world.jobs.lookup id = some row) {source : ClaimSource}
    (hsource : source.predicate.holds world.now row = true) :
    ∃ job world', (worker.tryClaimFrom id source).run (host.serve callers effects) world
      = (.ok (some job), world') ∧ job.id = id ∧ world'.round = world.round := by
  have hmem := mem_of_lookup hfound
  have htext : ∀ token, ∃ text, (claimSql id worker.workerId token source).text = .ok text :=
    fun _ => text_update_iff.mpr (renders_of_isJobId (hwf.ids _ hmem))
  have hhits : JobTable.hits world.now (some id) source.predicate (id, row) = true := by
    rw [JobTable.hits_some, hsource]
    simp
  generalize htok : (host.serve callers effects world .nextClaimToken).1 = token
  obtain ⟨text, htext⟩ := htext token
  have htoken : token ≠ "" := htok ▸ (answers_serve host callers effects world .nextClaimToken).1
  obtain ⟨job, hjob, hid⟩ := decodeJob_claimed (hwf.counted _ hmem) (tries_of_claimable hsource)
    world.now hworker htoken id
  -- the `UPDATE` answers with the job alone
  have hhead : (world.jobs.updatedRows world.now (some id) (claimSets worker.workerId token)
      source.predicate).head? = some (id, applySets world.now (claimSets worker.workerId token) row) := by
    have hrows : _ ∈ world.jobs.updatedRows world.now (some id) (claimSets worker.workerId token)
        source.predicate := JobTable.mem_updatedRows_of_hits hfound hhits
    obtain ⟨record, rest, hcons⟩ := List.exists_cons_of_ne_nil (List.ne_nil_of_mem hrows)
    rw [hcons]
    obtain ⟨row', hfound', hhits', hrow'⟩ :=
      JobTable.mem_updatedRows hwf.nodup (hcons ▸ List.mem_cons_self)
    rw [JobTable.hits_some, Bool.and_eq_true, decide_eq_true_eq] at hhits'
    obtain ⟨rfl, _⟩ := hhits'
    rw [hfound] at hfound'
    cases hfound'
    exact congrArg some (Prod.ext rfl hrow')
  refine ⟨job, (host.exec { world with issued := token :: world.issued }
    (claimSql id worker.workerId token source)).2, ?_, hid, rfl⟩
  unfold Worker.tryClaimFrom
  show (Work.sqlRoot _ >>= _).run (host.serve callers effects)
    (host.serve callers effects world .nextClaimToken).2 = _
  have hworld : (host.serve callers effects world .nextClaimToken).2
      = { world with issued := token :: world.issued } := by
    rw [← htok]
    rfl
  rw [htok, hworld]
  refine (run_sqlRoot_bind host callers effects _ htext _).trans ?_
  have hrow : List.head? (α := JobRecord) (host.exec { world with issued := token :: world.issued }
      (claimSql id worker.workerId token source)).1
        = some (id, applySets world.now (claimSets worker.workerId token) row) := hhead
  simp only [hrow]
  show run _ (Work.lift (decodeJob _) >>= _) _ = _
  rw [hjob]
  rfl

/-! ### The tenants of a call -/

/-- The world after the reaper. -/
def JobHost.reaped : JobWorld := (host.exec world reapSql).2

/-- The reaper takes no job that can be claimed. -/
theorem eligible_reaped : (host.reaped world).jobs.eligible world.now = world.jobs.eligible world.now := by
  generalize hafter : (host.reaped world).jobs = table'
  unfold JobHost.reaped reapSql JobHost.exec at hafter
  subst hafter
  show (List.map _ world.jobs).filter _ = world.jobs.filter _
  induction world.jobs with
  | nil => rfl
  | cons job rest ih =>
      rw [List.map_cons, List.filter_cons, List.filter_cons, ih]
      by_cases hhits : JobTable.hits world.now none exhaustedPredicate job = true
      · -- it was not eligible before, and is dead afterwards
        have hspent : exhaustedPredicate.holds world.now job.2 = true := by
          simpa [JobTable.hits] using hhits
        have hbefore : ¬eligiblePredicate.holds world.now job.2 = true := by
          rw [eligible_iff]
          rintro ⟨source, h⟩
          exact Nat.not_lt.mpr (tries_of_exhausted hspent) (tries_of_claimable h)
        have hafter : ∀ row : JobRow, row.status = .dead →
            ¬eligiblePredicate.holds world.now row = true := by
          intro row hdead
          rw [eligible_iff]
          rintro ⟨source, h⟩
          exact JobRow.Closed.not_open (Or.inr (Or.inr hdead)) (open_of_claimable h)
        rw [if_neg hbefore, if_neg]
        unfold JobTable.updated
        rw [if_pos hhits]
        exact hafter _ (by simp [applySets, JobSet.apply])
      · unfold JobTable.updated
        rw [if_neg hhits]

theorem eligibleOf_reaped (tenant : String) :
    (host.reaped world).jobs.eligibleOf world.now tenant = world.jobs.eligibleOf world.now tenant := by
  unfold JobTable.eligibleOf
  rw [eligible_reaped]

/-- The tenants whose heads a call asks for. -/
def Worker.listed : List String :=
  ((host.tenants world.now (host.reaped world).jobs).map w.tenantName).take maxTenantsPerRound

/-- The heads of these tenants. -/
def Worker.heads : List Worker.Candidate :=
  (w.listed host world).flatMap fun name =>
    (host.heads world.now name (host.reaped world).jobs).map (Worker.candidate name)

/-- The jobs of a call, by tenant. -/
def Worker.turns : List (String × List String) :=
  groupByTenant ((w.heads host world).map fun c => (c.id, c.tenant))

variable {host callers effects w world}

theorem JobTable.WellFormed.reaped (h : world.jobs.WellFormed) :
    (host.reaped world).jobs.WellFormed := by
  have hjob : ∀ job ∈ (host.reaped world).jobs, ∃ job₀ ∈ world.jobs,
      job.1 = job₀.1 ∧ job.2.attempts = job₀.2.attempts := by
    intro job hmem
    obtain ⟨job₀, hmem₀, rfl⟩ := List.mem_map.mp hmem
    refine ⟨job₀, hmem₀, ?_⟩
    unfold JobTable.updated
    split
    · exact ⟨rfl, by simp [applySets, JobSet.apply]⟩
    · exact ⟨rfl, rfl⟩
  refine ⟨?_, fun job hmem => ?_, fun job hmem n hn => ?_⟩
  · show ((world.jobs.update _ _ _ _).map (·.1)).Nodup
    rw [JobTable.ids_update]
    exact h.nodup
  · obtain ⟨job₀, hmem₀, hid, _⟩ := hjob job hmem
    rw [hid]
    exact h.ids job₀ hmem₀
  · obtain ⟨job₀, hmem₀, _, hattempts⟩ := hjob job hmem
    exact h.counted job₀ hmem₀ n (hattempts ▸ hn)

theorem mem_host_heads {name : String} {table : JobTable} {now : Time} {record : JobRecord}
    (h : record ∈ host.heads now name table) : record ∈ table.eligibleOf now name := by
  obtain ⟨sorted, hperm, _, hheads⟩ := host.heads_eq now name table
  rw [hheads] at h
  exact hperm.mem_iff.mp (List.mem_of_mem_take h)

theorem host_heads_ne_nil {name : String} {table : JobTable} {now : Time}
    (h : table.eligibleOf now name ≠ []) : host.heads now name table ≠ [] := by
  obtain ⟨sorted, hperm, _, hheads⟩ := host.heads_eq now name table
  rw [hheads]
  intro hnil
  rcases List.take_eq_nil_iff.mp hnil with hzero | hnil
  · cases hzero
  · exact h (hnil ▸ hperm).symm.eq_nil

/-- A head is an eligible job of a listed tenant. -/
theorem mem_heads {c : Worker.Candidate} (h : c ∈ w.heads host world) :
    c.tenant ∈ w.listed host world ∧ ∃ record, c = Worker.candidate c.tenant record ∧
      record ∈ (host.reaped world).jobs ∧ record ∈ world.jobs.eligibleOf world.now c.tenant := by
  obtain ⟨name, hname, hmem⟩ := List.mem_flatMap.mp h
  obtain ⟨record, hrecord, rfl⟩ := List.mem_map.mp hmem
  have heligible := mem_host_heads hrecord
  have hreaped : record ∈ (host.reaped world).jobs :=
    List.mem_of_mem_filter (List.mem_of_mem_filter heligible)
  refine ⟨hname, record, rfl, hreaped, ?_⟩
  rw [← eligibleOf_reaped host]
  exact heligible

theorem heads_eq_nil_iff :
    w.heads host world = [] ↔ ∀ name ∈ w.listed host world, world.jobs.eligibleOf world.now name = [] := by
  unfold Worker.heads
  rw [List.flatMap_eq_nil_iff]
  refine forall₂_congr fun name _ => ?_
  rw [List.map_eq_nil_iff, ← eligibleOf_reaped host]
  constructor
  · intro h
    by_contra hne
    exact host_heads_ne_nil hne h
  · intro h
    refine List.eq_nil_iff_forall_not_mem.mpr fun record hrecord => ?_
    have hmem := mem_host_heads hrecord
    rw [h] at hmem
    cases hmem

/-- A head is claimed from where it is. -/
theorem sourceOf_holds (hwf : world.jobs.WellFormed) {c : Worker.Candidate}
    (h : c ∈ w.heads host world) :
    ∃ row, (host.reaped world).jobs.lookup c.id = some row ∧ world.jobs.lookup c.id = some row ∧
      (c.id, row) ∈ world.jobs.eligibleOf world.now c.tenant ∧
      (Worker.sourceOf (w.heads host world) c.id).predicate.holds world.now row = true := by
  have hrow : ∀ c ∈ w.heads host world, ∃ row, (host.reaped world).jobs.lookup c.id = some row ∧
      world.jobs.lookup c.id = some row ∧ (c.id, row) ∈ world.jobs.eligibleOf world.now c.tenant ∧
      c.source.predicate.holds world.now row = true := by
    intro c hc
    obtain ⟨_, ⟨id, row⟩, hcandidate, hreaped, hmem⟩ := mem_heads hc
    have heligible := List.mem_of_mem_filter hmem
    have hid : c.id = id := congrArg Worker.Candidate.id hcandidate
    have hsource : c.source = if row.status = .running then .expiredLease else .queued :=
      congrArg Worker.Candidate.source hcandidate
    rw [hid]
    refine ⟨row, lookup_of_mem hwf.reaped.nodup hreaped,
      lookup_of_mem hwf.nodup (List.mem_of_mem_filter heligible), hmem, ?_⟩
    obtain ⟨source, hholds⟩ := eligible_iff.mp (List.mem_filter.mp heligible).2
    rw [hsource]
    have hstatus := hholds
    cases source with
    | queued =>
        simp only [ClaimSource.predicate, JobCond.holds, Bool.and_eq_true, decide_eq_true_eq] at hstatus
        rw [if_neg (by simp [hstatus.1])]
        exact hholds
    | expiredLease =>
        simp only [ClaimSource.predicate, JobCond.holds, Bool.and_eq_true, decide_eq_true_eq] at hstatus
        rw [if_pos hstatus.1.1.1]
        exact hholds
  obtain ⟨row, hreaped, hfound, hmem, _⟩ := hrow c h
  refine ⟨row, hreaped, hfound, hmem, ?_⟩
  -- of several entries for the job each says the same
  have hsome : ((w.heads host world).reverse.find? (·.id = c.id)).isSome := by
    rw [List.find?_isSome]
    exact ⟨c, List.mem_reverse.mpr h, decide_eq_true rfl⟩
  obtain ⟨c', hc'⟩ := Option.isSome_iff_exists.mp hsome
  have hid := List.find?_some hc'
  simp only [decide_eq_true_eq] at hid
  obtain ⟨row', _, hfound', _, hholds⟩ :=
    hrow c' (List.mem_reverse.mp (List.mem_of_find?_eq_some hc'))
  rw [hid, hfound] at hfound'
  cases hfound'
  unfold Worker.sourceOf
  rw [hc']
  exact hholds

/-! ### The outcome of a call -/

/-- A call up to the order of the round. -/
theorem run_claimNext :
    w.claimNext.run (host.serve callers effects) world
      = (Worker.fairRound ((w.heads host world).map fun c => (c.id, c.tenant)) >>= fun order =>
          w.claimFirst (w.heads host world) order).run (host.serve callers effects)
            (host.reaped world) := by
  unfold Worker.claimNext Worker.reapExhausted
  rw [run_bind_ok (run_sqlRoot_bind host callers effects world rfl _)]
  refine (run_sqlRoot_bind host callers effects (host.reaped world) rfl _).trans ?_
  exact run_bind_ok (run_headsOf host callers effects (host.reaped world) (w.listed host world))

theorem run_claimNext_of_nil (h : w.heads host world = []) :
    w.claimNext.run (host.serve callers effects) world = (.ok none, host.reaped world) := by
  rw [run_claimNext, h]
  rfl

variable (callers effects) in
/-- Otherwise the tenant whose turn it is is served. -/
theorem run_claimNext_of_ne_nil (hpolicies : ∀ t, 1 ≤ host.policies t) (hworker : w.workerId ≠ "")
    (hwf : world.jobs.WellFormed) (h : w.heads host world ≠ []) :
    ∃ name job row world',
      ((w.turns host world).map (·.1))[world.round % (w.turns host world).length]? = some name ∧
      w.claimNext.run (host.serve callers effects) world = (.ok (some job), world') ∧
      world'.round = (world.turned (w.turns host world).length).round ∧
      world.jobs.lookup job.id = some row ∧
      (job.id, row) ∈ world.jobs.eligibleOf world.now name := by
  have hqueued : (w.heads host world).map (fun c => (c.id, c.tenant)) ≠ [] := by
    rwa [ne_eq, List.map_eq_nil_iff]
  obtain ⟨name, id, jobs, order, hturn, hround⟩ :=
    run_fairRound host callers effects (host.reaped world) hpolicies hqueued
  -- the first of the order is a head of the tenant
  have hhead : ∃ c ∈ w.heads host world, c.id = id ∧ c.tenant = name := by
    have hmem := (groupByTenant_spec _ _ (List.mem_of_getElem? hturn)).2 id List.mem_cons_self
    obtain ⟨c, hc, hpair⟩ := List.mem_map.mp hmem
    exact ⟨c, hc, (Prod.mk.inj hpair).1, (Prod.mk.inj hpair).2⟩
  obtain ⟨c, hc, rfl, rfl⟩ := hhead
  obtain ⟨row, hreaped, hfound, hmem, hholds⟩ := sourceOf_holds hwf hc
  have hwf' : ((host.reaped world).turned (w.turns host world).length).jobs.WellFormed := by
    rw [JobWorld.turned_jobs]
    exact hwf.reaped
  have hfound' : ((host.reaped world).turned (w.turns host world).length).jobs.lookup c.id
      = some row := by
    rw [JobWorld.turned_jobs]
    exact hreaped
  have hholds' : (Worker.sourceOf (w.heads host world) c.id).predicate.holds
      ((host.reaped world).turned (w.turns host world).length).now row = true := by
    rw [JobWorld.turned_now]
    exact hholds
  obtain ⟨job, world', hclaim, hid, hround'⟩ :=
    run_tryClaimFrom host callers effects _ hworker hwf' hfound' hholds'
  refine ⟨c.tenant, job, row, world', ?_, ?_, ?_, hid ▸ hfound, hid ▸ hmem⟩
  · rw [List.getElem?_map]
    exact congrArg (Option.map (·.1)) hturn
  · rw [run_claimNext, run_bind_ok hround]
    unfold Worker.claimFirst
    exact run_bind_ok hclaim
  · rw [hround']
    unfold JobWorld.turned
    split <;> rfl

/-- A call finds a job exactly where a listed tenant has one. -/
theorem claims_iff (hpolicies : ∀ t, 1 ≤ host.policies t) (hworker : w.workerId ≠ "")
    (hwf : world.jobs.WellFormed) :
    (∃ job, (w.claimNext.run (host.serve callers effects) world).1 = .ok (some job)) ↔
      ∃ name ∈ w.listed host world, world.jobs.eligibleOf world.now name ≠ [] := by
  by_cases hnil : w.heads host world = []
  · rw [run_claimNext_of_nil hnil]
    refine iff_of_false (fun ⟨job, h⟩ => by cases h) fun ⟨name, hname, hne⟩ => ?_
    exact hne (heads_eq_nil_iff.mp hnil name hname)
  · obtain ⟨_, job, _, _, _, hrun, _⟩ :=
      run_claimNext_of_ne_nil callers effects hpolicies hworker hwf hnil
    refine iff_of_true ⟨job, by rw [hrun]⟩ ?_
    by_contra hall
    refine hnil (heads_eq_nil_iff.mpr fun name hname => ?_)
    by_contra hne
    exact hall ⟨name, hname, hne⟩

theorem eq_of_eqValue_text {v : Value} {s : String} (h : eqValue v (.text s) = true) :
    v = .text s := by
  cases v with
  | text t => exact congrArg Value.text (of_decide_eq_true h)
  | _ => cases h

/-- Where the tenants are listed, each has its turn. -/
theorem names_turns {tenants : List String} (hlisted :
    host.tenants world.now (host.reaped world).jobs = tenants.map Value.text)
    (hfew : tenants.length ≤ maxTenantsPerRound) :
    (w.turns host world).map (·.1) = tenants := by
  have hnames : w.listed host world = tenants := by
    unfold Worker.listed
    rw [hlisted, List.map_map]
    have hname : (fun t => w.tenantName (.text t)) = id := rfl
    show (tenants.map fun t => w.tenantName (.text t)).take _ = _
    rw [hname, List.map_id, List.take_of_length_le hfew]
  have hnodup : tenants.Nodup := by
    have hdistinct := host.tenants_distinct world.now (host.reaped world).jobs
    rw [hlisted, List.pairwise_map] at hdistinct
    refine hdistinct.imp fun {a b} hne heq => ?_
    subst heq
    simp [eqValue] at hne
  unfold Worker.turns Worker.heads
  rw [names_groupByTenant, hnames, List.map_flatMap]
  -- every listed tenant has an eligible job
  have hjobs : ∀ name ∈ tenants,
      ((host.heads world.now name (host.reaped world).jobs).map (·.1)) ≠ [] := by
    intro name hname
    have hv : Value.text name ∈ host.tenants world.now (host.reaped world).jobs := by
      rw [hlisted]
      exact List.mem_map_of_mem hname
    obtain ⟨job, hjob, htenant⟩ := host.tenants_found _ _ _ hv
    rw [ne_eq, List.map_eq_nil_iff]
    refine host_heads_ne_nil (List.ne_nil_of_mem (List.mem_filter.mpr ⟨hjob, ?_⟩))
    rw [htenant]
    simp [eqValue]
  have hform := foldl_addName_flatMap
    (fun name => (host.heads world.now name (host.reaped world).jobs).map (·.1)) hnodup hjobs
  simp only [List.map_map] at hform ⊢
  exact hform

/-- A counter that may wrap once meets each residue within two turns. -/
theorem exists_round {r n j : Nat} (hr : r < 2 ^ 64) (hn : n ≤ maxTenantsPerRound) (hj : j < n) :
    ∃ k < 2 * n, (r + k) % 2 ^ 64 % n = j := by
  have hsmall : n ≤ 32 := hn
  by_cases hwrap : r + n ≤ 2 ^ 64
  · -- the next `n` rounds do not wrap
    refine ⟨(j + n - r % n) % n, by have := Nat.mod_lt (j + n - r % n) (by omega : 0 < n); omega, ?_⟩
    have hk := Nat.mod_lt (j + n - r % n) (by omega : 0 < n)
    rw [Nat.mod_eq_of_lt (by omega : r + (j + n - r % n) % n < 2 ^ 64), Nat.add_mod_mod]
    have hrn := Nat.mod_lt r (by omega : 0 < n)
    have hsum : r + (j + n - r % n) = j + n + n * (r / n) := by
      have := Nat.div_add_mod r n
      omega
    rw [hsum, Nat.add_mul_mod_self_left, Nat.add_mod_right, Nat.mod_eq_of_lt hj]
  · -- after the wrap they count from zero
    refine ⟨2 ^ 64 - r + j, by omega, ?_⟩
    rw [show r + (2 ^ 64 - r + j) = 2 ^ 64 + j by omega, Nat.add_mod_left,
      Nat.mod_eq_of_lt (by omega : j < 2 ^ 64), Nat.mod_eq_of_lt hj]

variable (host callers effects w) in
/-- Take a call at an instant, with no other worker. It finds a job where one is eligible if
and only if one of the tenants listed first has one: the fallback for a job without a tenant
is a tenant's name, and no job of that name need be there. In a sequence of calls that list
the same tenants, all with a name and not too many, each of them is served within twice as
many calls as there are tenants. Between the calls the table may change in any way. -/
theorem claim_next_reaches_iff (hpolicies : ∀ t, 1 ≤ host.policies t) (hworker : w.workerId ≠ "") :
    (∀ world : JobWorld, world.jobs.WellFormed →
      ((world.jobs.eligible world.now ≠ [] →
          ∃ job, (w.claimNext.run (host.serve callers effects) world).1 = .ok (some job)) ↔
        (world.jobs.eligible world.now ≠ [] →
          ∃ name ∈ w.listed host world, world.jobs.eligibleOf world.now name ≠ []))) ∧
    ∀ (worlds : Nat → JobWorld) (tenants : List String), (worlds 0).round < 2 ^ 64 →
      (∀ k, (worlds k).jobs.WellFormed) →
      (∀ k, (worlds (k + 1)).round
        = (w.claimNext.run (host.serve callers effects) (worlds k)).2.round) →
      (∀ k, host.tenants (worlds k).now (host.reaped (worlds k)).jobs = tenants.map Value.text) →
      tenants.length ≤ maxTenantsPerRound →
      ∀ tenant ∈ tenants, ∃ k < 2 * tenants.length, ∃ job row,
        (w.claimNext.run (host.serve callers effects) (worlds k)).1 = .ok (some job) ∧
        (worlds k).jobs.lookup job.id = some row ∧ row.tenant = .text tenant := by
  refine ⟨fun world hwf => imp_congr_right fun _ => claims_iff hpolicies hworker hwf, ?_⟩
  intro worlds tenants hround hwf hnext hlisted hfew tenant hmem
  obtain ⟨j, hj, hget⟩ := List.mem_iff_getElem.mp hmem
  have hnames := fun k => names_turns (w := w) (hlisted k) hfew
  -- The tenants are few enough to be listed all, and each has its turn.
  have hlen : ∀ k, (w.turns host (worlds k)).length = tenants.length := fun k => by
    rw [← hnames k, List.length_map]
  have hheads : ∀ k, w.heads host (worlds k) ≠ [] := by
    intro k hnil
    have hturns : w.turns host (worlds k) = [] := by
      unfold Worker.turns
      rw [hnil]
      rfl
    have := hlen k
    rw [hturns, List.length_nil] at this
    omega
  have hcall := fun k =>
    run_claimNext_of_ne_nil callers effects hpolicies hworker (hwf k) (hheads k)
  -- the call whose turn it is serves the tenant
  suffices ∃ k < 2 * tenants.length, (worlds k).round % tenants.length = j by
    obtain ⟨k, hk, hturn⟩ := this
    obtain ⟨name, job, row, _, hname, hrun, _, hfound, heligible⟩ := hcall k
    rw [hnames k, hlen k, hturn, List.getElem?_eq_getElem hj, hget] at hname
    cases hname
    refine ⟨k, hk, job, row, by rw [hrun], hfound, ?_⟩
    exact eq_of_eqValue_text (List.mem_filter.mp heligible).2
  by_cases hone : tenants.length = 1
  · exact ⟨0, by omega, by rw [hone, Nat.mod_one]; omega⟩
  · -- Each call advances the counter by one, modulo its range.
    have hrounds : ∀ k, (worlds k).round = ((worlds 0).round + k) % 2 ^ 64 := by
      intro k
      induction k with
      | zero => rw [Nat.add_zero, Nat.mod_eq_of_lt hround]
      | succ k ih =>
          obtain ⟨_, _, _, _, _, hrun, hturned, _⟩ := hcall k
          rw [hnext k, hrun, hturned, hlen k]
          unfold JobWorld.turned
          rw [if_pos (by omega)]
          show ((worlds k).round + 1) % 2 ^ 64 = _
          rw [ih, Nat.mod_add_mod, Nat.add_assoc]
    obtain ⟨k, hk, hturn⟩ := exists_round hround hfew hj
    exact ⟨k, hk, by rw [hrounds k, hturn]⟩

end

/-- A table with one job. -/
def oneJob (tenant : Value) : JobWorld :=
  ⟨0, [("job:1", { kind := .text "create_doc", tenant := tenant })], [], 0, []⟩

theorem wellFormed_oneJob (tenant : Value) : (oneJob tenant).jobs.WellFormed where
  nodup := List.nodup_singleton _
  ids job hjob := by
    rw [List.mem_singleton.mp hjob]
    show IsJobId "job:1"
    exact ⟨"1", by decide, by decide⟩
  counted job hjob n hn := by
    rw [List.mem_singleton.mp hjob] at hn
    cases hn
    decide

/-- A resident worker of the database of a tenant. -/
def resident : Worker := ⟨"resident-0", "default", true⟩

/-- A job with a tenant is found. -/
theorem claim_next_reaches_oneJob :
    ∃ job, (resident.claimNext.run ((JobHost.plain fun _ => 10).serve (fun _ => none)
      fun _ _ _ => .error .identityUnresolved) (oneJob (.text "default"))).1 = .ok (some job) := by
  have hiff := (claim_next_reaches_iff (.plain fun _ => 10) (fun _ => none)
    (fun _ _ _ => .error .identityUnresolved) resident (fun _ => Nat.succ_pos 9)
    (by decide)).1 _ (wellFormed_oneJob (.text "default"))
  exact hiff.mpr (fun _ => ⟨"default", by decide +kernel, by decide +kernel⟩) (by decide +kernel)

/-- A job without a tenant is eligible, and no call finds it. -/
theorem not_claim_next_reaches :
    ¬∀ (host : JobHost) (callers : String → Option Caller)
      (effects : Caller → String → Doc → Except BrokerError Json) (w : Worker) (world : JobWorld),
      (∀ t, 1 ≤ host.policies t) → w.workerId ≠ "" → world.jobs.WellFormed →
      world.jobs.eligible world.now ≠ [] →
      ∃ job, (w.claimNext.run (host.serve callers effects) world).1 = .ok (some job) := by
  intro h
  obtain ⟨job, hjob⟩ := h (.plain fun _ => 10) (fun _ => none)
    (fun _ _ _ => .error .identityUnresolved) resident (oneJob .null) (fun _ => Nat.succ_pos 9)
    (by decide) (wellFormed_oneJob .null) (by decide +kernel)
  have hnone : (resident.claimNext.run ((JobHost.plain fun _ => 10).serve (fun _ => none)
      fun _ _ _ => .error .identityUnresolved) (oneJob .null)).1.toOption.join.isNone := by
    decide +kernel
  rw [hjob] at hnone
  cases hnone

end Frust.Kernel
