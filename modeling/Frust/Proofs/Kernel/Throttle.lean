import Frust.Kernel.Throttle
import Frust.Lib.TokenBucket

/-!
# `Frust.Proofs.Kernel.Throttle`: what a policy admits

The door is compared with a bucket of `Frust.Lib.TokenBucket` that is never loaded again. `Holds`
says that the tenant's bucket holds the same as it from some time on. Every event keeps this
(`holds_step`), as long as a policy that is loaded again finds the bucket full, so the verdicts of a
run are those of the calls alone (`verdicts_eq`).
-/

set_option autoImplicit false

namespace Frust.Kernel

open Frust.Lib.TokenBucket (level called found admitted)

/-- A finite policy. -/
def finitePolicy (rate burst : ℚ) (jobs : Nat) : Policy := ⟨.finite rate, .finite burst, jobs⟩

/-- The verdict on a call that finds so many tokens. -/
def verdictOf (rate tokens : ℚ) : Except BrokerError Unit :=
  if 1 ≤ tokens then .ok () else .error (.tenantThrottled (retryAfterMs (Bucket.wait rate tokens)))

section

variable {rate burst : ℚ} {jobs : Nat} {tenant : String}

/-! ### One event -/

theorem refilled_eq {tokens last now : ℚ} (h : last ≤ now) :
    Bucket.refilled ⟨.finite tokens, last, finitePolicy rate burst jobs⟩ rate now
      = .finite (level rate burst ⟨tokens, last⟩ now) := by
  unfold Bucket.refilled level
  rw [max_eq_right (sub_nonneg.mpr h)]
  rfl

theorem take_eq {tokens last now : ℚ} (h : last ≤ now) :
    (Bucket.take ⟨.finite tokens, last, finitePolicy rate burst jobs⟩ now).1.mapError
        (fun wait => BrokerError.tenantThrottled (retryAfterMs wait))
      = verdictOf rate (level rate burst ⟨tokens, last⟩ now) ∧
    (Bucket.take ⟨.finite tokens, last, finitePolicy rate burst jobs⟩ now).2
      = ⟨.finite (called rate burst ⟨tokens, last⟩ now).tokens, now,
          finitePolicy rate burst jobs⟩ := by
  have hrefilled : Bucket.refilled ⟨.finite tokens, last, finitePolicy rate burst jobs⟩ rate now
      = .finite (level rate burst ⟨tokens, last⟩ now) := refilled_eq h
  unfold Bucket.take verdictOf called
  simp only [finitePolicy] at hrefilled ⊢
  rw [hrefilled]
  -- An admitted call spends a token, and a refused one keeps what there is.
  by_cases hone : 1 ≤ level rate burst ⟨tokens, last⟩ now <;> simp [hone, Except.mapError]

/-- The tenant's bucket holds what `t` does, from the time `x` on. -/
def Holds (rate burst : ℚ) (jobs : Nat) (tenant : String) (s : DoorState) (x : ℚ)
    (t : Frust.Lib.TokenBucket.Bucket ℚ) : Prop :=
  ∃ tokens last, s.buckets tenant = some ⟨.finite tokens, last, finitePolicy rate burst jobs⟩ ∧
    last ≤ x ∧ ∀ y, x ≤ y → level rate burst ⟨tokens, last⟩ y = level rate burst t y

variable {s : DoorState} {x y : ℚ} {t : Frust.Lib.TokenBucket.Bucket ℚ}

theorem Holds.later (h : Holds rate burst jobs tenant s x t) (hxy : x ≤ y) :
    Holds rate burst jobs tenant s y t := by
  obtain ⟨tokens, last, hbucket, hlast, hlevel⟩ := h
  exact ⟨tokens, last, hbucket, hlast.trans hxy, fun z hz => hlevel z (hxy.trans hz)⟩

theorem Holds.refilled (h : Holds rate burst jobs tenant s x t) :
    (s.bucket tenant x).refilled rate x = .finite (level rate burst t x) := by
  obtain ⟨tokens, last, hbucket, hlast, hlevel⟩ := h
  unfold DoorState.bucket
  rw [hbucket, Option.getD_some, refilled_eq hlast, hlevel x le_rfl]

theorem Holds.admitVerb (h : Holds rate burst jobs tenant s x t) :
    (s.admitVerb tenant x).1 = verdictOf rate (level rate burst t x) ∧
      Holds rate burst jobs tenant (s.admitVerb tenant x).2 x (called rate burst t x) := by
  obtain ⟨tokens, last, hbucket, hlast, hlevel⟩ := h
  obtain ⟨hverdict, hafter⟩ := @take_eq rate burst jobs tokens last x hlast
  have hcalled : called rate burst ⟨tokens, last⟩ x = called rate burst t x := by
    unfold called
    rw [hlevel x le_rfl]
  rw [hlevel x le_rfl] at hverdict
  rw [hcalled] at hafter
  unfold DoorState.admitVerb DoorState.bucket
  rw [hbucket, Option.getD_some]
  -- The refilled bucket is stored at the time of the call.
  refine ⟨hverdict, (called rate burst t x).tokens, x, ?_, le_rfl, fun _ _ => rfl⟩
  exact (Function.update_self _ _ _).trans (congrArg some hafter)

/-- A policy that is loaded again and finds the bucket full. -/
theorem Holds.setPolicy (hrate : 0 ≤ rate) (h : Holds rate burst jobs tenant s x t)
    (hfull : (s.bucket tenant x).refilled rate x = .finite burst) :
    Holds rate burst jobs tenant (s.setPolicy tenant (finitePolicy rate burst jobs) x) x t := by
  -- The bucket was full before, so a new one that is full holds the same from here on.
  have hlevel : level rate burst t x = burst := Limit.finite.inj (h.refilled.symm.trans hfull)
  refine ⟨burst, x, Function.update_self _ _ _, le_rfl, fun y hxy => ?_⟩
  have hmono := Frust.Lib.TokenBucket.level_mono (b := burst) (s := t) hrate hxy
  have hle : level rate burst t y ≤ burst := Frust.Lib.TokenBucket.level_le y
  have hnew : level rate burst ⟨burst, x⟩ y = burst :=
    min_eq_right (le_add_of_nonneg_right (mul_nonneg (sub_nonneg.mpr hxy) hrate))
  rw [hnew]
  exact le_antisymm (hlevel.ge.trans hmono) hle

theorem Holds.other (h : Holds rate burst jobs tenant s x t) {event : DoorEvent}
    (hother : ∀ policy, event ≠ .setPolicy tenant policy) (hcall : event ≠ .admitVerb tenant) :
    Holds rate burst jobs tenant (s.step x event).2 x t := by
  obtain ⟨tokens, last, hbucket, hrest⟩ := h
  refine ⟨tokens, last, ?_, hrest⟩
  cases event with
  | setPolicy tenant' policy =>
      -- A bucket under another name is written.
      have hne : tenant ≠ tenant' := fun heq => hother policy (heq ▸ rfl)
      exact (Function.update_of_ne hne _ _).trans hbucket
  | admitVerb tenant' =>
      have hne : tenant ≠ tenant' := fun heq => hcall (heq ▸ rfl)
      exact (Function.update_of_ne hne _ _).trans hbucket

end

/-! ### A run -/

/-- The state after a run. -/
def DoorState.after (s : DoorState) (events : List (ℚ × DoorEvent)) : DoorState :=
  events.foldl (fun s e => (s.step e.1 e.2).2) s

/-- Where the policy of the tenant is loaded again, it is the same, and the bucket is full then. -/
def ReloadsFull (tenant : String) (rate burst : ℚ) (jobs : Nat) :
    DoorState → List (ℚ × DoorEvent) → Prop
  | _, [] => True
  | s, (now, event) :: rest =>
      (∀ policy, event = .setPolicy tenant policy → policy = finitePolicy rate burst jobs ∧
        (s.bucket tenant now).refilled rate now = .finite burst) ∧
      ReloadsFull tenant rate burst jobs (s.step now event).2 rest

/-- The times of the calls of a tenant. -/
def callsOf (tenant : String) (events : List (ℚ × DoorEvent)) : List ℚ :=
  (events.filter (·.2 = .admitVerb tenant)).map (·.1)

/-- The event loads a policy of the tenant. -/
def loads (tenant : String) (e : ℚ × DoorEvent) : Bool :=
  match e.2 with
  | .setPolicy t _ => t = tenant
  | .admitVerb _ => false

section

variable {rate burst : ℚ} {jobs : Nat} {tenant : String} {s : DoorState} {x : ℚ}
  {t : Frust.Lib.TokenBucket.Bucket ℚ}

/-- What an event does to the tenant's bucket: only a call changes what it holds. -/
theorem holds_step (hrate : 0 ≤ rate) (h : Holds rate burst jobs tenant s x t) {event : DoorEvent}
    (hreload : ∀ policy, event = .setPolicy tenant policy → policy = finitePolicy rate burst jobs ∧
      (s.bucket tenant x).refilled rate x = .finite burst) :
    Holds rate burst jobs tenant (s.step x event).2 x
      (if event = .admitVerb tenant then called rate burst t x else t) := by
  by_cases hcall : event = .admitVerb tenant
  · subst hcall
    rw [if_pos rfl]
    exact h.admitVerb.2
  · rw [if_neg hcall]
    by_cases hload : ∃ policy, event = .setPolicy tenant policy
    · obtain ⟨policy, rfl⟩ := hload
      obtain ⟨rfl, hfull⟩ := hreload policy rfl
      exact h.setPolicy hrate hfull
    · exact h.other (fun policy heq => hload ⟨policy, heq⟩) hcall

theorem verdicts_call (s : DoorState) (now : ℚ) (rest : List (ℚ × DoorEvent)) :
    s.verdicts tenant ((now, .admitVerb tenant) :: rest)
      = (now, (s.admitVerb tenant now).1) :: (s.admitVerb tenant now).2.verdicts tenant rest := by
  rw [DoorState.verdicts]
  simp [DoorState.step, Option.filter]

theorem verdicts_other (s : DoorState) (now : ℚ) {event : DoorEvent}
    (hcall : event ≠ .admitVerb tenant) (rest : List (ℚ × DoorEvent)) :
    s.verdicts tenant ((now, event) :: rest) = (s.step now event).2.verdicts tenant rest := by
  cases event with
  | setPolicy tenant' policy => rfl
  | admitVerb tenant' =>
      have hne : tenant' ≠ tenant := fun heq => hcall (heq ▸ rfl)
      rw [DoorState.verdicts]
      simp [DoorState.step, Option.filter, hne]

/-- The verdicts of a run are those of its calls on a bucket that is not loaded again. -/
theorem verdicts_eq (hrate : 0 ≤ rate) (h : Holds rate burst jobs tenant s x t)
    {events : List (ℚ × DoorEvent)} (hsorted : (x :: events.map (·.1)).Pairwise (· ≤ ·))
    (hreloads : ReloadsFull tenant rate burst jobs s events) :
    s.verdicts tenant events
      = (found rate burst t (callsOf tenant events)).map fun e => (e.1, verdictOf rate e.2) := by
  induction events generalizing s x t with
  | nil => rfl
  | cons e rest ih =>
      obtain ⟨now, event⟩ := e
      obtain ⟨hx, hrest⟩ := List.pairwise_cons.mp hsorted
      have hnow := h.later (hx now List.mem_cons_self)
      -- What the bucket holds after the event, for the rest of the run.
      have hih := ih (holds_step hrate hnow hreloads.1) hrest hreloads.2
      by_cases hcall : event = .admitVerb tenant
      · subst hcall
        have hcalls : callsOf tenant ((now, .admitVerb tenant) :: rest)
            = now :: callsOf tenant rest := by simp [callsOf]
        rw [if_pos rfl] at hih
        rw [verdicts_call, hcalls, found, List.map_cons, hnow.admitVerb.1, ← hih]
        rfl
      · -- No call of the tenant: no verdict, and the same tokens.
        have hcalls : callsOf tenant ((now, event) :: rest) = callsOf tenant rest := by
          simp [callsOf, hcall]
        rw [if_neg hcall] at hih
        rw [verdicts_other s now hcall, hcalls, hih]

/-- The bucket at some point of a run. -/
theorem holds_after (hrate : 0 ≤ rate) (h : Holds rate burst jobs tenant s x t)
    {events : List (ℚ × DoorEvent)} {now : ℚ} {event : DoorEvent} {rest : List (ℚ × DoorEvent)}
    (hsorted : (x :: (events ++ (now, event) :: rest).map (·.1)).Pairwise (· ≤ ·))
    (hreloads : ReloadsFull tenant rate burst jobs s (events ++ (now, event) :: rest)) :
    ∃ t', Holds rate burst jobs tenant (s.after events) now t' := by
  induction events generalizing s x t with
  | nil =>
      exact ⟨t, h.later ((List.pairwise_cons.mp hsorted).1 now List.mem_cons_self)⟩
  | cons e events ih =>
      obtain ⟨hx, hrest⟩ := List.pairwise_cons.mp hsorted
      exact ih (holds_step hrate (h.later (hx _ List.mem_cons_self)) hreloads.1) hrest hreloads.2

/-! ### Refusals -/

/-- A refused call is admitted after a wait, unless nothing flows in. -/
theorem one_le_level_iff (hrate : 0 ≤ rate) (hburst : 1 ≤ burst)
    (hrefused : ¬1 ≤ level rate burst t x) (d : ℚ) :
    1 ≤ level rate burst (called rate burst t x) (x + d) ↔
      0 < rate ∧ (1 - level rate burst t x) / rate ≤ d := by
  rcases hrate.eq_or_lt with rfl | hpos
  · have htokens : (called 0 burst t x).tokens = level 0 burst t x := if_neg hrefused
    rw [Frust.Lib.TokenBucket.level_called, htokens, mul_zero, add_zero, le_min_iff]
    simp [hrefused]
  · rw [and_iff_right hpos]
    exact Frust.Lib.TokenBucket.one_le_level_called_iff hpos hburst hrefused d

/-- The hint is the least whole number of milliseconds after which the wait is over, exactly where
that number fits. -/
theorem retryAfterMs_least_iff {tokens : ℚ} (hrefused : ¬1 ≤ tokens) (hrate : 0 ≤ rate) :
    (∀ m : ℕ, (0 < rate ∧ (1 - tokens) / rate ≤ m / 1000) ↔
        retryAfterMs (Bucket.wait rate tokens) ≤ m) ↔
      (1 - tokens) * 1000 ≤ (2 ^ 64 - 1) * rate := by
  have hmissing : 0 < 1 - tokens := sub_pos.mpr (not_le.mp hrefused)
  constructor
  · intro h
    obtain ⟨hpos, hwait⟩ := (h _).mpr le_rfl
    -- The hint is a `u64`, so a hint that is long enough bounds the wait.
    have hmax : retryAfterMs (Bucket.wait rate tokens) ≤ 2 ^ 64 - 1 := by
      unfold retryAfterMs
      split
      · exact le_rfl
      · exact Nat.min_le_right _ _
    have hcast : (retryAfterMs (Bucket.wait rate tokens) : ℚ) ≤ 2 ^ 64 - 1 := by
      have hcast := (Nat.cast_le (α := ℚ)).mpr hmax
      norm_num at hcast ⊢
      exact hcast
    rw [div_le_div_iff₀ hpos (by norm_num)] at hwait
    calc (1 - tokens) * 1000 ≤ retryAfterMs (Bucket.wait rate tokens) * rate := hwait
      _ ≤ (2 ^ 64 - 1) * rate := mul_le_mul_of_nonneg_right hcast hrate
  · intro hfits m
    have hpos : 0 < rate := by
      rcases hrate.eq_or_lt with rfl | hpos
      · rw [mul_zero] at hfits
        linarith
      · exact hpos
    have hms : (1 - tokens) / rate * 1000 ≤ ((2 ^ 64 - 1 : ℕ) : ℤ) := by
      rw [div_mul_eq_mul_div, div_le_iff₀ hpos]
      norm_num at hfits ⊢
      exact hfits
    have hwait : Bucket.wait rate tokens = .finite ((1 - tokens) / rate) := if_neg hpos.ne'
    -- The number is not cut, so it is the wait rounded up.
    have hceil : ⌈(1 - tokens) / rate * 1000⌉.toNat ≤ 2 ^ 64 - 1 :=
      Int.toNat_le.mpr (Int.ceil_le.mpr hms)
    rw [hwait, retryAfterMs, Nat.min_eq_left hceil, Int.toNat_le, Int.ceil_le, and_iff_right hpos,
      le_div_iff₀ (by norm_num)]
    rfl

theorem verdictOf_eq_ok_iff {tokens : ℚ} : verdictOf rate tokens = .ok () ↔ 1 ≤ tokens := by
  unfold verdictOf
  split <;> simp_all

/-- A refusal, by the state before it. -/
theorem Holds.hint_least_iff (hrate : 0 ≤ rate) (hburst : 1 ≤ burst)
    (h : Holds rate burst jobs tenant s x t) {hint : Nat}
    (hrefused : (s.admitVerb tenant x).1 = .error (.tenantThrottled hint)) :
    (∀ m : ℕ, ((s.admitVerb tenant x).2.admitVerb tenant (x + m / 1000)).1 = .ok () ↔ hint ≤ m) ↔
      ∀ tokens, (s.bucket tenant x).refilled rate x = .finite tokens →
        (1 - tokens) * 1000 ≤ (2 ^ 64 - 1) * rate := by
  have hverdict := h.admitVerb.1
  have hlow : ¬1 ≤ level rate burst t x := fun hone => by
    rw [verdictOf_eq_ok_iff.mpr hone, hrefused] at hverdict
    cases hverdict
  have hhint : hint = retryAfterMs (Bucket.wait rate (level rate burst t x)) := by
    rw [hrefused, verdictOf, if_neg hlow] at hverdict
    exact BrokerError.tenantThrottled.inj (Except.error.inj hverdict)
  -- The refused call leaves the tokens, so the next one finds them and what flows in.
  have hnext : ∀ m : ℕ, ((s.admitVerb tenant x).2.admitVerb tenant (x + m / 1000)).1 = .ok () ↔
      0 < rate ∧ (1 - level rate burst t x) / rate ≤ m / 1000 := by
    intro m
    have hlater : x ≤ x + m / 1000 := le_add_of_nonneg_right (by positivity)
    rw [(h.admitVerb.2.later hlater).admitVerb.1, verdictOf_eq_ok_iff]
    exact one_le_level_iff hrate hburst hlow _
  rw [hhint, forall_congr' fun m => iff_congr (hnext m) Iff.rfl, retryAfterMs_least_iff hlow hrate,
    h.refilled]
  exact ⟨fun hfits tokens heq => Limit.finite.inj heq ▸ hfits, fun hall => hall _ rfl⟩

end

/-! ### Every run -/

/-- How many calls are admitted from `u` to `v`. -/
def admittedIn (u v : ℚ) (verdicts : List (ℚ × Except BrokerError Unit)) : Nat :=
  verdicts.countP fun e => u ≤ e.1 ∧ e.1 ≤ v ∧ e.2.toBool

theorem admittedIn_map (rate u v : ℚ) (calls : List (ℚ × ℚ)) :
    admittedIn u v (calls.map fun e => (e.1, verdictOf rate e.2)) = admitted u v calls := by
  unfold admittedIn admitted
  rw [List.countP_map]
  refine List.countP_congr fun e _ => ?_
  have hok : (verdictOf rate e.2).toBool = decide (1 ≤ e.2) := by
    unfold verdictOf
    by_cases hone : 1 ≤ e.2 <;> simp [hone, Except.toBool]
  simp [hok]

theorem reloadsFull_of_not_loads {tenant : String} {rate burst : ℚ} {jobs : Nat}
    {events : List (ℚ × DoorEvent)} (h : ∀ e ∈ events, loads tenant e = false) (s : DoorState) :
    ReloadsFull tenant rate burst jobs s events := by
  induction events generalizing s with
  | nil => trivial
  | cons e rest ih =>
      refine ⟨fun policy heq => ?_, ih (fun e' he' => h e' (List.mem_cons_of_mem _ he')) _⟩
      have hnot := h e List.mem_cons_self
      simp [loads, heq] at hnot

theorem callsOf_filter (tenant : String) (events : List (ℚ × DoorEvent)) :
    callsOf tenant (events.filter fun e => !loads tenant e) = callsOf tenant events := by
  unfold callsOf
  rw [List.filter_filter]
  congr 1
  refine List.filter_congr fun e _ => ?_
  by_cases hcall : e.2 = .admitVerb tenant <;> simp [hcall, loads]

/-- Take a policy with a rate that is not negative and a burst of at least one, and a run of calls
and loads at times that do not fall, from where the policy of the tenant is installed. Suppose that
where it is loaded again it is the same, and the refilled bucket is full then. In every window at
most the burst and what flows in are admitted. Without the loads the verdicts are the same. The hint
of a refusal is the least number of milliseconds after which a call is admitted, if and only if the
wait for the tokens that are missing fits in the number. -/
theorem throttle_bounded {rate burst : ℚ} (hrate : 0 ≤ rate) (hburst : 1 ≤ burst) (jobs : Nat)
    (tenant : String) (before : DoorState) (start : ℚ) (events : List (ℚ × DoorEvent))
    (hsorted : (start :: events.map (·.1)).Pairwise (· ≤ ·))
    (hreloads : ReloadsFull tenant rate burst jobs
      (before.setPolicy tenant (finitePolicy rate burst jobs) start) events) :
    let s := before.setPolicy tenant (finitePolicy rate burst jobs) start
    (∀ u d, 0 ≤ d → (admittedIn u (u + d) (s.verdicts tenant events) : ℚ) ≤ burst + rate * d) ∧
    s.verdicts tenant (events.filter fun e => !loads tenant e) = s.verdicts tenant events ∧
    ∀ first now rest hint, events = first ++ (now, .admitVerb tenant) :: rest →
      ((s.after first).admitVerb tenant now).1 = .error (.tenantThrottled hint) →
      ((∀ m : ℕ, (((s.after first).admitVerb tenant now).2.admitVerb tenant (now + m / 1000)).1
          = .ok () ↔ hint ≤ m) ↔
        ∀ tokens, ((s.after first).bucket tenant now).refilled rate now = .finite tokens →
          (1 - tokens) * 1000 ≤ (2 ^ 64 - 1) * rate) := by
  intro s
  have hstart : Holds rate burst jobs tenant s start ⟨burst, start⟩ :=
    ⟨burst, start, Function.update_self _ _ _, le_rfl, fun _ _ => rfl⟩
  refine ⟨fun u d hd => ?_, ?_, ?_⟩
  · -- The calls of the tenant come in the order of the run.
    have hcalls : (start :: callsOf tenant events).Pairwise (· ≤ ·) :=
      hsorted.sublist ((List.filter_sublist.map _).cons_cons _)
    rw [verdicts_eq hrate hstart hsorted hreloads, admittedIn_map]
    have hle := Frust.Lib.TokenBucket.admitted_le (s := ⟨burst, start⟩) hrate
      (zero_le_one.trans hburst) (le_add_of_nonneg_right hd : u ≤ u + d) hcalls
      (zero_le_one.trans hburst)
    rwa [add_sub_cancel_left] at hle
  · -- Without the loads no bucket is replaced, and the calls are the same.
    have hfiltered :
        (start :: (events.filter fun e => !loads tenant e).map (·.1)).Pairwise (· ≤ ·) :=
      hsorted.sublist ((List.filter_sublist.map _).cons_cons _)
    rw [verdicts_eq hrate hstart hsorted hreloads, verdicts_eq hrate hstart hfiltered
      (reloadsFull_of_not_loads (fun e he => by simpa using (List.mem_filter.mp he).2) s),
      callsOf_filter]
  · rintro first now rest hint rfl hrefused
    -- Whatever came before, the bucket holds what some bucket of the library does.
    obtain ⟨t, ht⟩ := holds_after hrate hstart hsorted hreloads
    exact ht.hint_least_iff hrate hburst hrefused

/-- A door without any tenant. -/
def emptyDoor : DoorState := ⟨fun _ => none, fun _ => none⟩

/-- A call a second, where the policy is loaded again after a second. -/
theorem throttle_bounded_one :
    (admittedIn 0 (0 + 1) ((emptyDoor.setPolicy "a" (finitePolicy 1 1 1) 0).verdicts "a"
      [(0, .admitVerb "a"), (1, .setPolicy "a" (finitePolicy 1 1 1)), (1, .admitVerb "a")]) : ℚ)
      ≤ 1 + 1 * 1 := by
  have hreloads : ReloadsFull "a" 1 1 1 (emptyDoor.setPolicy "a" (finitePolicy 1 1 1) 0)
      [(0, .admitVerb "a"), (1, .setPolicy "a" (finitePolicy 1 1 1)), (1, .admitVerb "a")] := by
    refine ⟨fun policy heq => ?_, fun policy heq => ?_, fun policy heq => ?_, trivial⟩
    · cases heq
    · cases heq
      exact ⟨rfl, by decide +kernel⟩
    · cases heq
  exact (throttle_bounded zero_le_one le_rfl 1 "a" emptyDoor 0 _ (by decide +kernel) hreloads).1
    0 1 zero_le_one

/-- Two calls at one time with the policy loaded again between them: both are admitted, where the
burst is one. -/
theorem not_throttle_bounded :
    ¬∀ (rate burst : ℚ) (jobs : Nat) (tenant : String) (before : DoorState) (start : ℚ)
      (events : List (ℚ × DoorEvent)), 0 ≤ rate → 1 ≤ burst →
      (start :: events.map (·.1)).Pairwise (· ≤ ·) →
      (∀ e ∈ events, ∀ policy, e.2 = .setPolicy tenant policy →
        policy = finitePolicy rate burst jobs) →
      ∀ u d, 0 ≤ d →
        (admittedIn u (u + d)
          ((before.setPolicy tenant (finitePolicy rate burst jobs) start).verdicts tenant events) : ℚ)
          ≤ burst + rate * d := by
  intro h
  have hle := h 1 1 1 "a" emptyDoor 0
    [(0, .admitVerb "a"), (0, .setPolicy "a" (finitePolicy 1 1 1)), (0, .admitVerb "a")]
    zero_le_one le_rfl (by decide +kernel) (fun e he policy heq => ?_) 0 0 le_rfl
  · have htwo : admittedIn 0 (0 + 0) ((emptyDoor.setPolicy "a" (finitePolicy 1 1 1) 0).verdicts "a"
        [(0, .admitVerb "a"), (0, .setPolicy "a" (finitePolicy 1 1 1)), (0, .admitVerb "a")])
        = 2 := by
      decide +kernel
    rw [htwo] at hle
    norm_num at hle
  · simp only [List.mem_cons, List.not_mem_nil, or_false] at he
    rcases he with rfl | rfl | rfl <;> cases heq
    rfl

end Frust.Kernel
