import Frust.Kernel.Endpoint

/-!
# `Frust.Proofs.Kernel.Methods`: the method gate and the router

Two tables are written over the segments of a path: the methods that the gate allows, and the arms of
the router. They have the same rows (`policyFor_of_endpointOf`), but for `metrics`: `handle` answers
that one only where the path is exactly `/metrics`. So the gate and the router know the same
URLs but for the paths that are `metrics` with other slashes (`gate_iff`). An arm that writes or consumes
has a row without `HEAD` (`policyFor_of_stateful`), and is reached only past its row.
-/

set_option autoImplicit false

namespace Frust.Kernel

open Frust.Rust

/-! ### The two tables -/

/-- A path of an app has methods, and `HEAD` only for an export. -/
theorem policyThree_app (name path : String) :
    ∃ allowed, policyThree "app" name path = some allowed ∧
      (path ≠ "export" → "HEAD" ∉ allowed) := by
  unfold policyThree
  split
  all_goals first
    | exact ⟨_, rfl, fun _ => by decide⟩
    | exact ⟨_, rfl, fun h => absurd rfl h⟩
    | simp_all

theorem endpointThree_app (name path : String) :
    (endpointThree "app" name path).isFallback = false := by
  unfold endpointThree
  split
  case h_13 => simp_all
  all_goals rfl

/-- Each arm but the last has methods. -/
theorem policyFor_of_endpointOf {segs : List String} (h : (endpointOf segs).isFallback = false) :
    (policyFor segs).isSome = true := by
  match segs with
  | [] => cases h
  | [a] =>
      show (policyOne a).isSome = true
      replace h : (endpointOne a).isFallback = false := h
      unfold endpointOne at h
      split at h
      case h_9 => cases h
      all_goals rfl
  | [a, b] =>
      show (policyTwo a b).isSome = true
      replace h : (endpointTwo a b).isFallback = false := h
      unfold endpointTwo at h
      split at h
      case h_16 => cases h
      all_goals rfl
  | [a, b, c] =>
      show (policyThree a b c).isSome = true
      replace h : (endpointThree a b c).isFallback = false := h
      unfold endpointThree at h
      split at h
      case h_9 =>
        obtain ⟨allowed, hallowed, -⟩ := policyThree_app b c
        rw [hallowed]
        rfl
      case h_13 => cases h
      all_goals rfl
  | _ :: _ :: _ :: _ :: _ => cases h

/-- What has methods has an arm, or is `metrics`. -/
theorem endpointOf_of_policyFor {segs : List String} (h : (policyFor segs).isSome = true)
    (hmetrics : segs ≠ ["metrics"]) : (endpointOf segs).isFallback = false := by
  match segs with
  | [] => cases h
  | [a] =>
      show (endpointOne a).isFallback = false
      replace h : (policyOne a).isSome = true := h
      unfold policyOne at h
      split at h
      case h_2 => exact absurd rfl hmetrics
      case h_10 => cases h
      all_goals rfl
  | [a, b] =>
      show (endpointTwo a b).isFallback = false
      replace h : (policyTwo a b).isSome = true := h
      unfold policyTwo at h
      split at h
      case h_16 => cases h
      all_goals rfl
  | [a, b, c] =>
      show (endpointThree a b c).isFallback = false
      replace h : (policyThree a b c).isSome = true := h
      unfold policyThree at h
      split at h
      case h_12 => exact endpointThree_app _ _
      case h_13 => cases h
      all_goals rfl
  | _ :: _ :: _ :: _ :: _ => cases h

/-- The row of an arm that writes or consumes. -/
theorem policyFor_of_stateful {segs : List String} (h : (endpointOf segs).stateful = true) :
    ∃ allowed, policyFor segs = some allowed ∧ "HEAD" ∉ allowed := by
  match segs with
  | [] => cases h
  | [a] =>
      replace h : (endpointOne a).stateful = true := h
      unfold endpointOne at h
      split at h
      all_goals first | (cases h; done) | exact ⟨_, rfl, by decide⟩
  | [a, b] =>
      replace h : (endpointTwo a b).stateful = true := h
      unfold endpointTwo at h
      split at h
      all_goals first | (cases h; done) | exact ⟨_, rfl, by decide⟩
  | [a, b, c] =>
      replace h : (endpointThree a b c).stateful = true := h
      unfold endpointThree at h
      split at h
      case h_9 hexport =>
        obtain ⟨allowed, hallowed, hhead⟩ := policyThree_app b c
        exact ⟨allowed, hallowed, hhead fun he => hexport he⟩
      all_goals first | (cases h; done) | exact ⟨_, rfl, by decide⟩
  | _ :: _ :: _ :: _ :: _ => cases h

/-! ### The path of `metrics` -/

/-- The path is `metrics`, with any slashes at its ends. -/
def IsMetrics (url : String) : Prop :=
  Str.trimMatches (· == '/') (urlPath url) = "metrics".toList

theorem segmentsOf_eq_metrics_iff (url : String) :
    segmentsOf url = ["metrics"] ↔ IsMetrics url := by
  unfold segmentsOf Str.split IsMetrics
  rw [String.toList_ofList]
  generalize Str.trimMatches (· == '/') (urlPath url) = l
  constructor
  · intro h
    have hpieces : l.splitOn '/' = ["metrics".toList] := by
      cases hl : l.splitOn '/' with
      | nil => rw [hl] at h; cases h
      | cons p ps =>
          rw [hl] at h
          obtain ⟨hp, hps⟩ := List.cons.inj h
          rw [List.map_eq_nil_iff.mp hps, ← hp, String.toList_ofList]
    have hjoin : ['/'].intercalate (l.splitOn '/') = l := List.intercalate_splitOn _
    rw [hpieces] at hjoin
    exact hjoin.symm
  · rintro rfl
    decide

theorem isMetrics_of_exact {url : String} (h : urlPath url = "/metrics".toList) :
    IsMetrics url := by
  unfold IsMetrics
  rw [h]
  decide

/-! ### A request -/

/-- Whoever may have the role has a manager's. -/
def anyManager : Caller := ⟨"manager", "", "manager"⟩

theorem admitCaller_manager (arm : Endpoint) : arm.admitCaller anyManager = .ok arm := by
  unfold Endpoint.admitCaller
  split
  · rfl
  · rfl

/-- An arm admits a caller to itself. -/
theorem eq_of_admitCaller {arm arm' : Endpoint} {caller : Caller} (h : arm.admitCaller caller = .ok arm') :
    arm' = arm := by
  unfold Endpoint.admitCaller at h
  split at h
  · cases hm : Session.requireManager caller with
    | error e => rw [hm] at h; cases h
    | ok u => rw [hm] at h; exact (Except.ok.inj h).symm
  · exact (Except.ok.inj h).symm

/-- What passes the gate comes to the arm of the URL. -/
theorem requestArm_eq (method url : String) (caller : Caller) :
    requestArm method url caller =
      match methodGate method url with
      | .options _ | .methodNotAllowed _ => none
      | .dispatch | .unknownRoute => some ((armOf url).admitCaller caller) := by
  unfold requestArm armOf
  cases methodGate method url
  case options => rfl
  case methodNotAllowed => rfl
  all_goals
    by_cases hpath : urlPath url = "/metrics".toList
    · simp only [hpath, if_true]
      rfl
    · simp only [hpath, if_false, Endpoint.admitCaller]
      split <;> rfl

/-- The gate knows the path: it does not leave it to the router. -/
def GateKnows (url : String) : Prop := ∀ method, methodGate method url ≠ .unknownRoute

theorem gateKnows_iff (url : String) :
    GateKnows url ↔ (policyFor (segmentsOf url)).isSome = true := by
  unfold GateKnows methodGate
  cases policyFor (segmentsOf url) with
  | none => simp
  | some allowed =>
      simp only [Option.isSome_some, iff_true]
      intro method
      split
      · intro h
        cases h
      · split <;> intro h <;> cases h

/-- An arm before the last answers some caller. -/
def Answered (url : String) : Prop :=
  ∃ caller arm, (armOf url).admitCaller caller = .ok arm ∧ arm.isFallback = false

theorem answered_iff (url : String) : Answered url ↔ (armOf url).isFallback = false := by
  constructor
  · rintro ⟨caller, arm, hadmitted, hfallback⟩
    rwa [eq_of_admitCaller hadmitted] at hfallback
  · intro h
    exact ⟨anyManager, armOf url, admitCaller_manager _, h⟩

/-- A request comes to an arm that writes or consumes only with a method that the gate allows for the
path, and not by `HEAD` or `OPTIONS`. -/
def WritesGuarded (url : String) : Prop :=
  ∀ method caller arm, requestArm method url caller = some (.ok arm) → arm.stateful = true →
    (∃ allowed, policyFor (segmentsOf url) = some allowed ∧ method ∈ allowed) ∧
      method ≠ "HEAD" ∧ method ≠ "OPTIONS"

/-- The method gate and the router are of one mind on a URL. -/
structure GateAgrees (url : String) : Prop where
  known : GateKnows url ↔ Answered url
  guarded : WritesGuarded url

/-- The writes are behind the gate, on every URL. -/
theorem writesGuarded (url : String) : WritesGuarded url := by
  intro method caller arm hreq hstateful
  rw [requestArm_eq] at hreq
  have harm : arm = armOf url := by
    cases hgate : methodGate method url <;> simp only [hgate] at hreq
    case dispatch => exact eq_of_admitCaller (Option.some.inj hreq)
    case unknownRoute => exact eq_of_admitCaller (Option.some.inj hreq)
    all_goals cases hreq
  -- An arm that writes is not the one of `/metrics`, so its segments have a row.
  have hsegs : (endpointOf (segmentsOf url)).stateful = true := by
    rw [harm] at hstateful
    unfold armOf at hstateful
    split at hstateful
    · cases hstateful
    · exact hstateful
  obtain ⟨allowed, hallowed, hhead⟩ := policyFor_of_stateful hsegs
  unfold methodGate at hreq
  rw [hallowed] at hreq
  simp only at hreq
  by_cases hoptions : method = "OPTIONS"
  · rw [if_pos hoptions] at hreq
    cases hreq
  · rw [if_neg hoptions] at hreq
    by_cases hmem : allowed.contains method = true
    · have hmethod : method ∈ allowed := List.contains_iff_mem.mp hmem
      refine ⟨⟨allowed, hallowed, hmethod⟩, ?_, hoptions⟩
      rintro rfl
      exact hhead hmethod
    · rw [if_neg hmem] at hreq
      cases hreq

/-- The tables have the same rows but for `metrics`, which has an arm at one path. -/
theorem gateKnows_iff_answered_iff (url : String) :
    (GateKnows url ↔ Answered url) ↔ (IsMetrics url → urlPath url = "/metrics".toList) := by
  rw [gateKnows_iff, answered_iff, ← segmentsOf_eq_metrics_iff]
  by_cases hexact : urlPath url = "/metrics".toList
  · have hsegs := (segmentsOf_eq_metrics_iff url).mpr (isMetrics_of_exact hexact)
    unfold armOf
    rw [if_pos hexact, hsegs]
    exact ⟨fun _ _ => hexact, fun _ => ⟨fun _ => rfl, fun _ => rfl⟩⟩
  · unfold armOf
    rw [if_neg hexact]
    by_cases hsegs : segmentsOf url = ["metrics"]
    · rw [hsegs]
      constructor
      · intro h
        exact absurd (h.mp rfl) (by decide)
      · intro h
        exact absurd (h rfl) hexact
    · refine ⟨fun _ h => absurd h hsegs, fun _ => ⟨fun h => ?_, fun h => ?_⟩⟩
      · exact endpointOf_of_policyFor h hsegs
      · exact policyFor_of_endpointOf h

/-- The gate and the router agree on a URL exactly when it is not `metrics` with other slashes than the
one that `handle` asks for. What writes or consumes is behind the gate on every URL. -/
theorem gate_iff (url : String) :
    (GateAgrees url ↔ (IsMetrics url → urlPath url = "/metrics".toList)) ∧ WritesGuarded url := by
  refine ⟨⟨fun h => (gateKnows_iff_answered_iff url).mp h.known, fun h => ?_⟩, writesGuarded url⟩
  exact ⟨(gateKnows_iff_answered_iff url).mpr h, writesGuarded url⟩

/-- A slash too many: the gate takes the path for a known one, and the router has no route for it. -/
theorem not_gateAgrees_metrics :
    methodGate "GET" "/metrics/" = .dispatch ∧
      requestArm "GET" "/metrics/" anyManager = some (.ok (.noRoute ["metrics"])) ∧
      methodGate "POST" "/metrics/" = .methodNotAllowed ["GET", "HEAD", "OPTIONS"] ∧
      ¬ GateAgrees "/metrics/" := by
  refine ⟨by decide +kernel, by decide +kernel, by decide +kernel, fun h => ?_⟩
  exact absurd ((gateKnows_iff_answered_iff "/metrics/").mp h.known) (by
    unfold IsMetrics
    decide +kernel)

end Frust.Kernel
