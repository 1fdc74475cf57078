import Frust.Proofs.Kernel.Apps

/-!
# `Frust.Proofs.Kernel.Workflow`: the buttons and the judge

The Desk shows a button for each transition that `available` gives, with its action and its target.
A click sends the action alone. The judge finds the transition again: the first one of the role, from
the state, with the action (`judge_eq_ok_iff`).

In a workflow of a valid bundle every state of a transition is declared, so a button is never refused
for its states, and what is judged has a button. But nothing says that the transitions of one state,
role and action agree in their target, or the declarations of one state in their docstatus.
`buttonsAgree_iff` says that they have to.
-/

set_option autoImplicit false

namespace Frust.Kernel

namespace WorkflowDef

variable {wf : WorkflowDef} {state role action : String} {t : TransitionDef} {j : Judged}

/-- A state is declared with a docstatus, and with no other one. -/
def HasDocstatus (wf : WorkflowDef) (name : String) (docstatus : Int) : Prop :=
  (∃ s ∈ wf.states, s.name = name) ∧ ∀ s ∈ wf.states, s.name = name → s.docstatus = docstatus

/-- Of a transition from the state, for the role: its action is judged to lead to its target, with
the docstatus that the target is declared with. -/
def Judges (wf : WorkflowDef) (state role : String) (t : TransitionDef) : Prop :=
  ∃ j, wf.judge state t.action role = .ok j ∧ j.toState = t.toState ∧
    wf.HasDocstatus t.toState j.docstatus

/-- The transitions from a state, for a role, are offered as they are judged, and no target is judged
that is not offered. -/
structure ButtonsAgree (wf : WorkflowDef) (state role : String) : Prop where
  offered : ∀ t : TransitionDef, t.fromState = state → t.role = role →
    (t ∈ wf.available state role ↔ wf.Judges state role t)
  judged : ∀ action j, wf.judge state action role = .ok j →
    ∃ t ∈ wf.available state role, t.action = action ∧ t.toState = j.toState

/-! ### What is offered and what is judged -/

theorem mem_available : t ∈ wf.available state role ↔
    t ∈ wf.transitions ∧ t.fromState = state ∧ t.role = role := by
  simp [available]

/-- The first button with the action is the transition that is judged. -/
theorem judge_eq_ok_iff : wf.judge state action role = .ok j ↔
    (wf.state state).isSome ∧ ∃ t target,
      (wf.available state role).find? (·.action = action) = some t ∧
      wf.state t.toState = some target ∧ j = ⟨state, t.toState, action, target.docstatus⟩ := by
  have hfind : (((wf.transitions.filter (·.action = action)).filter (·.fromState = state)).find?
      (·.role = role)) = (wf.available state role).find? (·.action = action) := by
    unfold available
    rw [List.find?_filter, List.find?_filter, List.find?_filter]
    refine congrArg (List.find? · _) (funext fun t => ?_)
    simp [and_comm, and_assoc]
  unfold judge
  cases hstate : wf.state state with
  | none => simp
  | some s =>
      simp only [Option.isNone_some, Bool.false_eq_true, if_false, Option.isSome_some, true_and]
      rw [hfind]
      -- the refusals that name the mistake are cases without a transition
      cases hbutton : (wf.available state role).find? (·.action = action) with
      | none =>
          constructor
          · intro h
            split at h
            · cases h
            · split at h <;> cases h
          · rintro ⟨t, target, h, _⟩
            cases h
      | some t =>
          have hmem := mem_available.mp (List.mem_of_find?_eq_some hbutton)
          have haction : t.action = action := by simpa using List.find?_some hbutton
          have hby : t ∈ wf.transitions.filter (·.action = action) := by
            simp [hmem.1, haction]
          have hhere : t ∈ (wf.transitions.filter (·.action = action)).filter
              (·.fromState = state) := by
            simp [hmem, haction]
          rw [if_neg (by simpa using List.ne_nil_of_mem hby),
            if_neg (by simpa using List.ne_nil_of_mem hhere)]
          dsimp only
          cases htarget : wf.state t.toState with
          | none =>
              constructor
              · intro h
                cases h
              · rintro ⟨t', target, ht, htarget', _⟩
                cases ht
                rw [htarget] at htarget'
                cases htarget'
          | some target =>
              constructor
              · intro h
                cases h
                exact ⟨t, target, rfl, htarget, rfl⟩
              · rintro ⟨t', target', ht, htarget', rfl⟩
                cases ht
                rw [htarget] at htarget'
                cases htarget'
                rfl

/-- The states of a valid bundle's transitions are declared. -/
theorem declared_of_validate {m : Manifest} (hvalid : m.validate = []) (hw : wf ∈ m.workflows)
    (ht : t ∈ wf.transitions) :
    (∃ s ∈ wf.states, s.name = t.fromState) ∧ ∃ s ∈ wf.states, s.name = t.toState := by
  have hproblems := workflowProblems_nil hvalid hw
  unfold Manifest.workflowProblems at hproblems
  simp only [List.append_eq_nil_iff, List.flatMap_eq_nil_iff, problem_eq_nil] at hproblems
  have hstates := (hproblems.1.2 t ht).1
  have hfrom := hstates ("from", t.fromState) (by simp)
  have hto := hstates ("to", t.toState) (by simp)
  simpa using And.intro hfrom hto

theorem isSome_state {name : String} : (wf.state name).isSome ↔ ∃ s ∈ wf.states, s.name = name := by
  unfold state
  rw [List.find?_isSome]
  simp

/-! ### Agreement -/

/-- The buttons of a state have a judged target each: those of one action have the same, and the
target's declarations have the same docstatus. -/
def Unambiguous (wf : WorkflowDef) (state role : String) : Prop :=
  ∀ t ∈ wf.available state role,
    (∀ t' ∈ wf.available state role, t'.action = t.action → t'.toState = t.toState) ∧
    ∀ s ∈ wf.states, ∀ s' ∈ wf.states, s.name = t.toState → s'.name = t.toState →
      s.docstatus = s'.docstatus

instance : Decidable (wf.Unambiguous state role) :=
  inferInstanceAs (Decidable (∀ t ∈ wf.available state role,
    (∀ t' ∈ wf.available state role, t'.action = t.action → t'.toState = t.toState) ∧
    ∀ s ∈ wf.states, ∀ s' ∈ wf.states, s.name = t.toState → s'.name = t.toState →
      s.docstatus = s'.docstatus))

theorem offered_of_judge (h : wf.judge state action role = .ok j) :
    ∃ t ∈ wf.available state role, t.action = action ∧ t.toState = j.toState := by
  obtain ⟨_, t, target, hfind, _, rfl⟩ := judge_eq_ok_iff.mp h
  exact ⟨t, List.mem_of_find?_eq_some hfind, by simpa using List.find?_some hfind, rfl⟩

/-- A button of a valid bundle is judged to lead somewhere: where the first button of its action
leads. -/
theorem judge_of_offered {m : Manifest} (hvalid : m.validate = []) (hw : wf ∈ m.workflows)
    (ht : t ∈ wf.available state role) : ∃ t' ∈ wf.available state role, ∃ target ∈ wf.states,
      t'.action = t.action ∧ target.name = t'.toState ∧
      wf.judge state t.action role = .ok ⟨state, t'.toState, t.action, target.docstatus⟩ := by
  have hsome : ((wf.available state role).find? (·.action = t.action)).isSome := by
    rw [List.find?_isSome]
    exact ⟨t, ht, by simp⟩
  obtain ⟨t', hfind⟩ := Option.isSome_iff_exists.mp hsome
  have hmem := List.mem_of_find?_eq_some hfind
  obtain ⟨htrans, hfrom, _⟩ := mem_available.mp hmem
  obtain ⟨hdeclared, htarget⟩ := declared_of_validate hvalid hw htrans
  rw [hfrom] at hdeclared
  obtain ⟨target, hfound⟩ := Option.isSome_iff_exists.mp (isSome_state.mpr htarget)
  refine ⟨t', hmem, target, List.mem_of_find?_eq_some hfound, by simpa using List.find?_some hfind,
    by simpa using List.find?_some hfound, ?_⟩
  exact judge_eq_ok_iff.mpr ⟨isSome_state.mpr hdeclared, t', target, hfind, hfound, rfl⟩

/-- In a valid bundle's workflow, the buttons and the judge agree on a state and a role if and only
if the buttons of one action have one target, and their targets one docstatus. The state may be what
`stateOrInitial` makes of any stored value. -/
theorem buttonsAgree_iff {m : Manifest} (hvalid : m.validate = []) (hw : wf ∈ m.workflows)
    (state role : String) : wf.ButtonsAgree state role ↔ wf.Unambiguous state role := by
  constructor
  · intro hagree t ht
    obtain ⟨_, hfrom, hrole⟩ := mem_available.mp ht
    obtain ⟨j, hj, hto, hdocstatus⟩ := (hagree.offered t hfrom hrole).mp ht
    constructor
    · intro t' ht' haction
      obtain ⟨_, hfrom', hrole'⟩ := mem_available.mp ht'
      obtain ⟨j', hj', hto', _⟩ := (hagree.offered t' hfrom' hrole').mp ht'
      -- the action alone is judged
      rw [haction, hj] at hj'
      cases hj'
      rw [← hto, hto']
    · intro s hs s' hs' hname hname'
      rw [hdocstatus.2 s hs hname, hdocstatus.2 s' hs' hname']
  · intro hone
    refine ⟨fun t hfrom hrole => ⟨fun ht => ?_, ?_⟩, fun action j h => offered_of_judge h⟩
    · obtain ⟨t', ht', target, htarget, haction, hname, hjudge⟩ := judge_of_offered hvalid hw ht
      have hto : t'.toState = t.toState := (hone t ht).1 t' ht' haction
      rw [hto] at hname
      refine ⟨_, hjudge, hto, ⟨target, htarget, hname⟩, fun s hs hs' => ?_⟩
      exact (hone t ht).2 s hs target htarget hs' hname
    · rintro ⟨j, hj, hto, _⟩
      obtain ⟨t', ht', haction, hto'⟩ := offered_of_judge hj
      obtain ⟨htrans, hfrom', hrole'⟩ := mem_available.mp ht'
      -- a transition is its states, its role and its action
      have heq : t' = t := by
        cases t
        cases t'
        simp_all
      exact heq ▸ ht'

/-- An approval: a clerk submits, a manager approves or rejects. -/
def approval : WorkflowDef where
  name := "approval"
  doctype := "claim"
  states := [⟨"Draft", 0⟩, ⟨"Sent", 0⟩, ⟨"Approved", 1⟩, ⟨"Rejected", 0⟩]
  transitions :=
    [⟨"Draft", "Sent", "clerk", "Submit"⟩, ⟨"Sent", "Approved", "manager", "Approve"⟩,
      ⟨"Sent", "Rejected", "manager", "Reject"⟩]

/-- Both answers of the manager are called `Decide`. -/
def decision : WorkflowDef := { approval with transitions :=
    [⟨"Draft", "Sent", "clerk", "Submit"⟩, ⟨"Sent", "Approved", "manager", "Decide"⟩,
      ⟨"Sent", "Rejected", "manager", "Decide"⟩] }

/-- A bundle with a workflow. -/
def claimsBundle (wf : WorkflowDef) : Manifest where
  manifestVersion := 1
  name := "claims"
  version := "1.0.0"
  doctypes := [{ name := "claim", fields := [] }]
  workflows := [wf]

theorem buttonsAgree_approval : approval.ButtonsAgree "Sent" "manager" :=
  (buttonsAgree_iff (m := claimsBundle approval) (by decide +kernel) List.mem_cons_self _ _).mpr
    (by decide)

/-- A button that is judged to lead to another one's target. -/
theorem not_buttonsAgree : ∃ m : Manifest, m.validate = [] ∧ ∃ wf ∈ m.workflows,
    ¬ wf.ButtonsAgree "Sent" "manager" := by
  refine ⟨claimsBundle decision, by decide +kernel, decision, List.mem_cons_self, fun h => ?_⟩
  obtain ⟨j, hj, hto, _⟩ := (h.offered ⟨"Sent", "Rejected", "manager", "Decide"⟩ rfl rfl).mp
    (by decide)
  have happroved : decision.judge "Sent" "Decide" "manager"
      = .ok ⟨"Sent", "Approved", "Decide", 1⟩ := by decide
  rw [happroved] at hj
  cases hj
  exact absurd hto (by decide)

end WorkflowDef

end Frust.Kernel
