import Frust.Kernel.Contract

/-!
# `Frust.Kernel.Workflow`: judging a workflow transition

A workflow is metadata: its states, each with a docstatus, and its transitions, each
with the one role that may take it. `judge` decides before anything is written, and
each of its refusals names its own mistake. The state rules shape the Desk only.
-/

set_option autoImplicit false

namespace Frust.Kernel

/-- `STATE_FIELD`. -/
def stateField : String := "workflow_state"

/-- `StateDef`. -/
structure StateDef where
  name : String
  docstatus : Int := 0
  deriving DecidableEq

/-- `TransitionDef`. -/
structure TransitionDef where
  fromState : String
  toState : String
  role : String
  action : String
  deriving DecidableEq

/-- `StateRule`. -/
structure StateRule where
  state : String
  field : String
  readOnly : Bool := false
  required : Bool := false
  deriving DecidableEq

/-- `WorkflowDef`. -/
structure WorkflowDef where
  name : String
  doctype : String
  states : List StateDef
  transitions : List TransitionDef
  stateRules : List StateRule := []
  deriving DecidableEq

/-- `Judged`. -/
structure Judged where
  fromState : String
  toState : String
  action : String
  docstatus : Int
  deriving DecidableEq

namespace WorkflowDef

/-- `initial_state`. -/
def initialState (wf : WorkflowDef) : String := (wf.states.head?.map (·.name)).getD "Draft"

/-- `state`. -/
def state (wf : WorkflowDef) (name : String) : Option StateDef := wf.states.find? (·.name = name)

/-- `state_or_initial`: absent and empty mean not entered yet. -/
def stateOrInitial (wf : WorkflowDef) : (stored : Option String) → String
  | some s => if s ≠ "" then s else wf.initialState
  | none => wf.initialState

/-- `available`. -/
def available (wf : WorkflowDef) (state role : String) : List TransitionDef :=
  wf.transitions.filter fun t => t.fromState = state ∧ t.role = role

/-- `judge`. -/
def judge (wf : WorkflowDef) (current action role : String) : Except BrokerError Judged :=
  if (wf.state current).isNone then
    .error (.workflowDenied "FRUST:E_WORKFLOW:UNKNOWN_STATE"
      ("'" ++ current ++ "' is not a state of workflow '" ++ wf.name ++ "'"))
  else
    let byAction := wf.transitions.filter (·.action = action)
    if byAction.isEmpty then
      .error (.workflowDenied "FRUST:E_WORKFLOW:UNKNOWN_ACTION"
        ("workflow '" ++ wf.name ++ "' has no action '" ++ action ++ "'"))
    else
      let fromHere := byAction.filter (·.fromState = current)
      if fromHere.isEmpty then
        .error (.workflowDenied "FRUST:E_WORKFLOW:WRONG_STATE"
          ("'" ++ action ++ "' is not available from '" ++ current ++ "'"))
      else
        match fromHere.find? (·.role = role) with
        | none =>
            .error (.workflowDenied "FRUST:E_WORKFLOW:ROLE_DENIED"
              ("'" ++ action ++ "' from '" ++ current ++ "' requires role "
                ++ " or ".intercalate (fromHere.map (·.role)) ++ "; you are '" ++ role ++ "'"))
        | some t =>
            match wf.state t.toState with
            | none =>
                .error (.workflowDenied "FRUST:E_WORKFLOW:UNKNOWN_STATE"
                  ("transition '" ++ action ++ "' targets undeclared state '" ++ t.toState ++ "'"))
            | some target => .ok ⟨current, t.toState, action, target.docstatus⟩

end WorkflowDef

end Frust.Kernel
