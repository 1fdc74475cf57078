import Mathlib.Logic.Basic

/-!
# `Frust.Kernel.Contract`: values, paths, filters and errors

The types that cross the broker's door. A document is a list of named values. A float
is kept as its printed text, which determines it, and an integer as an `Int`.

`Json` is what the database answers with. `Json.toValue` reads it back conservatively:
a string stays a text.
-/

set_option autoImplicit false

namespace Frust.Kernel

/-- `Value`. -/
inductive Value where
  | null
  | bool (b : Bool)
  | int (i : Int)
  /-- A float, as printed. -/
  | float (text : String)
  | decimal (s : String)
  | text (s : String)
  | datetime (s : String)
  | duration (s : String)
  /-- `table:key`. -/
  | recordId (s : String)
  | list (items : List Value)
  | object (entries : List (String × Value))
  deriving Inhabited

mutual

/-- `PartialEq` of `Value`. Of floats, `NaN` differs from itself and the zeros agree. -/
def eqValue : Value → Value → Bool
  | .null, .null => true
  | .bool a, .bool b => a = b
  | .int a, .int b => a = b
  | .float a, .float b => a ≠ "NaN" ∧ (a = b ∨ (a ∈ ["0", "-0"] ∧ b ∈ ["0", "-0"]))
  | .decimal a, .decimal b => a = b
  | .text a, .text b => a = b
  | .datetime a, .datetime b => a = b
  | .duration a, .duration b => a = b
  | .recordId a, .recordId b => a = b
  | .list as, .list bs => eqItems as bs
  | .object as, .object bs => eqEntries as bs
  | _, _ => false

/-- `==` of lists. -/
def eqItems : List Value → List Value → Bool
  | [], [] => true
  | a :: as, b :: bs => eqValue a b && eqItems as bs
  | _, _ => false

/-- `==` of entries. -/
def eqEntries : List (String × Value) → List (String × Value) → Bool
  | [], [] => true
  | (k, a) :: as, (k', b) :: bs => k = k' && eqValue a b && eqEntries as bs
  | _, _ => false

end

/-- A document envelope. -/
abbrev Doc := List (String × Value)

/-- `serde_json::Value`, as the database answers. -/
inductive Json where
  | null
  | bool (b : Bool)
  | int (i : Int)
  | float (text : String)
  | string (s : String)
  | array (items : List Json)
  | object (entries : List (String × Json))
  deriving Inhabited

namespace Json

/-- `as_array`, with nothing for the rest. -/
def rows : Json → List Json
  | array items => items
  | _ => []

/-- `get` with a key. -/
def get (v : Json) (k : String) : Option Json :=
  match v with
  | object entries => entries.lookup k
  | _ => none

/-- `as_str`. -/
def asStr : Json → Option String
  | string s => some s
  | _ => none

/-- `as_i64`. -/
def asInt : Json → Option Int
  | int i => some i
  | _ => none

/-- The keys of an object. -/
def keys : Json → List String
  | object entries => entries.map (·.1)
  | _ => []

mutual

/-- `json_to_value`. -/
def toValue : Json → Value
  | null => .null
  | bool b => .bool b
  | int i => .int i
  | float text => .float text
  | string s => .text s
  | array items => .list (toValues items)
  | object entries => .object (toEntries entries)

/-- `toValue` on each item. -/
def toValues : List Json → List Value
  | [] => []
  | v :: rest => toValue v :: toValues rest

/-- `toValue` on each entry. -/
def toEntries : List (String × Json) → List (String × Value)
  | [] => []
  | (k, v) :: rest => (k, toValue v) :: toEntries rest

end

end Json

/-- `EdgeDirection`. -/
inductive EdgeDirection where
  | out | inward
  deriving DecidableEq

/-- `PathSegment`. -/
inductive PathSegment where
  | field (name : String)
  | linkHop (name : String)
  | edge (direction : EdgeDirection) (edgeType : String)
  deriving DecidableEq

/-- A field path. -/
abbrev Path := List PathSegment

/-- `CmpOp`. -/
inductive CmpOp where
  | eq | ne | gt | gte | lt | lte | inside | contains
  deriving DecidableEq

/-- `CmpOp::is_range`. -/
def CmpOp.isRange : CmpOp → Bool
  | gt | gte | lt | lte => true
  | _ => false

/-- `Filter`. -/
inductive Filter where
  | all (fs : List Filter)
  | any (fs : List Filter)
  | not (inner : Filter)
  | cmp (path : Path) (op : CmpOp) (value : Value)

/-- `SortDir`. -/
inductive SortDir where
  | asc | desc
  deriving DecidableEq

/-- `ReadOpts`. -/
structure ReadOpts where
  orderBy : Option (Path × SortDir) := none
  limit : Option Nat := none
  start : Option Nat := none

/-- `Metric`. -/
inductive Metric where
  | count | sum | min | max | avg
  deriving DecidableEq

/-- `WriteOp`. -/
inductive WriteOp where
  | create | update
  deriving DecidableEq

/-- `HookClass`. -/
inductive HookClass where
  | beforeInsert | validate | onSubmit | onCancel | onWrite | scheduled
  deriving DecidableEq

/-- `{:?}` of a hook class. -/
def HookClass.debug : HookClass → String
  | beforeInsert => "BeforeInsert"
  | validate => "Validate"
  | onSubmit => "OnSubmit"
  | onCancel => "OnCancel"
  | onWrite => "OnWrite"
  | scheduled => "Scheduled"

/-- `HookClass::wire`. -/
def HookClass.wire : HookClass → String
  | beforeInsert => "before_insert"
  | validate => "validate"
  | onSubmit => "on_submit"
  | onCancel => "on_cancel"
  | onWrite => "on_write"
  | scheduled => "scheduled"

/-- `HookClass::SUBSCRIBABLE`. -/
def HookClass.subscribable : List HookClass := [beforeInsert, validate, onSubmit, onCancel]

/-- `HookClass::from_wire`. -/
def HookClass.fromWire (s : String) : Option HookClass := subscribable.find? (·.wire = s)

/-- `HookClass::may_mutate`. -/
def HookClass.mayMutate : HookClass → Bool
  | beforeInsert | validate => true
  | _ => false

/-- `BrokerError`. -/
inductive BrokerError where
  | unknownDoctype (name : String)
  | fieldNotReadable (field : String)
  | pathTooDeep (max : Nat)
  | invalidValue (detail : String)
  | fixtureRefused (code doctype key : String) (apps : List String) (detail : String)
  | deleteRefused (code detail : String)
  | hookCycle (record hook : String)
  | hookDepthExceeded (max : Nat)
  | hookRejected (stage message : String)
  | permissionDenied (detail : String)
  | identityUnresolved
  | tenantThrottled (retryAfterMs : Nat)
  | workflowDenied (code detail : String)
  | writeConflictExhausted (attempts : Nat)
  | db (detail : String)
  deriving DecidableEq

end Frust.Kernel
