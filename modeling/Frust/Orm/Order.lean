import Mathlib.Data.List.Basic
import Std.Data.ExtTreeMap
import Mathlib.Algebra.Group.Nat.Defs

/-!
# `Frust.Orm.Order`: resources in dependency order

`orderResources` puts each resource after the resources it links to. The sort is
Kahn's algorithm over `(name, deps)` nodes; a dependency outside the node set is
ignored, and what a cycle leaves over follows in input order.

The loop pops a queue, so it takes fuel. A counter reaches zero once, so a run
pops the initial queue and at most one entry per name: twice the number of nodes
is enough. A counter is a `usize`, and its decrement wraps as a release build's
does.
-/

set_option autoImplicit false

namespace Frust.Orm

/-- A resource's desired state. -/
structure ResourceSpec where
  /-- Owning app; `"platform"` is the platform scope. -/
  app : String
  /-- Table name. -/
  name : String
  /-- The block of `DEFINE` statements. -/
  schema : String
  /-- Record-link targets. -/
  deps : List String
  deriving DecidableEq

/-- The record-link targets of a resource, without itself. -/
def recordDeps (reg : ResourceSpec) : List String := reg.deps.filter (· ≠ reg.name)

/-- The two maps of the sort. -/
structure Graph where
  indeg : Std.ExtTreeMap String Nat
  dependents : Std.ExtTreeMap String (List String)

/-- The dependencies of a node that are nodes, without itself. -/
def realDeps (names : List String) (node : String × List String) : List String :=
  node.2.filter fun d => d ≠ node.1 && names.contains d

/-- Files `n` under the dependents of `d`. -/
def addDependent (n : String) (m : Std.ExtTreeMap String (List String)) (d : String) :
    Std.ExtTreeMap String (List String) :=
  m.insert d (m.getD d [] ++ [n])

/-- Enters one node into the maps. -/
def Graph.addNode (names : List String) (g : Graph) (node : String × List String) : Graph where
  indeg := g.indeg.insert node.1 (realDeps names node).length
  dependents := (realDeps names node).foldl (addDependent node.1) g.dependents

/-- The maps of a node list. -/
def Graph.build (nodes : List (String × List String)) : Graph :=
  nodes.foldl (Graph.addNode (nodes.map (·.1))) ⟨∅, ∅⟩

/-- `usize` decrement, wrapping at zero. -/
def usizePred (e : Nat) : Nat := if e = 0 then 2 ^ 64 - 1 else e - 1

/-- One finished dependency of `m`: its counter falls, and `m` is queued when
the counter reaches zero. -/
def relax (s : Std.ExtTreeMap String Nat × List String) (m : String) :
    Std.ExtTreeMap String Nat × List String :=
  match s.1[m]? with
  | none => s
  | some e =>
      let e' := usizePred e
      (s.1.insert m e', if e' = 0 then s.2 ++ [m] else s.2)

/-- The loop over the queue. -/
def kahn (dependents : Std.ExtTreeMap String (List String)) :
    (fuel : Nat) → Std.ExtTreeMap String Nat → (queue order : List String) → List String
  | 0, _, _, order => order
  | _ + 1, _, [], order => order
  | fuel + 1, indeg, n :: queue, order =>
      let s := (dependents.getD n []).foldl relax (indeg, queue)
      kahn dependents fuel s.1 s.2 (order ++ [n])

/-- Appends a name that the order lacks. -/
def pushMissing (order : List String) (n : String) : List String :=
  if order.contains n then order else order ++ [n]

/-- Kahn's algorithm; a remainder follows in input order. -/
def toposortKeys (nodes : List (String × List String)) : List String :=
  let names := nodes.map (·.1)
  let g := Graph.build nodes
  let queue := names.filter fun n => g.indeg.getD n 0 = 0
  let order := kahn g.dependents (2 * nodes.length) g.indeg queue []
  if order.length < nodes.length then names.foldl pushMissing order else order

/-- Takes the resources named in `order` out of `byName`, in that order. -/
def takeByName : (order : List String) → (byName : Std.ExtTreeMap String ResourceSpec) →
    List ResourceSpec
  | [], _ => []
  | n :: rest, byName =>
      match byName[n]? with
      | some r => r :: takeByName rest (byName.erase n)
      | none => takeByName rest byName

/-- The resources by name; a later one replaces an earlier one of its name. -/
def byName (regs : List ResourceSpec) : Std.ExtTreeMap String ResourceSpec :=
  regs.foldl (fun m r => m.insert r.name r) ∅

/-- Orders resources so that each follows the resources it links to. -/
def orderResources (regs : List ResourceSpec) : List ResourceSpec :=
  takeByName (toposortKeys (regs.map fun r => (r.name, recordDeps r))) (byName regs)

/-! ### With the panics -/

/-- `relax` where a decrement below zero panics, as a debug build's does. -/
def checkedRelax (s : Std.ExtTreeMap String Nat × List String) (m : String) :
    Option (Std.ExtTreeMap String Nat × List String) :=
  if s.1[m]? = some 0 then none else some (relax s m)

/-- The loop with panics; `none` also when the fuel runs out before the queue does. -/
def checkedKahn (dependents : Std.ExtTreeMap String (List String)) :
    (fuel : Nat) → Std.ExtTreeMap String Nat → (queue order : List String) → Option (List String)
  | _, _, [], order => some order
  | 0, _, _ :: _, _ => none
  | fuel + 1, indeg, n :: queue, order => do
      let s ← (dependents.getD n []).foldlM checkedRelax (indeg, queue)
      checkedKahn dependents fuel s.1 s.2 (order ++ [n])

/-- `toposortKeys` with panics. -/
def checkedToposortKeys (nodes : List (String × List String)) : Option (List String) := do
  let names := nodes.map (·.1)
  let g := Graph.build nodes
  let queue := names.filter fun n => g.indeg.getD n 0 = 0
  let order ← checkedKahn g.dependents (2 * nodes.length) g.indeg queue []
  return if order.length < nodes.length then names.foldl pushMissing order else order

/-- `orderResources` with panics. -/
def checkedOrderResources (regs : List ResourceSpec) : Option (List ResourceSpec) := do
  let order ← checkedToposortKeys (regs.map fun r => (r.name, recordDeps r))
  return takeByName order (byName regs)

end Frust.Orm
