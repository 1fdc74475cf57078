import Frust.Kernel.Sync
import Frust.Lib.Entries
import Mathlib.Algebra.BigOperators.Group.List.Basic
import Mathlib.Algebra.Ring.Rat

/-!
# `Frust.Kernel.Counters`: counters in events

A counter is an event of the source table. Each mutation subtracts what the document before
contributed from the row of its key, and adds what the document after contributes.
`backfillCounter` computes the rows anew from the table.

A `CountingEngine` is an engine of which the numbers are known. Columns have no floats, and
integers and decimals are added exactly. A statement that fails refuses the mutation, and so does
a guard that throws. Rows are mutated as they are stored: the types and defaults of the columns are
not applied again.
-/

set_option autoImplicit false

namespace Frust.Kernel

open Frust.Lib

/-- What the database counts with. -/
structure CountingEngine extends Engine where
  /-- A value as a number, if it is one. -/
  number : Value → Option ℚ
  number_null : number .null = none
  number_int : ∀ i, number (.int i) = some i
  eq_null : ∀ v, holds .eq v .null = true ↔ v = .null
  null_eq : ∀ v, holds .eq .null v = true ↔ v = .null
  /-- `math::sum` of numbers. -/
  sum_numbers : ∀ vs, (∀ v ∈ vs, (number v).isSome) → ∃ v, fold .sum vs = .ok v
  /-- Where `math::sum` takes absent values, they add nothing. -/
  sum_total : ∀ vs v, (∀ u ∈ vs, u = .null ∨ (number u).isSome) → fold .sum vs = .ok v →
    number v = some (vs.filterMap number).sum

namespace Counters

variable (E : CountingEngine)

/-! ### The events of a table -/

/-- Defines an event, over the one of the same name. -/
def defineEvent (events : List (String × Expr × EventBody)) : Ddl →
    List (String × Expr × EventBody)
  | .event name cond body => alter name (cond, body) (fun _ => (cond, body)) events
  | _ => events

/-- The events that the statements define. -/
def definedEvents (ds : List Ddl) : List (String × Expr × EventBody) := ds.foldl defineEvent []

/-- A row of a rollup: its key as text, and its numbers. -/
structure Tally where
  k : String
  fields : String → Option ℚ

/-- A row without numbers. -/
def Tally.blank (k : String) : Tally := ⟨k, fun _ => none⟩

/-- `f = (f ?? 0) + q`. -/
def Tally.add (row : Tally) (f : String) (q : ℚ) : Tally :=
  { row with fields := Function.update row.fields f (some ((row.fields f).getD 0 + q)) }

/-- `f = q`. -/
def Tally.set (row : Tally) (f : String) (q : ℚ) : Tally :=
  { row with fields := Function.update row.fields f (some q) }

/-- The rows of a rollup, by their record keys. -/
abbrev Tallies := List (String × Tally)

/-- `<string>`. -/
def castText (v : Value) : Option String :=
  match E.castString v with
  | .text s => some s
  | _ => none

/-- `v ?? 0`, as a number. -/
def amount : Value → Option ℚ
  | .null => some 0
  | v => E.number v

/-- `counts`. -/
def counts (submittable : Bool) (doc : Doc) : Bool :=
  if submittable then E.holds .eq (col doc "docstatus") (.int 1)
  else E.holds .ne (col doc "id") .null

/-- `$bk` and `$ak`. -/
def keyOf (submittable : Bool) (agg : AggregateDef) (doc : Doc) : Value :=
  if counts E submittable doc then col doc agg.key else .null

/-- What a document contributes, by field. -/
def contribution (agg : AggregateDef) (doc : Doc) : Option (List (String × ℚ)) := do
  let amounts ← agg.metrics.mapM fun m => (amount E (col doc m.field)).map (m.name, ·)
  return ("n", 1) :: amounts

/-- One upsert of a counter event. -/
def upsert (submittable : Bool) (agg : AggregateDef) (sign : ℚ) (doc : Doc) (rows : Tallies) :
    Option Tallies :=
  let key := keyOf E submittable agg doc
  if E.holds .ne key .null then do
    let k ← castText E key
    let amounts ← contribution E agg doc
    return alter k (.blank k)
      (fun row => amounts.foldl (fun row a => row.add a.1 (sign * a.2)) { row with k := k }) rows
  else some rows

/-- The body of a counter event. -/
def runCounter (submittable : Bool) (agg : AggregateDef) (before after : Doc) (rows : Tallies) :
    Option Tallies := do
  let rows ← upsert E submittable agg (-1) before rows
  upsert E submittable agg 1 after rows

/-- An event: a guard that throws refuses the mutation, and a counter changes its rollup. -/
def runEvent (sc : Expr.Scope) (rollups : String → Tallies) (e : String × Expr × EventBody) :
    Option (String → Tallies) :=
  if e.2.1.holds E.toEngine sc then
    match e.2.2 with
    | .guards gs | .checks gs =>
        if gs.any (·.cond.holds E.toEngine sc) then none else some rollups
    | .counter submittable agg =>
        (runCounter E submittable agg sc.before sc.after (rollups agg.rollup)).map
          (Function.update rollups agg.rollup)
  else some rollups

/-! ### Mutations -/

/-- What is done with a record. -/
inductive Action where
  | create (row : Doc)
  | update (row : Doc)
  | delete

/-- The row after. -/
def Action.after : Action → Option Doc
  | create row | update row => some row
  | delete => none

/-- `$event`. -/
def Action.event : Action → String
  | create _ => "CREATE"
  | update _ => "UPDATE"
  | delete => "DELETE"

/-- A mutation of one record, by a record user or by root. -/
structure Mutation where
  session : Option Auth
  rid : String
  action : Action

/-- The source table, and the rollups. -/
structure State where
  docs : List (String × Doc)
  rollups : String → Tallies

/-- A record as statements see it. -/
def record (rid : String) (row : Doc) : Doc := ("id", .recordId rid) :: row

/-- A mutation with the events of its table. Without an effect, there is no state after. -/
def mutate (events : List (String × Expr × EventBody)) (s : State) (m : Mutation) :
    Option State :=
  let before := s.docs.lookup m.rid
  if before.isNone ↔ m.action.event = "CREATE" then do
    let sc : Expr.Scope :=
      { session := m.session, before := (before.map (record m.rid)).getD [],
        after := (m.action.after.map (record m.rid)).getD [], event := m.action.event }
    let rollups ← events.foldlM (runEvent E sc) s.rollups
    return ⟨m.action.after.toList.map (m.rid, ·) ++ s.docs.eraseP (·.1 = m.rid), rollups⟩
  else none

/-- Nothing is there. -/
def State.empty : State := ⟨[], fun _ => []⟩

/-! ### The backfill -/

/-- Puts a row into the group of its key. -/
def addToGroup (key : Value) (doc : Doc) : List (Value × List Doc) → List (Value × List Doc)
  | [] => [(key, [doc])]
  | g :: rest =>
      if E.holds .eq g.1 key then (g.1, doc :: g.2) :: rest else g :: addToGroup key doc rest

/-- `GROUP BY`: rows with equal keys. -/
def groupBy (key : Doc → Value) (docs : List Doc) : List (Value × List Doc) :=
  docs.foldr (fun doc => addToGroup E (key doc) doc) []

/-- The rows that `backfill_counter` selects. -/
def selected (submittable : Bool) (agg : AggregateDef) (docs : List (String × Doc)) : List Doc :=
  (docs.map fun r => record r.1 r.2).filter fun doc =>
    E.holds .ne (col doc agg.key) .null &&
      (!submittable || E.holds .eq (col doc "docstatus") (.int 1))

/-- `math::sum` of a metric over a group. -/
def groupMetric (group : List Doc) (m : MetricSpec) : Except BrokerError (String × ℚ) := do
  let v ← E.fold .sum (group.map (col · m.field))
  match E.number v with
  | some q => return (m.name, q)
  | none => .error (.db "math::sum")

/-- The numbers of a group. -/
def groupNumbers (agg : AggregateDef) (group : List Doc) :
    Except BrokerError (List (String × ℚ)) := do
  let sums ← agg.metrics.mapM (groupMetric E group)
  return ("n", (group.length : ℚ)) :: sums

/-- The upsert of a group. -/
def putGroup (rows : Tallies) (g : Value × List (String × ℚ)) : Except BrokerError Tallies :=
  match castText E g.1 with
  | none => .error (.db "<string>")
  | some k =>
      .ok (alter k (.blank k)
        (fun row => g.2.foldl (fun row a => row.set a.1 a.2) { row with k := k }) rows)

/-- `backfill_counter`: the rows of the rollup, and how many there are. -/
def backfillCounter (dt : DocTypeDef) (agg : AggregateDef) (docs : List (String × Doc)) :
    Except BrokerError (Tallies × Nat) := do
  validateAgg agg
  if !isIdent dt.name || !isIdent agg.key then
    badValue "bad backfill source/key"
  let groups ← (groupBy E (col · agg.key) (selected E dt.submittable agg docs)).mapM fun g => do
    return (g.1, ← groupNumbers E agg g.2)
  let rows ← groups.foldlM (putGroup E) []
  return (rows, rows.length)

end Counters

end Frust.Kernel
