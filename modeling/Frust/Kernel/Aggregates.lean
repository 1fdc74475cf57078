import Frust.Kernel.Decimal
import Frust.Kernel.Feed
import Frust.Kernel.Surql
import Frust.Lib.Entries
import Frust.Lib.Exec

/-!
# `Frust.Kernel.Aggregates`: worker rollups

A worker replays a table's changefeed from a cursor. For every change it subtracts what the
document before contributed and adds what the document after contributes. A tick applies the
sums of one batch and moves the cursor, in one transaction.

The worker is a program that asks the database, and the memo of its process. `RollupState` is
what it meets: the feed, the cursor record, the rollup's rows, the groups of the customers. It
also remembers every batch that was committed, with the memo of that moment. The lag gauge and
the telemetry are not modelled.
-/

set_option autoImplicit false

namespace Frust.Kernel

open Frust.Lib Frust.Rust.Str

namespace Aggregates

open Feed

/-- Amounts by key and field. -/
abbrev Contribution := List (String × List (String × Decimal))

/-- What a worker asks. -/
inductive Request where
  /-- The `vs` of the cursor record. -/
  | cursor (rollup : String)
  /-- `SHOW CHANGES FOR TABLE`. -/
  | showChanges (source : String) (since limit : Nat)
  /-- Looks a customer up in the memo. -/
  | recall (customer : String)
  /-- Puts a customer's group into the memo. -/
  | keep (customer group : String)
  /-- A field of a record, as a string. -/
  | hop (field rid : String)
  /-- Adds the amounts to the rollup's rows and sets the cursor, in one transaction. -/
  | apply (rollup : String) (acc : Contribution) (vs : Nat)
  /-- Deletes the rollup's rows and sets the cursor to zero, in one transaction. -/
  | reset (rollup : String)

/-- The answers. -/
abbrev Answer : Request → Type
  | .recall _ => Option String
  | .keep _ _ => Unit
  | .cursor _ | .showChanges _ _ _ | .hop _ _ | .apply _ _ _ | .reset _ => Except BrokerError Json

/-- A program of the worker. -/
abbrev Program := Prog BrokerError Request Answer

/-- `Contrib`. -/
structure Contrib where
  rollup : String
  source : String
  contrib : Json → Program Contribution

/-! ### Contributions -/

/-- `GroupRevenue`, without its memo. -/
structure GroupRevenue where
  source : String
  rollup : String
  hop : String

namespace GroupRevenue

/-- `group_of`. -/
def groupOf (g : GroupRevenue) (customer : String) : Program String :=
  .ask (.recall customer) fun (cached : Option String) =>
    match cached with
    | some group => return group
    | none => do
        let rid ← Prog.done (renderValue (.recordId customer))
        if !g.hop.toList.all (fun c => isAsciiAlphanumeric c || c = '_') then
          .done (.error (.invalidValue "bad hop field"))
        else
          .ask (.hop g.hop rid) fun (v : Except BrokerError Json) =>
            match v with
            | .error e => .done (.error e)
            | .ok v => .ask (.keep customer (v.asStr.getD "(none)")) fun _ =>
                return v.asStr.getD "(none)"

/-- The customer of a document. -/
def customerOf (doc : Json) : Option String := (doc.get "customer").bind Json.asStr

/-- What a document contributes to its customer's group. -/
def amounts (doc : Json) : List (String × Decimal) :=
  [("revenue", Decimal.fromJson (doc.get "total")), ("n", ⟨1, 0⟩)]

/-- The contributions by customer group. -/
def handler (g : GroupRevenue) : Contrib where
  rollup := g.rollup
  source := g.source
  contrib doc :=
    match customerOf doc with
    | none => return []
    | some customer => do
        let group ← g.groupOf customer
        return [(group, amounts doc)]

end GroupRevenue

/-- `ItemSales`. -/
structure ItemSales where
  source : String
  rollup : String

namespace ItemSales

/-- Quantity and amount by item. -/
def perItem (doc : Json) : List (String × (Decimal × Decimal)) :=
  ((doc.get "lines").elim [] Json.rows).foldl (fun acc line =>
    match (line.get "item").bind Json.asStr with
    | none => acc
    | some item => alter item (Decimal.zero, Decimal.zero) (fun e =>
        (e.1.add (Decimal.fromJson (line.get "qty")),
          e.2.add (Decimal.fromJson (line.get "amount")))) acc) []

/-- What a document contributes to its items. -/
def amounts (doc : Json) : Contribution :=
  (perItem doc).map fun e => (e.1, [("qty", e.2.1), ("amount", e.2.2)])

/-- The contributions by item. -/
def handler (i : ItemSales) : Contrib where
  rollup := i.rollup
  source := i.source
  contrib doc := return amounts doc

end ItemSales

/-! ### The worker -/

/-- An amount as it is added: subtracted amounts are negated. -/
def signed (subtract : Bool) (amount : Decimal) : Decimal :=
  if subtract then amount.neg else amount

/-- Adds a contribution to the sums of a batch. -/
def addTo (subtract : Bool) (acc c : Contribution) : Contribution :=
  c.foldl (fun acc e => alter e.1 [] (fun bucket =>
    e.2.foldl (fun bucket a => alter a.1 Decimal.zero (·.add (signed subtract a.2)) bucket) bucket)
      acc) acc

/-- The documents of a batch, each with whether it is subtracted. -/
def docsOf (changes : List Change) : List (Json × Bool) :=
  changes.flatMap fun ch => ch.before.toList.map (·, true) ++ ch.after.toList.map (·, false)

/-- The loop of `tick` over the documents of a batch. -/
def fold (w : Contrib) : List (Json × Bool) → Contribution → Program Contribution
  | [], acc => return acc
  | (doc, subtract) :: rest, acc => do
      let c ← w.contrib doc
      fold w rest (addTo subtract acc c)

/-- `cursor`. -/
def cursor (w : Contrib) : Program Nat :=
  .ask (.cursor w.rollup) fun (v : Except BrokerError Json) =>
    .done (v.map fun v => (v.rows.head?.bind asU64).getD 0)

/-- The rest of `tick`, with the entries. -/
def applyBatch (w : Contrib) (entries : List Json) : Program Nat := do
  let (changes, lastVs) ← Prog.done (decodeEntries entries)
  let acc ← fold w (docsOf changes) []
  .ask (.apply w.rollup acc lastVs) fun (r : Except BrokerError Json) =>
    .done (r.map fun _ => changes.length)

/-- `tick`. -/
def tick (w : Contrib) (limit : Nat) : Program Nat := do
  let since := ((← cursor w) + 1) % 2 ^ 64
  .ask (.showChanges w.source since limit) fun (v : Except BrokerError Json) =>
    match v with
    | .error e => .done (.error e)
    | .ok v => if v.rows.isEmpty then return 0 else applyBatch w v.rows

/-- `drain`. The fuel bounds the turns of the loop. -/
def drain (w : Contrib) : (fuel total : Nat) → Program Nat
  | 0, _ => .done (.error (.db "out of fuel"))
  | fuel + 1, total => do
      let n ← tick w 1000
      if n = 0 then return total else drain w fuel (total + n)

/-- `recompute_from_source`. -/
def recompute (w : Contrib) (fuel : Nat) : Program Nat :=
  .ask (.reset w.rollup) fun (r : Except BrokerError Json) =>
    match r with
    | .error e => .done (.error e)
    | .ok _ => drain w fuel 0

/-! ### What the worker meets -/

/-- Customers and their groups. -/
abbrev Memo := String → Option String

/-- The feed, the cursor, the rollup's rows by key and field, the fields of other records, the
memo, and every batch that was committed, with the memo of that moment. -/
structure RollupState where
  feed : List FeedEntry
  cursor : Option Nat := none
  rollup : String → String → Option ℚ := fun _ _ => none
  hops : String → String → Json
  memo : Memo := fun _ => none
  committed : List (List FeedEntry × Memo) := []
  /-- Later entries have larger versionstamps. -/
  ordered : (feed.map FeedEntry.versionstamp).Pairwise (· < ·)

namespace RollupState

/-- The cursor, or zero. -/
def at_ (s : RollupState) : Nat := s.cursor.getD 0

/-- The entries after the cursor, up to a versionstamp. -/
def pending (s : RollupState) (vs : Nat) : List FeedEntry :=
  s.feed.filter fun e => s.at_ < e.versionstamp ∧ e.versionstamp ≤ vs

/-- The entries from a versionstamp on, up to a limit. -/
def batch (s : RollupState) (since limit : Nat) : List FeedEntry :=
  (s.feed.filter fun e => since ≤ e.versionstamp).take limit

/-- The amount in a slot. -/
def slot (acc : Contribution) (k f : String) : Option Decimal := (acc.lookup k).bind (·.lookup f)

/-- The transaction of a tick. The database adds decimals exactly. -/
def commit (s : RollupState) (acc : Contribution) (vs : Nat) : RollupState :=
  { s with
    rollup := fun k f => (slot acc k f).elim (s.rollup k f) fun d =>
      some ((s.rollup k f).getD 0 + d.value)
    cursor := some vs
    committed := s.committed ++ [(s.pending vs, s.memo)] }

/-- The transaction of a reset. -/
def cleared (s : RollupState) : RollupState :=
  { s with rollup := fun _ _ => none, cursor := some 0, committed := [] }

/-- What a request may be answered, and what it does. A transaction is done or not; when its answer
is an error, either may be. -/
def Effect (w : Contrib) (s : RollupState) : (q : Request) → Answer q → RollupState → Prop
  | .cursor r, a, s' => s' = s ∧ (r = w.rollup → ∀ v, a = .ok v →
      v = .array (s.cursor.toList.map fun (vs : Nat) => .int vs))
  | .showChanges t since limit, a, s' => s' = s ∧ (t = w.source → ∀ v, a = .ok v →
      v = .array ((s.batch since limit).map FeedEntry.json))
  | .recall c, a, s' => s' = s ∧ a = s.memo c
  | .keep c g, _, s' => s' = { s with memo := Function.update s.memo c (some g) }
  | .hop field rid, a, s' => s' = s ∧ ∀ v, a = .ok v → v = s.hops field rid
  | .apply r acc vs, a, s' => r = w.rollup →
      s' = s.commit acc vs ∨ (s' = s ∧ ∃ e, a = .error e)
  | .reset r, a, s' => r = w.rollup → s' = s.cleared ∨ (s' = s ∧ ∃ e, a = .error e)

/-- What others do meanwhile: they write to the source table and to the records that it links to. -/
def Others (s s' : RollupState) : Prop :=
  s'.cursor = s.cursor ∧ s'.rollup = s.rollup ∧ s'.memo = s.memo ∧ s'.committed = s.committed ∧
    s.feed <+: s'.feed

/-- What a request may be answered, and what becomes of the state, where every request meets a
condition. -/
def Answers (cond : RollupState → Request → Prop) (w : Contrib) (s : RollupState) (q : Request)
    (r : Answer q) (s' : RollupState) : Prop :=
  cond s q ∧ ∃ s₁, Effect w s q r s₁ ∧ Others s₁ s'

end RollupState

/-- What is done with a worker. -/
inductive Call where
  | tick (limit : Nat)
  | drain (fuel : Nat)
  | recompute (fuel : Nat)
  | restart

/-- A call is made, and ends or is cut off at any point; or the process starts anew, without a
memo. -/
def Life (cond : RollupState → Request → Prop) (w : Contrib) (s : RollupState) (c : Call)
    (s' : RollupState) : Prop :=
  match c with
  | .tick limit => ∃ es p', Prog.Runs (RollupState.Answers cond w) (tick w limit) s es p' s'
  | .drain fuel => ∃ es p', Prog.Runs (RollupState.Answers cond w) (drain w fuel 0) s es p' s'
  | .recompute fuel => ∃ es p', Prog.Runs (RollupState.Answers cond w) (recompute w fuel) s es p' s'
  | .restart => RollupState.Others { s with memo := fun _ => none } s'

end Aggregates

end Frust.Kernel
