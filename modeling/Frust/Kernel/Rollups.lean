import Frust.Kernel.Aggregates
import Frust.Kernel.Sync

/-!
# `Frust.Kernel.Rollups`: the rollup workers of a database

A node starts a worker for every declared worker aggregate (`rollupWorkers`), and its
maintenance loop drains them one after the other, for as long as it runs. What a drain returns
is ignored.

`Maintenance` is what all of them meet. A feed belongs to a table, a cursor and rows belong to a
rollup, and a memo to a worker. `Maintenance.view` is what one worker meets of it, and
`Maintenance.Answers` says that a request of one worker touches nothing but its own memo, its
rollup's rows and its rollup's cursor, while tables are written to.

The statement that defines the table of the cursors, when a worker is built, is not modelled.
-/

set_option autoImplicit false

namespace Frust.Kernel

open Frust.Lib

namespace Aggregates

open Feed

/-! ### The workers -/

/-- The handlers that there are. -/
inductive RollupHandler where
  | groupRevenue (g : GroupRevenue)
  | itemSales (i : ItemSales)

/-- What a handler does. -/
def RollupHandler.contrib : RollupHandler → Contrib
  | groupRevenue g => g.handler
  | itemSales i => i.handler

/-- Why a node refuses to boot. -/
inductive WiringRefusal where
  | unknownRollupHandler (handler : Option String) (doctype tenant : String)
  | rollupWorkerInitFailed (e : BrokerError)
  deriving DecidableEq

/-- `RollupWorker::new`. -/
def rollupWorkerNew (h : RollupHandler) : Except BrokerError RollupHandler :=
  match [h.contrib.source, h.contrib.rollup].find? (!isIdent ·) with
  | some name => badValue ("bad rollup table name: " ++ name)
  | none => .ok h

/-- The handler of a worker aggregate. -/
def rollupHandler (tenant : String) (dt : DocTypeDef) (agg : AggregateDef) :
    Except WiringRefusal RollupHandler :=
  match agg.handler with
  | some "group_revenue" => .ok (.groupRevenue ⟨dt.name, agg.rollup, "grp"⟩)
  | some "item_sales" => .ok (.itemSales ⟨dt.name, agg.rollup⟩)
  | other => .error (.unknownRollupHandler other dt.name tenant)

/-- The declared worker aggregates, each with its source. -/
def workerAggregates (dts : List DocTypeDef) : List (DocTypeDef × AggregateDef) :=
  dts.flatMap fun dt => (dt.aggregates.filter (·.kind = "worker")).map (dt, ·)

/-- The worker of an aggregate. -/
def rollupWorker (tenant : String) (d : DocTypeDef × AggregateDef) :
    Except WiringRefusal RollupHandler := do
  let handler ← rollupHandler tenant d.1 d.2
  (rollupWorkerNew handler).mapError .rollupWorkerInitFailed

/-- The loop of `main` that starts the workers of a tenant. -/
def rollupWorkers (tenant : String) (dts : List DocTypeDef) :
    Except WiringRefusal (List RollupHandler) :=
  (workerAggregates dts).mapM (rollupWorker tenant)

/-! ### What they meet -/

/-- The feeds by table, the cursors and the rows by rollup, the fields of other records, the memos
by worker, and the batches that each worker has committed, with its memo of that moment. -/
structure Maintenance where
  feeds : String → List FeedEntry
  cursors : String → Option Nat := fun _ => none
  rollups : String → String → String → Option ℚ := fun _ _ _ => none
  hops : String → String → Json
  memos : Nat → Memo := fun _ _ => none
  batches : Nat → List (List FeedEntry × Memo) := fun _ => []
  /-- Later entries have larger versionstamps. -/
  ordered : ∀ table, ((feeds table).map FeedEntry.versionstamp).Pairwise (· < ·)

namespace Maintenance

/-- Nothing has been folded yet. -/
structure Fresh (s : Maintenance) : Prop where
  cursors : ∀ r, s.cursors r = none
  rollups : ∀ r k f, s.rollups r k f = none
  batches : ∀ i, s.batches i = []

/-- What worker `i` meets. -/
def view (s : Maintenance) (i : Nat) (w : Contrib) : RollupState where
  feed := s.feeds w.source
  cursor := s.cursors w.rollup
  rollup := s.rollups w.rollup
  hops := s.hops
  memo := s.memos i
  committed := s.batches i
  ordered := s.ordered w.source

/-- What is left as it is by a worker `i` of a rollup. Feeds grow. -/
structure Leaves (i : Nat) (rollup : String) (s s' : Maintenance) : Prop where
  cursors : ∀ r, r ≠ rollup → s'.cursors r = s.cursors r
  rollups : ∀ r, r ≠ rollup → s'.rollups r = s.rollups r
  memos : ∀ j, j ≠ i → s'.memos j = s.memos j
  batches : ∀ j, j ≠ i → s'.batches j = s.batches j
  feeds : ∀ table, s.feeds table <+: s'.feeds table

/-- What a request of worker `i` may be answered, and what becomes of the state. -/
def Answers (i : Nat) (w : Contrib) (s : Maintenance) (q : Request) (r : Answer q)
    (s' : Maintenance) : Prop :=
  RollupState.Answers (fun _ _ => True) w (s.view i w) q r (s'.view i w) ∧ Leaves i w.rollup s s'

/-- The process starts anew, without a memo. -/
structure Restarted (s s' : Maintenance) : Prop where
  cursors : s'.cursors = s.cursors
  rollups : s'.rollups = s.rollups
  memos : s'.memos = fun _ _ => none
  batches : s'.batches = s.batches
  feeds : ∀ table, s.feeds table <+: s'.feeds table

end Maintenance

/-- What the maintenance does. A drain returns, or it is cut off. -/
inductive Turn where
  | drain (worker fuel : Nat) (returned : Option (Except BrokerError Nat))
  | restart

/-- A turn of the maintenance. -/
def Maintain (ws : List RollupHandler) (s : Maintenance) (turn : Turn) (s' : Maintenance) : Prop :=
  match turn with
  | .drain i fuel returned => ∃ h, ws[i]? = some h ∧ ∃ es p',
      Prog.Runs (Maintenance.Answers i h.contrib) (drain h.contrib fuel 0) s es p' s' ∧
        ∀ r, returned = some r → p' = .done r
  | .restart => s.Restarted s'

end Aggregates

end Frust.Kernel
