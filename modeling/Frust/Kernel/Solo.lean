import Frust.Kernel.Gates
import Frust.Kernel.Store

/-!
# `Frust.Kernel.Solo`: a write alone with a record

A `Solo` is what one `db_write` runs against when nothing else goes on: a DocType with the
gates of its table, a session, and hooks that may do anything with the document that they are
given. A `SoloState` is the record's row, with the hooks that ran and the statements that were
sent so far.
-/

set_option autoImplicit false

namespace Frust.Kernel

open Frust.Lib

/-- A DocType, its table, a session and the hooks. -/
structure Solo where
  doctype : DocTypeMeta
  gates : Gates
  session : Auth
  /-- `fire_for`. -/
  fire : HookClass → Doc → Except BrokerError Doc
  /-- `validate_for`. -/
  validate : Doc → Except BrokerError Doc
  /-- The id that a new record gets. -/
  fresh : String

/-- The record's row, the hooks that ran and whether they accepted, and the statements. -/
structure SoloState where
  row : Option Doc
  ran : List (HookClass × Bool) := []
  sent : List Statement := []
  /-- The hooks that had run when a row was stored. -/
  committed : List (HookClass × Bool) := []

namespace Solo

variable (solo : Solo) (E : Engine)

/-- The row, if the session sees it. -/
def look (row : Option Doc) : Option Doc :=
  row.filter fun r => solo.gates.permits E (some solo.session) r (·.select)

/-- What a write stores, over the row. -/
def stores (row : Option Doc) : Statement → Option Doc
  | .create _ content => solo.gates.create E (some solo.session) content
  | .update _ content => row.bind fun r => solo.gates.update E (some solo.session) r content
  | _ => none

/-- The record that a write stores a row of. -/
def target : Statement → String
  | .update rid _ => rid
  | _ => solo.fresh

/-- One statement. A write that the gates refuse stores nothing. -/
def exec (row : Option Doc) : Statement → Json × Option Doc
  | .record rid => (.array ((solo.look E row).map fun r => rowJson (rid, r)).toList, row)
  | stmt =>
      match solo.stores E row stmt with
      | some after => (.array [rowJson (solo.target stmt, after)], some after)
      | none => (.array [], row)

/-- Serves the write. -/
def serve (s : SoloState) : (q : Request) → Answer q × SoloState
  | .admitVerb => (.ok (), s)
  | .loadDoctype _ => (.ok solo.doctype, s)
  | .loadWorkflow _ => (.ok none, s)
  | .sqlAs _ q =>
      let r := solo.exec E s.row q.stmt
      let committed := if (solo.stores E s.row q.stmt).isSome then s.ran else s.committed
      (.ok r.1, { s with row := r.2, sent := s.sent ++ [q.stmt], committed := committed })
  | .fire hook _ doc =>
      let r := solo.fire hook doc
      (r, { s with ran := s.ran ++ [(hook, r.isOk)] })
  | .validate _ doc => (solo.validate doc, s)
  | .notify _ _ _ => ((), s)

/-! ### What the write goes through -/

/-- The record id that the hooks are told. -/
def rid (record : Option String) : String := solo.doctype.name ++ ":" ++ record.getD "new"

/-- The baseline: the row as the caller reads it. -/
def baseline (row : Option Doc) : WriteOp → Option String → Doc
  | .update, some key =>
      ((solo.look E row).map fun r =>
        hookRow solo.doctype (rowJson (solo.doctype.name ++ ":" ++ key, r))).getD []
  | _, _ => []

/-- The document that the hooks are shown first. -/
def offered (row : Option Doc) (op : WriteOp) (record : Option String) (doc : Doc) : Doc :=
  withId (solo.rid record) (overlay (solo.baseline E row op record) doc)

/-- The document that `validate` is shown. -/
def shown (row : Option Doc) (op : WriteOp) (record : Option String) (doc : Doc) :
    Except BrokerError Doc :=
  match op with
  | .create => solo.fire .beforeInsert (solo.offered E row op record doc)
  | .update => .ok (solo.offered E row op record doc)

/-- The hooks that run on a create before the edges. -/
def inserts : WriteOp → List (HookClass × Bool)
  | .create => [(.beforeInsert, true)]
  | .update => []

/-- The content that is written, from what `validate` was shown and returned. -/
def content (op : WriteOp) (doc shown validated : Doc) : Doc :=
  match op with
  | .update => delta doc shown (envelope solo.doctype validated)
  | .create => envelope solo.doctype validated

end Solo

end Frust.Kernel
