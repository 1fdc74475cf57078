import Frust.Kernel.Sync
import Frust.Kernel.Write
import Frust.Lib.Pool

/-!
# `Frust.Kernel.Store`: a tenant's database behind the broker

A `Site` is what stays fixed while the verbs run: the DocTypes, the workflows, who may
sign in. A `Store` is the rows, by table and record id, and the graph edges.

A session sees the rows that the compiled select permission of their table lets it see
(`Site.look`), also through links. A path starts at a row: a field of a record link is
read from the record it points to, if the session sees it, and an edge leads to the
records at its other end. `Site.exec` is one statement. How values compare, and how rows
are ordered, grouped and folded, is the `Engine`'s.

Each verb asks one request after the other, and the requests of different verbs come in
any order. A statement that succeeds does what `Site.exec` says; which row a table stores
for a write is left to `Tables`, because columns take values in through their types. Any
statement may also fail, and a write may be refused, with the store as it was. A refused
write answers with no rows.

What hooks return is not restricted here, and notifications do not touch the store.
-/

set_option autoImplicit false

namespace Frust.Kernel

/-! ### Answers as JSON -/

mutual

/-- A value as it is answered: decimals, dates and ids as strings. -/
def Value.toJson : Value → Json
  | .null => .null
  | .bool b => .bool b
  | .int i => .int i
  | .float text => .float text
  | .decimal s | .text s | .datetime s | .duration s | .recordId s => .string s
  | .list items => .array (itemsToJson items)
  | .object entries => .object (fieldsToJson entries)

/-- `toJson` on each item. -/
def itemsToJson : List Value → List Json
  | [] => []
  | v :: rest => v.toJson :: itemsToJson rest

/-- `toJson` on each field. -/
def fieldsToJson : List (String × Value) → List (String × Json)
  | [] => []
  | (k, v) :: rest => (k, v.toJson) :: fieldsToJson rest

end

/-- A record: its id and its row. -/
abbrev Rec := String × Doc

/-- A record as it is answered. -/
def rowJson (r : Rec) : Json := .object (("id", .string r.1) :: fieldsToJson r.2)

/-! ### Sites and stores -/

/-- What the verbs run against and do not change. -/
structure Site where
  metas : String → Option DocTypeMeta
  /-- A DocType is found by its name. -/
  name_eq : ∀ name m, metas name = some m → m.name = name
  workflows : String → Option WorkflowDef
  /-- The rollup targets. -/
  rollups : List String
  signin : Caller → Except BrokerError Auth
  /-- Who sees the rows of a table without a DocType. -/
  seesOther : Auth → String → Doc → Bool

/-- The rows and edges of a tenant's database. `writes` counts the updates of a record;
no answer depends on it. -/
structure Store where
  rows : String → List Rec
  edges : String → List (String × String)
  writes : String → Nat

/-- The table of a record id. -/
def tableOf (rid : String) : String := ((splitRecordId rid).map (·.1)).getD ""

namespace Store

/-- A record's row. -/
def find (s : Store) (rid : String) : Option Doc := (s.rows (tableOf rid)).lookup rid

/-- Stores a row over a record's. -/
def put (s : Store) (rid : String) (row : Doc) : Store where
  rows := Function.update s.rows (tableOf rid)
    ((s.rows (tableOf rid)).map fun r => if r.1 = rid then (rid, row) else r)
  edges := s.edges
  writes := Function.update s.writes rid (s.writes rid + 1)

/-- Adds a record. -/
def add (s : Store) (rid : String) (row : Doc) : Store :=
  { s with rows := Function.update s.rows (tableOf rid) (s.rows (tableOf rid) ++ [(rid, row)]) }

end Store

namespace Site

variable (site : Site) (E : Engine) (auth : Auth)

/-- The row permission. -/
def sees (table : String) (row : Doc) : Bool :=
  match site.metas table with
  | some _ =>
      (selectClause (selectAccess table site.rollups)).holds E { session := some auth, row := row }
  | none => site.seesOther auth table row

/-- A record's row, if the session sees it. -/
def look (s : Store) (rid : String) : Option Doc :=
  (s.find rid).filter (site.sees E auth (tableOf rid))

end Site

/-! ### Paths -/

/-- What a path is read in: the rows that are seen, and the edges. -/
structure View where
  look : String → Option Doc
  edges : String → List (String × String)

namespace View

mutual

/-- A field of a value. -/
def member (w : View) (name : String) : Value → Value
  | .recordId rid =>
      if name = "id" then .recordId rid else ((w.look rid).map (col · name)).getD .null
  | .object fields => col fields name
  | .list vs => .list (members w name vs)
  | _ => .null

/-- A field of each value. -/
def members (w : View) (name : String) : List Value → List Value
  | [] => []
  | v :: rest => member w name v :: members w name rest

end

/-- The other ends of a record's edges. -/
def ends (w : View) (direction : EdgeDirection) (edgeType rid : String) : List Value :=
  match direction with
  | .out => ((w.edges edgeType).filter (·.1 = rid)).map fun e => .recordId e.2
  | .inward => ((w.edges edgeType).filter (·.2 = rid)).map fun e => .recordId e.1

mutual

/-- Walks an edge from a value. -/
def walk (w : View) (direction : EdgeDirection) (edgeType : String) : Value → List Value
  | .recordId rid => w.ends direction edgeType rid
  | .list vs => walks w direction edgeType vs
  | _ => []

/-- Walks an edge from each value. -/
def walks (w : View) (direction : EdgeDirection) (edgeType : String) : List Value → List Value
  | [] => []
  | v :: rest => walk w direction edgeType v ++ walks w direction edgeType rest

end

/-- One further segment. A `LinkHop` reads as a `Field`. -/
def segment (w : View) (v : Value) : PathSegment → Value
  | .field name | .linkHop name => w.member name v
  | .edge direction edgeType => .list (w.walk direction edgeType v)

/-- The first segment, at a record. -/
def root (w : View) (r : Rec) : PathSegment → Value
  | .field name | .linkHop name => if name = "id" then .recordId r.1 else col r.2 name
  | .edge direction edgeType => .list (w.ends direction edgeType r.1)

/-- A path, at a record. -/
def path (w : View) (r : Rec) : Path → Value
  | [] => .null
  | seg :: rest => rest.foldl w.segment (w.root r seg)

mutual

/-- A filter, at a record. -/
def filter (w : View) (E : Engine) (r : Rec) : Filter → Bool
  | .all fs => filterAll w E r fs
  | .any fs => filterAny w E r fs
  | .not inner => !filter w E r inner
  | .cmp p op value => E.holds op (w.path r p) value

/-- All filters. -/
def filterAll (w : View) (E : Engine) (r : Rec) : List Filter → Bool
  | [] => true
  | f :: rest => filter w E r f && filterAll w E r rest

/-- Some filter. -/
def filterAny (w : View) (E : Engine) (r : Rec) : List Filter → Bool
  | [] => false
  | f :: rest => filter w E r f || filterAny w E r rest

end

end View

/-! ### Statements -/

/-- The items at the given positions. -/
def pick {α : Type} (positions : List Nat) (items : List α) : List α :=
  positions.filterMap (items[·]?)

/-- `START` and `LIMIT`. -/
def page {α : Type} (opts : ReadOpts) (items : List α) : List α :=
  let started := items.drop (opts.start.getD 0)
  match opts.limit with
  | none => started
  | some l => started.take l

namespace Site

variable (site : Site) (E : Engine) (auth : Auth)

/-- What a session reads in. -/
def view (s : Store) : View := ⟨site.look E auth s, s.edges⟩

/-- The records of a table that a session sees and the filter takes. -/
def matching (s : Store) (table : String) (f : Option Filter) : List Rec :=
  ((s.rows table).filter fun r => site.sees E auth table r.2).filter fun r =>
    f.all ((site.view E auth s).filter E r)

/-- The matching records, ordered. -/
def ordered (s : Store) (table : String) (f : Option Filter) :
    Option (Path × SortDir) → List Rec
  | none => site.matching E auth s table f
  | some (p, dir) =>
      let found := site.matching E auth s table f
      pick (E.order dir (found.map fun r => (site.view E auth s).path r p)) found

/-- `SELECT *`. -/
def select (s : Store) (q : Select) : List Rec :=
  page q.opts (site.ordered E auth s q.table q.filter q.opts.orderBy)

/-- One metric of a group of records. -/
def metric (w : View) (records : List Rec) : Metric × Path → Except BrokerError Value
  | (.count, _) => .ok (.int records.length)
  | (m, p) => E.fold m (records.map fun r => w.path r p)

/-- The metrics of a group, named from index `i`. -/
def metricFields (w : View) (records : List Rec) :
    (i : Nat) → List (Metric × Path) → Except BrokerError (List (String × Json))
  | _, [] => .ok []
  | i, m :: rest => do
      let v ← metric E w records m
      let more ← metricFields w records (i + 1) rest
      return ("m" ++ toString i, v.toJson) :: more

/-- The key of a group, named. -/
def keyFields (key : List Value) : List (String × Json) :=
  key.zipIdx.map fun e => ("g" ++ toString e.2, e.1.toJson)

/-- The rows of the groups. -/
def groupRows (w : View) (q : Aggregate) (records : List Rec) (keys : List (List Value)) :
    List (List Nat) → Except BrokerError (List Json)
  | [] => .ok []
  | positions :: rest => do
      let ms ← metricFields E w (pick positions records) 0 q.metrics
      let more ← groupRows w q records keys rest
      return .object (keyFields ((pick positions keys).head?.getD []) ++ ms) :: more

/-- `SELECT ... GROUP`. -/
def aggregate (s : Store) (q : Aggregate) : Except BrokerError (List Json) :=
  let w := site.view E auth s
  let records := site.matching E auth s q.table q.filter
  let keys := records.map fun r => q.groupBy.map (w.path r)
  let groups := if q.groupBy.isEmpty then [List.range records.length] else E.group keys
  groupRows E w q records keys groups

/-- One statement of a session, where nothing refuses it. A new record gets the id
`fresh`. -/
def exec (fresh : String) (s : Store) : Statement → Except BrokerError Json × Store
  | .select q => (.ok (.array ((site.select E auth s q).map rowJson)), s)
  | .aggregate q => ((site.aggregate E auth s q).map .array, s)
  | .record rid =>
      (.ok (.array (((site.look E auth s rid).map fun row => rowJson (rid, row)).toList)), s)
  | .create _ content =>
      (.ok (.array [rowJson (fresh, newRow content)]), s.add fresh (newRow content))
  | .update rid content =>
      match s.find rid with
      | none => (.ok (.array []), s)
      | some row =>
          (.ok (.array [rowJson (rid, mergeRow row content)]), s.put rid (mergeRow row content))

/-- Serves a verb: nothing is refused, and the hooks return what they are shown. -/
def serve (fresh : String) (s : Store) : (q : Request) → Answer q × Store
  | .admitVerb => (.ok (), s)
  | .loadDoctype name =>
      ((match site.metas name with
        | some m => .ok m
        | none => .error (.unknownDoctype name)), s)
  | .loadWorkflow doctype => (.ok (site.workflows doctype), s)
  | .sqlAs caller q =>
      match site.signin caller with
      | .ok auth => site.exec E auth fresh s q.stmt
      | .error e => (.error e, s)
  | .fire _ _ doc => (.ok doc, s)
  | .validate _ doc => (.ok doc, s)
  | .notify _ _ _ => ((), s)

end Site

/-! ### Verbs side by side -/

open Frust.Lib

/-- The rows that tables store for a write. -/
structure Tables where
  /-- `CREATE`: the table, the content and the row stored. -/
  creates : String → Doc → Doc → Prop
  /-- `UPDATE ... MERGE`: the table, the row before, the content and the row stored. -/
  updates : String → Doc → Doc → Doc → Prop

/-- Tables that store a write as it is. -/
def Tables.verbatim : Tables where
  creates _ content row := row = newRow content
  updates _ before content after := after = mergeRow before content

/-- Every record is stored once, in the table that its id names. -/
def Store.Filed (s : Store) : Prop :=
  ∀ table, ((s.rows table).map (·.1)).Nodup ∧ ∀ r ∈ s.rows table, tableOf r.1 = table

namespace Site

variable (site : Site) (E : Engine) (tables : Tables)

/-- A statement that succeeds. -/
def Executes (auth : Auth) (s : Store) (stmt : Statement) (r : Except BrokerError Json)
    (s' : Store) : Prop :=
  match stmt with
  | .create table content => ∃ rid row, tableOf rid = table ∧ s.find rid = none ∧
      tables.creates table content row ∧ r = .ok (.array [rowJson (rid, row)]) ∧
      s' = s.add rid row
  | .update rid content => ∃ before after, s.find rid = some before ∧
      tables.updates (tableOf rid) before content after ∧
      r = .ok (.array [rowJson (rid, after)]) ∧ s' = s.put rid after
  | stmt => (r, s') = site.exec E auth "" s stmt

/-- A statement without an effect: it fails, or it is a write that is refused. -/
def Refuses (stmt : Statement) (r : Except BrokerError Json) : Prop :=
  (∃ e, r = .error e) ∨
    (r = .ok (.array []) ∧ match stmt with | .create _ _ | .update _ _ => True | _ => False)

/-- What a request may be answered, and what becomes of the store. -/
def Answers (s : Store) : (q : Request) → Answer q → Store → Prop
  | .loadDoctype name, r, s' => s' = s ∧ ∀ m, r = .ok m → site.metas name = some m
  | .loadWorkflow doctype, r, s' => s' = s ∧ ∀ wf, r = .ok wf → site.workflows doctype = wf
  | .sqlAs caller q, r, s' =>
      (Refuses q.stmt r ∧ s' = s) ∨
        ∃ auth, site.signin caller = .ok auth ∧ site.Executes E tables auth s q.stmt r s'
  | .admitVerb, _, s' | .fire _ _ _, _, s' | .validate _ _, _, s' | .notify _ _ _, _, s' =>
      s' = s

end Site

end Frust.Kernel
