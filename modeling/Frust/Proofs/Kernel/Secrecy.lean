import Frust.Proofs.Kernel.Envelope
import Frust.Proofs.Kernel.Store

/-!
# `Frust.Proofs.Kernel.Secrecy`: what a reader can tell of hidden fields

Two databases look alike to a role when they agree after the columns that the role may
not read are hidden (`Site.hide`). A call is `Secret` when it answers alike on such
databases, that is, when its answer factors through `Site.hide`.

A path is `Clean` when it names no hidden column: at its root none of the queried
table's, further on none of any table's. Everything that a statement computes over clean
paths commutes with hiding, so a call with clean paths is secret. The broker checks the
projection, the group keys and the metrics at their roots. It does not check a filter or
an ordering, and `secret_filter_iff` turns a filter on one hidden field into two answers.
-/

set_option autoImplicit false

namespace Frust.Kernel

open Frust.Lib Frust.Lib.Prog Broker

/-! ### Calls -/

mutual

/-- The paths of a filter. -/
def Filter.paths : Filter → List Path
  | .all fs | .any fs => pathsOfAll fs
  | .not inner => inner.paths
  | .cmp p _ _ => [p]

/-- The paths of each filter. -/
def pathsOfAll : List Filter → List Path
  | [] => []
  | f :: rest => f.paths ++ pathsOfAll rest

end

/-- A call of `db_read` or `db_aggregate`. -/
inductive Reading where
  | read (doctype : String) (filter : Option Filter) (fields : List Path) (opts : ReadOpts)
  | aggregate (doctype : String) (filter : Option Filter) (groupBy : List Path)
      (metrics : List (Metric × Path))

namespace Reading

/-- The verb. -/
def verb (caller : Caller) : Reading → Broker (List Json)
  | .read doctype filter fields opts => dbRead caller doctype filter fields opts
  | .aggregate doctype filter groupBy metrics => dbAggregate caller doctype filter groupBy metrics

/-- The DocType. -/
def doctype : Reading → String
  | .read doctype _ _ _ | .aggregate doctype _ _ _ => doctype

/-- The paths that the database follows. -/
def paths : Reading → List Path
  | .read _ filter _ opts =>
      (filter.map Filter.paths).getD [] ++ (opts.orderBy.map (·.1)).toList
  | .aggregate _ filter groupBy metrics =>
      (filter.map Filter.paths).getD [] ++ groupBy ++ metricPaths metrics

/-- The statement. -/
def stmt : Reading → Statement
  | .read doctype filter _ opts =>
      .select ⟨doctype, (filter.map filterHasRange).getD false && opts.orderBy.isSome, filter, opts⟩
  | .aggregate doctype filter groupBy metrics => .aggregate ⟨doctype, filter, groupBy, metrics⟩

/-- The checks before the statement. -/
def checks (allowed : List String) : Reading → Except BrokerError Unit
  | .read _ _ fields _ => checkPaths allowed fields
  | .aggregate _ _ groupBy metrics => do
      checkPaths allowed groupBy
      checkPaths allowed (metricPaths metrics)

/-- What is handed out of the rows. -/
def handed (allowed : List String) (rows : List Json) : Reading → List Json
  | .read _ _ fields _ => rows.map (filterRow allowed (projection fields))
  | .aggregate _ _ _ _ => rows

end Reading

/-- The column that a segment names. -/
def PathSegment.column : PathSegment → Option String
  | .field name | .linkHop name => some name
  | .edge _ _ => none

/-! ### Hiding -/

namespace Site

variable (site : Site) (E : Engine) (auth : Auth) (role : String)

/-- A declared column that the role may not read. -/
def hidden (table k : String) : Bool :=
  (site.metas table).any fun m =>
    m.fields.any (·.fieldname = k) && decide (k ∉ readableFields m role)

/-- A row without its hidden columns. -/
def hideRow (table : String) (row : Doc) : Doc := row.filter fun e => !site.hidden role table e.1

/-- A record without its hidden columns. -/
def hideRec (table : String) (r : Rec) : Rec := (r.1, site.hideRow role table r.2)

/-- A store without the hidden columns. -/
def hide (s : Store) : Store where
  rows table := (s.rows table).map (site.hideRec role table)
  edges := s.edges
  writes _ := 0

/-- The session may see a row of the table. -/
def Shows (table : String) : Prop := ∃ row, site.sees E auth table row = true

/-- A hidden column of rows that the session may see. -/
def Exposed (table k : String) : Prop := site.Shows E auth table ∧ site.hidden role table k = true

/-- A path that names no hidden column. -/
def Clean (table : String) : Path → Prop
  | [] => True
  | seg :: rest =>
      (∀ k ∈ seg.column, ¬site.Exposed E auth role table k) ∧
      ∀ seg ∈ rest, ∀ k ∈ seg.column, ∀ table', ¬site.Exposed E auth role table' k

end Site

/-- The call answers alike on databases that are alike to the caller's role. -/
def Secret (site : Site) (E : Engine) (fresh : String) (caller : Caller) (q : Reading) : Prop :=
  Function.FactorsThrough (fun s => ((q.verb caller).run (site.serve E fresh) s).1)
    (site.hide caller.role)

/-- All paths that the database follows are clean. -/
def Reading.Clean (site : Site) (E : Engine) (caller : Caller) (q : Reading) : Prop :=
  ∀ auth, site.signin caller = .ok auth →
    ∀ p ∈ q.paths, site.Clean E auth caller.role q.doctype p

/-- No column that a query can name is hidden from the caller in rows that the caller's
session may see. -/
def Unrestricted (site : Site) (E : Engine) (caller : Caller) : Prop :=
  ∀ auth, site.signin caller = .ok auth →
    ∀ table k, isIdent k = true → ¬site.Exposed E auth caller.role table k

/-! ### Rows -/

/-- The engine's own fields are readable. -/
theorem hidden_of_engineFields (site : Site) (role table : String) {k : String}
    (hk : k ∈ engineFields) : site.hidden role table k = false := by
  have hread : ∀ m, k ∈ readableFields m role := fun m => List.mem_append_left _ hk
  simp [Site.hidden, hread]

/-- Of a DocType's row, the permission reads the owner only. -/
theorem sees_congr (site : Site) (E : Engine) (auth : Auth) {table : String} {m : DocTypeMeta}
    (hm : site.metas table = some m) {row row' : Doc} (h : col row "owner" = col row' "owner") :
    site.sees E auth table row = site.sees E auth table row' := by
  simp only [Site.sees, hm]
  cases selectAccess table site.rollups <;>
    simp [selectClause, isOwner, isManager, Expr.eval, h]

section

variable (site : Site) (E : Engine) (auth : Auth) (role : String) (s : Store)

theorem col_hideRow {table k : String} (hk : site.hidden role table k = false) (row : Doc) :
    col (site.hideRow role table row) k = col row k := by
  simp [col, Site.hideRow, lookup_filter fun k => !site.hidden role table k, hk]

theorem sees_hideRow (table : String) (row : Doc) :
    site.sees E auth table (site.hideRow role table row) = site.sees E auth table row := by
  cases hm : site.metas table with
  | none =>
      have hrow : site.hideRow role table row = row := by simp [Site.hideRow, Site.hidden, hm]
      rw [hrow]
  | some m =>
      have howner : "owner" ∈ engineFields := by decide
      exact sees_congr site E auth hm
        (col_hideRow site role (hidden_of_engineFields site role table howner) row)

theorem look_hide (rid : String) :
    site.look E auth (site.hide role s) rid
      = (site.look E auth s rid).map (site.hideRow role (tableOf rid)) := by
  have hfind : (site.hide role s).find rid
      = (s.find rid).map (site.hideRow role (tableOf rid)) :=
    lookup_map_snd _ _ _
  rw [Site.look, hfind, Option.filter_map]
  congr 2
  funext row
  exact sees_hideRow site E auth role (tableOf rid) row

theorem shows_of_look {rid : String} {row : Doc} (h : site.look E auth s rid = some row) :
    site.Shows E auth (tableOf rid) := ⟨row, (Option.filter_eq_some_iff.mp h).2⟩

variable {site E auth role s}

theorem Site.not_hidden_of_shows {table k : String} (hk : ¬site.Exposed E auth role table k)
    (hshows : site.Shows E auth table) : site.hidden role table k = false :=
  Bool.eq_false_iff.mpr fun h => hk ⟨hshows, h⟩

/-! ### Paths -/

mutual

/-- A field that is hidden in no table reads alike. -/
theorem member_hide {k : String} (hk : ∀ table, ¬site.Exposed E auth role table k) :
    ∀ v : Value, (site.view E auth (site.hide role s)).member k v
      = (site.view E auth s).member k v
  | .recordId rid => by
      simp only [View.member, Site.view, look_hide]
      split
      · rfl
      · cases hlook : site.look E auth s rid with
        | none => rfl
        | some row =>
            have hcol := Site.not_hidden_of_shows (hk (tableOf rid))
              (shows_of_look site E auth s hlook)
            exact col_hideRow site role hcol row
  | .list vs => by rw [View.member, View.member, members_hide hk vs]
  | .object _ | .null | .bool _ | .int _ | .float _ | .decimal _ | .text _ | .datetime _
  | .duration _ => rfl

theorem members_hide {k : String} (hk : ∀ table, ¬site.Exposed E auth role table k) :
    ∀ vs : List Value, (site.view E auth (site.hide role s)).members k vs
      = (site.view E auth s).members k vs
  | [] => rfl
  | v :: rest => by
      rw [View.members, View.members, member_hide hk v, members_hide hk rest]

end

mutual

/-- Edges are never hidden. -/
theorem walk_hide (direction : EdgeDirection) (edgeType : String) :
    ∀ v : Value, (site.view E auth (site.hide role s)).walk direction edgeType v
      = (site.view E auth s).walk direction edgeType v
  | .recordId _ => rfl
  | .list vs => by rw [View.walk, View.walk, walks_hide direction edgeType vs]
  | .object _ | .null | .bool _ | .int _ | .float _ | .decimal _ | .text _ | .datetime _
  | .duration _ => rfl

theorem walks_hide (direction : EdgeDirection) (edgeType : String) :
    ∀ vs : List Value, (site.view E auth (site.hide role s)).walks direction edgeType vs
      = (site.view E auth s).walks direction edgeType vs
  | [] => rfl
  | v :: rest => by
      rw [View.walks, View.walks, walk_hide direction edgeType v,
        walks_hide direction edgeType rest]

end

theorem segment_hide {seg : PathSegment}
    (hseg : ∀ k ∈ seg.column, ∀ table, ¬site.Exposed E auth role table k) (v : Value) :
    (site.view E auth (site.hide role s)).segment v seg = (site.view E auth s).segment v seg := by
  cases seg with
  | field name => exact member_hide (hseg name rfl) v
  | linkHop name => exact member_hide (hseg name rfl) v
  | edge direction edgeType =>
      show Value.list _ = Value.list _
      rw [walk_hide]

theorem root_hide {table : String} {seg : PathSegment} (r : Rec)
    (hseg : ∀ k ∈ seg.column, site.hidden role table k = false) :
    (site.view E auth (site.hide role s)).root (site.hideRec role table r) seg
      = (site.view E auth s).root r seg := by
  have hcol : ∀ k, site.hidden role table k = false →
      (if k = "id" then Value.recordId r.1 else col (site.hideRow role table r.2) k)
        = if k = "id" then .recordId r.1 else col r.2 k := by
    intro k hk
    rw [col_hideRow site role hk]
  cases seg with
  | field name => exact hcol name (hseg name rfl)
  | linkHop name => exact hcol name (hseg name rfl)
  | edge direction edgeType => rfl

/-- A clean path reads alike, at a record that the session may see. -/
theorem path_hide {table : String} {p : Path} (hp : site.Clean E auth role table p) {r : Rec}
    (hsees : site.sees E auth table r.2 = true) :
    (site.view E auth (site.hide role s)).path (site.hideRec role table r) p
      = (site.view E auth s).path r p := by
  cases p with
  | nil => rfl
  | cons seg rest =>
      have hseg : ∀ k ∈ seg.column, site.hidden role table k = false := fun k hk =>
        Site.not_hidden_of_shows (hp.1 k hk) ⟨r.2, hsees⟩
      rw [View.path, View.path, root_hide r hseg]
      -- the further segments, whatever value they start from
      generalize (site.view E auth s).root r seg = v
      have hrest := hp.2
      clear hp hseg
      induction rest generalizing v with
      | nil => rfl
      | cons seg rest ih =>
          rw [List.foldl_cons, List.foldl_cons, segment_hide (hrest seg List.mem_cons_self)]
          exact ih _ fun seg' h => hrest seg' (List.mem_cons_of_mem _ h)

/-! ### Statements -/

mutual

theorem filter_hide {table : String} {r : Rec} (hsees : site.sees E auth table r.2 = true) :
    ∀ f : Filter, (∀ p ∈ f.paths, site.Clean E auth role table p) →
      (site.view E auth (site.hide role s)).filter E (site.hideRec role table r) f
        = (site.view E auth s).filter E r f
  | .all fs, h => by rw [View.filter, View.filter, (filters_hide hsees fs h).1]
  | .any fs, h => by rw [View.filter, View.filter, (filters_hide hsees fs h).2]
  | .not inner, h => by rw [View.filter, View.filter, filter_hide hsees inner h]
  | .cmp p op value, h => by
      rw [View.filter, View.filter, path_hide (h p List.mem_cons_self) hsees]

theorem filters_hide {table : String} {r : Rec} (hsees : site.sees E auth table r.2 = true) :
    ∀ fs : List Filter, (∀ p ∈ pathsOfAll fs, site.Clean E auth role table p) →
      (site.view E auth (site.hide role s)).filterAll E (site.hideRec role table r) fs
        = (site.view E auth s).filterAll E r fs ∧
      (site.view E auth (site.hide role s)).filterAny E (site.hideRec role table r) fs
        = (site.view E auth s).filterAny E r fs
  | [], _ => ⟨rfl, rfl⟩
  | f :: rest, h => by
      have hf := filter_hide hsees f fun p hp => h p (List.mem_append_left _ hp)
      have hrest := filters_hide hsees rest fun p hp => h p (List.mem_append_right _ hp)
      simp only [View.filterAll, View.filterAny, hf, hrest, and_self]

end

/-- The session may see what it matches. -/
theorem sees_of_matching {table : String} {f : Option Filter} {r : Rec}
    (hr : r ∈ site.matching E auth s table f) : site.sees E auth table r.2 = true :=
  (List.mem_filter.mp (List.mem_filter.mp hr).1).2

/-- Matching commutes with hiding. -/
theorem matching_hide {table : String} {f : Option Filter}
    (hf : ∀ p ∈ (f.map Filter.paths).getD [], site.Clean E auth role table p) :
    site.matching E auth (site.hide role s) table f
      = (site.matching E auth s table f).map (site.hideRec role table) := by
  have hsees : ((site.hide role s).rows table).filter (fun r => site.sees E auth table r.2)
      = ((s.rows table).filter fun r => site.sees E auth table r.2).map
          (site.hideRec role table) := by
    rw [show (site.hide role s).rows table = (s.rows table).map (site.hideRec role table) from rfl,
      List.filter_map]
    congr 2
    funext r
    exact sees_hideRow site E auth role table r.2
  rw [Site.matching, Site.matching, hsees, List.filter_map]
  congr 1
  refine List.filter_congr fun r hr => ?_
  have hseen : site.sees E auth table r.2 = true := (List.mem_filter.mp hr).2
  cases f with
  | none => rfl
  | some f => exact filter_hide hseen f hf

theorem pick_map {α β : Type} (g : α → β) (positions : List Nat) (items : List α) :
    pick positions (items.map g) = (pick positions items).map g := by
  simp [pick, List.map_filterMap]

theorem mem_of_mem_pick {α : Type} {positions : List Nat} {items : List α} {a : α}
    (h : a ∈ pick positions items) : a ∈ items := by
  obtain ⟨i, _, hi⟩ := List.mem_filterMap.mp h
  exact List.mem_of_getElem? hi

/-- A path reads alike at all records that were matched. -/
theorem map_path_hide {table : String} {f : Option Filter} {p : Path}
    (hp : site.Clean E auth role table p) {records : List Rec}
    (hrecords : ∀ r ∈ records, r ∈ site.matching E auth s table f) :
    (records.map (site.hideRec role table)).map
        (fun r => (site.view E auth (site.hide role s)).path r p)
      = records.map fun r => (site.view E auth s).path r p := by
  rw [List.map_map]
  exact List.map_congr_left fun r hr => path_hide hp (sees_of_matching (hrecords r hr))

/-- Ordering commutes with hiding. -/
theorem ordered_hide {table : String} {f : Option Filter} {order : Option (Path × SortDir)}
    (hf : ∀ p ∈ (f.map Filter.paths).getD [], site.Clean E auth role table p)
    (horder : ∀ p ∈ (order.map (·.1)).toList, site.Clean E auth role table p) :
    site.ordered E auth (site.hide role s) table f order
      = (site.ordered E auth s table f order).map (site.hideRec role table) := by
  cases order with
  | none => exact matching_hide hf
  | some o =>
      obtain ⟨p, dir⟩ := o
      have hp : site.Clean E auth role table p := horder p (by simp)
      simp only [Site.ordered, matching_hide hf, map_path_hide hp fun r hr => hr, pick_map]

theorem page_map {α β : Type} (g : α → β) (opts : ReadOpts) (items : List α) :
    page opts (items.map g) = (page opts items).map g := by
  simp only [page]
  cases opts.limit with
  | none => rw [List.map_drop]
  | some l => simp only [List.map_take, List.map_drop]

/-- The metrics of a group read alike. -/
theorem metricFields_hide {table : String} {f : Option Filter} {records : List Rec}
    (hrecords : ∀ r ∈ records, r ∈ site.matching E auth s table f) :
    ∀ (metrics : List (Metric × Path)) (i : Nat),
      (∀ p ∈ metricPaths metrics, site.Clean E auth role table p) →
      Site.metricFields E (site.view E auth (site.hide role s))
          (records.map (site.hideRec role table)) i metrics
        = Site.metricFields E (site.view E auth s) records i metrics
  | [], _, _ => rfl
  | (m, p) :: rest, i, h => by
      have hrest : ∀ p ∈ metricPaths rest, site.Clean E auth role table p := by
        intro p' hp'
        refine h p' ?_
        by_cases hm : m = .count <;> simp_all [metricPaths]
      have hmetric : Site.metric E (site.view E auth (site.hide role s))
            (records.map (site.hideRec role table)) (m, p)
          = Site.metric E (site.view E auth s) records (m, p) := by
        by_cases hm : m = .count
        · subst hm
          simp [Site.metric]
        · -- every other metric folds the values of its path
          have hp : site.Clean E auth role table p := h p (by simp [metricPaths, hm])
          cases m with
          | count => exact absurd rfl hm
          | _ => simp only [Site.metric, map_path_hide hp hrecords]
      rw [Site.metricFields, Site.metricFields, hmetric,
        metricFields_hide hrecords rest (i + 1) hrest]

/-- The rows of the groups read alike. -/
theorem groupRows_hide {q : Aggregate} {records : List Rec} {keys : List (List Value)}
    (hrecords : ∀ r ∈ records, r ∈ site.matching E auth s q.table q.filter)
    (hmetrics : ∀ p ∈ metricPaths q.metrics, site.Clean E auth role q.table p) :
    ∀ groups : List (List Nat),
      Site.groupRows E (site.view E auth (site.hide role s)) q
          (records.map (site.hideRec role q.table)) keys groups
        = Site.groupRows E (site.view E auth s) q records keys groups
  | [] => rfl
  | positions :: rest => by
      rw [Site.groupRows, Site.groupRows, pick_map,
        metricFields_hide (fun r hr => hrecords r (mem_of_mem_pick hr)) q.metrics 0 hmetrics,
        groupRows_hide hrecords hmetrics rest]

theorem select_hide {q : Select}
    (hq : ∀ p ∈ (q.filter.map Filter.paths).getD [] ++ (q.opts.orderBy.map (·.1)).toList,
      site.Clean E auth role q.table p) :
    site.select E auth (site.hide role s) q
      = (site.select E auth s q).map (site.hideRec role q.table) := by
  have hordered := ordered_hide (s := s) (fun p hp => hq p (List.mem_append_left _ hp))
    fun p hp => hq p (List.mem_append_right _ hp)
  rw [Site.select, Site.select, hordered, page_map]

/-- Aggregating does not see what is hidden. -/
theorem aggregate_hide {q : Aggregate}
    (hf : ∀ p ∈ (q.filter.map Filter.paths).getD [], site.Clean E auth role q.table p)
    (hgroup : ∀ p ∈ q.groupBy, site.Clean E auth role q.table p)
    (hmetrics : ∀ p ∈ metricPaths q.metrics, site.Clean E auth role q.table p) :
    site.aggregate E auth (site.hide role s) q = site.aggregate E auth s q := by
  have hkeys : ((site.matching E auth s q.table q.filter).map (site.hideRec role q.table)).map
        (fun r => q.groupBy.map ((site.view E auth (site.hide role s)).path r))
      = (site.matching E auth s q.table q.filter).map
          fun r => q.groupBy.map ((site.view E auth s).path r) := by
    rw [List.map_map]
    refine List.map_congr_left fun r hr => ?_
    exact List.map_congr_left fun p hp => path_hide (hgroup p hp) (sees_of_matching hr)
  simp only [Site.aggregate, matching_hide hf, hkeys, List.length_map,
    groupRows_hide (fun r hr => hr) hmetrics]

end

/-! ### Answers -/

/-- The envelope filter drops what is hidden. -/
theorem filterRow_hideRec (site : Site) {role table : String} {m : DocTypeMeta}
    (hm : site.metas table = some m) (proj : Option (List String)) (r : Rec) :
    filterRow (readableFields m role) proj (rowJson (site.hideRec role table r))
      = filterRow (readableFields m role) proj (rowJson r) := by
  have hkeep : ∀ k ∈ readableFields m role, site.hidden role table k = false := by
    intro k hk
    simp [Site.hidden, hm, hk]
  have hfields : (fieldsToJson (site.hideRow role table r.2)).filter
        (·.1 ∈ readableFields m role)
      = (fieldsToJson r.2).filter (·.1 ∈ readableFields m role) := by
    rw [fieldsToJson_eq_map, fieldsToJson_eq_map, Site.hideRow, List.filter_map,
      List.filter_map, List.filter_filter]
    congr 1
    refine List.filter_congr fun e _ => ?_
    by_cases he : e.1 ∈ readableFields m role
    · simp [he, hkeep e.1 he]
    · simp [he]
  simp only [filterRow, rowJson, Site.hideRec, List.filter_cons, hfields]

/-! ### Runs -/

/-- The metadata of a DocType. -/
def Site.loaded (site : Site) (name : String) : Except BrokerError DocTypeMeta :=
  match site.metas name with
  | some m => .ok m
  | none => .error (.unknownDoctype name)

theorem compile_cases (stmt : Statement) :
    (∃ e, stmt.text = .error e ∧ stmt.compile = .error e) ∨
    ∃ text, ∃ h : stmt.text = .ok text, stmt.compile = .ok ⟨stmt, text, h⟩ := by
  unfold Statement.compile
  split
  · rename_i text h
    exact .inr ⟨text, h, rfl⟩
  · rename_i e h
    exact .inl ⟨e, h, rfl⟩

section

variable (site : Site) (E : Engine) (fresh : String) (caller : Caller) (s : Store)

theorem run_instrument {α : Type} (p : Broker α) :
    (instrument p).run (site.serve E fresh) s = p.run (site.serve E fresh) s := rfl

theorem run_lift {α β : Type} (r : Except BrokerError β) (f : β → Broker α) :
    ((lift r >>= f).run (site.serve E fresh) s).1
      = r >>= fun b => ((f b).run (site.serve E fresh) s).1 := by
  cases r <;> rfl

theorem run_loadDoctype {α : Type} (name : String) (f : DocTypeMeta → Broker α) :
    ((loadDoctype name >>= f).run (site.serve E fresh) s).1
      = site.loaded name >>= fun m => ((f m).run (site.serve E fresh) s).1 := by
  show ((lift (site.loaded name) >>= f).run (site.serve E fresh) s).1 = _
  exact run_lift site E fresh s _ f

theorem run_sqlAs {α : Type} (stmt : Statement) (f : Json → Broker α) :
    ((sqlAs caller stmt >>= f).run (site.serve E fresh) s).1 = (do
      let _ ← stmt.text
      let auth ← site.signin caller
      let out ← (site.exec E auth fresh s stmt).1
      ((f out).run (site.serve E fresh) (site.exec E auth fresh s stmt).2).1) := by
  rw [sqlAs]
  rcases compile_cases stmt with ⟨e, htext, hcompile⟩ | ⟨text, htext, hcompile⟩
  · rw [hcompile, htext]
    rfl
  · rw [hcompile, htext]
    show ((lift (site.serve E fresh s (.sqlAs caller ⟨stmt, text, htext⟩)).1 >>= f).run
      (site.serve E fresh) (site.serve E fresh s (.sqlAs caller ⟨stmt, text, htext⟩)).2).1 = _
    rw [Site.serve]
    cases site.signin caller with
    | error e => rfl
    | ok auth => exact run_lift site E fresh _ _ f

/-- A DocType is loaded under its own name. -/
theorem name_of_loaded {name : String} {m : DocTypeMeta} (h : site.loaded name = .ok m) :
    m.name = name := by
  unfold Site.loaded at h
  split at h
  · rename_i m' hm
    cases h
    exact site.name_eq name _ hm
  · cases h

theorem run_verb (q : Reading) :
    ((q.verb caller).run (site.serve E fresh) s).1 = (do
      let m ← site.loaded q.doctype
      q.checks (readableFields m caller.role)
      let _ ← q.stmt.text
      let auth ← site.signin caller
      let out ← (site.exec E auth fresh s q.stmt).1
      return q.handed (readableFields m caller.role) out.rows) := by
  cases q with
  | read doctype filter fields opts =>
      rw [Reading.verb, dbRead, run_instrument, dbReadInner, run_loadDoctype]
      cases hm : site.loaded doctype with
      | error e => simp only [Reading.doctype, hm]; rfl
      | ok m =>
          have hname := name_of_loaded site hm
          subst hname
          show ((lift _ >>= _ : Broker (List Json)).run _ s).1 = _
          rw [run_lift]
          simp only [run_sqlAs, Reading.doctype, hm]
          rfl
  | aggregate doctype filter groupBy metrics =>
      rw [Reading.verb, dbAggregate, run_instrument, dbAggregateInner, run_loadDoctype]
      cases hm : site.loaded doctype with
      | error e => simp only [Reading.doctype, hm]; rfl
      | ok m =>
          have hname := name_of_loaded site hm
          subst hname
          show ((lift _ >>= _ : Broker (List Json)).run _ s).1 = _
          rw [run_lift]
          simp only [run_lift, run_sqlAs, Reading.doctype, hm]
          -- the two checks are one
          show _ = (checkPaths (readableFields m caller.role) groupBy >>= fun _ =>
            checkPaths (readableFields m caller.role) (metricPaths metrics)) >>= _
          rw [bind_assoc]
          rfl

end

/-! ### Secrecy -/

/-- A statement over clean paths hands out the same. -/
theorem handed_hide (site : Site) (E : Engine) (fresh : String) (auth : Auth) {role : String}
    {q : Reading} {m : DocTypeMeta} (hm : site.loaded q.doctype = .ok m)
    (hclean : ∀ p ∈ q.paths, site.Clean E auth role q.doctype p) (s : Store) :
    (do
      let out ← (site.exec E auth fresh (site.hide role s) q.stmt).1
      return q.handed (readableFields m role) out.rows : Except BrokerError (List Json))
    = (do
      let out ← (site.exec E auth fresh s q.stmt).1
      return q.handed (readableFields m role) out.rows) := by
  cases q with
  | read doctype filter fields opts =>
      have hmeta : site.metas doctype = some m := by
        simp only [Site.loaded, Reading.doctype] at hm
        split at hm
        · rename_i m' hm'
          cases hm
          exact hm'
        · cases hm
      -- A read selects the same rows, and hands out of each what the role may read.
      have hsame : ∀ noindex, site.select E auth (site.hide role s) ⟨doctype, noindex, filter, opts⟩
          = (site.select E auth s ⟨doctype, noindex, filter, opts⟩).map
              (site.hideRec role doctype) := fun _ => select_hide hclean
      simp only [Reading.stmt, Site.exec, hsame, List.map_map]
      show Except.ok _ = Except.ok _
      congr 1
      show (List.map _ _).map _ = (List.map _ _).map _
      rw [List.map_map, List.map_map]
      exact List.map_congr_left fun r _ => filterRow_hideRec site hmeta _ r
  | aggregate doctype filter groupBy metrics =>
      -- An aggregate over clean paths sees no hidden value at all.
      have hsame : site.aggregate E auth (site.hide role s) ⟨doctype, filter, groupBy, metrics⟩
          = site.aggregate E auth s ⟨doctype, filter, groupBy, metrics⟩ :=
        aggregate_hide
          (fun p hp => hclean p (List.mem_append_left _ (List.mem_append_left _ hp)))
          (fun p hp => hclean p (List.mem_append_left _ (List.mem_append_right _ hp)))
          fun p hp => hclean p (List.mem_append_right _ hp)
      simp only [Reading.stmt, Site.exec, hsame]

/-! ### Names in a statement that renders -/

/-- The columns of a path are identifiers. -/
def Path.Named (p : Path) : Prop := ∀ seg ∈ p, ∀ k ∈ seg.column, isIdent k = true

theorem named_of_renderSegments (p : Path) : ∀ (i : Nat) (out text : String),
    renderSegments i p out = .ok text → Path.Named p := by
  induction p with
  | nil => exact fun _ _ _ _ seg hseg => absurd hseg List.not_mem_nil
  | cons seg rest ih =>
      intro i out text h seg' hseg' k hk
      obtain ⟨part, hpart, hrest⟩ := bind_eq_ok h
      rcases List.mem_cons.mp hseg' with rfl | hmem
      · cases seg' with
        | field name | linkHop name =>
            cases hk
            simp only [renderSegment] at hpart
            split at hpart
            · assumption
            · cases hpart
        | edge direction edgeType => cases hk
      · exact ih _ _ _ hrest seg' hmem k hk

theorem named_of_renderPath {p : Path} {text : String} (h : renderPath p = .ok text) :
    Path.Named p := by
  unfold renderPath at h
  split at h
  · cases h
  · exact named_of_renderSegments p 0 "" text h

mutual

theorem named_of_renderFilter : ∀ (f : Filter) (text : String), renderFilter f = .ok text →
    ∀ p ∈ f.paths, Path.Named p
  | .all fs, text, h => by
      obtain ⟨parts, hparts, _⟩ := bind_eq_ok h
      exact named_of_renderFilters fs parts hparts
  | .any fs, text, h => by
      obtain ⟨parts, hparts, _⟩ := bind_eq_ok h
      exact named_of_renderFilters fs parts hparts
  | .not inner, text, h => by
      obtain ⟨part, hpart, _⟩ := bind_eq_ok h
      exact named_of_renderFilter inner part hpart
  | .cmp p op value, text, h => by
      obtain ⟨left, hleft, _⟩ := bind_eq_ok h
      intro p' hp'
      rw [List.mem_singleton.mp hp']
      exact named_of_renderPath hleft

theorem named_of_renderFilters : ∀ (fs : List Filter) (parts : List String),
    renderFilters fs = .ok parts → ∀ p ∈ pathsOfAll fs, Path.Named p
  | [], _, _ => fun p hp => absurd hp List.not_mem_nil
  | f :: rest, parts, h => by
      obtain ⟨part, hpart, hrest⟩ := bind_eq_ok h
      obtain ⟨more, hmore, _⟩ := bind_eq_ok hrest
      intro p hp
      rcases List.mem_append.mp hp with hf | hr
      · exact named_of_renderFilter f part hpart p hf
      · exact named_of_renderFilters rest more hmore p hr

end

theorem named_of_whereText {f : Option Filter} {text : String} (h : whereText f = .ok text) :
    ∀ p ∈ (f.map Filter.paths).getD [], Path.Named p := by
  cases f with
  | none => exact fun p hp => absurd hp List.not_mem_nil
  | some f =>
      obtain ⟨part, hpart, _⟩ := bind_eq_ok h
      exact named_of_renderFilter f part hpart

/-- Each element of a list of texts was rendered. -/
theorem rendered_of_mapIdx {α : Type} {f : Nat → α → Except BrokerError String} :
    ∀ {l : List α} {i : Nat} {texts : List String}, mapIdxExcept f i l = .ok texts →
      ∀ a ∈ l, ∃ j text, f j a = .ok text
  | [], _, _, _ => fun a ha => absurd ha List.not_mem_nil
  | a :: rest, i, texts, h => by
      obtain ⟨text, htext, hrest⟩ := bind_eq_ok h
      obtain ⟨more, hmore, _⟩ := bind_eq_ok hrest
      intro a' ha'
      rcases List.mem_cons.mp ha' with rfl | hmem
      · exact ⟨i, text, htext⟩
      · exact rendered_of_mapIdx hmore a' hmem

theorem named_of_metricText {i : Nat} {m : Metric} {p : Path} {text : String} (hm : m ≠ .count)
    (h : metricText i (m, p) = .ok text) : Path.Named p := by
  cases m with
  | count => exact absurd rfl hm
  | _ =>
      obtain ⟨part, hpart, _⟩ := bind_eq_ok h
      exact named_of_renderPath hpart

/-- The paths of a statement that renders name identifiers. -/
theorem named_of_text {q : Reading} {text : String} (h : q.stmt.text = .ok text) :
    ∀ p ∈ q.paths, Path.Named p := by
  cases q with
  | read doctype filter fields opts =>
      obtain ⟨cond, hcond, horder⟩ := bind_eq_ok h
      intro p hp
      -- The paths of a read are those of its filter and its order.
      rcases List.mem_append.mp hp with hf | ho
      · exact named_of_whereText hcond p hf
      · cases hby : opts.orderBy with
        | none => simp [hby] at ho
        | some o =>
            simp only [hby] at horder ho
            obtain ⟨part, hpart, _⟩ := bind_eq_ok horder
            rw [List.mem_singleton.mp ho]
            exact named_of_renderPath hpart
  | aggregate doctype filter groupBy metrics =>
      obtain ⟨groups, hgroups, hrest⟩ := bind_eq_ok h
      obtain ⟨texts, htexts, hcondition⟩ := bind_eq_ok hrest
      obtain ⟨cond, hcond, _⟩ := bind_eq_ok hcondition
      intro p hp
      -- Those of an aggregate are of the filter, the groups and the metrics but the counts.
      rcases List.mem_append.mp hp with hfg | hm
      · rcases List.mem_append.mp hfg with hf | hg
        · exact named_of_whereText hcond p hf
        · obtain ⟨j, part, hpart⟩ := rendered_of_mapIdx hgroups p hg
          obtain ⟨path, hpath, _⟩ := bind_eq_ok hpart
          exact named_of_renderPath hpath
      · obtain ⟨e, he, rfl⟩ := List.mem_map.mp hm
        obtain ⟨hmem, hcount⟩ := List.mem_filter.mp he
        obtain ⟨j, part, hpart⟩ := rendered_of_mapIdx htexts e hmem
        exact named_of_metricText (of_decide_eq_true hcount) hpart

/-! ### The law -/

section

variable (site : Site) (E : Engine) (fresh : String) (caller : Caller)

/-- A call is secret if its paths are clean, should its statement render. -/
theorem secret_of_renders {q : Reading}
    (h : ∀ text, q.stmt.text = .ok text → q.Clean site E caller) :
    Secret site E fresh caller q := by
  -- the answer on a store is the answer on the hidden store
  have hrun : ∀ s, ((q.verb caller).run (site.serve E fresh) (site.hide caller.role s)).1
      = ((q.verb caller).run (site.serve E fresh) s).1 := by
    intro s
    rw [run_verb, run_verb]
    refine bind_congr_ok fun m hm => bind_congr_ok fun _ _ => ?_
    refine bind_congr_ok fun text htext => bind_congr_ok fun auth hsign => ?_
    exact handed_hide site E fresh auth hm (h text htext auth hsign) s
  intro s₁ s₂ hhide
  show (_ : Except BrokerError _ × Store).1 = (_ : Except BrokerError _ × Store).1
  rw [← hrun s₁, ← hrun s₂, hhide]

/-- One record in one table, with `n` in the column `k`. -/
def oneRecord (table k : String) (row : Doc) (n : Int) : Store where
  rows t := if t = table then [(table ++ ":1", (k, .int n) :: row)] else []
  edges _ := []
  writes _ := 0

/-- What is in a hidden column does not show. -/
theorem hide_oneRecord {role table k : String} (hk : site.hidden role table k = true) (row : Doc)
    (n n' : Int) :
    site.hide role (oneRecord table k row n) = site.hide role (oneRecord table k row n') := by
  have hrow : ∀ i, site.hideRow role table ((k, .int i) :: row) = site.hideRow role table row :=
    fun i => by simp [Site.hideRow, hk]
  simp only [Site.hide, oneRecord, Store.mk.injEq, and_true]
  funext t
  by_cases ht : t = table
  · subst ht
    simp [Site.hideRec, hrow]
  · simp [ht]

/-- Asks for the rows with zero in a field. -/
def zeros (table k : String) : Reading :=
  .read table (some (.cmp [.field k] .eq (.int 0))) [] {}

theorem renders_zeros {k : String} (hk : isIdent k = true) (table : String) :
    ∃ text, (zeros table k).stmt.text = .ok text := by
  have hpath : ∃ text, renderPath [.field k] = .ok text := by
    simp [renderPath, renderSegments, renderSegment, hk, maxPathDepth, bind, Except.bind]
  have hfilter : ∃ text, whereText (some (.cmp [.field k] .eq (.int 0))) = .ok text := by
    obtain ⟨text, htext⟩ := hpath
    rw [whereText, renderFilter, htext]
    exact ⟨_, rfl⟩
  obtain ⟨text, htext⟩ := hfilter
  rw [zeros, Reading.stmt, Statement.text, Select.text, htext]
  exact ⟨_, rfl⟩

variable {site E caller}

/-- The record is found by what is in its hidden column. -/
theorem matching_oneRecord {auth : Auth} {role table k : String} {m : DocTypeMeta}
    (hm : site.metas table = some m) (hk : site.hidden role table k = true) {row : Doc}
    (hsees : site.sees E auth table row = true) (n : Int) :
    site.matching E auth (oneRecord table k row n) table (some (.cmp [.field k] .eq (.int 0)))
      = if n = 0 then [(table ++ ":1", (k, .int n) :: row)] else [] := by
  have hengine : k ∉ engineFields := fun h => by
    rw [hidden_of_engineFields site role table h] at hk
    cases hk
  have hid : k ≠ "id" := fun h => hengine (h ▸ by decide)
  have howner : "owner" ≠ k := fun h => hengine (h ▸ by decide)
  have hseen : site.sees E auth table ((k, .int n) :: row) = true := by
    rw [← hsees]
    refine sees_congr site E auth hm ?_
    simp [col, lookup_cons_eq, howner]
  simp only [Site.matching, oneRecord, if_true, List.filter_cons, hseen, List.filter_nil]
  simp [View.filter, View.path, View.root, hid, col, E.eq_int]

/-- A filter on one field is secret exactly when the field is not hidden from the caller
in rows that the session may see. -/
theorem secret_filter_iff {auth : Auth} (hsign : site.signin caller = .ok auth)
    {table k : String} (hk : isIdent k = true) :
    Secret site E fresh caller (zeros table k) ↔ ¬site.Exposed E auth caller.role table k := by
  constructor
  · rintro hsecret ⟨⟨row, hsees⟩, hhidden⟩
    obtain ⟨m, hm⟩ : ∃ m, site.metas table = some m := by
      cases hm : site.metas table with
      | none => simp [Site.hidden, hm] at hhidden
      | some m => exact ⟨m, rfl⟩
    obtain ⟨text, htext⟩ := renders_zeros hk table
    -- Of a hidden field, the filter says whether it is zero.
    have hfound : ∀ n, (((zeros table k).verb caller).run (site.serve E fresh)
          (oneRecord table k row n)).1
        = .ok (((if n = 0 then [(table ++ ":1", (k, Value.int n) :: row)] else []).map
            rowJson).map (filterRow (readableFields m caller.role) none)) := by
      intro n
      have hloaded : site.loaded table = .ok m := by simp [Site.loaded, hm]
      rw [run_verb, htext, hsign, ← matching_oneRecord hm hhidden hsees n]
      show site.loaded table >>= _ = _
      rw [hloaded]
      rfl
    have hsame := hsecret (hide_oneRecord site hhidden row 0 1)
    simp only [hfound] at hsame
    simp at hsame
  · intro hexposed
    -- A field that is not hidden is clean, and it is the only path.
    refine secret_of_renders site E fresh caller fun _ _ auth' hsign' p hp => ?_
    rw [hsign] at hsign'
    cases hsign'
    rw [List.mem_singleton.mp hp]
    refine ⟨fun k' hk' => ?_, fun seg hseg => absurd hseg List.not_mem_nil⟩
    cases hk'
    exact hexposed

variable (site E caller)

/-- A call of `db_read` or `db_aggregate` over clean paths answers alike on databases
that are alike to the role; and all calls of a caller do exactly when no column that a
query can name is hidden from the caller in rows that the caller's session may see. -/
theorem read_secrecy_iff :
    (∀ q : Reading, q.Clean site E caller → Secret site E fresh caller q) ∧
    ((∀ q : Reading, Secret site E fresh caller q) ↔ Unrestricted site E caller) := by
  refine ⟨fun q h => secret_of_renders site E fresh caller fun _ _ => h, ⟨?_, ?_⟩⟩
  · -- The filter on one field is a reading, and it is secret only where the field is not exposed.
    intro hsecret auth hsign table k hk
    exact (secret_filter_iff fresh hsign hk).mp (hsecret (zeros table k))
  · intro hopen q
    refine secret_of_renders site E fresh caller fun text htext auth hsign p hp => ?_
    -- Every name in a path that renders is an identifier, and none of them is exposed.
    have hnamed : Path.Named p := named_of_text htext p hp
    cases p with
    | nil => trivial
    | cons seg rest =>
        refine ⟨fun k hk => ?_, fun seg' hseg' k hk table' => ?_⟩
        · exact hopen auth hsign _ k (hnamed seg List.mem_cons_self k hk)
        · exact hopen auth hsign _ k (hnamed seg' (List.mem_cons_of_mem _ hseg') k hk)

end

/-! ### A filter that tells a salary -/

/-- The clerk reads the employees with a salary of five. -/
def salaryFive (s : Store) : Except BrokerError (List Json) :=
  ((dbRead clerk "employee" (some (.cmp [.field "salary"] .eq (.int 5))) [] {}).run
    (office.serve plain "employee:2") s).1

/-- Two offices that differ in a salary only are alike to the clerk, and the clerk's
filter tells them apart. -/
theorem not_read_secrecy :
    office.hide clerk.role (officeStore 5) = office.hide clerk.role (officeStore 6) ∧
    salaryFive (officeStore 5) ≠ salaryFive (officeStore 6) := by
  constructor
  · simp only [Site.hide, officeStore, Store.mk.injEq, and_true]
    funext t
    by_cases ht : t = "employee"
    · subst ht
      rfl
    · simp [ht]
  · have hfive : salaryFive (officeStore 5) = .ok [.object [("id", .string "employee:1"),
        ("owner", .string "app_user:ann")]] := rfl
    have hsix : salaryFive (officeStore 6) = .ok [] := rfl
    rw [hfive, hsix]
    simp

end Frust.Kernel
