import Frust.Kernel.Query
import Frust.Proofs.Kernel.Decoding

/-!
# `Frust.Proofs.Kernel.Query`: what a query asks for

`FilterMeans`, `OrderMeans` and the like say which request a body stands for: each object of a filter
is one of `and`, `or` and `not` and nothing else, or a comparison with its three parts; what is sent
for the ordering, the limit and the start is an ordering, a limit and a start; and each value that is
compared with is what its JSON stands for (`Means`).

The decoder takes the first of `and`, `or` and `not` that it finds and leaves the rest of the object.
It takes an operator, a value or a metric that is missing for `eq`, null or `count`, and a limit that
is none for no limit. `query_faithful_iff` says for which bodies none of this happens.
-/

set_option autoImplicit false

namespace Frust.Kernel.Query

open Frust.Lib Frust.Rust

/-! ### What a body stands for -/

/-- Nothing is sent. -/
def Absent (v : Option Json) : Prop := v = none ∨ v = some .null

/-- The path of a dotted text, or of an array of texts. -/
inductive PathMeans : Json → Path → Prop
  | dotted {segs : List String} : segs ≠ [] → (∀ seg ∈ segs, '.' ∉ seg.toList) →
      PathMeans (.string (".".intercalate segs)) (segs.map .field)
  | segments (segs : List String) : PathMeans (.array (segs.map .string)) (segs.map .field)

/-- The paths of an array, or none. -/
inductive PathsMean : Option Json → List Path → Prop
  | absent {v : Option Json} : Absent v → PathsMean v []
  | array {items : List Json} {paths : List Path} : List.Forall₂ PathMeans items paths →
      PathsMean (some (.array items)) paths

/-- The text of an operator. -/
def opText : CmpOp → String
  | .eq => "eq"
  | .ne => "ne"
  | .gt => "gt"
  | .gte => "gte"
  | .lt => "lt"
  | .lte => "lte"
  | .inside => "inside"
  | .contains => "contains"

/-- A text that is compared with `id`, under `/read`. -/
def IsId (readDoctype : Option String) (path : Path) (v : Json) : Prop :=
  readDoctype.isSome ∧ path = [.field "id"] ∧ ∃ s, v = .string s

/-- The value that is compared with is what the JSON stands for; an id stands for its record. -/
inductive Compared (readDoctype : Option String) (path : Path) : Json → Value → Prop
  | id {doctype s : String} : readDoctype = some doctype → path = [.field "id"] →
      Compared readDoctype path (.string s) (.recordId (recordOf doctype s))
  | value {v : Json} {x : Value} : ¬ IsId readDoctype path v → Means v x →
      Compared readDoctype path v x

/-- A filter that stands for the JSON, with nothing of it left out. -/
inductive FilterMeans (readDoctype : Option String) : Json → Filter → Prop
  | all {items : List Json} {fs : List Filter} :
      List.Forall₂ (FilterMeans readDoctype) items fs →
      FilterMeans readDoctype (.object [("and", .array items)]) (.all fs)
  | any {items : List Json} {fs : List Filter} :
      List.Forall₂ (FilterMeans readDoctype) items fs →
      FilterMeans readDoctype (.object [("or", .array items)]) (.any fs)
  | not {inner : Json} {f : Filter} : FilterMeans readDoctype inner f →
      FilterMeans readDoctype (.object [("not", inner)]) (.not f)
  | cmp {es : List (String × Json)} {p v : Json} {path : Path} {op : CmpOp} {x : Value} :
      es.length = 3 → es.lookup "path" = some p → PathMeans p path →
      es.lookup "op" = some (.string (opText op)) →
      es.lookup "value" = some v → Compared readDoctype path v x →
      FilterMeans readDoctype (.object es) (.cmp path op x)

/-- The filter of a body, or none. -/
inductive FilterPart (readDoctype : Option String) : Option Json → Option Filter → Prop
  | absent {v : Option Json} : Absent v → FilterPart readDoctype v none
  | filter {v : Json} {f : Filter} : FilterMeans readDoctype v f →
      FilterPart readDoctype (some v) (some f)

/-- A direction, which ascends where none is sent. -/
inductive DirMeans : Option Json → SortDir → Prop
  | absent {v : Option Json} : Absent v → DirMeans v .asc
  | asc : DirMeans (some (.string "asc")) .asc
  | desc : DirMeans (some (.string "desc")) .desc

/-- The ordering of a body, or none. -/
inductive OrderMeans : Option Json → Option (Path × SortDir) → Prop
  | absent {v : Option Json} : Absent v → OrderMeans v none
  | order {es : List (String × Json)} {p : Json} {path : Path} {dir : SortDir} :
      es.lookup "path" = some p → PathMeans p path → DirMeans (es.lookup "dir") dir →
      OrderMeans (some (.object es)) (some (path, dir))

/-- A limit or a start, or none. -/
inductive NumberMeans : Option Json → Option Nat → Prop
  | absent {v : Option Json} : Absent v → NumberMeans v none
  | number (n : Nat) : NumberMeans (some (.int n)) (some n)

/-- The text of a metric. -/
def metricText : Metric → String
  | .count => "count"
  | .sum => "sum"
  | .min => "min"
  | .max => "max"
  | .avg => "avg"

/-- A metric, with a path or without. -/
inductive MetricMeans : Json → Metric × Path → Prop
  | plain {es : List (String × Json)} {metric : Metric} :
      es.lookup "metric" = some (.string (metricText metric)) → Absent (es.lookup "path") →
      MetricMeans (.object es) (metric, [])
  | of {es : List (String × Json)} {metric : Metric} {p : Json} {path : Path} :
      es.lookup "metric" = some (.string (metricText metric)) →
      es.lookup "path" = some p → PathMeans p path → MetricMeans (.object es) (metric, path)

/-- The request that the body of `/read` stands for. -/
structure ReadMeans (doctype : String) (body : Json) (r : ReadRequest) : Prop where
  filter : FilterPart (some doctype) (body.get "filter") r.filter
  fields : PathsMean (body.get "fields") r.fields
  order : OrderMeans (body.get "order") r.opts.orderBy
  limit : NumberMeans (body.get "limit") r.opts.limit
  start : NumberMeans (body.get "start") r.opts.start

/-- The request that the body of `/aggregate` stands for. -/
structure AggregateMeans (body : Json) (r : AggregateRequest) : Prop where
  filter : FilterPart none (body.get "filter") r.filter
  groupBy : PathsMean (body.get "group_by") r.groupBy
  metrics : ∃ items, body.get "metrics" = some (.array items) ∧
    List.Forall₂ MetricMeans items r.metrics

/-! ### Bodies that are read, and bodies that are read as what they stand for -/

/-- Text, or an array of texts. -/
def PathReadable (v : Json) : Prop :=
  (∃ s, v = .string s) ∨ ∃ segs : List String, v = .array (segs.map .string)

/-- Nothing, or an array of paths. -/
def PathsReadable (v : Option Json) : Prop :=
  Absent v ∨ ∃ items, v = some (.array items) ∧ ∀ item ∈ items, PathReadable item

/-- What decides at an object of a filter. -/
inductive Branch where
  | all (items : List Json)
  | any (items : List Json)
  | not (inner : Json)
  | leaf

/-- The first of `and`, `or` and `not`; the first two only with an array. -/
def branch (es : List (String × Json)) : Branch :=
  match es.lookup "and" with
  | some (.array items) => .all items
  | _ =>
      match es.lookup "or" with
      | some (.array items) => .any items
      | _ =>
          match es.lookup "not" with
          | some inner => .not inner
          | none => .leaf

/-- A comparison that is accepted: with a path, without an unknown operator, and without an envelope
of an unknown kind. -/
structure LeafReadable (es : List (String × Json)) : Prop where
  path : ∃ p, es.lookup "path" = some p ∧ PathReadable p
  op : ∀ o, es.lookup "op" = some (.string o) → ∃ op, o = opText op
  value : ∀ v kind w, es.lookup "value" = some v → envelopeParts v = some (kind, w) →
    kind ∈ valueKinds

/-- A filter that is accepted, by what decides at each object. -/
inductive FilterReadable : Json → Prop
  | all {es : List (String × Json)} {items : List Json} : branch es = .all items →
      (∀ item ∈ items, FilterReadable item) → FilterReadable (.object es)
  | any {es : List (String × Json)} {items : List Json} : branch es = .any items →
      (∀ item ∈ items, FilterReadable item) → FilterReadable (.object es)
  | not {es : List (String × Json)} {inner : Json} : branch es = .not inner →
      FilterReadable inner → FilterReadable (.object es)
  | leaf {es : List (String × Json)} : branch es = .leaf → LeafReadable es →
      FilterReadable (.object es)

/-- A filter without a part that is left out or made up, and with clean values. -/
inductive FilterPlain : Json → Prop
  | all {items : List Json} : (∀ item ∈ items, FilterPlain item) →
      FilterPlain (.object [("and", .array items)])
  | any {items : List Json} : (∀ item ∈ items, FilterPlain item) →
      FilterPlain (.object [("or", .array items)])
  | not {inner : Json} : FilterPlain inner → FilterPlain (.object [("not", inner)])
  | cmp {es : List (String × Json)} {p v : Json} {o : String} : es.length = 3 →
      es.lookup "path" = some p → es.lookup "op" = some (.string o) → es.lookup "value" = some v →
      Clean v → FilterPlain (.object es)

/-- An ordering that is accepted. -/
def OrderReadable (v : Option Json) : Prop :=
  ∀ es, v = some (.object es) → ∃ p, es.lookup "path" = some p ∧ PathReadable p

/-- Nothing, or an ordering whose direction is `asc`, `desc` or left out. -/
def OrderPlain (v : Option Json) : Prop :=
  Absent v ∨ ∃ es, v = some (.object es) ∧ (Absent (es.lookup "dir") ∨
    es.lookup "dir" = some (.string "asc") ∨ es.lookup "dir" = some (.string "desc"))

/-- Nothing, or a natural number of 64 bits. -/
def NumberPlain (v : Option Json) : Prop := Absent v ∨ ∃ n : Nat, n < 2 ^ 64 ∧ v = some (.int n)

/-- A metric that is accepted. -/
def MetricReadable (v : Json) : Prop :=
  ∃ es, v = .object es ∧ (∀ s, es.lookup "metric" = some (.string s) → ∃ m, s = metricText m) ∧
    ∀ p, es.lookup "path" = some p → p ≠ .null → PathReadable p

/-- The body of `/read` is accepted. -/
structure ReadAccepted (body : Json) : Prop where
  filter : ∀ v, body.get "filter" = some v → v ≠ .null → FilterReadable v
  fields : PathsReadable (body.get "fields")
  order : OrderReadable (body.get "order")

/-- No part of the body of `/read` is left out or made up. -/
structure ReadPlain (body : Json) : Prop where
  filter : ∀ v, body.get "filter" = some v → v ≠ .null → FilterPlain v
  order : OrderPlain (body.get "order")
  limit : NumberPlain (body.get "limit")
  start : NumberPlain (body.get "start")

/-- The body of `/aggregate` is accepted. -/
structure AggregateAccepted (body : Json) : Prop where
  filter : ∀ v, body.get "filter" = some v → v ≠ .null → FilterReadable v
  groupBy : PathsReadable (body.get "group_by")
  metrics : ∃ items, body.get "metrics" = some (.array items) ∧
    ∀ item ∈ items, MetricReadable item

/-- No part of the body of `/aggregate` is left out or made up. -/
structure AggregatePlain (body : Json) : Prop where
  filter : ∀ v, body.get "filter" = some v → v ≠ .null → FilterPlain v
  metrics : ∀ items, body.get "metrics" = some (.array items) → ∀ item ∈ items,
    ∃ es s, item = .object es ∧ es.lookup "metric" = some (.string s)

/-! ### Paths -/

theorem not_mem_of_mem_splitOn {c : Char} {l piece : List Char} (h : piece ∈ l.splitOn c) :
    c ∉ piece := by
  induction l generalizing piece with
  | nil =>
      rw [List.splitOn_nil, List.mem_singleton] at h
      subst h
      exact List.not_mem_nil
  | cons x l ih =>
      rw [List.splitOn_cons_eq_if_modifyHead] at h
      split at h
      · rcases List.mem_cons.mp h with rfl | h
        · exact List.not_mem_nil
        · exact ih h
      · rename_i hx
        cases hsplit : l.splitOn c with
        | nil =>
            rw [hsplit] at h
            cases h
        | cons first more =>
            rw [hsplit, List.modifyHead_cons] at h
            rcases List.mem_cons.mp h with rfl | h
            · intro hmem
              rcases List.mem_cons.mp hmem with rfl | hmem
              · exact hx BEq.rfl
              · exact ih (hsplit ▸ List.mem_cons_self) hmem
            · exact ih (hsplit ▸ List.mem_cons_of_mem _ h)

theorem intercalate_split (s : String) : ".".intercalate (Str.split '.' s) = s := by
  rw [← String.toList_inj, String.toList_intercalate, Str.split, List.map_map]
  have hmap : (s.toList.splitOn '.').map (String.toList ∘ String.ofList) = s.toList.splitOn '.' := by
    conv_rhs => rw [← List.map_id (s.toList.splitOn '.')]
    exact List.map_congr_left fun l _ => String.toList_ofList
  rw [hmap]
  exact List.intercalate_splitOn '.'

theorem parsePath_means {v : Json} {path : Path} (h : parsePath v = .ok path) : PathMeans v path := by
  cases v with
  | string s =>
      cases h
      have hpath : PathMeans (.string (".".intercalate (Str.split '.' s)))
          ((Str.split '.' s).map .field) := by
        refine .dotted ?_ fun seg hseg => ?_
        · rw [Str.split, ne_eq, List.map_eq_nil_iff]
          exact List.splitOn_ne_nil '.' _
        · obtain ⟨l, hl, rfl⟩ := List.mem_map.mp hseg
          rw [String.toList_ofList]
          exact not_mem_of_mem_splitOn hl
      rwa [intercalate_split] at hpath
  | array a =>
      obtain ⟨segs, rfl, rfl⟩ : ∃ segs : List String, a = segs.map .string ∧
          path = segs.map .field := by
        have hall : List.Forall₂ (fun v seg => parseSegment v = .ok seg) a path :=
          forall₂_of_mapM_ok h
        clear h
        induction hall with
        | nil => exact ⟨[], rfl, rfl⟩
        | @cons v seg a path hseg _ ih =>
            obtain ⟨segs, rfl, rfl⟩ := ih
            cases v with
            | string s =>
                cases hseg
                exact ⟨s :: segs, rfl, rfl⟩
            | _ => cases hseg
      exact .segments segs
  | _ => cases h

theorem parsePath_ok_iff (v : Json) : (∃ path, parsePath v = .ok path) ↔ PathReadable v := by
  constructor
  · rintro ⟨path, h⟩
    cases parsePath_means h with
    | dotted => exact .inl ⟨_, rfl⟩
    | segments segs => exact .inr ⟨segs, rfl⟩
  · rintro (⟨s, rfl⟩ | ⟨segs, rfl⟩)
    · exact ⟨_, rfl⟩
    · refine mapM_ok_iff.mpr fun v hv => ?_
      obtain ⟨s, -, rfl⟩ := List.mem_map.mp hv
      exact ⟨.field s, rfl⟩

theorem parsePaths_means {v : Option Json} {paths : List Path} (h : parsePaths v = .ok paths) :
    PathsMean v paths := by
  match v with
  | none =>
      cases h
      exact .absent (.inl rfl)
  | some .null =>
      cases h
      exact .absent (.inr rfl)
  | some (.array items) =>
      exact .array ((forall₂_of_mapM_ok h).imp fun _ _ hpath => parsePath_means hpath)
  | some (.bool _) | some (.int _) | some (.float _) | some (.string _) | some (.object _) => cases h

theorem parsePaths_ok_iff (v : Option Json) :
    (∃ paths, parsePaths v = .ok paths) ↔ PathsReadable v := by
  constructor
  · rintro ⟨paths, h⟩
    cases parsePaths_means h with
    | absent habsent => exact .inl habsent
    | @array items paths hall =>
        refine .inr ⟨items, rfl, fun item hitem => (parsePath_ok_iff item).mp ?_⟩
        exact mapM_ok_iff.mp ⟨paths, h⟩ item hitem
  · rintro ((rfl | rfl) | ⟨items, rfl, hall⟩)
    · exact ⟨[], rfl⟩
    · exact ⟨[], rfl⟩
    · exact mapM_ok_iff.mpr fun item hitem => (parsePath_ok_iff item).mpr (hall item hitem)

/-! ### Comparisons -/

theorem parseOp_ok {o : String} {op : CmpOp} (h : parseOp o = .ok op) : o = opText op := by
  unfold parseOp at h
  repeat' split at h
  all_goals cases h
  all_goals assumption

theorem parseOp_opText (op : CmpOp) : parseOp (opText op) = .ok op := by cases op <;> rfl

section

variable {d : Option String} {path : Path}

theorem parseCompared_of_not {v : Json} (h : ¬ IsId d path v) :
    parseCompared d path v = parseValue v := by
  unfold parseCompared
  split
  · exact absurd ⟨rfl, rfl, _, rfl⟩ h
  · rfl

theorem compared_iff {v : Json} {x : Value} (h : parseCompared d path v = .ok x) :
    Compared d path v x ↔ Clean v := by
  by_cases hid : IsId d path v
  · -- a text is clean, and an id is never read as a value
    obtain ⟨hd, rfl, s, rfl⟩ := hid
    obtain ⟨doctype, rfl⟩ := Option.isSome_iff_exists.mp hd
    cases h
    exact iff_of_true (.id rfl rfl) (by simp [Clean])
  · rw [parseCompared_of_not hid] at h
    rw [← means_nestedValue_iff, nestedValue_of_parseValue h]
    constructor
    · intro hcompared
      cases hcompared with
      | id hd hpath => exact absurd ⟨by rw [hd]; rfl, hpath, _, rfl⟩ hid
      | value _ hmeans => exact hmeans
    · exact .value hid

theorem parseCompared_ok_iff (v : Json) : (∃ x, parseCompared d path v = .ok x) ↔
    ∀ kind w, envelopeParts v = some (kind, w) → kind ∈ valueKinds := by
  by_cases hid : IsId d path v
  · obtain ⟨hd, rfl, s, rfl⟩ := hid
    obtain ⟨doctype, rfl⟩ := Option.isSome_iff_exists.mp hd
    refine iff_of_true ⟨_, rfl⟩ fun kind w h => ?_
    rw [envelopeParts_of_get rfl] at h
    cases h
  · rw [parseCompared_of_not hid, parseValue_ok_iff]

end

/-! ### Filters -/

section

variable {es : List (String × Json)}

theorem branch_of_and {items : List Json} (h : es.lookup "and" = some (.array items)) :
    branch es = .all items := by
  rw [branch, h]

variable (hand : ∀ items, es.lookup "and" = some (.array items) → False)

include hand

theorem branch_of_or {items : List Json} (h : es.lookup "or" = some (.array items)) :
    branch es = .any items := by
  rw [branch]
  split
  · exact (hand _ ‹_›).elim
  · rw [h]

variable (hor : ∀ items, es.lookup "or" = some (.array items) → False)

include hor

theorem branch_of_not {inner : Json} (h : es.lookup "not" = some inner) :
    branch es = .not inner := by
  rw [branch]
  split
  · exact (hand _ ‹_›).elim
  · split
    · exact (hor _ ‹_›).elim
    · rw [h]

theorem branch_of_leaf (h : es.lookup "not" = none) : branch es = .leaf := by
  rw [branch]
  split
  · exact (hand _ ‹_›).elim
  · split
    · exact (hor _ ‹_›).elim
    · rw [h]

end

/-- The filters below an object. -/
def Branch.children : Branch → List Json
  | .all items => items
  | .any items => items
  | .not inner => [inner]
  | .leaf => []

theorem sizeOf_children {es : List (String × Json)} {v : Json} (h : v ∈ (branch es).children) :
    sizeOf v < sizeOf (Json.object es) := by
  have harray : ∀ k items, es.lookup k = some (.array items) → v ∈ items →
      sizeOf v < sizeOf (Json.object es) := by
    intro k items hlookup hmem
    have hsize := sizeOf_lookup hlookup
    have hitem := List.sizeOf_lt_of_mem hmem
    simp only [Json.array.sizeOf_spec, Json.object.sizeOf_spec] at hsize ⊢
    omega
  unfold branch at h
  split at h
  · exact harray _ _ ‹_› h
  · split at h
    · exact harray _ _ ‹_› h
    · split at h
      · rename_i inner hlookup
        have hsize := sizeOf_lookup hlookup
        obtain rfl := List.mem_singleton.mp h
        simp only [Json.object.sizeOf_spec]
        omega
      · cases h

/-- Induction over a filter, by what decides at each object. -/
theorem filter_induction {P : Json → Prop} (other : ∀ v, (∀ es, v ≠ .object es) → P v)
    (object : ∀ es, (∀ v ∈ (branch es).children, P v) → P (.object es)) (v : Json) : P v := by
  induction h : sizeOf v using Nat.strongRecOn generalizing v with
  | _ n ih =>
      subst h
      by_cases hobject : ∃ es, v = .object es
      · obtain ⟨es, rfl⟩ := hobject
        exact object es fun v hv => ih (sizeOf v) (sizeOf_children hv) v rfl
      · exact other v fun es hes => hobject ⟨es, hes⟩

section

variable (d : Option String)

theorem parseFilters_eq (arr : List Json) :
    parseFilters arr d = arr.mapM (parseFilterInner · d) := by
  induction arr with
  | nil =>
      rw [parseFilters]
      rfl
  | cons v rest ih =>
      rw [parseFilters, ih, List.mapM_cons]

theorem parseFilterInner_other {v : Json} (h : ∀ es, v ≠ .object es) :
    parseFilterInner v d = badValue "filter must be object" := by
  rw [parseFilterInner.eq_def]
  split
  · exact absurd rfl (h _)
  · rfl

theorem parseFilterInner_object (es : List (String × Json)) :
    parseFilterInner (.object es) d = match branch es with
      | .all items => do return .all (← items.mapM (parseFilterInner · d))
      | .any items => do return .any (← items.mapM (parseFilterInner · d))
      | .not inner => do return .not (← parseFilterInner inner d)
      | .leaf => parseLeaf es d := by
  rw [parseFilterInner]
  split
  · rename_i hand
    rw [branch_of_and hand, parseFilters_eq]
  · rename_i hand
    split
    · rename_i hor
      rw [branch_of_or hand hor, parseFilters_eq]
    · rename_i hor
      split
      · rename_i hnot
        rw [branch_of_not hand hor hnot]
      · rename_i hnot
        rw [branch_of_leaf hand hor hnot]

/-! ### Comparisons of a filter -/

theorem required_ok {v : Option Json} {detail : String} {j : Json} (h : required v detail = .ok j) :
    v = some j := by
  cases v with
  | none => cases h
  | some j' =>
      cases h
      rfl

theorem parseLeaf_ok {es : List (String × Json)} {f : Filter} (h : parseLeaf es d = .ok f) :
    ∃ p path op x, es.lookup "path" = some p ∧ parsePath p = .ok path ∧
      parseOp (((es.lookup "op").bind Json.asStr).getD "eq") = .ok op ∧
      parseCompared d path ((es.lookup "value").getD .null) = .ok x ∧ f = .cmp path op x := by
  obtain ⟨p, hp, h⟩ := bind_eq_ok h
  obtain ⟨path, hpath, h⟩ := bind_eq_ok h
  obtain ⟨op, hop, h⟩ := bind_eq_ok h
  obtain ⟨x, hx, h⟩ := bind_eq_ok h
  exact ⟨p, path, op, x, required_ok hp, hpath, hop, hx, (Except.ok.inj h).symm⟩

theorem parseLeaf_ok_iff (es : List (String × Json)) :
    (∃ f, parseLeaf es d = .ok f) ↔ LeafReadable es := by
  constructor
  · rintro ⟨f, h⟩
    obtain ⟨p, path, op, x, hp, hpath, hop, hx, -⟩ := parseLeaf_ok d h
    refine ⟨⟨p, hp, (parsePath_ok_iff p).mp ⟨path, hpath⟩⟩, fun o ho => ?_, fun v kind w hv => ?_⟩
    · rw [ho] at hop
      exact ⟨op, parseOp_ok hop⟩
    · rw [hv] at hx
      exact (parseCompared_ok_iff v).mp ⟨x, hx⟩ kind w
  · rintro ⟨⟨p, hp, hread⟩, hop, hvalue⟩
    obtain ⟨path, hpath⟩ := (parsePath_ok_iff p).mpr hread
    obtain ⟨op, hop⟩ : ∃ op, parseOp (((es.lookup "op").bind Json.asStr).getD "eq") = .ok op := by
      cases ho : es.lookup "op" with
      | none => exact ⟨.eq, rfl⟩
      | some o =>
          cases o with
          | string o =>
              obtain ⟨op, rfl⟩ := hop o ho
              exact ⟨op, parseOp_opText op⟩
          | _ => exact ⟨.eq, rfl⟩
    obtain ⟨x, hx⟩ : ∃ x, parseCompared d path ((es.lookup "value").getD .null) = .ok x := by
      refine (parseCompared_ok_iff _).mpr fun kind w h => ?_
      cases hv : es.lookup "value" with
      | none =>
          rw [hv] at h
          cases h
      | some v =>
          rw [hv] at h
          exact hvalue v kind w hv h
    have hrequired : required (es.lookup "path") "filter leaf needs path" = .ok p := by
      rw [hp]
      rfl
    exact ⟨.cmp path op x,
      bind_of_ok hrequired (bind_of_ok hpath (bind_of_ok hop (bind_of_ok hx rfl)))⟩

/-- An object of three entries with a path, an operator and a value has no other. -/
theorem lookup_of_three {es : List (String × Json)} (hlength : es.length = 3)
    (hkeys : ∀ k ∈ ["path", "op", "value"], (es.lookup k).isSome) {k : String}
    (hk : k ∉ ["path", "op", "value"]) : es.lookup k = none := by
  -- three different keys fill the three entries
  have hsub : ["path", "op", "value"] ⊆ es.map (·.1) := by
    intro k hk
    by_contra hnot
    have hnone : es.lookup k = none := by
      refine List.lookup_eq_none_iff.mpr fun e he => bne_iff_ne.mpr ?_
      rintro rfl
      exact hnot (List.mem_map_of_mem he)
    have hsome := hkeys k hk
    rw [hnone] at hsome
    cases hsome
  have hperm : (["path", "op", "value"] : List String).Perm (es.map (·.1)) :=
    (List.subperm_of_subset (by decide) hsub).perm_of_length_le
      (by rw [List.length_map, hlength]; rfl)
  refine List.lookup_eq_none_iff.mpr fun e he => bne_iff_ne.mpr ?_
  rintro rfl
  exact hk (hperm.mem_iff.mpr (List.mem_map_of_mem he))

theorem branch_of_three {es : List (String × Json)} {p o v : Json} (hlength : es.length = 3)
    (hp : es.lookup "path" = some p) (ho : es.lookup "op" = some o)
    (hv : es.lookup "value" = some v) : branch es = .leaf := by
  have hkeys : ∀ k ∈ ["path", "op", "value"], (es.lookup k).isSome := by
    intro k hk
    simp only [List.mem_cons, List.not_mem_nil, or_false] at hk
    rcases hk with rfl | rfl | rfl
    · rw [hp]
      rfl
    · rw [ho]
      rfl
    · rw [hv]
      rfl
  have hnone : ∀ k, k ∉ ["path", "op", "value"] → es.lookup k = none :=
    fun k hk => lookup_of_three hlength hkeys hk
  refine branch_of_leaf (fun items h => ?_) (fun items h => ?_) (hnone "not" (by decide))
  · rw [hnone "and" (by decide)] at h
    cases h
  · rw [hnone "or" (by decide)] at h
    cases h

/-- What a plain filter is, by what decides at the object. -/
theorem FilterPlain.inv {es : List (String × Json)} (h : FilterPlain (.object es)) :
    match branch es with
    | .all items => es = [("and", .array items)] ∧ ∀ item ∈ items, FilterPlain item
    | .any items => es = [("or", .array items)] ∧ ∀ item ∈ items, FilterPlain item
    | .not inner => es = [("not", inner)] ∧ FilterPlain inner
    | .leaf => es.length = 3 ∧ ∃ p o v, es.lookup "path" = some p ∧
        es.lookup "op" = some (.string o) ∧ es.lookup "value" = some v ∧ Clean v := by
  cases h with
  | all hall => exact ⟨rfl, hall⟩
  | any hall => exact ⟨rfl, hall⟩
  | not hinner => exact ⟨rfl, hinner⟩
  | cmp hlength hp ho hv hclean =>
      rw [branch_of_three hlength hp ho hv]
      exact ⟨hlength, _, _, _, hp, ho, hv, hclean⟩

/-- An accepted comparison is what it stands for if and only if its three parts are all that is sent
and the value is clean. -/
theorem parseLeaf_means_iff {es : List (String × Json)} {f : Filter} (h : parseLeaf es d = .ok f)
    (hleaf : branch es = .leaf) : FilterMeans d (.object es) f ↔ FilterPlain (.object es) := by
  obtain ⟨p, path, op, x, hp, hpath, hop, hx, rfl⟩ := parseLeaf_ok d h
  constructor
  · intro hmeans
    cases hmeans with
    | cmp hlength hp' _ ho hv hcompared =>
        rw [hv] at hx
        exact .cmp hlength hp' ho hv ((compared_iff hx).mp hcompared)
  · intro hplain
    have hinv := hplain.inv
    rw [hleaf] at hinv
    obtain ⟨hlength, _, o, v, -, ho, hv, hclean⟩ := hinv
    rw [ho] at hop
    rw [hv] at hx
    obtain rfl := parseOp_ok hop
    exact .cmp hlength hp (parsePath_means hpath) ho hv ((compared_iff hx).mpr hclean)

/-! ### Every depth -/

theorem parseFilterInner_object_ok_iff (es : List (String × Json)) :
    (∃ f, parseFilterInner (.object es) d = .ok f) ↔
      (∀ v ∈ (branch es).children, ∃ f, parseFilterInner v d = .ok f) ∧
        (branch es = .leaf → LeafReadable es) := by
  rw [parseFilterInner_object, ← parseLeaf_ok_iff d es]
  cases branch es with
  | all items =>
      rw [bind_pure_ok_iff, mapM_ok_iff]
      exact ⟨fun h => ⟨h, fun h => (nomatch h)⟩, fun h => h.1⟩
  | any items =>
      rw [bind_pure_ok_iff, mapM_ok_iff]
      exact ⟨fun h => ⟨h, fun h => (nomatch h)⟩, fun h => h.1⟩
  | not inner =>
      rw [bind_pure_ok_iff]
      constructor
      · exact fun h => ⟨fun v hv => List.mem_singleton.mp hv ▸ h, fun h => (nomatch h)⟩
      · exact fun h => h.1 inner (List.mem_singleton.mpr rfl)
  | leaf =>
      constructor
      · exact fun h => ⟨fun v hv => (nomatch hv), fun _ => h⟩
      · exact fun h => h.2 rfl

theorem filterReadable_object_iff (es : List (String × Json)) : FilterReadable (.object es) ↔
    (∀ v ∈ (branch es).children, FilterReadable v) ∧ (branch es = .leaf → LeafReadable es) := by
  constructor
  · intro h
    cases h with
    | all hb hall =>
        rw [hb]
        exact ⟨hall, fun h => (nomatch h)⟩
    | any hb hall =>
        rw [hb]
        exact ⟨hall, fun h => (nomatch h)⟩
    | not hb hinner =>
        rw [hb]
        exact ⟨fun v hv => List.mem_singleton.mp hv ▸ hinner, fun h => (nomatch h)⟩
    | leaf hb hleaf =>
        rw [hb]
        exact ⟨fun v hv => (nomatch hv), fun _ => hleaf⟩
  · rintro ⟨hall, hleaf⟩
    cases hb : branch es with
    | all items =>
        rw [hb] at hall
        exact .all hb hall
    | any items =>
        rw [hb] at hall
        exact .any hb hall
    | not inner =>
        rw [hb] at hall
        exact .not hb (hall inner (List.mem_singleton.mpr rfl))
    | leaf => exact .leaf hb (hleaf hb)

theorem parseFilterInner_ok_iff (v : Json) :
    (∃ f, parseFilterInner v d = .ok f) ↔ FilterReadable v := by
  induction v using filter_induction with
  | other v h =>
      constructor
      · rintro ⟨f, hf⟩
        rw [parseFilterInner_other d h] at hf
        cases hf
      · intro hread
        cases hread <;> exact absurd rfl (h _)
  | object es ih =>
      rw [parseFilterInner_object_ok_iff, filterReadable_object_iff]
      exact and_congr_left' (forall₂_congr ih)

variable {d}

/-- Filters that were accepted, one after the other. -/
theorem forall₂_means_iff {items : List Json} {fs : List Filter}
    (h : List.Forall₂ (fun v f => parseFilterInner v d = .ok f) items fs)
    (ih : ∀ v ∈ items, ∀ f, parseFilterInner v d = .ok f → (FilterMeans d v f ↔ FilterPlain v)) :
    List.Forall₂ (FilterMeans d) items fs ↔ ∀ v ∈ items, FilterPlain v := by
  induction h with
  | nil => exact iff_of_true .nil fun v hv => (nomatch hv)
  | @cons v f items fs hv _ ihs =>
      rw [List.forall₂_cons, List.forall_mem_cons, ih v List.mem_cons_self f hv,
        ihs fun w hw => ih w (List.mem_cons_of_mem v hw)]

/-- An accepted filter is what its JSON stands for if and only if the JSON is plain. -/
theorem filterMeans_iff {v : Json} {f : Filter} (h : parseFilterInner v d = .ok f) :
    FilterMeans d v f ↔ FilterPlain v := by
  induction v using filter_induction generalizing f with
  | other v hother =>
      rw [parseFilterInner_other d hother] at h
      cases h
  | object es ih =>
      rw [parseFilterInner_object] at h
      cases hb : branch es with
      | all items =>
          rw [hb] at h ih
          obtain ⟨fs, hfs, h⟩ := bind_eq_ok h
          cases h
          have hitems := forall₂_means_iff (forall₂_of_mapM_ok hfs) fun v hv f => ih v hv
          constructor
          · -- the object is `and` and nothing else, so these are the items that were parsed
            intro hmeans
            cases hmeans with
            | all hall =>
                cases hb
                exact .all (hitems.mp hall)
          · intro hplain
            have hinv := hplain.inv
            rw [hb] at hinv
            obtain ⟨rfl, hall⟩ := hinv
            exact .all (hitems.mpr hall)
      | any items =>
          rw [hb] at h ih
          obtain ⟨fs, hfs, h⟩ := bind_eq_ok h
          cases h
          have hitems := forall₂_means_iff (forall₂_of_mapM_ok hfs) fun v hv f => ih v hv
          constructor
          · intro hmeans
            cases hmeans with
            | any hall =>
                cases hb
                exact .any (hitems.mp hall)
          · intro hplain
            have hinv := hplain.inv
            rw [hb] at hinv
            obtain ⟨rfl, hall⟩ := hinv
            exact .any (hitems.mpr hall)
      | not inner =>
          rw [hb] at h ih
          obtain ⟨f', hf', h⟩ := bind_eq_ok h
          cases h
          have hinner := ih inner (List.mem_singleton.mpr rfl) hf'
          constructor
          · intro hmeans
            cases hmeans with
            | not hmeans =>
                cases hb
                exact .not (hinner.mp hmeans)
          · intro hplain
            have hinv := hplain.inv
            rw [hb] at hinv
            obtain ⟨rfl, hplain'⟩ := hinv
            exact .not (hinner.mpr hplain')
      | leaf =>
          rw [hb] at h
          exact parseLeaf_means_iff d h hb

theorem filterPart_iff {v : Option Json} {f : Option Filter} (h : parseFilterOf v d = .ok f) :
    FilterPart d v f ↔ ∀ j, v = some j → j ≠ .null → FilterPlain j := by
  unfold parseFilterOf at h
  split at h
  · cases h
    exact iff_of_true (.absent (.inl rfl)) fun j hj => (nomatch hj)
  · cases h
    exact iff_of_true (.absent (.inr rfl)) fun j hj hne => absurd (Option.some.inj hj).symm hne
  · rename_i j hj
    obtain ⟨f', hf', h⟩ := bind_eq_ok h
    cases h
    have hmeans := filterMeans_iff hf'
    constructor
    · intro hpart j' heq _
      obtain rfl := Option.some.inj heq
      cases hpart with
      | filter hfilter => exact hmeans.mp hfilter
    · exact fun hplain => .filter (hmeans.mpr (hplain j rfl hj))

theorem parseFilterOf_ok_iff (v : Option Json) : (∃ f, parseFilterOf v d = .ok f) ↔
    ∀ j, v = some j → j ≠ .null → FilterReadable j := by
  unfold parseFilterOf
  split
  · exact iff_of_true ⟨_, rfl⟩ fun j hj => (nomatch hj)
  · exact iff_of_true ⟨_, rfl⟩ fun j hj hne => absurd (Option.some.inj hj).symm hne
  · rename_i j hj
    constructor
    · rintro ⟨f, h⟩ j' heq _
      obtain rfl := Option.some.inj heq
      obtain ⟨f', hf', -⟩ := bind_eq_ok h
      exact (parseFilterInner_ok_iff d j).mp ⟨f', hf'⟩
    · intro h
      obtain ⟨f', hf'⟩ := (parseFilterInner_ok_iff d j).mpr (h j rfl hj)
      exact ⟨some f', bind_of_ok hf' rfl⟩

end

/-! ### Orderings, numbers and metrics -/

theorem parseOrder_object {es : List (String × Json)} {r : Option (Path × SortDir)}
    (h : parseOrder (some (.object es)) = .ok r) : ∃ p path, es.lookup "path" = some p ∧
      parsePath p = .ok path ∧
      r = some (path, if (es.lookup "dir").bind Json.asStr = some "desc" then .desc else .asc) := by
  obtain ⟨p, hp, h⟩ := bind_eq_ok h
  obtain ⟨path, hpath, h⟩ := bind_eq_ok h
  exact ⟨p, path, required_ok hp, hpath, (Except.ok.inj h).symm⟩

theorem parseOrder_other {v : Option Json} (h : ∀ es, v ≠ some (.object es)) :
    parseOrder v = .ok none := by
  unfold parseOrder
  split
  · exact absurd rfl (h _)
  · rfl

theorem parseOrder_ok_iff (v : Option Json) : (∃ r, parseOrder v = .ok r) ↔ OrderReadable v := by
  by_cases hobject : ∃ es, v = some (.object es)
  · obtain ⟨es, rfl⟩ := hobject
    constructor
    · rintro ⟨r, h⟩ es' heq
      cases heq
      obtain ⟨p, path, hp, hpath, -⟩ := parseOrder_object h
      exact ⟨p, hp, (parsePath_ok_iff p).mp ⟨path, hpath⟩⟩
    · intro h
      obtain ⟨p, hp, hread⟩ := h es rfl
      obtain ⟨path, hpath⟩ := (parsePath_ok_iff p).mpr hread
      have hrequired : required (es.lookup "path") "order needs path" = .ok p := by
        rw [hp]
        rfl
      exact ⟨_, bind_of_ok hrequired (bind_of_ok hpath rfl)⟩
  · have hother : ∀ es, v ≠ some (.object es) := fun es h => hobject ⟨es, h⟩
    exact iff_of_true ⟨none, parseOrder_other hother⟩ fun es h => absurd h (hother es)

theorem orderMeans_iff {v : Option Json} {r : Option (Path × SortDir)} (h : parseOrder v = .ok r) :
    OrderMeans v r ↔ OrderPlain v := by
  by_cases hobject : ∃ es, v = some (.object es)
  · obtain ⟨es, rfl⟩ := hobject
    obtain ⟨p, path, hp, hpath, rfl⟩ := parseOrder_object h
    constructor
    · intro hmeans
      cases hmeans with
      | order _ _ hdir =>
          refine .inr ⟨es, rfl, ?_⟩
          generalize (if (es.lookup "dir").bind Json.asStr = some "desc" then SortDir.desc
            else SortDir.asc) = sort at hdir
          generalize es.lookup "dir" = dir at hdir ⊢
          cases hdir with
          | absent habsent => exact .inl habsent
          | asc => exact .inr (.inl rfl)
          | desc => exact .inr (.inr rfl)
    · rintro (habsent | ⟨es', heq, hdir⟩)
      · rcases habsent with h | h <;> cases h
      · cases heq
        refine .order hp (parsePath_means hpath) ?_
        rcases hdir with (hdir | hdir) | hdir | hdir
        · rw [hdir]
          exact .absent (.inl rfl)
        · rw [hdir]
          exact .absent (.inr rfl)
        · rw [hdir]
          exact .asc
        · rw [hdir]
          exact .desc
  · have hother : ∀ es, v ≠ some (.object es) := fun es h => hobject ⟨es, h⟩
    rw [parseOrder_other hother] at h
    cases h
    constructor
    · intro hmeans
      cases hmeans with
      | absent habsent => exact .inl habsent
    · rintro (habsent | ⟨es, heq, -⟩)
      · exact .absent habsent
      · exact absurd heq (hother es)

theorem asU64_int (i : Int) :
    (Json.int i).asU64 = if 0 ≤ i ∧ i < 2 ^ 64 then some i.toNat else none := rfl

theorem numberMeans_iff (v : Option Json) : NumberMeans v (v.bind Json.asU64) ↔ NumberPlain v := by
  constructor
  · intro h
    generalize hr : v.bind Json.asU64 = r at h
    cases h with
    | absent habsent => exact .inl habsent
    | number n =>
        refine .inr ⟨n, ?_, rfl⟩
        rw [Option.bind_some, asU64_int] at hr
        split at hr
        · omega
        · cases hr
  · rintro ((rfl | rfl) | ⟨n, hn, rfl⟩)
    · exact .absent (.inl rfl)
    · exact .absent (.inr rfl)
    · rw [Option.bind_some, asU64_int, if_pos (by omega), Int.toNat_natCast]
      exact .number n

theorem parseMetricName_ok {s : String} {m : Metric} (h : parseMetricName s = .ok m) :
    s = metricText m := by
  unfold parseMetricName at h
  repeat' split at h
  all_goals cases h
  all_goals assumption

theorem parseMetricName_metricText (m : Metric) : parseMetricName (metricText m) = .ok m := by
  cases m <;> rfl

theorem parseMetricPath_ok_iff (v : Option Json) : (∃ path, parseMetricPath v = .ok path) ↔
    ∀ p, v = some p → p ≠ .null → PathReadable p := by
  unfold parseMetricPath
  split
  · exact iff_of_true ⟨_, rfl⟩ fun j hj => (nomatch hj)
  · exact iff_of_true ⟨_, rfl⟩ fun j hj hne => absurd (Option.some.inj hj).symm hne
  · rename_i p hp
    rw [parsePath_ok_iff]
    exact ⟨fun h p' heq _ => Option.some.inj heq ▸ h, fun h => h p rfl hp⟩

theorem parseMetric_ok {v : Json} {r : Metric × Path} (h : parseMetric v = .ok r) :
    ∃ es, v = .object es ∧
      parseMetricName (((es.lookup "metric").bind Json.asStr).getD "count") = .ok r.1 ∧
      parseMetricPath (es.lookup "path") = .ok r.2 := by
  cases v with
  | object es =>
      obtain ⟨m, hm, h⟩ := bind_eq_ok h
      obtain ⟨path, hpath, h⟩ := bind_eq_ok h
      cases h
      exact ⟨es, rfl, hm, hpath⟩
  | _ => cases h

theorem parseMetric_ok_iff (v : Json) : (∃ r, parseMetric v = .ok r) ↔ MetricReadable v := by
  constructor
  · rintro ⟨r, h⟩
    obtain ⟨es, rfl, hm, hpath⟩ := parseMetric_ok h
    refine ⟨es, rfl, fun s hs => ?_, (parseMetricPath_ok_iff _).mp ⟨_, hpath⟩⟩
    rw [hs] at hm
    exact ⟨r.1, parseMetricName_ok hm⟩
  · rintro ⟨es, rfl, hname, hpath⟩
    obtain ⟨path, hpath⟩ := (parseMetricPath_ok_iff _).mpr hpath
    obtain ⟨m, hm⟩ : ∃ m,
        parseMetricName (((es.lookup "metric").bind Json.asStr).getD "count") = .ok m := by
      cases hs : es.lookup "metric" with
      | none => exact ⟨.count, rfl⟩
      | some s =>
          cases s with
          | string s =>
              obtain ⟨m, rfl⟩ := hname s hs
              exact ⟨m, parseMetricName_metricText m⟩
          | _ => exact ⟨.count, rfl⟩
    exact ⟨(m, path), bind_of_ok hm (bind_of_ok hpath rfl)⟩

theorem metricMeans_iff {v : Json} {r : Metric × Path} (h : parseMetric v = .ok r) :
    MetricMeans v r ↔ ∃ es s, v = .object es ∧ es.lookup "metric" = some (.string s) := by
  obtain ⟨es, rfl, hm, hpath⟩ := parseMetric_ok h
  constructor
  · intro hmeans
    cases hmeans with
    | plain hs _ => exact ⟨es, _, rfl, hs⟩
    | of hs _ _ => exact ⟨es, _, rfl, hs⟩
  · rintro ⟨es', s, heq, hs⟩
    cases heq
    obtain ⟨m, path⟩ := r
    rw [hs] at hm
    obtain rfl := parseMetricName_ok hm
    unfold parseMetricPath at hpath
    split at hpath
    · cases hpath
      exact .plain hs (.inl ‹_›)
    · cases hpath
      exact .plain hs (.inr ‹_›)
    · rename_i p _ hp
      exact .of hs hp (parsePath_means hpath)

/-! ### Requests -/

section

variable {doctype : String} {body : Json}

theorem decodeRead_ok {r : ReadRequest} (h : decodeRead doctype body = .ok r) :
    parseOrder (body.get "order") = .ok r.opts.orderBy ∧
      parseFilterOf (body.get "filter") (some doctype) = .ok r.filter ∧
      parsePaths (body.get "fields") = .ok r.fields ∧
      r.opts.limit = (body.get "limit").bind Json.asU64 ∧
      r.opts.start = (body.get "start").bind Json.asU64 := by
  obtain ⟨filter, hfilter, h⟩ := bind_eq_ok h
  obtain ⟨fields, hfields, h⟩ := bind_eq_ok h
  obtain ⟨opts, hopts, h⟩ := bind_eq_ok h
  obtain ⟨order, horder, hopts⟩ := bind_eq_ok hopts
  cases hopts
  cases h
  exact ⟨horder, hfilter, hfields, rfl, rfl⟩

theorem decodeRead_ok_iff : (∃ r, decodeRead doctype body = .ok r) ↔ ReadAccepted body := by
  constructor
  · rintro ⟨r, h⟩
    obtain ⟨horder, hfilter, hfields, -, -⟩ := decodeRead_ok h
    exact ⟨(parseFilterOf_ok_iff _).mp ⟨_, hfilter⟩, (parsePaths_ok_iff _).mp ⟨_, hfields⟩,
      (parseOrder_ok_iff _).mp ⟨_, horder⟩⟩
  · rintro ⟨hfilter, hfields, horder⟩
    obtain ⟨filter, hfilter⟩ := (parseFilterOf_ok_iff (d := some doctype) _).mpr hfilter
    obtain ⟨fields, hfields⟩ := (parsePaths_ok_iff _).mpr hfields
    obtain ⟨order, horder⟩ := (parseOrder_ok_iff _).mpr horder
    exact ⟨_, bind_of_ok hfilter (bind_of_ok hfields (bind_of_ok (bind_of_ok horder rfl) rfl))⟩

theorem readMeans_iff {r : ReadRequest} (h : decodeRead doctype body = .ok r) :
    ReadMeans doctype body r ↔ ReadPlain body := by
  obtain ⟨horder, hfilter, hfields, hlimit, hstart⟩ := decodeRead_ok h
  constructor
  · rintro ⟨hfilter', -, horder', hlimit', hstart'⟩
    rw [hlimit] at hlimit'
    rw [hstart] at hstart'
    exact ⟨(filterPart_iff hfilter).mp hfilter', (orderMeans_iff horder).mp horder',
      (numberMeans_iff _).mp hlimit', (numberMeans_iff _).mp hstart'⟩
  · rintro ⟨hfilter', horder', hlimit', hstart'⟩
    refine ⟨(filterPart_iff hfilter).mpr hfilter', parsePaths_means hfields,
      (orderMeans_iff horder).mpr horder', ?_, ?_⟩
    · rw [hlimit]
      exact (numberMeans_iff _).mpr hlimit'
    · rw [hstart]
      exact (numberMeans_iff _).mpr hstart'

theorem decodeAggregate_ok {r : AggregateRequest} (h : decodeAggregate body = .ok r) :
    parseFilterOf (body.get "filter") none = .ok r.filter ∧
      parsePaths (body.get "group_by") = .ok r.groupBy ∧
      ∃ items, body.get "metrics" = some (.array items) ∧ items.mapM parseMetric = .ok r.metrics := by
  obtain ⟨filter, hfilter, h⟩ := bind_eq_ok h
  obtain ⟨groupBy, hgroup, h⟩ := bind_eq_ok h
  obtain ⟨metrics, hmetrics, h⟩ := bind_eq_ok h
  cases h
  refine ⟨hfilter, hgroup, ?_⟩
  unfold parseMetrics at hmetrics
  split at hmetrics
  · exact ⟨_, ‹_›, hmetrics⟩
  · cases hmetrics

theorem decodeAggregate_ok_iff :
    (∃ r, decodeAggregate body = .ok r) ↔ AggregateAccepted body := by
  constructor
  · rintro ⟨r, h⟩
    obtain ⟨hfilter, hgroup, items, hitems, hmetrics⟩ := decodeAggregate_ok h
    refine ⟨(parseFilterOf_ok_iff _).mp ⟨_, hfilter⟩, (parsePaths_ok_iff _).mp ⟨_, hgroup⟩,
      items, hitems, fun item hitem => (parseMetric_ok_iff item).mp ?_⟩
    exact mapM_ok_iff.mp ⟨_, hmetrics⟩ item hitem
  · rintro ⟨hfilter, hgroup, items, hitems, hmetrics⟩
    obtain ⟨filter, hfilter⟩ := (parseFilterOf_ok_iff (d := none) _).mpr hfilter
    obtain ⟨groupBy, hgroup⟩ := (parsePaths_ok_iff _).mpr hgroup
    obtain ⟨metrics, hmetrics⟩ := mapM_ok_iff.mpr fun item hitem =>
      (parseMetric_ok_iff item).mpr (hmetrics item hitem)
    have hparse : parseMetrics (body.get "metrics") = .ok metrics := by
      rw [hitems]
      exact hmetrics
    exact ⟨_, bind_of_ok hfilter (bind_of_ok hgroup (bind_of_ok hparse rfl))⟩

/-- Metrics that were accepted, one after the other. -/
theorem forall₂_metricMeans_iff {items : List Json} {rs : List (Metric × Path)}
    (h : List.Forall₂ (fun v r => parseMetric v = .ok r) items rs) :
    List.Forall₂ MetricMeans items rs ↔
      ∀ item ∈ items, ∃ es s, item = .object es ∧ es.lookup "metric" = some (.string s) := by
  induction h with
  | nil => exact iff_of_true .nil fun v hv => (nomatch hv)
  | cons hv _ ih => rw [List.forall₂_cons, List.forall_mem_cons, metricMeans_iff hv, ih]

theorem aggregateMeans_iff {r : AggregateRequest} (h : decodeAggregate body = .ok r) :
    AggregateMeans body r ↔ AggregatePlain body := by
  obtain ⟨hfilter, hgroup, items, hitems, hmetrics⟩ := decodeAggregate_ok h
  have hmeans := forall₂_metricMeans_iff (forall₂_of_mapM_ok hmetrics)
  constructor
  · rintro ⟨hfilter', -, items', hitems', hmetrics'⟩
    obtain rfl := Json.array.inj (Option.some.inj (hitems.symm.trans hitems'))
    refine ⟨(filterPart_iff hfilter).mp hfilter', fun items' hitems' => ?_⟩
    obtain rfl := Json.array.inj (Option.some.inj (hitems.symm.trans hitems'))
    exact hmeans.mp hmetrics'
  · rintro ⟨hfilter', hmetrics'⟩
    exact ⟨(filterPart_iff hfilter).mpr hfilter', parsePaths_means hgroup, items, hitems,
      hmeans.mpr (hmetrics' items hitems)⟩

end

/-- Where each accepted result is faithful if the input is plain, all are if what is accepted is
plain. -/
theorem faithful_of_iff {ε ρ : Type} {x : Except ε ρ} {accepted plain : Prop} {means : ρ → Prop}
    (hok : (∃ r, x = .ok r) ↔ accepted) (hmeans : ∀ r, x = .ok r → (means r ↔ plain)) :
    (∀ r, x = .ok r → means r) ↔ (accepted → plain) := by
  constructor
  · intro h haccepted
    obtain ⟨r, hr⟩ := hok.mpr haccepted
    exact (hmeans r hr).mp (h r hr)
  · intro h r hr
    exact (hmeans r hr).mpr (h (hok.mp ⟨r, hr⟩))

/-- What is accepted of `/read` is what the body stands for. -/
def ReadFaithful (doctype : String) (body : Json) : Prop :=
  ∀ r, decodeRead doctype body = .ok r → ReadMeans doctype body r

/-- What is accepted of `/aggregate` is what the body stands for. -/
def AggregateFaithful (body : Json) : Prop :=
  ∀ r, decodeAggregate body = .ok r → AggregateMeans body r

/-- The requests that are decoded as what their bodies stand for, or refused. -/
theorem query_faithful_iff (doctype : String) (body : Json) :
    (ReadFaithful doctype body ↔ (ReadAccepted body → ReadPlain body)) ∧
    (AggregateFaithful body ↔ (AggregateAccepted body → AggregatePlain body)) :=
  ⟨faithful_of_iff decodeRead_ok_iff fun _ => readMeans_iff,
    faithful_of_iff decodeAggregate_ok_iff fun _ => aggregateMeans_iff⟩

theorem not_readFaithful {doctype : String} {body : Json} (haccepted : ReadAccepted body)
    (h : ¬ ReadPlain body) : ¬ ReadFaithful doctype body := by
  intro hfaithful
  have hplain := (faithful_of_iff decodeRead_ok_iff fun _ => readMeans_iff).mp hfaithful
  exact h (hplain haccepted)

theorem not_readFaithful_filter {doctype : String} {filter : Json} (haccepted : FilterReadable filter)
    (h : ¬ FilterPlain filter) : ¬ ReadFaithful doctype (.object [("filter", filter)]) := by
  refine not_readFaithful ⟨fun v hv _ => ?_, .inl (.inl rfl), fun es h => (nomatch h)⟩ ?_
  · cases hv
    exact haccepted
  · intro hplain
    refine h (hplain.filter filter rfl ?_)
    rintro rfl
    cases haccepted

/-- An `and` beside a comparison, an operator and a value that are missing, a payload of another type,
an ordering and a limit of another shape, and a metric without a name. -/
theorem not_query_faithful :
    ¬ ReadFaithful "t" (.object [("filter", .object [("and", .array []), ("op", .string "eq"),
      ("path", .string "owner"), ("value", .string "me")])]) ∧
    ¬ ReadFaithful "t" (.object [("filter", .object [("path", .string "owner")])]) ∧
    ¬ ReadFaithful "t" (.object [("filter", .object [("op", .string "eq"), ("path", .string "age"),
      ("value", .object [("kind", .string "int"), ("v", .string "12")])])]) ∧
    ¬ ReadFaithful "t" (.object [("order", .array [.string "total"])]) ∧
    ¬ ReadFaithful "t" (.object [("limit", .string "20")]) ∧
    ¬ AggregateFaithful (.object [("metrics", .array [.object [("path", .string "total")]])]) := by
  refine ⟨not_readFaithful_filter ?_ ?_, not_readFaithful_filter ?_ ?_,
    not_readFaithful_filter ?_ ?_, not_readFaithful ?_ ?_, not_readFaithful ?_ ?_, ?_⟩
  · exact .all rfl fun item hitem => (nomatch hitem)
  · intro h
    cases congrArg List.length h.inv.1
  · exact .leaf rfl ⟨⟨_, rfl, .inl ⟨_, rfl⟩⟩, fun o ho => (nomatch ho), fun v _ _ hv => (nomatch hv)⟩
  · intro h
    cases h.inv.1
  · refine .leaf rfl ⟨⟨_, rfl, .inl ⟨_, rfl⟩⟩, fun o ho => ?_, fun v kind w hv hparts => ?_⟩
    · cases ho
      exact ⟨.eq, rfl⟩
    · cases hv
      cases hparts
      decide
  · intro h
    obtain ⟨-, p, o, v, -, -, hv, hclean⟩ := h.inv
    cases hv
    exact absurd hclean.2 (by decide)
  · exact ⟨fun v hv => (nomatch hv), .inl (.inl rfl), fun es h => (nomatch h)⟩
  · intro h
    rcases h.order with (h | h) | ⟨es, h, -⟩ <;> cases h
  · exact ⟨fun v hv => (nomatch hv), .inl (.inl rfl), fun es h => (nomatch h)⟩
  · intro h
    rcases h.limit with (h | h) | ⟨n, -, h⟩ <;> cases h
  · intro h
    have hplain := (faithful_of_iff decodeAggregate_ok_iff fun _ => aggregateMeans_iff).mp h
      ⟨fun v hv => (nomatch hv), .inl (.inl rfl), _, rfl, fun item hitem => ?_⟩
    · obtain ⟨es, s, hes, hs⟩ := hplain.metrics _ rfl _ List.mem_cons_self
      cases hes
      cases hs
    · obtain rfl := List.mem_singleton.mp hitem
      refine ⟨_, rfl, fun s hs => (nomatch hs), fun p hp _ => ?_⟩
      cases hp
      exact .inl ⟨_, rfl⟩

end Frust.Kernel.Query
