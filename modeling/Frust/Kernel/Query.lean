import Frust.Kernel.Wire

/-!
# `Frust.Kernel.Query`: the requests of `/read` and `/aggregate`

The body of a request is JSON: a filter, the paths of the fields or groups, an ordering, a limit and
a start, or metrics. A filter is a tree. At each object the first of `and`, `or` and `not` decides,
and an object with none of them is a comparison.

Under `/read` a string that is compared with `id` is a record id, in full or the key alone.
-/

set_option autoImplicit false

namespace Frust.Kernel

open Frust.Rust

/-- `ok_or_else`. -/
def required (v : Option Json) (detail : String) : Except BrokerError Json :=
  match v with
  | some v => .ok v
  | none => badValue detail

/-! ### Paths -/

/-- A segment of a path that comes as an array. -/
def parseSegment (seg : Json) : Except BrokerError PathSegment :=
  match seg.asStr with
  | some s => .ok (.field s)
  | none => badValue "path segment must be a string"

/-- `parse_path`. -/
def parsePath : Json → Except BrokerError Path
  | .string s => .ok ((Str.split '.' s).map .field)
  | .array a => a.mapM parseSegment
  | _ => badValue "path must be string or array"

/-- `parse_paths`. -/
def parsePaths : Option Json → Except BrokerError (List Path)
  | none | some .null => .ok []
  | some (.array a) => a.mapM parsePath
  | _ => badValue "expected array of paths"

/-- `parse_fields`. -/
def parseFields (v : Option Json) : Except BrokerError (List Path) := parsePaths v

/-! ### Filters -/

/-- The operator of a comparison. -/
def parseOp (op : String) : Except BrokerError CmpOp :=
  if op = "eq" then .ok .eq
  else if op = "ne" then .ok .ne
  else if op = "gt" then .ok .gt
  else if op = "gte" then .ok .gte
  else if op = "lt" then .ok .lt
  else if op = "lte" then .ok .lte
  else if op = "inside" then .ok .inside
  else if op = "contains" then .ok .contains
  else badValue ("unknown op: " ++ op)

/-- The record that an id names, in full or by its key. -/
def recordOf (doctype id : String) : String :=
  if Str.contains ":" id then id else doctype ++ ":" ++ id

/-- The value that is compared with. -/
def parseCompared (readDoctype : Option String) (path : Path) (raw : Json) :
    Except BrokerError Value :=
  match readDoctype, path, raw with
  | some doctype, [.field "id"], .string id => .ok (.recordId (recordOf doctype id))
  | _, _, raw => parseValue raw

/-- A comparison: path, operator and value. -/
def parseLeaf (obj : List (String × Json)) (readDoctype : Option String) :
    Except BrokerError Filter := do
  let path ← parsePath (← required (obj.lookup "path") "filter leaf needs path")
  let op ← parseOp (((obj.lookup "op").bind Json.asStr).getD "eq")
  let value ← parseCompared readDoctype path ((obj.lookup "value").getD .null)
  return .cmp path op value

/-- What is looked up is smaller. -/
theorem sizeOf_lookup {k : String} {v : Json} {obj : List (String × Json)}
    (h : obj.lookup k = some v) : sizeOf v < sizeOf obj := by
  induction obj with
  | nil => cases h
  | cons e rest ih =>
      obtain ⟨k', v'⟩ := e
      rw [List.lookup_cons] at h
      split at h
      · cases h
        simp only [List.cons.sizeOf_spec, Prod.mk.sizeOf_spec]
        omega
      · have := ih h
        simp only [List.cons.sizeOf_spec]
        omega

mutual

/-- `parse_filter_inner`. -/
def parseFilterInner (v : Json) (readDoctype : Option String) : Except BrokerError Filter :=
  match v with
  | .object obj =>
      match _hand : obj.lookup "and" with
      | some (.array arr) => do return .all (← parseFilters arr readDoctype)
      | _ =>
          match _hor : obj.lookup "or" with
          | some (.array arr) => do return .any (← parseFilters arr readDoctype)
          | _ =>
              match _hnot : obj.lookup "not" with
              | some inner => do return .not (← parseFilterInner inner readDoctype)
              | none => parseLeaf obj readDoctype
  | _ => badValue "filter must be object"
termination_by sizeOf v
decreasing_by
  · have := sizeOf_lookup _hand
    simp only [Json.array.sizeOf_spec, Json.object.sizeOf_spec] at this ⊢
    omega
  · have := sizeOf_lookup _hor
    simp only [Json.array.sizeOf_spec, Json.object.sizeOf_spec] at this ⊢
    omega
  · have := sizeOf_lookup _hnot
    simp only [Json.object.sizeOf_spec]
    omega

/-- The filters under `and` and `or`. -/
def parseFilters (arr : List Json) (readDoctype : Option String) :
    Except BrokerError (List Filter) :=
  match arr with
  | [] => .ok []
  | v :: rest => do
      let f ← parseFilterInner v readDoctype
      return f :: (← parseFilters rest readDoctype)
termination_by sizeOf arr

end

/-- A filter that may be left out. -/
def parseFilterOf (v : Option Json) (readDoctype : Option String) :
    Except BrokerError (Option Filter) :=
  match v with
  | none | some .null => .ok none
  | some v => do return some (← parseFilterInner v readDoctype)

/-- `parse_filter`. -/
def parseFilter (v : Option Json) : Except BrokerError (Option Filter) := parseFilterOf v none

/-- `parse_read_filter`. -/
def parseReadFilter (v : Option Json) (doctype : String) : Except BrokerError (Option Filter) :=
  parseFilterOf v (some doctype)

/-! ### Options and metrics -/

/-- The ordering. -/
def parseOrder : Option Json → Except BrokerError (Option (Path × SortDir))
  | some (.object o) => do
      let path ← parsePath (← required (o.lookup "path") "order needs path")
      let dir := if (o.lookup "dir").bind Json.asStr = some "desc" then .desc else .asc
      return some (path, dir)
  | _ => .ok none

/-- `parse_opts`. -/
def parseOpts (json : Json) : Except BrokerError ReadOpts := do
  let orderBy ← parseOrder (json.get "order")
  return {
    orderBy
    limit := (json.get "limit").bind Json.asU64
    start := (json.get "start").bind Json.asU64 }

/-- The function of a metric. -/
def parseMetricName (metric : String) : Except BrokerError Metric :=
  if metric = "count" then .ok .count
  else if metric = "sum" then .ok .sum
  else if metric = "min" then .ok .min
  else if metric = "max" then .ok .max
  else if metric = "avg" then .ok .avg
  else badValue ("unknown metric: " ++ metric)

/-- The path of a metric. -/
def parseMetricPath : Option Json → Except BrokerError Path
  | none | some .null => .ok []
  | some p => parsePath p

/-- One metric. -/
def parseMetric : Json → Except BrokerError (Metric × Path)
  | .object o => do
      let metric ← parseMetricName (((o.lookup "metric").bind Json.asStr).getD "count")
      let path ← parseMetricPath (o.lookup "path")
      return (metric, path)
  | _ => badValue "metric must be object"

/-- `parse_metrics`. -/
def parseMetrics : Option Json → Except BrokerError (List (Metric × Path))
  | some (.array arr) => arr.mapM parseMetric
  | _ => badValue "metrics must be an array"

/-! ### Requests -/

/-- What `/read` asks the broker for. -/
structure ReadRequest where
  filter : Option Filter
  fields : List Path
  opts : ReadOpts

/-- The body of `/read/{doctype}`. -/
def decodeRead (doctype : String) (json : Json) : Except BrokerError ReadRequest := do
  let filter ← parseReadFilter (json.get "filter") doctype
  let fields ← parseFields (json.get "fields")
  let opts ← parseOpts json
  return { filter, fields, opts }

/-- What `/aggregate` asks the broker for. -/
structure AggregateRequest where
  filter : Option Filter
  groupBy : List Path
  metrics : List (Metric × Path)

/-- The body of `/aggregate/{doctype}`. -/
def decodeAggregate (json : Json) : Except BrokerError AggregateRequest := do
  let filter ← parseFilter (json.get "filter")
  let groupBy ← parsePaths (json.get "group_by")
  let metrics ← parseMetrics (json.get "metrics")
  return { filter, groupBy, metrics }

end Frust.Kernel
