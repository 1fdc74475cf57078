import Frust.Kernel.Contract
import Frust.Rust.Str

/-!
# `Frust.Kernel.Surql`: contract values as query text

Every value, path and filter of a query goes through these functions. They check
before they embed, so a text they return has no part that the caller wrote freely.
-/

set_option autoImplicit false

namespace Frust.Kernel

open Frust.Rust.Str

/-- `MAX_PATH_DEPTH`. -/
def maxPathDepth : Nat := 3

/-- `escape_str`, for a single-quoted literal. -/
def escapeStr (s : String) : String :=
  String.ofList (s.toList.flatMap fun c =>
    if c = '\\' then ['\\', '\\'] else if c = '\'' then ['\\', '\''] else [c])

/-- `is_ident`. -/
def isIdent (s : String) : Bool :=
  !s.toList.isEmpty && s.toList.all fun c => isAsciiAlphanumeric c || c = '_'

/-- A decimal: digits, and at most one point between digits. -/
def isPlainDecimal (s : String) : Bool :=
  let parts := (((stripPrefix "-" s).getD s).toList).splitOn '.'
  parts.length ≤ 2 && parts.all fun p => !p.isEmpty && p.all isAsciiDigit

/-- The RFC 3339 shape check. -/
def isDatetimeShape (s : String) : Bool :=
  let cs := s.toList
  20 ≤ cs.length && cs[4]? = some '-' && cs[7]? = some '-' &&
    (cs[10]? = some 'T' || cs[10]? = some ' ') &&
    cs.all fun c => isAsciiDigit c || "-T:.Z+ ".toList.contains c

/-- The duration check. -/
def isDurationShape (s : String) : Bool :=
  !s.toList.isEmpty && s.toList.all fun c => isAsciiDigit c || "nsumhdwy".toList.contains c

/-- `split_once(':')`. -/
def splitRecordId (s : String) : Option (String × String) :=
  match s.toList.dropWhile (· ≠ ':') with
  | [] => none
  | _ :: key => some (String.ofList (s.toList.takeWhile (· ≠ ':')), String.ofList key)

/-- `bad` of `render_value`. -/
def badValue {α : Type} (detail : String) : Except BrokerError α := .error (.invalidValue detail)

mutual

/-- `render_value`. -/
def renderValue : Value → Except BrokerError String
  | .null => .ok "NONE"
  | .bool b => .ok (if b then "true" else "false")
  | .int i => .ok (toString i)
  | .float x =>
      if x = "NaN" ∨ x = "inf" ∨ x = "-inf" then badValue "non-finite float" else .ok (x ++ "f")
  | .decimal s =>
      if isPlainDecimal s then .ok (s ++ "dec")
      else badValue "decimal must be a plain numeric string"
  | .datetime s =>
      if isDatetimeShape s then .ok ("d'" ++ escapeStr s ++ "'")
      else badValue "datetime must be RFC3339"
  | .duration s => if isDurationShape s then .ok s else badValue "bad duration"
  | .recordId s =>
      match splitRecordId s with
      | none => badValue "record id needs table:key"
      | some (tb, key) =>
          if !isIdent tb || key.toList.isEmpty then badValue "bad record id"
          else .ok ("type::record('" ++ escapeStr s ++ "')")
  | .text s => .ok ("'" ++ escapeStr s ++ "'")
  | .list items => do
      let parts ← renderItems items
      return "[" ++ ", ".intercalate parts ++ "]"
  | .object entries => do
      let parts ← renderEntries entries
      return "\x7b " ++ ", ".intercalate parts ++ " \x7d"

/-- `render_value` on each item. -/
def renderItems : List Value → Except BrokerError (List String)
  | [] => .ok []
  | v :: rest => do
      let part ← renderValue v
      let parts ← renderItems rest
      return part :: parts

/-- `render_value` on each entry. -/
def renderEntries : List (String × Value) → Except BrokerError (List String)
  | [] => .ok []
  | (k, v) :: rest => do
      if !isIdent k then badValue "object keys must be identifiers"
      let part ← renderValue v
      let parts ← renderEntries rest
      return (k ++ ": " ++ part) :: parts

end

/-- One segment of a path, at index `i`. -/
def renderSegment (i : Nat) : PathSegment → Except BrokerError String
  | .field name | .linkHop name =>
      if isIdent name then .ok ((if i > 0 then "." else "") ++ name)
      else badValue ("bad field name: " ++ name)
  | .edge direction edgeType =>
      if isIdent edgeType then
        match direction with
        | .out => .ok ("->" ++ edgeType ++ "->?")
        | .inward => .ok ("<-" ++ edgeType ++ "<-?")
      else badValue "bad edge type"

/-- The segments from index `i`, and the text so far. -/
def renderSegments : (i : Nat) → Path → (out : String) → Except BrokerError String
  | _, [], out => .ok out
  | i, seg :: rest, out => do
      let text ← renderSegment i seg
      renderSegments (i + 1) rest (out ++ text)

/-- `render_path`. -/
def renderPath (path : Path) : Except BrokerError String :=
  if path.isEmpty || path.length > maxPathDepth then .error (.pathTooDeep maxPathDepth)
  else renderSegments 0 path ""

/-- The text of an operator. -/
def CmpOp.text : CmpOp → String
  | eq => "="
  | ne => "!="
  | gt => ">"
  | gte => ">="
  | lt => "<"
  | lte => "<="
  | inside => "INSIDE"
  | contains => "CONTAINS"

mutual

/-- `render_filter`. -/
def renderFilter : Filter → Except BrokerError String
  | .all fs => do
      let parts ← renderFilters fs
      return "(" ++ " AND ".intercalate parts ++ ")"
  | .any fs => do
      let parts ← renderFilters fs
      return "(" ++ " OR ".intercalate parts ++ ")"
  | .not inner => do
      let part ← renderFilter inner
      return "(!(" ++ part ++ "))"
  | .cmp path op value => do
      let left ← renderPath path
      let right ← renderValue value
      return left ++ " " ++ op.text ++ " " ++ right

/-- `render_filter` on each part. -/
def renderFilters : List Filter → Except BrokerError (List String)
  | [] => .ok []
  | f :: rest => do
      let part ← renderFilter f
      let parts ← renderFilters rest
      return part :: parts

end

mutual

/-- `filter_has_range`. -/
def filterHasRange : Filter → Bool
  | .all fs | .any fs => filtersHaveRange fs
  | .not inner => filterHasRange inner
  | .cmp _ op _ => op.isRange

/-- Some part has a range. -/
def filtersHaveRange : List Filter → Bool
  | [] => false
  | f :: rest => filterHasRange f || filtersHaveRange rest

end

end Frust.Kernel
