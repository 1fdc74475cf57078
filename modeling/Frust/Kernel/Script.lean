import Frust.Kernel.Wire
import Frust.Lib.Sorted
import Mathlib.Data.String.Basic

/-!
# `Frust.Kernel.Script`: documents on their way to scripts and hooks

A script sees a document as a JavaScript object and leaves one. The engine around it writes down
the kind of each field on the way in and puts it back on the way out. What comes as a decimal
leaves as a decimal or not at all.

A scalar crosses to a guest as a scalar of its own kind. A list or an object crosses as JSON text,
which has fewer kinds, and whose objects are maps sorted by key. What reads the text is a library's:
here it is the function from the JSON that was written to the JSON that is read.
-/

set_option autoImplicit false

namespace Frust.Kernel

open Frust.Rust.Str

/-- `plugin::Value`. A list or an object is its JSON. -/
inductive Wit where
  | nullV
  | boolV (b : Bool)
  | intV (i : Int)
  | floatV (text : String)
  | decimalV (s : String)
  | textV (s : String)
  | datetimeV (s : String)
  | durationV (s : String)
  | recordIdV (s : String)
  | compoundV (raw : Json)

/-- The characters of a literal after its sign: a point was seen, and so many digits. -/
def literalScan : List Char → (seenDot : Bool) → (digits : Nat) → Bool
  | [], _, digits => 0 < digits
  | c :: cs, seenDot, digits =>
      if c = '.' ∧ seenDot = false then literalScan cs true digits
      else if isAsciiDigit c then literalScan cs seenDot (digits + 1)
      else false

/-- `is_decimal_literal`. -/
def isDecimalLiteral (s : String) : Bool :=
  let t := ((stripPrefix "-" s).orElse fun _ => stripPrefix "+" s).getD s
  if t.toList.isEmpty then false else literalScan t.toList false 0

/-- `decimal_out`. -/
def decimalOut (v : Json) (key : String) : Except String Wit :=
  match v with
  | .string s =>
      if isDecimalLiteral s then .ok (.decimalV s)
      else .error ("Currency field '" ++ key ++ "' was set to \"" ++ s
        ++ "\", which is not a number. [FRUST:E_MONEY_NOT_NUMERIC]")
  | .int _ | .float _ =>
      match v.asI64 with
      | some i => .ok (.decimalV (toString i))
      | none => .error ("Currency field '" ++ key ++ "' was computed as a floating-point number ("
          ++ v.text ++ "). Money must stay exact — round it and write it back as a string. "
          ++ "[FRUST:E_MONEY_FLOAT]")
  | .null => .ok .nullV
  | .bool _ => .error ("Currency field '" ++ key ++ "' was replaced with a true/false value. "
      ++ "[FRUST:E_MONEY_TYPE]")
  | _ => .error ("Currency field '" ++ key ++ "' was replaced with a list or object. "
      ++ "[FRUST:E_MONEY_TYPE]")

/-- `infer`. -/
def Wit.infer : Json → Wit
  | .null => .nullV
  | .bool b => .boolV b
  | .int i =>
      match (Json.int i).asI64 with
      | some i => .intV i
      | none => .floatV (toString (Json.double i))
  | .float text => .floatV text
  | .string s => .textV s
  | other => .compoundV other

/-- `from_json`. -/
def Wit.fromJson (v : Json) (inputKind : Option Wit) (key : String) : Except String Wit :=
  match inputKind with
  | some (.decimalV _) => decimalOut v key
  | some (.datetimeV _) => .ok (match v.asStr with | some s => .datetimeV s | none => infer v)
  | some (.durationV _) => .ok (match v.asStr with | some s => .durationV s | none => infer v)
  | some (.recordIdV _) => .ok (match v.asStr with | some s => .recordIdV s | none => infer v)
  | some (.intV _) => .ok (match v.asI64 with | some i => .intV i | none => infer v)
  | some (.floatV _) => .ok (match v.asF64 with | some text => .floatV text | none => infer v)
  | _ => .ok (infer v)

/-- The document that a script left, field by field, with the kinds of the document that it was
given. -/
def scriptOut (kinds : String → Option Wit) (map : List (String × Json)) :
    Except String (List (String × Wit)) :=
  map.mapM fun (k, v) => do
    let val ← Wit.fromJson v (kinds k) k
    return (k, val)

mutual

/-- `json_to_contract`. -/
def jsonToContract : Json → Value
  | .null => .null
  | .bool b => .bool b
  | .int i =>
      match (Json.int i).asI64 with
      | some i => .int i
      | none => .float (toString (Json.double i))
  | .float text => .float text
  | .string s => .text s
  | .array items => .list (contractItems items)
  | .object entries => .object (contractEntries entries)

/-- `json_to_contract` on each item. -/
def contractItems : List Json → List Value
  | [] => []
  | v :: rest => jsonToContract v :: contractItems rest

/-- `json_to_contract` on each entry. -/
def contractEntries : List (String × Json) → List (String × Value)
  | [] => []
  | (k, v) :: rest => (k, jsonToContract v) :: contractEntries rest

end

/-- `from_wit`. -/
def Wit.toValue : Wit → Value
  | .nullV => .null
  | .boolV b => .bool b
  | .intV i => .int i
  | .floatV text => .float text
  | .decimalV s => .decimal s
  | .textV s => .text s
  | .datetimeV s => .datetime s
  | .durationV s => .duration s
  | .recordIdV s => .recordId s
  | .compoundV raw => jsonToContract raw

/-! ### Documents on their way to a hook and back -/

open Frust.Lib

/-- The floats that are no JSON numbers. -/
def nonFinite : List String := ["NaN", "inf", "-inf"]

mutual

/-- `contract_to_json`. -/
def contractToJson : Value → Json
  | .null => .null
  | .bool b => .bool b
  | .int i => .int i
  | .float text => if text ∈ nonFinite then .null else .float text
  | .decimal s | .text s | .datetime s | .duration s | .recordId s => .string s
  | .list items => .array (contractToItems items)
  | .object entries => .object (collect (contractToEntries entries))

/-- `contract_to_json` on each item. -/
def contractToItems : List Value → List Json
  | [] => []
  | v :: rest => contractToJson v :: contractToItems rest

/-- `contract_to_json` on each entry. -/
def contractToEntries : List (String × Value) → List (String × Json)
  | [] => []
  | (k, v) :: rest => (k, contractToJson v) :: contractToEntries rest

end

namespace Json

mutual

/-- How deep lists and objects are nested. -/
def depth : Json → Nat
  | array items => depthItems items + 1
  | object entries => depthEntries entries + 1
  | null | bool _ | int _ | float _ | string _ => 0

/-- The depth of the deepest item. -/
def depthItems : List Json → Nat
  | [] => 0
  | v :: rest => max (depth v) (depthItems rest)

/-- The depth of the deepest entry. -/
def depthEntries : List (String × Json) → Nat
  | [] => 0
  | (_, v) :: rest => max (depth v) (depthEntries rest)

end

mutual

/-- Changes the texts of the floats. -/
def mapFloats (f : String → String) : Json → Json
  | null => null
  | bool b => bool b
  | int i => int i
  | float text => float (f text)
  | string s => string s
  | array items => array (mapItems f items)
  | object entries => object (mapEntries f entries)

/-- `mapFloats` on each item. -/
def mapItems (f : String → String) : List Json → List Json
  | [] => []
  | v :: rest => mapFloats f v :: mapItems f rest

/-- `mapFloats` on each entry. -/
def mapEntries (f : String → String) : List (String × Json) → List (String × Json)
  | [] => []
  | (k, v) :: rest => (k, mapFloats f v) :: mapEntries f rest

end

/-- How the text of JSON is read again. A number may come back as another float, and there is a
limit to the depth: nothing is read of what is deeper. -/
structure ReadsText (readFloat : String → String) (reread : Json → Option Json) : Prop where
  shallow (j : Json) : j.depth ≤ 127 → reread j = some (j.mapFloats readFloat)
  deep (j : Json) : 127 < j.depth → reread j = none

end Json

section

variable (reread : Json → Option Json)

/-- The JSON of a compound's text, as it is read on the other side. -/
def compound (v : Value) : Wit := .compoundV ((reread (contractToJson v)).getD .null)

/-- `to_wit`. -/
def toWit : Value → Wit
  | .null => .nullV
  | .bool b => .boolV b
  | .int i => .intV i
  | .float text => .floatV text
  | .decimal s => .decimalV s
  | .text s => .textV s
  | .datetime s => .datetimeV s
  | .duration s => .durationV s
  | .recordId s => .recordIdV s
  | .list items => compound reread (.list items)
  | .object entries => compound reread (.object entries)

/-- `doc_to_wit`. -/
def docToWit (doc : Doc) : List (String × Wit) := doc.map fun (k, v) => (k, toWit reread v)

end

/-- `doc_from_wit`. -/
def docFromWit (entries : List (String × Wit)) : Doc := entries.map fun (k, w) => (k, w.toValue)

end Frust.Kernel
