import Frust.Kernel.Sync
import Frust.Lib.Rounding

/-!
# `Frust.Kernel.Wire`: values as they come in JSON

A value comes as plain JSON, whose type is inferred, or in an envelope `{"kind": …, "v": …}` that
names its type. An envelope is decoded at any depth; one of an unknown kind is refused at the top
and taken as a plain object below it. A written document has one more rule, for money.
-/

set_option autoImplicit false

namespace Frust.Kernel

open Frust.Rust

/-! ### JSON as text -/

/-- A character in a JSON string. -/
def jsonChar (c : Char) : String :=
  if c = '"' then "\\\"" else if c = '\\' then "\\\\" else if c = '\n' then "\\n"
  else if c = '\r' then "\\r" else if c = '\t' then "\\t" else if c = '\x08' then "\\b"
  else if c = '\x0c' then "\\f"
  else if c.toNat < 0x20 then
    "\\u00" ++ (if c.toNat < 0x10 then "0" else "1") ++ String.ofList (Nat.toDigits 16 (c.toNat % 16))
  else String.ofList [c]

/-- A JSON string. -/
def jsonString (s : String) : String := "\"" ++ String.join (s.toList.map jsonChar) ++ "\""

namespace Json

mutual

/-- `to_string`. -/
def text : Json → String
  | null => "null"
  | bool b => if b then "true" else "false"
  | int i => toString i
  | float text => text
  | string s => jsonString s
  | array items => "[" ++ ",".intercalate (itemTexts items) ++ "]"
  | object entries => "\x7b" ++ ",".intercalate (entryTexts entries) ++ "\x7d"

/-- `to_string` on each item. -/
def itemTexts : List Json → List String
  | [] => []
  | v :: rest => text v :: itemTexts rest

/-- `to_string` on each entry. -/
def entryTexts : List (String × Json) → List String
  | [] => []
  | (k, v) :: rest => (jsonString k ++ ":" ++ text v) :: entryTexts rest

end

/-- `as_i64`, for a number in its range. -/
def asI64 : Json → Option Int
  | int i => if -2 ^ 63 ≤ i ∧ i < 2 ^ 63 then some i else none
  | _ => none

/-- `as_u64`, for a number in its range. -/
def asU64 : Json → Option Nat
  | int i => if 0 ≤ i ∧ i < 2 ^ 64 then some i.toNat else none
  | _ => none

/-- An integer `as f64`, which keeps 53 bits. -/
def double (i : Int) : Int :=
  let unit := 2 ^ (Nat.log2 i.natAbs - 52)
  let m := Lib.roundQuotient .halfEven (i.natAbs / unit) (i.natAbs % unit) unit * unit
  if i < 0 then -(m : Int) else m

/-- `as_f64`, as it is printed. -/
def asF64 : Json → Option String
  | int i => some (toString (double i))
  | float text => some text
  | _ => none

/-- `as_bool`. -/
def asBool : Json → Option Bool
  | bool b => some b
  | _ => none

end Json

/-! ### Values -/

/-- `typed_value`. -/
def typedValue (kind : String) (v : Json) : Except BrokerError Value :=
  let s := v.asStr.getD ""
  if kind = "null" then .ok .null
  else if kind = "bool" then .ok (.bool (v.asBool.getD false))
  else if kind = "int" then .ok (.int (v.asI64.getD 0))
  else if kind = "float" then .ok (.float (v.asF64.getD "0"))
  else if kind = "decimal" then .ok (.decimal (if v.asStr.isSome then s else v.text))
  else if kind = "text" then .ok (.text s)
  else if kind = "datetime" then .ok (.datetime s)
  else if kind = "duration" then .ok (.duration s)
  else if kind = "record" then .ok (.recordId s)
  else badValue ("unknown value kind: " ++ kind)

/-- The value of an envelope; nothing for JSON that is none. -/
def envelopeValue (v : Json) : Option (Except BrokerError Value) := do
  let kind ← (← v.get "kind").asStr
  let val ← v.get "v"
  return typedValue kind val

mutual

/-- `infer_value`. -/
def inferValue : Json → Value
  | .null => .null
  | .bool b => .bool b
  | .int i =>
      match (Json.int i).asI64 with
      | some i => .int i
      | none => .float (toString (Json.double i))
  | .float text => .float text
  | .string s => .text s
  | .array items => .list (inferItems items)
  | .object entries => .object (inferEntries entries)

/-- The items of a list: what is no good envelope is inferred. -/
def inferItems : List Json → List Value
  | [] => []
  | v :: rest =>
      (match envelopeValue v with
        | some (.ok x) => x
        | _ => inferValue v) :: inferItems rest

/-- The entries of an object. -/
def inferEntries : List (String × Json) → List (String × Value)
  | [] => []
  | (k, v) :: rest =>
      (k, match envelopeValue v with
        | some (.ok x) => x
        | _ => inferValue v) :: inferEntries rest

end

/-- `parse_value`. -/
def parseValue (v : Json) : Except BrokerError Value := (envelopeValue v).getD (.ok (inferValue v))

/-! ### Documents -/

/-- A field of a written document. -/
def parseWriteField (currency : Bool) (fieldname : String) (raw : Json) :
    Except BrokerError Value :=
  match currency, raw with
  | true, .string decimal => .ok (.decimal decimal)
  | true, .int i =>
      if (Json.int i).asI64.isNone ∧ (Json.int i).asU64.isNone then
        badValue ("money field '" ++ fieldname ++ "' must be a decimal string, not a float")
      else parseValue (.int i)
  | true, .float _ =>
      badValue ("money field '" ++ fieldname ++ "' must be a decimal string, not a float")
  | _, raw => parseValue raw

/-- The field is one of the DocType's, and it is money. -/
def DocTypeDef.isCurrency (dt : DocTypeDef) (fieldname : String) : Bool :=
  dt.fields.any fun f => f.fieldname = fieldname && f.fieldtype = "Currency"

/-- `parse_write_doc`, with what `load_doctypes` answers. -/
def parseWriteDoc (loaded : Except BrokerError (List DocTypeDef)) (doctype : String)
    (v : Option Json) : Except BrokerError Doc :=
  match v with
  | some (.object doc) => do
      let doctypes ← loaded
      match doctypes.find? (·.name = doctype) with
      | none => .error (.unknownDoctype doctype)
      | some dt => doc.mapM fun (fieldname, raw) => do
          let value ← parseWriteField (dt.isCurrency fieldname) fieldname raw
          return (fieldname, value)
  | _ => badValue "doc/payload must be an object"

end Frust.Kernel
