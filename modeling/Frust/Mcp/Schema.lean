import Frust.Kernel.Wire

/-!
# `Frust.Mcp.Schema`: documents of the MCP server

`objectSchema` describes a DocType to a client, with its child tables inside; the DocTypes on the way
are `seen` and not entered again. `encodeDoc` makes a client's document into what the kernel reads: a
decimal and a record id go in envelopes, in the child rows too.

A document is JSON, whose objects have each name once.
-/

set_option autoImplicit false

namespace Frust.Mcp

open Frust.Kernel Frust.Rust

/-- The DocTypes that the kernel lists. A name is one DocType's. -/
structure DocTypeSet where
  list : List DocTypeDef
  distinct : (list.map (·.name)).Nodup

namespace DocTypeSet

/-- `byName.get`, for the map of the DocTypes by their names. -/
def byName (types : DocTypeSet) (name : String) : Option DocTypeDef :=
  types.list.reverse.find? (·.name = name)

end DocTypeSet

/-- `fields.get`, for the map of a DocType's fields: of two with one name, the last. -/
def fieldOf (doctype : DocTypeDef) (name : String) : Option FieldDef :=
  doctype.fields.reverse.find? (·.fieldname = name)

/-- `optionList`. -/
def optionList (field : FieldDef) : List String := field.options.filter (· ≠ "")

/-- The child DocType that a table's first option names, where there is one. -/
def childOf (types : DocTypeSet) (field : FieldDef) : Option (String × DocTypeDef) := do
  let childName ← (optionList field).head?
  let child ← types.byName childName
  return (childName, child)

/-! ### Schemas -/

/-- The assignment of a property. One that is named `__proto__` sets the prototype. -/
def assign (props : List (String × Json)) (name : String) (v : Json) : List (String × Json) :=
  if name = "__proto__" then props
  else if props.any (·.1 = name) then props.map fun e => if e.1 = name then (name, v) else e
  else props ++ [(name, v)]

/-- A schema with its description. -/
def described (props : List (String × Json)) (description : String) : Json :=
  .object (props ++ [("description", .string description)])

/-- The schema of a link. -/
def linkSchema (field : FieldDef) (description : String) : Json :=
  let targets := optionList field
  let names := Json.array (targets.map .string)
  match targets with
  | [] => described [("type", .string "string")] description
  | [target] =>
      described [("type", .string "string"), ("x-frust-link-doctypes", names),
          ("x-frust-link-doctype", .string target)]
        (description ++ "; target DocType: " ++ target)
  | _ =>
      described [("type", .string "string"), ("x-frust-link-doctypes", names)]
        (description ++ "; target DocTypes: " ++ ", ".intercalate targets)

/-- The schema of a table. `nested` is the schema of a DocType, with what is seen on the way to it. -/
def tableSchema (types : DocTypeSet) (seen : List String)
    (nested : DocTypeDef → List String → Option Json) (field : FieldDef) (description : String) :
    Option Json :=
  let rows (description : String) :=
    described [("type", .string "array"), ("items", .object [("type", .string "object")])] description
  match (optionList field).head? with
  | none => some (rows (description ++ "; embedded child rows"))
  | some childName =>
      match types.byName childName with
      | none => some (rows (description ++ "; child DocType " ++ childName))
      | some child =>
          if seen.contains childName then
            some (rows (description ++ "; child DocType " ++ childName))
          else do
            let items ← nested child (seen ++ [childName])
            return described [("type", .string "array"), ("items", items),
                ("x-frust-child-doctype", .string childName)]
              (description ++ "; embedded child rows of " ++ childName)

/-- `schemaForField`. -/
def schemaForField (types : DocTypeSet) (seen : List String)
    (nested : DocTypeDef → List String → Option Json) (field : FieldDef) : Option Json :=
  let description := field.fieldname ++ " (" ++ field.fieldtype ++ ")"
  let typed (name : String) := described [("type", .string name)] description
  if field.fieldtype = "Currency" then
    some (described
      [("type", .string "string"), ("pattern", .string "^-?(?:0|[1-9]\\d*)(?:\\.\\d+)?$")]
      (field.fieldname ++ " (Currency): exact decimal STRING; never send a JSON number"))
  else if field.fieldtype = "Int" then some (typed "integer")
  else if field.fieldtype = "Float" then some (typed "number")
  else if field.fieldtype = "Check" then some (typed "boolean")
  else if field.fieldtype = "Select" then
    match optionList field with
    | [] => some (typed "string")
    | options =>
        some (described [("type", .string "string"), ("enum", .array (options.map .string))]
          description)
  else if field.fieldtype = "Link" then some (linkSchema field description)
  else if field.fieldtype = "Table" then tableSchema types seen nested field description
  else some (typed "string")

/-- `objectSchema`, with at most `fuel` calls within each other. -/
def objectSchema (types : DocTypeSet) : (fuel : Nat) → DocTypeDef → (seen : List String) →
    (includeRequired : Bool) → Option Json
  | 0, _, _, _ => none
  | fuel + 1, doctype, seen, includeRequired => do
      let schemas ← doctype.fields.mapM fun field => do
        let schema ← schemaForField types seen
          (fun child seen => objectSchema types fuel child seen false) field
        return (field.fieldname, schema)
      let properties := schemas.foldl (fun props e => assign props e.1 e.2) []
      let required := (doctype.fields.filter (·.required)).map (·.fieldname)
      return .object ([("type", .string "object"), ("properties", .object properties),
          ("additionalProperties", .bool false)] ++
        if includeRequired && !required.isEmpty then
          [("required", .array (required.map .string))]
        else [])

/-! ### Documents -/

/-- The digits before the point: none but a single zero begins with one. -/
def isWholePart : List Char → Bool
  | [] => false
  | c :: rest => (c = '0' && rest.isEmpty) || ('1' ≤ c && c ≤ '9' && rest.all Str.isAsciiDigit)

/-- `/^-?(?:0|[1-9]\d*)(?:\.\d+)?$/`. -/
def isDecimalString (s : String) : Bool :=
  match ((Str.stripPrefix "-" s).getD s).toList.splitOn '.' with
  | [whole] => isWholePart whole
  | [whole, fraction] => isWholePart whole && !fraction.isEmpty && fraction.all Str.isAsciiDigit
  | _ => false

/-- `{ kind, v }`. -/
def envelope (kind v : String) : Json := .object [("kind", .string kind), ("v", .string v)]

/-- `encodeValue`, for a value that is no table's and not null. -/
def encodePlain (field : FieldDef) (path : String) (value : Json) : Except String Json :=
  if field.fieldtype = "Currency" then
    match value with
    | .string s =>
        if isDecimalString s then .ok (envelope "decimal" s)
        else .error (path ++ " is not a decimal string")
    | _ => .error (path ++ " must be a decimal string, never a JSON number")
  else if field.fieldtype = "Link" then
    match value with
    | .string s => .ok (envelope "record" s)
    | _ => .error (path ++ " must be a record id string")
  else .ok value

mutual

/-- `encodeValue`. -/
def encodeValue (types : DocTypeSet) (field : FieldDef) (path : String) : Json → Except String Json
  | .null => .ok .null
  | .array rows =>
      if field.fieldtype = "Table" then
        match childOf types field with
        | none => .ok (.array rows)
        | some (childName, _) => (encodeRows types childName path 0 rows).map .array
      else encodePlain field path (.array rows)
  | value =>
      if field.fieldtype = "Table" then .error (path ++ " must be an array of child rows")
      else encodePlain field path value

/-- The rows of a table, from one on. -/
def encodeRows (types : DocTypeSet) (childName path : String) (index : Nat) :
    List Json → Except String (List Json)
  | [] => .ok []
  | row :: rest => do
      let out ← encodeDoc types childName (path ++ "[" ++ toString index ++ "]") row
      let more ← encodeRows types childName path (index + 1) rest
      return out :: more

/-- `encodeDoc`. -/
def encodeDoc (types : DocTypeSet) (doctypeName path : String) : Json → Except String Json
  | .object entries =>
      match types.byName doctypeName with
      | none => .error ("unknown DocType '" ++ doctypeName ++ "'")
      | some doctype => (encodeEntries types doctype path entries).map .object
  | _ => .error (path ++ " must be an object")

/-- The entries of a document. An assignment to `__proto__` makes no entry. -/
def encodeEntries (types : DocTypeSet) (doctype : DocTypeDef) (path : String) :
    List (String × Json) → Except String (List (String × Json))
  | [] => .ok []
  | (name, value) :: rest => do
      let out ← match fieldOf doctype name with
        | some field => encodeValue types field (path ++ "." ++ name) value
        | none => .ok value
      let more ← encodeEntries types doctype path rest
      return if name = "__proto__" then more else (name, out) :: more

end

end Frust.Mcp
