import Frust.Kernel.Decimal
import Frust.Kernel.Wire
import Frust.Lib.Occurs

/-!
# `Frust.Kernel.Mail`: notification rules

A notification is metadata: which event on which DocType it watches, an optional condition, and who
gets a message. `validate` lists every problem of a rule, and a rule with a problem is not stored.
`interpolate` puts the fields of a document in the text of a message.
-/

set_option autoImplicit false

namespace Frust.Kernel

open Frust.Rust

/-- `EVENTS`. -/
def mailEvents : List String :=
  ["after_insert", "on_update", "on_transition", "on_submit", "on_cancel"]

/-- `RULE_OPS`. -/
def ruleOps : List String := ["eq", "ne", "gt", "lt", "ge", "le", "empty", "not_empty"]

/-- `NotificationDef`. -/
structure NotificationDef where
  name : String
  doctype : String
  event : String
  action : Option String := none
  condition : Option Rule := none
  recipients : List String
  subject : String
  body : String
  enabled : Bool := true
  deriving DecidableEq

/-- `Recipient`. -/
inductive Recipient where
  | role (role : String)
  | field (field : String)
  | literal (address : String)
  deriving DecidableEq

/-- `looks_like_address`. -/
def looksLikeAddress (s : String) : Bool :=
  match Str.splitOnce '@' s with
  | some (loc, domain) =>
      !loc.toList.isEmpty && domain.toList.contains '.' && !Str.startsWith "." domain
        && !Str.endsWith "." domain && !s.toList.any Str.isWhitespace
  | none => false

/-- `Recipient::parse`. -/
def Recipient.parse (spec : String) : Except String Recipient :=
  let spec := Str.trim spec
  match Str.stripPrefix "role:" spec with
  | some name =>
      if isIdent name then .ok (.role name)
      else .error ("recipient role " ++ Str.debugStr name ++ " must be a plain identifier")
  | none =>
      match Str.stripPrefix "field:" spec with
      | some f =>
          if isIdent f then .ok (.field f)
          else .error ("recipient field " ++ Str.debugStr f ++ " must be a plain identifier")
      | none =>
          if looksLikeAddress spec then .ok (.literal spec)
          else .error ("recipient " ++ Str.debugStr spec
            ++ " is neither 'role:<role>', 'field:<fieldname>', nor an address")

/-- The problem, where there is one. -/
def problem (bad : Bool) (text : String) : List String := if bad then [text] else []

/-- `NotificationDef::validate`. -/
def NotificationDef.validate (n : NotificationDef) : List String :=
  problem (!isIdent n.name) ("name " ++ Str.debugStr n.name ++ " must be a plain identifier")
    ++ problem (!isIdent n.doctype)
      ("doctype " ++ Str.debugStr n.doctype ++ " must be a plain identifier")
    ++ problem (!mailEvents.contains n.event)
      ("event " ++ Str.debugStr n.event ++ " is not one of " ++ Str.debugStrs mailEvents)
    ++ problem (n.action.isSome && n.event != "on_transition")
      ("'action' only applies to on_transition, not " ++ Str.debugStr n.event)
    ++ problem n.recipients.isEmpty
      "recipients is empty — a notification with nobody to send to never sends"
    ++ (n.recipients.flatMap fun r =>
      match Recipient.parse r with
      | .ok _ => []
      | .error e => [e])
    ++ problem (Str.trim n.subject == "") "subject is empty"
    ++ (n.condition.toList.flatMap fun c =>
      problem (!ruleOps.contains c.op)
        ("condition op " ++ Str.debugStr c.op ++ " is not one of " ++ Str.debugStrs ruleOps))

/-! ### The text of a message -/

/-- `render_field`. -/
def renderField : Json → String
  | .string s => s
  | .null => ""
  | .bool b => if b then "true" else "false"
  | .int i => toString i
  | .float text => text
  | other => other.text

/-- The order of two texts: that of their decimals, where both are, and else that of their bytes. -/
def compareTexts (text want : String) : Ordering :=
  match Decimal.parse text, Decimal.parse want with
  | some a, some b => a.cmp b
  | _, _ => compare text want

/-- What an operator asks of an order. -/
def opHolds (op : String) (ord : Ordering) : Bool :=
  match op with
  | "eq" => ord.isEq
  | "ne" => ord.isNe
  | "gt" => ord.isGT
  | "lt" => ord.isLT
  | "ge" => ord.isGE
  | "le" => ord.isLE
  | _ => false

/-- The text of a rule's field, which is empty where the document has none. -/
def Rule.rendered (rule : Rule) (doc : Json) : String :=
  ((doc.get rule.field).map renderField).getD ""

/-- `rule_holds`. -/
def ruleHolds (rule : Rule) (doc : Json) : Bool :=
  match rule.op with
  | "empty" => rule.rendered doc == ""
  | "not_empty" => rule.rendered doc != ""
  | op => opHolds op (compareTexts (rule.rendered doc) (rule.value.getD ""))

/-- `compareTexts` in a build that checks arithmetic, where a comparison may panic. -/
def compareTexts? (text want : String) : Option Ordering :=
  match Decimal.parse text, Decimal.parse want with
  | some a, some b => a.cmp? b
  | _, _ => some (compare text want)

/-- `rule_holds` there. -/
def ruleHolds? (rule : Rule) (doc : Json) : Option Bool :=
  match rule.op with
  | "empty" => some (rule.rendered doc == "")
  | "not_empty" => some (rule.rendered doc != "")
  | op => (compareTexts? (rule.rendered doc) (rule.value.getD "")).map (opHolds op)

/-- What begins a placeholder. -/
def opening : List Char := ['\x7b', '\x7b']

/-- What ends one. -/
def closing : List Char := ['\x7d', '\x7d']

/-- The name of the field in a placeholder. -/
def holeKey (inner : List Char) : String := Str.trim (String.ofList inner)

/-- The error at an opening that is not closed, after the text `before`. -/
def unclosedText (before : List Char) : String :=
  "unclosed '\x7b\x7b' in template at byte " ++ toString (String.ofList before).utf8ByteSize

/-- The error for a field that the document does not have. -/
def unknownFieldText (key : String) : String := "template refers to unknown field '" ++ key ++ "'"

/-- The loop of `interpolate`: what is left of the template, and the text so far. -/
def interpolateLoop (doc : Json) (rest out : List Char) : Except String (List Char) :=
  match _hstart : rest.dropInfix? opening with
  | none => .ok (out ++ rest)
  | some (before, after) =>
      match _hend : after.dropInfix? closing with
      | none => .error (unclosedText before)
      | some (inner, rest') =>
          match doc.get (holeKey inner) with
          | none => .error (unknownFieldText (holeKey inner))
          | some value =>
              interpolateLoop doc rest' (out ++ before ++ (renderField value).toList)
termination_by rest.length
decreasing_by
  have h₁ := (Lib.Occurs.dropInfix?_iff.mp _hstart).length
  have h₂ := (Lib.Occurs.dropInfix?_iff.mp _hend).length
  have h₃ : opening.length = 2 := rfl
  omega

/-- `interpolate`. -/
def interpolate (template : String) (doc : Json) : Except String String :=
  (interpolateLoop doc template.toList []).map String.ofList

end Frust.Kernel
