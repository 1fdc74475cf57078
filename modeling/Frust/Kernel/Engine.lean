import Frust.Kernel.Row
import Frust.Kernel.Surql
import Mathlib.Data.List.Sort
import Mathlib.Algebra.Ring.Int.Defs

/-!
# `Frust.Kernel.Engine`: what the database does with values

An `Engine` is the database as far as the kernel relies on it: how values compare, how
a column's type takes a value in, how rows are ordered, grouped and folded. Its laws are
about integers, texts and record ids only, and about `int` columns.

`Expr` is the fragment of the query language that permissions, asserts and events are
written in. `Expr.text` is the text of an expression, and `Expr.eval` its value.

`plain` is an engine that can be run. It takes values of a column's own type in, compares
integers, orders by integers and texts, and adds integers up. It is what the database does
on such values; of the rest it refuses what it does not know.
-/

set_option autoImplicit false

namespace Frust.Kernel

/-- The type of a column. -/
inductive FieldType where
  | int | string | decimal | object
  | record (table : String)
  | option (t : FieldType)
  | array (t : FieldType)
  deriving DecidableEq

/-- The text of a type. -/
def FieldType.text : FieldType → String
  | int => "int"
  | string => "string"
  | decimal => "decimal"
  | object => "object"
  | record table => "record<" ++ table ++ ">"
  | option t => "option<" ++ t.text ++ ">"
  | array t => "array<" ++ t.text ++ ">"

/-- The database's treatment of values. -/
structure Engine where
  /-- A comparison. -/
  holds : CmpOp → Value → Value → Bool
  /-- A value as a column of the type stores it, if it does. -/
  coerce : FieldType → Value → Option Value
  /-- `<string>`. -/
  castString : Value → Value
  /-- The positions of rows, ordered by their keys. -/
  order : SortDir → List Value → List Nat
  /-- The positions of rows, grouped by their keys. -/
  group : List (List Value) → List (List Nat)
  /-- A metric over the values of a group, or an error. -/
  fold : Metric → List Value → Except BrokerError Value
  eq_int : ∀ a b, holds .eq (.int a) (.int b) = decide (a = b)
  eq_text : ∀ a b, holds .eq (.text a) (.text b) = decide (a = b)
  eq_recordId : ∀ a b, holds .eq (.recordId a) (.recordId b) = decide (a = b)
  ne_eq : ∀ a b, holds .ne a b = !holds .eq a b
  coerce_int : ∀ v w, coerce .int v = some w → ∃ i, w = .int i
  coerce_int_int : ∀ i, coerce .int (.int i) = some (.int i)
  coerce_int_null : coerce .int .null = none

/-- `$auth`: a record user. -/
structure Auth where
  id : String
  role : String
  deriving DecidableEq

/-! ### Expressions -/

/-- An expression. -/
inductive Expr where
  | none
  | int (i : Int)
  | dec (s : String)
  | str (s : String)
  | strs (ss : List String)
  | record (rid : String)
  | auth
  | authId
  | authRole
  | value
  | event
  | field (name : String)
  | before (name : String)
  | after (name : String)
  | cmp (op : CmpOp) (a b : Expr)
  | strLen (e : Expr)
  | castString (e : Expr)
  | and (a b : Expr)
  | or (a b : Expr)
  | paren (e : Expr)
  deriving DecidableEq

namespace Expr

/-- The text of an expression. -/
def text : Expr → String
  | none => "NONE"
  | int i => toString i
  | dec s => s ++ "dec"
  | str s => "'" ++ s ++ "'"
  | strs ss => "[" ++ ", ".intercalate (ss.map fun s => "'" ++ s ++ "'") ++ "]"
  | record rid => "type::record('" ++ rid ++ "')"
  | auth => "$auth"
  | authId => "$auth.id"
  | authRole => "$auth.role"
  | value => "$value"
  | event => "$event"
  | field name => name
  | before name => "$before." ++ name
  | after name => "$after." ++ name
  | cmp op a b => a.text ++ " " ++ op.text ++ " " ++ b.text
  | strLen e => "string::len(" ++ e.text ++ ")"
  | castString e => "<string>" ++ e.text
  | and a b => a.text ++ " AND " ++ b.text
  | or a b => a.text ++ " OR " ++ b.text
  | paren e => "(" ++ e.text ++ ")"

/-- What an expression sees. -/
structure Scope where
  session : Option Auth
  row : Doc := []
  value : Value := .null
  before : Doc := []
  after : Doc := []
  event : String := ""

/-- Truth of a value. -/
def truthy : Value → Bool
  | .null => false
  | .bool b => b
  | .int i => i ≠ 0
  | .text s => s ≠ ""
  | _ => true

/-- The value of an expression. -/
def eval (E : Engine) (sc : Scope) : Expr → Value
  | none => .null
  | int i => .int i
  | dec s => .decimal s
  | str s => .text s
  | strs ss => .list (ss.map .text)
  | record rid => .recordId rid
  | auth => (sc.session.map fun a => Value.object [("id", .recordId a.id)]).getD .null
  | authId => (sc.session.map fun a => Value.recordId a.id).getD .null
  | authRole => (sc.session.map fun a => Value.text a.role).getD .null
  | value => sc.value
  | event => .text sc.event
  | field name => col sc.row name
  | before name => col sc.before name
  | after name => col sc.after name
  | cmp op a b => .bool (E.holds op (a.eval E sc) (b.eval E sc))
  | strLen e =>
      match e.eval E sc with
      | .text s => .int s.length
      | _ => .null
  | castString e => E.castString (e.eval E sc)
  | and a b => .bool (truthy (a.eval E sc) && truthy (b.eval E sc))
  | or a b => .bool (truthy (a.eval E sc) || truthy (b.eval E sc))
  | paren e => e.eval E sc

/-- A condition. -/
def holds (E : Engine) (sc : Scope) (e : Expr) : Bool := truthy (e.eval E sc)

section

variable (E : Engine) (sc : Scope) (a b : Expr)

@[simp] theorem holds_cmp (op : CmpOp) :
    (cmp op a b).holds E sc = E.holds op (a.eval E sc) (b.eval E sc) := rfl

@[simp] theorem holds_and : (and a b).holds E sc = (a.holds E sc && b.holds E sc) := rfl

@[simp] theorem holds_or : (or a b).holds E sc = (a.holds E sc || b.holds E sc) := rfl

@[simp] theorem holds_paren : (paren a).holds E sc = a.holds E sc := rfl

end

end Expr

/-! ### An engine that can be run -/

namespace Plain

/-- `<`, on integers and on texts. -/
def lt : Value → Value → Bool
  | .int a, .int b => a < b
  | .text a, .text b => a < b
  | _, _ => false

/-- A comparison. -/
def holds : CmpOp → Value → Value → Bool
  | .eq, a, b => eqValue a b
  | .ne, a, b => !eqValue a b
  | .gt, a, b => lt b a
  | .gte, a, b => lt b a || eqValue a b
  | .lt, a, b => lt a b
  | .lte, a, b => lt a b || eqValue a b
  | .inside, a, .list bs => bs.any (eqValue a ·)
  | .contains, .list as, b => as.any (eqValue · b)
  | _, _, _ => false

/-- A value of the type. -/
def coerce : FieldType → Value → Option Value
  | .int, .int i => some (.int i)
  | .string, .text s => some (.text s)
  | .decimal, .decimal s => some (.decimal s)
  | .object, .object fields => some (.object fields)
  | .record table, .recordId s =>
      if (splitRecordId s).any (·.1 = table) then some (.recordId s) else none
  | .option _, .null => some .null
  | .option t, v => coerce t v
  | .array t, .list vs => (vs.mapM (coerce t)).map .list
  | _, _ => none

/-- `<string>` of a text. -/
def castString : Value → Value
  | .text s => .text s
  | _ => .null

/-- The positions in order; equal keys keep theirs. -/
def order (dir : SortDir) (keys : List Value) : List Nat :=
  let key (i : Nat) := keys[i]?.getD .null
  (List.range keys.length).insertionSort fun i j =>
    (if dir = .asc then lt (key j) (key i) else lt (key i) (key j)) = false

/-- Puts a position into the group of its key. -/
def addToGroup (key : List Value) (i : Nat) :
    List (List Value × List Nat) → List (List Value × List Nat)
  | [] => [(key, [i])]
  | (k, is) :: rest =>
      if eqItems k key then (k, is ++ [i]) :: rest else (k, is) :: addToGroup key i rest

/-- The positions of each key. -/
def group (keys : List (List Value)) : List (List Nat) :=
  ((keys.zipIdx).foldl (fun gs e => addToGroup e.1 e.2 gs) []).map (·.2)

/-- The integers of a list. -/
def ints (vs : List Value) : List Int := vs.filterMap fun | .int i => some i | _ => none

/-- A metric over integers. -/
def fold : Metric → List Value → Except BrokerError Value
  | .count, vs => .ok (.int vs.length)
  | .sum, vs => .ok (.int (ints vs).sum)
  | .min, vs => .ok (((ints vs).min?.map Value.int).getD .null)
  | .max, vs => .ok (((ints vs).max?.map Value.int).getD .null)
  | .avg, _ => .error (.db "math::mean")

end Plain

/-- The plain engine. -/
def plain : Engine where
  holds := Plain.holds
  coerce := Plain.coerce
  castString := Plain.castString
  order := Plain.order
  group := Plain.group
  fold := Plain.fold
  eq_int a b := by simp [Plain.holds, eqValue]
  eq_text a b := by simp [Plain.holds, eqValue]
  eq_recordId a b := by simp [Plain.holds, eqValue]
  ne_eq a b := rfl
  coerce_int v w h := by
    cases v with
    | int i =>
        simp only [Plain.coerce, Option.some.injEq] at h
        exact ⟨i, h.symm⟩
    | _ => simp [Plain.coerce] at h
  coerce_int_int i := by simp [Plain.coerce]
  coerce_int_null := by simp [Plain.coerce]

end Frust.Kernel
