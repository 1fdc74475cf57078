import Frust.Kernel.Feed

/-!
# `Frust.Kernel.JsonPatch`: the meaning of a JSON patch

This is the reference that `applyUndo` is measured by: JSON patches with `add`, `remove` and
`replace`, and with the feed's own `change`, which undoes a text by a text patch. An operation
that does not resolve has no result. It has to name its place by a JSON pointer, and what it
puts there. Its place has to exist, or for an `add` the object or array that it is in.

A pointer is empty, or each of its tokens starts with a slash, and in a token `~` stands only
before `0` and `1`. An item of an array has its index for a token, without sign and without
leading zeros. The place past the last item is `-`.
-/

set_option autoImplicit false

namespace Frust.Kernel

open Frust.Lib Frust.Rust.Str

namespace JsonPatch

/-! ### Pointers -/

/-- Every `~` stands before `0` or `1`. -/
def escapesOk : List Char → Bool
  | [] => true
  | '~' :: '0' :: rest => escapesOk rest
  | '~' :: '1' :: rest => escapesOk rest
  | '~' :: _ => false
  | _ :: rest => escapesOk rest

/-- A token as it is meant: first `~1` stands for a slash, then `~0` for a tilde. -/
def decodeToken (t : List Char) : String := ((String.ofList t).replace "~1" "/").replace "~0" "~"

/-- The tokens of a pointer. -/
def pointer (path : String) : Option (List String) :=
  match path.toList with
  | [] => some []
  | '/' :: rest => if escapesOk rest then some ((rest.splitOn '/').map decodeToken) else none
  | _ => none

/-- A token as the index of an item. -/
def arrayIndex (t : String) : Option Nat :=
  match t.toList with
  | [] => none
  | '0' :: rest => if rest = [] then some 0 else none
  | cs => if cs.all isAsciiDigit then some (Nat.ofDigitChars 10 cs 0) else none

/-! ### Operations -/

/-- What an operation does. -/
inductive Verb where
  | add (value : Json)
  | remove
  | replace (value : Json)
  | change (diff : String)

/-- An operation: its place, as tokens, and what it does there. -/
structure Op where
  tokens : List String
  verb : Verb

/-- What is put at a place in the stead of what is there. -/
def Verb.modify : Verb → Json → Option Json
  | .replace value, _ => some value
  | .change diff, .string s => (Feed.dmpUnpatch s diff).toOption.map .string
  | _, _ => none

/-- What an operation makes of the whole document. -/
def Verb.atRoot (verb : Verb) (doc : Json) : Option Json :=
  match verb with
  | .add value => some value
  | verb => verb.modify doc

/-- What an operation makes of the object or array that its place is in. -/
def Verb.inParent (verb : Verb) (last : String) : Json → Option Json
  | .object m =>
      match verb with
      | .add value => some (.object (Feed.setEntry last value m))
      | .remove => if (m.lookup last).isSome then some (.object (m.filter (·.1 ≠ last))) else none
      | verb => do
          let v ← verb.modify (← m.lookup last)
          return .object (Feed.setEntry last v m)
  | .array a =>
      match verb with
      | .add value => do
          let i ← if last = "-" then some a.length else arrayIndex last
          if i ≤ a.length then some (.array (a.insertIdx i value)) else none
      | .remove => do
          let i ← arrayIndex last
          if i < a.length then some (.array (a.eraseIdx i)) else none
      | verb => do
          let i ← arrayIndex last
          let v ← verb.modify (← a[i]?)
          return .array (a.set i v)
  | _ => none

/-- Goes down to the parent of a place. Every token on the way has to resolve. -/
def Verb.along (verb : Verb) (last : String) : List String → Json → Option Json
  | [], cur => verb.inParent last cur
  | t :: parents, .object m => do
      let inner ← m.lookup t
      return .object (Feed.setEntry t (← verb.along last parents inner) m)
  | t :: parents, .array a => do
      let i ← arrayIndex t
      let inner ← a[i]?
      return .array (a.set i (← verb.along last parents inner))
  | _ :: _, _ => none

/-- What an operation makes of a document, if it resolves. -/
def Op.apply (op : Op) (doc : Json) : Option Json :=
  match op.tokens.getLast? with
  | none => op.verb.atRoot doc
  | some last => op.verb.along last op.tokens.dropLast doc

/-- What an operation says that it does. -/
def verbOf (op : Json) : Option Verb := do
  match ← (op.get "op").bind Json.asStr with
  | "add" => return .add (← op.get "value")
  | "remove" => return .remove
  | "replace" => return .replace (← op.get "value")
  | "change" => return .change (← (op.get "value").bind Json.asStr)
  | _ => none

/-- An operation, as it is written. -/
def Op.ofJson (op : Json) : Option Op := do
  let tokens ← pointer (← (op.get "path").bind Json.asStr)
  return ⟨tokens, ← verbOf op⟩

/-- What one operation makes of a document. -/
def step (doc op : Json) : Option Json := (Op.ofJson op).bind (·.apply doc)

end JsonPatch

/-- What a patch makes of a document, if every operation resolves. -/
def jsonPatch (doc : Json) (ops : List Json) : Option Json := ops.foldlM JsonPatch.step doc

end Frust.Kernel
