import Frust.Kernel.Contract
import Frust.Lib.Ledger
import Frust.Rust.Str

/-!
# `Frust.Kernel.Feed`: the changefeed

An entry of a changefeed has a versionstamp and the changes made at it. A create carries the
new document, a delete the old one. An update carries the new document and the operations that
undo it, so that `applyUndo` reconstructs the document before. A text that changed is undone by
a diff-match-patch text.

An object's entries are in the order of their insertion here; no key is in one twice.
-/

set_option autoImplicit false

namespace Frust.Kernel

open Frust.Lib Frust.Rust.Str

namespace Feed

/-- `Change`: the document before and after. -/
abbrev Change := Move Json

/-! ### Texts -/

/-- `str::lines`. -/
def lines (s : String) : List String :=
  let pieces := s.toList.splitOn '\n'
  let ended := pieces.dropLast.map fun l => (stripSuffixChar '\r' (String.ofList l)).getD (String.ofList l)
  ended ++ (pieces.getLast?.toList.filter (· ≠ [])).map String.ofList

/-- `split_once`. -/
def splitOnce (sep : List Char) : List Char → Option (List Char × List Char)
  | [] => none
  | c :: cs =>
      if sep.isPrefixOf (c :: cs) then some ([], (c :: cs).drop sep.length)
      else (splitOnce sep cs).map fun p => (c :: p.1, p.2)

/-- `parse::<usize>`. -/
def parseUsize (cs : List Char) : Option Nat :=
  let digits := match cs with
    | '+' :: rest => rest
    | _ => cs
  if digits.isEmpty || !digits.all isAsciiDigit then none
  else
    let n := Nat.ofDigitChars 10 digits 0
    if n < 2 ^ 64 then some n else none

/-- `bad` of `dmp_unpatch`. -/
def badDiff {α : Type} (d : String) : Except BrokerError α := .error (.db ("text-diff undo: " ++ d))

/-- A hexadecimal digit. -/
def hexDigit (b : UInt8) : Option UInt8 :=
  if 48 ≤ b ∧ b ≤ 57 then some (b - 48)
  else if 65 ≤ b ∧ b ≤ 70 then some (b - 55)
  else if 97 ≤ b ∧ b ≤ 102 then some (b - 87)
  else none

/-- `u8::from_str_radix(_, 16)` of two bytes. -/
def hexByte (a b : UInt8) : Option UInt8 :=
  if a = 43 then hexDigit b
  else do
    let high ← hexDigit a
    let low ← hexDigit b
    return 16 * high + low

/-- The bytes of a line, with every `%` and its two digits as one byte. -/
def unescape (line : String) : List UInt8 → Except BrokerError (List UInt8)
  | [] => .ok []
  | b :: rest =>
      match b, rest with
      | 37, h :: l :: rest =>
          match hexByte h l with
          | none => badDiff ("bad %-escape in '" ++ line ++ "'")
          | some byte => (unescape line rest).map (byte :: ·)
      | b, rest => (unescape line rest).map (b :: ·)
termination_by bytes => bytes.length

/-- `decode` of `dmp_unpatch`. -/
def decodeLine (line : String) : Except BrokerError (List Char) := do
  let bytes ← unescape line line.toUTF8.data.toList
  match String.fromUTF8? ⟨bytes.toArray⟩ with
  | none => badDiff "undecodable %-escape"
  | some text => return text.toList

/-- `0`-based position of a hunk, from its header. -/
def hunkAt (header : String) : Except BrokerError Nat := do
  let some h := (stripPrefix "@@ -" header).bind fun s => splitOnce " +".toList s.toList
    | badDiff ("bad hunk header '" ++ header ++ "'")
  let (start, len) ← match splitOnce [','] h.1 with
    | some (a, b) => do
        let some start := parseUsize a | badDiff "bad hunk offset"
        let some len := parseUsize b | badDiff "bad hunk length"
        pure (start, len)
    | none => do
        let some start := parseUsize h.1 | badDiff "bad hunk offset"
        pure (start, 1)
  return if len = 0 then start else start - 1

/-- The loop of `dmp_unpatch` over the lines: the position in the source, and the text so far. -/
def unpatchLines (src : List Char) : (inHunk : Bool) → List String → (pos : Nat) →
    (out : List Char) → Except BrokerError (List Char)
  | _, [], pos, out => .ok (out ++ src.drop pos)
  | inHunk, line :: rest, pos, out =>
      if inHunk && !startsWith "@@" line then
        match line.toList with
        | [] => badDiff "bad hunk line ''"
        | tag :: text =>
            -- the source panics where the first character is not one byte
            if 128 ≤ tag.toNat then badDiff "not a char boundary"
            else (decodeLine (String.ofList text)).bind fun text =>
              if tag = ' ' ∨ tag = '-' then
                if text.isPrefixOf (src.drop pos) then
                  unpatchLines src true rest (pos + text.length)
                    (if tag = ' ' then out ++ text else out)
                else badDiff ("context mismatch at " ++ toString pos)
              else if tag = '+' then unpatchLines src true rest pos (out ++ text)
              else badDiff ("bad hunk line '" ++ line ++ "'")
      else (hunkAt line).bind fun start =>
        if start < pos ∨ src.length < start then
          badDiff ("hunk offset " ++ toString start ++ " out of order")
        else unpatchLines src true rest start (out ++ (src.drop pos).take (start - pos))

/-- `dmp_unpatch`. -/
def dmpUnpatch (source patch : String) : Except BrokerError String :=
  (unpatchLines source.toList false (lines patch) 0 []).map String.ofList

/-! ### Undoing an update -/

/-- Sets an entry. -/
def setEntry (k : String) (v : Json) : List (String × Json) → List (String × Json)
  | [] => [(k, v)]
  | e :: rest => if e.1 = k then (k, v) :: rest else e :: setEntry k v rest

/-- An undo operation. -/
structure UndoOp where
  kind : String
  path : String
  value : Option Json

/-- The fields of an undo operation. -/
def UndoOp.ofJson (op : Json) : UndoOp where
  kind := ((op.get "op").bind Json.asStr).getD ""
  path := ((op.get "path").bind Json.asStr).getD ""
  value := op.get "value"

namespace UndoOp

variable (op : UndoOp)

/-- `unpatched`: the text before, where the value is a text patch. -/
def unpatched (slot : Option Json) : Except BrokerError Json := do
  let some current := slot.bind Json.asStr
    | .error (.db ("text-diff undo on non-string at " ++ op.path))
  let some patch := op.value.bind Json.asStr
    | .error (.db ("text-diff undo without patch at " ++ op.path))
  return .string (← dmpUnpatch current patch)

/-- What is done at the place that the path leads to. -/
def atTarget (last : String) : Json → Except BrokerError Json
  | .object m =>
      if op.kind = "remove" then .ok (.object (m.filter (·.1 ≠ last)))
      else if op.kind = "change" then do
        let v ← op.unpatched (m.lookup last)
        return .object (setEntry last v m)
      else .ok (.object (setEntry last (op.value.getD .null) m))
  | .array a => do
      let some i := if last = "-" then some a.length else parseUsize last.toList
        | .error (.db ("bad undo index in " ++ op.path))
      if op.kind = "replace" then
        if i < a.length then return .array (a.set i (op.value.getD .null))
        else .error (.db ("undo index oob: " ++ op.path))
      else if op.kind = "change" then do
        let v ← op.unpatched a[i]?
        return .array (a.set i v)
      else if op.kind = "add" then
        return .array (a.insertIdx (min i a.length) (op.value.getD .null))
      else return .array (a.eraseIdx i)
  | _ => .error (.db ("undo target is scalar: " ++ op.path))

/-- Goes down the path. -/
def walk (last : String) : List String → Json → Except BrokerError Json
  | [], cur => op.atTarget last cur
  | t :: parents, cur =>
      match cur with
      | .object m =>
          match m.lookup t with
          | none => .error (.db ("undo path missing: " ++ op.path))
          | some inner => do return .object (setEntry t (← walk last parents inner) m)
      | .array a =>
          match parseUsize t.toList with
          | none => .error (.db ("bad undo index in " ++ op.path))
          | some i =>
              match a[i]? with
              | none => .error (.db ("undo index oob: " ++ op.path))
              | some inner => do return .array (a.set i (← walk last parents inner))
      | _ => .error (.db ("undo path through scalar: " ++ op.path))

/-- The tokens of the path. -/
def tokens : List String :=
  ((op.path.toList.splitOn '/').drop 1).map fun t =>
    ((String.ofList t).replace "~1" "/").replace "~0" "~"

/-- One step of `apply_undo`. -/
def apply (doc : Json) : Except BrokerError Json :=
  if op.kind ∉ ["replace", "add", "remove", "change"] then
    .error (.db ("changefeed undo op '" ++ op.kind ++ "' at '" ++ op.path
      ++ "' is not reversible kernel-side"))
  else
    match op.tokens.getLast? with
    | none => .ok (op.value.getD .null)
    | some last => op.walk last op.tokens.dropLast doc

end UndoOp

/-- `apply_undo`. -/
def applyUndo (current : Json) (ops : List Json) : Except BrokerError Json :=
  ops.foldlM (fun doc op => (UndoOp.ofJson op).apply doc) current

/-! ### Decoding -/

/-- `as_u64`. -/
def asU64 : Json → Option Nat
  | .int (.ofNat n) => if n < 2 ^ 64 then some n else none
  | _ => none

/-- One change of an entry, as `decode_entries` reads it. -/
def decodeChange (c : Json) : Except BrokerError (Option Change) :=
  if (c.get "define_table").isSome then .ok none
  else
    match c.get "delete", c.get "current", c.get "update" with
    | some d, _, _ =>
        match d.get "original" with
        | none => .error (.db ("delete without original â€” source table needs CHANGEFEED ... "
            ++ "INCLUDE ORIGINAL"))
        | some before => .ok (some ⟨some before, none⟩)
    | none, some current, update => do
        let before ← applyUndo current (update.elim [] Json.rows)
        return some ⟨some before, some current⟩
    | none, none, some (.object doc) => .ok (some ⟨none, some (.object doc)⟩)
    | _, _, _ => .ok none

/-- The loop of `decode_entries`. -/
def decodeFrom : List Json → (lastVs : Nat) → (out : List Change) →
    Except BrokerError (List Change × Nat)
  | [], lastVs, out => .ok (out, lastVs)
  | e :: rest, lastVs, out => do
      let lastVs := ((e.get "versionstamp").bind asU64).getD lastVs
      let changes ← ((e.get "changes").elim [] Json.rows).mapM decodeChange
      decodeFrom rest lastVs (out ++ changes.reduceOption)

/-- `decode_entries`. -/
def decodeEntries (entries : List Json) : Except BrokerError (List Change × Nat) :=
  decodeFrom entries 0 []

/-! ### What the database writes -/

/-- A change, as the database describes it. The operations of an update undo it. -/
inductive FeedChange where
  | defineTable (info : Json)
  | create (fields : List (String × Json))
  | update (current : Json) (ops : List Json) (before : Json)
      (undo : applyUndo current ops = .ok before)
  | delete (id original : Json)

namespace FeedChange

/-- The change in the feed. -/
def json : FeedChange → Json
  | defineTable info => .object [("define_table", info)]
  | create fields => .object [("update", .object fields)]
  | update current ops _ _ => .object [("current", current), ("update", .array ops)]
  | delete id original => .object [("delete", .object [("id", id), ("original", original)])]

/-- The document before and after. -/
def change : FeedChange → Option Change
  | defineTable _ => none
  | create fields => some ⟨none, some (.object fields)⟩
  | update current _ before _ => some ⟨some before, some current⟩
  | delete _ original => some ⟨some original, none⟩

end FeedChange

/-- An entry. Its versionstamp is an integer of the database. -/
structure FeedEntry where
  versionstamp : Nat
  changes : List FeedChange
  pos : 0 < versionstamp
  bounded : versionstamp < 2 ^ 63

namespace FeedEntry

/-- The entry in the feed. -/
def json (e : FeedEntry) : Json :=
  .object [("versionstamp", .int e.versionstamp), ("changes", .array (e.changes.map FeedChange.json))]

/-- The documents before and after. -/
def moves (e : FeedEntry) : List Change := e.changes.filterMap FeedChange.change

end FeedEntry

end Feed

end Frust.Kernel
