import Frust.Kernel.JsonPatch

/-!
# `Frust.Proofs.Kernel.Undo`: undo operations as a JSON patch

`applyUndo` goes the way of each operation and does there what it says. What it makes of a
document is what the patch makes of it as long as every operation resolves. It does not ask
everything that a patch has to: it takes a member away that is not there, replaces one that was
not there, inserts past the end, sets the whole document to a text patch, and takes a missing
value for null.

`Strict` says when an operation that is not refused does resolve. `appliesAsPatch_iff` is about
every document and every list of operations, one operation after the other.
-/

set_option autoImplicit false

namespace Frust.Kernel

open Frust.Lib

namespace Feed

open JsonPatch

/-! ### Where an operation goes -/

/-- The place that the tokens lead to, as `applyUndo` reads them. -/
def reach : List String → Json → Option Json
  | [], cur => some cur
  | t :: parents, .object m => (m.lookup t).bind (reach parents)
  | t :: parents, .array a => (parseUsize t.toList).bind fun i => a[i]?.bind (reach parents)
  | _ :: _, _ => none

/-- Every token that leads through an array is written as an index. -/
def IndicesWritten : List String → Json → Prop
  | t :: parents, .object m => ∀ inner, m.lookup t = some inner → IndicesWritten parents inner
  | t :: parents, .array a => (arrayIndex t).isSome ∧
      ∀ i inner, arrayIndex t = some i → a[i]? = some inner → IndicesWritten parents inner
  | _, _ => True

/-- The operation has a path, and it is a pointer. -/
def PathWritten (op : Json) : Prop :=
  ∃ path tokens, (op.get "path").bind Json.asStr = some path ∧ pointer path = some tokens

/-! ### When an operation is done, and when it resolves -/

namespace UndoOp

/-- The four kinds that are not refused. -/
def kinds : List String := ["replace", "add", "remove", "change"]

variable (op : UndoOp)

/-- There is a text, and a text patch that goes through on it. -/
def Undoes (slot : Option Json) : Prop :=
  ∃ s diff t, slot = some (.string s) ∧ op.value = some (.string diff) ∧ dmpUnpatch s diff = .ok t

/-- The operation is not refused at the place that it leads to: not a text patch that does not go
through, nor a replacement past the end of an array. -/
def Done (last : String) : Json → Prop
  | .object m => op.kind = "change" → op.Undoes (m.lookup last)
  | .array a => ∃ i, (if last = "-" then some a.length else parseUsize last.toList) = some i ∧
      (op.kind = "replace" → i < a.length) ∧ (op.kind = "change" → op.Undoes a[i]?)
  | _ => False

/-- It resolves there: what is put there is given, what is removed or replaced is there, and an
item's place is written as an index, within the array. -/
def Resolves (last : String) (c : Json) : Prop :=
  (op.kind = "add" ∨ op.kind = "replace" → op.value ≠ none) ∧
  match c with
  | .object m => op.kind = "remove" ∨ op.kind = "replace" → m.lookup last ≠ none
  | .array a => (op.kind = "add" ∧ last = "-") ∨ ∃ i, arrayIndex last = some i ∧
      (op.kind = "remove" → i < a.length) ∧ (op.kind = "add" → i ≤ a.length)
  | _ => False

/-- It resolves on the whole document: it gives a new one, or it is a text patch that gives
itself on the text that the document is. -/
def ResolvesAtRoot (doc : Json) : Prop :=
  (op.kind = "add" ∨ op.kind = "replace") ∧ op.value ≠ none ∨
  op.kind = "change" ∧ ∃ s diff, doc = .string s ∧ op.value = some (.string diff) ∧
    dmpUnpatch s diff = .ok diff

end UndoOp

/-- The operation resolves on the document, if it is not refused there. -/
def Strict (op doc : Json) : Prop :=
  (UndoOp.ofJson op).kind ∈ UndoOp.kinds →
    match (UndoOp.ofJson op).tokens.getLast? with
    | none => PathWritten op ∧ (UndoOp.ofJson op).ResolvesAtRoot doc
    | some last => ∀ c, reach (UndoOp.ofJson op).tokens.dropLast doc = some c →
        (UndoOp.ofJson op).Done last c → PathWritten op ∧
          IndicesWritten (UndoOp.ofJson op).tokens.dropLast doc ∧ (UndoOp.ofJson op).Resolves last c

/-! ### Indices and pointers -/

/-- An index that is written as one is read as it is meant, if it is read at all. -/
theorem parseUsize_of_arrayIndex {t : String} {i j : Nat} (h : arrayIndex t = some i)
    (hj : parseUsize t.toList = some j) : j = i := by
  have hread : ∀ cs : List Char, cs ≠ [] → cs.all Frust.Rust.Str.isAsciiDigit = true →
      parseUsize cs = some j → j = Nat.ofDigitChars 10 cs 0 := by
    intro cs hne hdigits hparse
    -- no digit is a sign
    have hsign : ∀ rest, cs ≠ '+' :: rest := by
      rintro rest rfl
      simp [Frust.Rust.Str.isAsciiDigit] at hdigits
    unfold parseUsize at hparse
    dsimp only at hparse
    split at hparse
    · exact absurd rfl (hsign _)
    · split at hparse
      · cases hparse
      · split at hparse
        · exact (Option.some.inj hparse).symm
        · cases hparse
  unfold arrayIndex at h
  split at h
  · cases h
  · rename_i rest hrest
    split at h
    · rename_i hnil
      cases h
      rw [hrest, hnil] at hj
      exact hread _ (by simp) (by decide) hj
    · cases h
  · rename_i hnil hzero
    split at h
    · rename_i hdigits
      cases h
      exact hread _ hnil hdigits hj
    · cases h

/-- The tokens of a pointer are the ones that `applyUndo` goes by. -/
theorem tokens_of_pointer {op : Json} {path : String} {tokens : List String}
    (hpath : (op.get "path").bind Json.asStr = some path) (h : pointer path = some tokens) :
    (UndoOp.ofJson op).tokens = tokens := by
  unfold pointer at h
  unfold UndoOp.tokens UndoOp.ofJson
  simp only [hpath, Option.getD_some]
  split at h
  · rename_i hnil
    cases h
    rw [hnil]
    rfl
  · rename_i rest hrest
    split at h
    · cases h
      rw [hrest, List.splitOn_cons_eq_if_modifyHead, if_pos (by rfl)]
      rfl
    · cases h
  · cases h

/-- What the operation does, from the fields that `applyUndo` reads. -/
def UndoOp.verb (op : UndoOp) : Option Verb :=
  if op.kind = "add" then op.value.map .add
  else if op.kind = "remove" then some .remove
  else if op.kind = "replace" then op.value.map .replace
  else if op.kind = "change" then (op.value.bind Json.asStr).map .change
  else none

theorem verbOf_eq (op : Json) : verbOf op = (UndoOp.ofJson op).verb := by
  unfold verbOf UndoOp.verb UndoOp.ofJson
  cases hkind : (op.get "op").bind Json.asStr with
  | none => rfl
  | some kind =>
      simp only [Option.getD_some, Option.bind_eq_bind, Option.bind_some]
      split <;> simp_all [Option.map_eq_bind]

/-- An operation with a pointer resolves by the tokens that `applyUndo` goes by. -/
theorem step_of_written {op : Json} (h : PathWritten op) (doc : Json) :
    step doc op = (UndoOp.ofJson op).verb.bind fun verb =>
      (⟨(UndoOp.ofJson op).tokens, verb⟩ : Op).apply doc := by
  obtain ⟨path, tokens, hpath, htokens⟩ := h
  rw [tokens_of_pointer hpath htokens, ← verbOf_eq]
  unfold step Op.ofJson
  rw [hpath]
  simp only [Option.bind_eq_bind, Option.bind_some, htokens, Option.bind_assoc, Option.pure_def]

theorem step_of_not_written {op : Json} (h : ¬ PathWritten op) (doc : Json) : step doc op = none := by
  unfold step Op.ofJson
  cases hpath : (op.get "path").bind Json.asStr with
  | none => rfl
  | some path =>
      cases htokens : pointer path with
      | none => simp [htokens]
      | some tokens => exact absurd ⟨path, tokens, hpath, htokens⟩ h

/-! ### The place -/

theorem lookup_setEntry (k : String) (v : Json) (m : List (String × Json)) :
    (setEntry k v m).lookup k = some v := by
  induction m with
  | nil => simp [setEntry]
  | cons e rest ih =>
      unfold setEntry
      split
      · simp
      · rename_i hne
        rw [List.lookup_cons, show (k == e.1) = false by simpa using fun h => hne h.symm]
        exact ih

theorem setEntry_inj {k : String} {v w : Json} {m : List (String × Json)}
    (h : setEntry k v m = setEntry k w m) : v = w := by
  have hlookup := congrArg (List.lookup k) h
  rwa [lookup_setEntry, lookup_setEntry, Option.some.injEq] at hlookup

theorem set_inj {a : List Json} {i : Nat} {v w : Json} (hi : i < a.length)
    (h : a.set i v = a.set i w) : v = w := by
  have hget := congrArg (fun l : List Json => l[i]?) h
  simpa [hi] using hget

/-- `applyUndo` gets through if it gets to the place and the operation is done there. It makes of
the document what the patch does, if the way is written as it has to be and the patch does the
same at the place. -/
structure WalkSpec (op : UndoOp) (last : String) (parents : List String) (cur : Json) : Prop where
  done : ∀ c c', reach parents cur = some c → op.atTarget last c = .ok c' →
    ∃ d, op.walk last parents cur = .ok d ∧ ∀ verb : Verb,
      (verb.along last parents cur = some d ↔
        IndicesWritten parents cur ∧ verb.inParent last c = some c')
  reached : ∀ d, op.walk last parents cur = .ok d →
    ∃ c c', reach parents cur = some c ∧ op.atTarget last c = .ok c'

section

variable {op : UndoOp} {last t : String} {parents : List String} {cur inner : Json}

/-- Where nothing is at the token, neither gets further. -/
theorem WalkSpec.of_none (hreach : reach (t :: parents) cur = none)
    (hwalk : ∀ d, op.walk last (t :: parents) cur ≠ .ok d) :
    WalkSpec op last (t :: parents) cur := by
  refine ⟨fun c c' hc _ => ?_, fun d hd => absurd hd (hwalk d)⟩
  rw [hreach] at hc
  cases hc

/-- Where something is there, both go on with it and put back what they get. -/
theorem WalkSpec.of_inner {put : Json → Json} {written : Prop} (h : WalkSpec op last parents inner)
    (hreach : reach (t :: parents) cur = reach parents inner)
    (hwalk : op.walk last (t :: parents) cur = (op.walk last parents inner).map put)
    (hway : IndicesWritten (t :: parents) cur ↔ written ∧ IndicesWritten parents inner)
    (halong : ∀ (verb : Verb) d, verb.along last (t :: parents) cur = some (put d) ↔
      written ∧ verb.along last parents inner = some d) :
    WalkSpec op last (t :: parents) cur := by
  refine ⟨fun c c' hc htarget => ?_, fun d hd => ?_⟩
  · rw [hreach] at hc
    obtain ⟨d, hd, hverb⟩ := h.done c c' hc htarget
    refine ⟨put d, by rw [hwalk, hd]; rfl, fun verb => ?_⟩
    rw [halong, hway, hverb, and_assoc]
  · rw [hwalk] at hd
    cases hinner : op.walk last parents inner with
    | error e =>
        rw [hinner] at hd
        cases hd
    | ok v =>
        obtain ⟨c, c', hc, htarget⟩ := h.reached v hinner
        exact ⟨c, c', hreach.trans hc, htarget⟩

end

theorem walk_spec (op : UndoOp) (last : String) (parents : List String) (cur : Json) :
    WalkSpec op last parents cur := by
  induction parents generalizing cur with
  | nil =>
      refine ⟨fun c c' hc htarget => ?_, fun d hd => ⟨cur, d, rfl, hd⟩⟩
      cases hc
      refine ⟨c', htarget, fun verb => ?_⟩
      simp [IndicesWritten, Verb.along]
  | cons t parents ih =>
      cases cur with
      | object m =>
          cases hlookup : m.lookup t with
          | none => exact .of_none (by simp [reach, hlookup]) (by simp [UndoOp.walk, hlookup])
          | some inner =>
              have hwalk : op.walk last (t :: parents) (.object m)
                  = (op.walk last parents inner).map fun v => .object (setEntry t v m) := by
                rw [UndoOp.walk, hlookup]
                rfl
              refine (ih inner).of_inner (by simp [reach, hlookup]) hwalk
                (show _ ↔ True ∧ _ by simp [IndicesWritten, hlookup]) fun verb d => ?_
              simp only [Verb.along, hlookup, Option.bind_eq_bind, Option.bind_some, true_and,
                Option.bind_eq_some_iff, Option.pure_def, Option.some.injEq, Json.object.injEq]
              constructor
              · rintro ⟨v, hv, heq⟩
                rwa [setEntry_inj heq] at hv
              · exact fun hv => ⟨d, hv, rfl⟩
      | array a =>
          cases hindex : parseUsize t.toList with
          | none => exact .of_none (by simp [reach, hindex]) (by simp [UndoOp.walk, hindex])
          | some i =>
              cases hitem : a[i]? with
              | none =>
                  exact .of_none (by simp [reach, hindex, hitem])
                    (by simp [UndoOp.walk, hindex, hitem])
              | some inner =>
                  have hwalk : op.walk last (t :: parents) (.array a)
                      = (op.walk last parents inner).map fun v => .array (a.set i v) := by
                    simp only [UndoOp.walk, hindex, hitem]
                    rfl
                  -- an index that is written as one leads to the same item
                  have hi : i < a.length := (List.getElem?_eq_some_iff.mp hitem).1
                  have hsame : ∀ j, arrayIndex t = some j → j = i := by
                    intro j hj
                    exact (parseUsize_of_arrayIndex hj hindex).symm
                  have hway : IndicesWritten (t :: parents) (.array a) ↔
                      (arrayIndex t).isSome = true ∧ IndicesWritten parents inner := by
                    constructor
                    · rintro ⟨hsome, hrest⟩
                      obtain ⟨j, hj⟩ := Option.isSome_iff_exists.mp hsome
                      exact ⟨hsome, hrest i inner (hsame j hj ▸ hj) hitem⟩
                    · rintro ⟨hsome, hrest⟩
                      refine ⟨hsome, fun j inner' hj hinner' => ?_⟩
                      obtain rfl := hsame j hj
                      cases hitem.symm.trans hinner'
                      exact hrest
                  refine (ih inner).of_inner (by simp [reach, hindex, hitem]) hwalk hway
                    fun verb d => ?_
                  cases hwritten : arrayIndex t with
                  | none => simp [Verb.along, hwritten]
                  | some j =>
                      obtain rfl := hsame j hwritten
                      simp only [Verb.along, hwritten, hitem, Option.bind_eq_bind,
                        Option.bind_some, Option.bind_eq_some_iff, Option.pure_def,
                        Option.some.injEq, Json.array.injEq, Option.isSome_some, true_and]
                      constructor
                      · rintro ⟨v, hv, heq⟩
                        rwa [set_inj hi heq] at hv
                      · exact fun hv => ⟨d, hv, rfl⟩
      | _ => exact .of_none (by simp [reach]) (by simp [UndoOp.walk])

namespace UndoOp

variable {op : UndoOp} {last : String}

theorem asStr_eq_some {slot : Option Json} {s : String} :
    slot.bind Json.asStr = some s ↔ slot = some (.string s) := by
  cases slot with
  | none => simp
  | some v => cases v <;> simp [Json.asStr]

/-- A text patch that goes through leaves the text before. -/
theorem unpatched_eq_ok {slot : Option Json} {v : Json} :
    op.unpatched slot = .ok v ↔ ∃ s diff t, slot = some (.string s) ∧
      op.value = some (.string diff) ∧ dmpUnpatch s diff = .ok t ∧ v = .string t := by
  unfold unpatched
  simp only [← asStr_eq_some]
  cases hslot : slot.bind Json.asStr with
  | none => simp
  | some s =>
      cases hvalue : op.value.bind Json.asStr with
      | none => simp
      | some diff =>
          cases hdiff : dmpUnpatch s diff with
          | error e => simp [hdiff]
          | ok t => simp [hdiff, eq_comm]

theorem undoes_iff {slot : Option Json} : op.Undoes slot ↔ ∃ v, op.unpatched slot = .ok v := by
  simp only [unpatched_eq_ok, Undoes]
  constructor
  · rintro ⟨s, diff, t, hslot, hvalue, hdiff⟩
    exact ⟨.string t, s, diff, t, hslot, hvalue, hdiff, rfl⟩
  · rintro ⟨v, s, diff, t, hslot, hvalue, hdiff, -⟩
    exact ⟨s, diff, t, hslot, hvalue, hdiff⟩

theorem mem_kinds : op.kind ∈ kinds ↔
    op.kind = "add" ∨ op.kind = "remove" ∨ op.kind = "replace" ∨ op.kind = "change" := by
  simp only [kinds, List.mem_cons, List.not_mem_nil, or_false]
  tauto

/-- Where an item of an array is put or taken from. -/
def place (last : String) (a : List Json) : Option Nat :=
  if last = "-" then some a.length else parseUsize last.toList

theorem atTarget_object (m : List (String × Json)) : op.atTarget last (.object m) =
    if op.kind = "remove" then .ok (.object (m.filter (·.1 ≠ last)))
    else if op.kind = "change" then
      (op.unpatched (m.lookup last)).map fun v => .object (setEntry last v m)
    else .ok (.object (setEntry last (op.value.getD .null) m)) := rfl

theorem atTarget_array_none {a : List Json} (h : place last a = none) :
    op.atTarget last (.array a) = .error (.db ("bad undo index in " ++ op.path)) := by
  unfold place at h
  simp only [atTarget, h]

theorem atTarget_array {a : List Json} {i : Nat} (h : place last a = some i) :
    op.atTarget last (.array a) =
      if op.kind = "replace" then
        if i < a.length then .ok (.array (a.set i (op.value.getD .null)))
        else .error (.db ("undo index oob: " ++ op.path))
      else if op.kind = "change" then (op.unpatched a[i]?).map fun v => .array (a.set i v)
      else if op.kind = "add" then
        .ok (.array (a.insertIdx (min i a.length) (op.value.getD .null)))
      else .ok (.array (a.eraseIdx i)) := by
  unfold place at h
  simp only [atTarget, h]
  rfl

/-- The operation gets done where it is not refused. -/
theorem atTarget_isOk (hkind : op.kind ∈ kinds) (c : Json) :
    (∃ c', op.atTarget last c = .ok c') ↔ op.Done last c := by
  have hmap : ∀ (slot : Option Json) (f : Json → Json),
      (∃ c', (op.unpatched slot).map f = .ok c') ↔ op.Undoes slot := by
    intro slot f
    rw [undoes_iff]
    cases op.unpatched slot <;> simp [Except.map]
  cases c with
  | object m =>
      rw [atTarget_object]
      rcases mem_kinds.mp hkind with h | h | h | h <;> simp [h, Done, hmap]
  | array a =>
      show _ ↔ ∃ i, place last a = some i ∧ _
      cases hplace : place last a with
      | none => simp [atTarget_array_none hplace]
      | some i =>
          rw [atTarget_array hplace]
          rcases mem_kinds.mp hkind with h | h | h | h
          · simp [h]
          · simp [h]
          · by_cases hi : i < a.length <;> simp [h, hi]
          · simp [h, hmap]
  | _ => simp [atTarget, Done]

theorem change_eq_ok {slot : Option Json} {f : Json → Json} {c : Json}
    (h : (op.unpatched slot).map f = .ok c) : ∃ s diff t, slot = some (.string s) ∧
      op.value = some (.string diff) ∧ dmpUnpatch s diff = .ok t ∧ f (.string t) = c := by
  cases hslot : op.unpatched slot with
  | error e =>
      rw [hslot] at h
      cases h
  | ok v =>
      rw [hslot] at h
      obtain ⟨s, diff, t, hs, hvalue, hdiff, rfl⟩ := unpatched_eq_ok.mp hslot
      exact ⟨s, diff, t, hs, hvalue, hdiff, Except.ok.inj h⟩

/-- In an object the operation does what the patch does, if it resolves. -/
theorem inParent_object_iff (hkind : op.kind ∈ kinds) {m : List (String × Json)} {c' : Json}
    (h : op.atTarget last (.object m) = .ok c') :
    (∃ verb, op.verb = some verb ∧ verb.inParent last (.object m) = some c') ↔
      op.Resolves last (.object m) := by
  rw [atTarget_object] at h
  rcases mem_kinds.mp hkind with hk | hk | hk | hk
  · -- add: the entry may be there already
    cases hvalue : op.value with
    | none => simp [verb, Resolves, hk, hvalue]
    | some v =>
        simp only [hk, hvalue] at h
        simpa [verb, Resolves, hk, hvalue, Verb.inParent] using h
  · -- remove: what is not there is removed without a word
    simp only [hk, if_true, Except.ok.injEq] at h
    cases h
    cases hlookup : m.lookup last with
    | none => simp [verb, Resolves, hk, Verb.inParent, hlookup]
    | some old => simp [verb, Resolves, hk, Verb.inParent, hlookup]
  · -- replace: what is not there is added
    cases hvalue : op.value with
    | none => simp [verb, Resolves, hk, hvalue]
    | some v =>
        simp only [hk, hvalue] at h
        cases hlookup : m.lookup last with
        | none => simp [verb, Resolves, hk, hvalue, Verb.inParent, hlookup]
        | some old =>
            simpa [verb, Resolves, hk, hvalue, Verb.inParent, hlookup, Verb.modify] using h
  · simp only [hk, if_true] at h
    obtain ⟨s, diff, t, hslot, hvalue, hdiff, rfl⟩ := change_eq_ok h
    simp [verb, Resolves, hk, hvalue, Json.asStr, Verb.inParent, hslot, Verb.modify, hdiff,
      Except.toOption]

/-- In an array too, where the place is written as an index. -/
theorem inParent_array_iff (hkind : op.kind ∈ kinds) {a : List Json} {c' : Json}
    (h : op.atTarget last (.array a) = .ok c') :
    (∃ verb, op.verb = some verb ∧ verb.inParent last (.array a) = some c') ↔
      op.Resolves last (.array a) := by
  cases hplace : place last a with
  | none =>
      rw [atTarget_array_none hplace] at h
      cases h
  | some i =>
      rw [atTarget_array hplace] at h
      have hsame : ∀ j, arrayIndex last = some j → last ≠ "-" ∧ j = i := by
        intro j hj
        have hne : last ≠ "-" := by
          rintro rfl
          cases hj
        unfold place at hplace
        rw [if_neg hne] at hplace
        exact ⟨hne, (parseUsize_of_arrayIndex hj hplace).symm⟩
      rcases mem_kinds.mp hkind with hk | hk | hk | hk
      · -- add: an index past the end is cut to the end
        cases hvalue : op.value with
        | none => simp [verb, Resolves, hk, hvalue]
        | some v =>
            simp only [hk, hvalue, if_true, Option.getD_some] at h
            by_cases hdash : last = "-"
            · -- the place past the last item
              simp only [place, hdash, if_true, Option.some.injEq] at hplace
              subst hplace
              simpa [verb, Resolves, hk, hvalue, Verb.inParent, hdash] using h
            · cases hindex : arrayIndex last with
              | none => simp [verb, Resolves, hk, hvalue, Verb.inParent, hdash, hindex]
              | some j =>
                  obtain rfl := (hsame j hindex).2
                  by_cases hj : j ≤ a.length
                  · rw [min_eq_left hj] at h
                    simpa [verb, Resolves, hk, hvalue, Verb.inParent, hdash, hindex, hj] using h
                  · simp [verb, Resolves, hk, hvalue, Verb.inParent, hdash, hindex, hj]
      · -- remove: past the end nothing is removed
        simp only [hk] at h
        cases hindex : arrayIndex last with
        | none => simp [verb, Resolves, hk, Verb.inParent, hindex]
        | some j =>
            obtain rfl := (hsame j hindex).2
            by_cases hj : j < a.length
            · simpa [verb, Resolves, hk, Verb.inParent, hindex, hj] using h
            · simp [verb, Resolves, hk, Verb.inParent, hindex, hj]
      · -- replace: past the end it is refused
        cases hvalue : op.value with
        | none => simp [verb, Resolves, hk, hvalue]
        | some v =>
            simp only [hk, hvalue, if_true, Option.getD_some] at h
            cases hindex : arrayIndex last with
            | none => simp [verb, Resolves, hk, hvalue, Verb.inParent, hindex]
            | some j =>
                obtain rfl := (hsame j hindex).2
                by_cases hj : j < a.length
                · simpa [verb, Resolves, hk, hvalue, Verb.inParent, hindex, hj, Verb.modify]
                    using h
                · simp [hj] at h
      · simp only [hk, if_true] at h
        obtain ⟨s, diff, t, hslot, hvalue, hdiff, rfl⟩ := change_eq_ok h
        cases hindex : arrayIndex last with
        | none => simp [verb, Resolves, hk, hvalue, Json.asStr, Verb.inParent, hindex]
        | some j =>
            obtain rfl := (hsame j hindex).2
            simp [verb, Resolves, hk, hvalue, Json.asStr, Verb.inParent, hindex, hslot,
              Verb.modify, hdiff, Except.toOption]

/-- What is done at the place is what the patch does there, if the operation resolves. -/
theorem inParent_iff (hkind : op.kind ∈ kinds) {c c' : Json} (h : op.atTarget last c = .ok c') :
    (∃ verb, op.verb = some verb ∧ verb.inParent last c = some c') ↔ op.Resolves last c := by
  cases c with
  | object m => exact inParent_object_iff hkind h
  | array a => exact inParent_array_iff hkind h
  | _ => simp [atTarget] at h

theorem atRoot_iff (hkind : op.kind ∈ kinds) (doc : Json) :
    (∃ verb, op.verb = some verb ∧ verb.atRoot doc = some (op.value.getD .null)) ↔
      op.ResolvesAtRoot doc := by
  unfold ResolvesAtRoot verb
  rcases mem_kinds.mp hkind with h | h | h | h
  · cases op.value <;> simp [h, Verb.atRoot]
  · simp [h, Verb.atRoot, Verb.modify]
  · cases op.value <;> simp [h, Verb.atRoot, Verb.modify]
  · cases hdiff : op.value.bind Json.asStr with
    | none =>
        have hno : ∀ diff, op.value ≠ some (.string diff) := by
          intro diff hd
          simp [hd, Json.asStr] at hdiff
        simp [h, hno]
    | some diff =>
        have hvalue := asStr_eq_some.mp hdiff
        cases doc with
        | string s =>
            cases hundo : dmpUnpatch s diff with
            | error e => simp [h, hvalue, Verb.atRoot, Verb.modify, hundo, Except.toOption]
            | ok t => simp [h, hvalue, Verb.atRoot, Verb.modify, hundo, Except.toOption]
        | _ => simp [h, hvalue, Verb.atRoot, Verb.modify]

/-- An operation of the four kinds is done at the place that its path leads to. -/
theorem apply_of_mem (hkind : op.kind ∈ kinds) (doc : Json) :
    op.apply doc = match op.tokens.getLast? with
      | none => .ok (op.value.getD .null)
      | some last => op.walk last op.tokens.dropLast doc := by
  unfold apply
  exact if_neg (not_not.mpr (show op.kind ∈ ["replace", "add", "remove", "change"] from hkind))

theorem apply_of_not_mem (hkind : op.kind ∉ kinds) (doc d : Json) : op.apply doc ≠ .ok d := by
  unfold apply
  rw [if_pos (show op.kind ∉ ["replace", "add", "remove", "change"] from hkind)]
  simp

end UndoOp

/-! ### One operation, and all of them -/

/-- What an operation makes of a document is what the patch makes of it, if and only if the
operation resolves there, where it is not refused. -/
theorem apply_iff (op doc : Json) :
    (∀ d, (UndoOp.ofJson op).apply doc = .ok d → step doc op = some d) ↔ Strict op doc := by
  by_cases hkind : (UndoOp.ofJson op).kind ∈ UndoOp.kinds
  · -- An operation of a known kind resolves at the root, or in the parent of its path.
    have hstrict : Strict op doc ↔
        match (UndoOp.ofJson op).tokens.getLast? with
        | none => PathWritten op ∧ (UndoOp.ofJson op).ResolvesAtRoot doc
        | some last => ∀ c, reach (UndoOp.ofJson op).tokens.dropLast doc = some c →
            (UndoOp.ofJson op).Done last c → PathWritten op ∧
              IndicesWritten (UndoOp.ofJson op).tokens.dropLast doc ∧
                (UndoOp.ofJson op).Resolves last c :=
      ⟨fun h => h hkind, fun h _ => h⟩
    rw [hstrict]
    simp only [UndoOp.apply_of_mem hkind]
    cases hlast : (UndoOp.ofJson op).tokens.getLast? with
    | none =>
        have hroot := UndoOp.atRoot_iff hkind doc
        by_cases hwritten : PathWritten op
        · simp only [hwritten, true_and, ← hroot, Except.ok.injEq, forall_eq',
            step_of_written hwritten, Option.bind_eq_some_iff, Op.apply, hlast]
        · simp [hwritten, step_of_not_written hwritten]
    | some last =>
        obtain ⟨hgo, hback⟩ := walk_spec (UndoOp.ofJson op) last
          (UndoOp.ofJson op).tokens.dropLast doc
        dsimp only
        constructor
        · -- Where the last step is done, the walk to it succeeds, and must be the patch's.
          intro h c hc hdone
          obtain ⟨c', htarget⟩ := (UndoOp.atTarget_isOk hkind c).mpr hdone
          obtain ⟨d, hd, hverb⟩ := hgo c c' hc htarget
          have hstep := h d hd
          by_cases hwritten : PathWritten op
          · rw [step_of_written hwritten, Option.bind_eq_some_iff] at hstep
            obtain ⟨verb, hv, happly⟩ := hstep
            simp only [Op.apply, hlast] at happly
            obtain ⟨hindices, hplace⟩ := (hverb verb).mp happly
            exact ⟨hwritten, hindices, (UndoOp.inParent_iff hkind htarget).mp ⟨verb, hv, hplace⟩⟩
          · rw [step_of_not_written hwritten] at hstep
            cases hstep
        · -- What was applied went to a parent and was done there.
          intro h d hd
          obtain ⟨c, c', hc, htarget⟩ := hback d hd
          obtain ⟨hwritten, hindices, hresolves⟩ :=
            h c hc ((UndoOp.atTarget_isOk hkind c).mp ⟨c', htarget⟩)
          obtain ⟨verb, hv, hplace⟩ := (UndoOp.inParent_iff hkind htarget).mpr hresolves
          obtain ⟨d', hd', hverb⟩ := hgo c c' hc htarget
          cases hd.symm.trans hd'
          rw [step_of_written hwritten, Option.bind_eq_some_iff]
          refine ⟨verb, hv, ?_⟩
          simp only [Op.apply, hlast]
          exact (hverb verb).mpr ⟨hindices, hplace⟩
  · exact ⟨fun _ h => absurd h hkind, fun _ d hd => absurd hd (UndoOp.apply_of_not_mem hkind doc d)⟩

theorem applyUndo_snoc (doc : Json) (pre : List Json) (op : Json) :
    applyUndo doc (pre ++ [op]) = applyUndo doc pre >>= (UndoOp.ofJson op).apply := by
  simp [applyUndo, List.foldlM_append]

theorem jsonPatch_snoc (doc : Json) (pre : List Json) (op : Json) :
    jsonPatch doc (pre ++ [op]) = (jsonPatch doc pre).bind (step · op) := by
  simp [jsonPatch, List.foldlM_append]

/-- Undo operations that are applied make of the document what they make of it as a patch, if and
only if each resolves on the document that the ones before it leave, where it is not refused. -/
theorem appliesAsPatch_iff (doc : Json) (ops : List Json) :
    (∀ pre, pre <+: ops → ∀ d, applyUndo doc pre = .ok d → jsonPatch doc pre = some d) ↔
      ∀ pre op post d, ops = pre ++ op :: post → applyUndo doc pre = .ok d → Strict op d := by
  constructor
  · intro h pre op post d hops hpre
    -- The prefix with the operation agrees, and so does the one without it.
    have hpref : pre ++ [op] <+: ops := ⟨post, by simp [hops]⟩
    rw [← apply_iff]
    intro d' hd'
    have hboth := h (pre ++ [op]) hpref d' (by rw [applyUndo_snoc, hpre]; exact hd')
    rw [jsonPatch_snoc, h pre ((List.prefix_append pre [op]).trans hpref) d hpre] at hboth
    exact hboth
  · intro h pre
    -- By the operations applied so far: the last one is strict where it is applied.
    induction pre using List.reverseRecOn with
    | nil =>
        intro _ d hd
        cases hd
        rfl
    | append_singleton pre op ih =>
        rintro ⟨post, hops⟩ d hd
        rw [applyUndo_snoc] at hd
        cases hpre : applyUndo doc pre with
        | error e =>
            rw [hpre] at hd
            cases hd
        | ok before =>
            rw [hpre] at hd
            have hbefore := ih ⟨op :: post, by simpa using hops⟩ before hpre
            have hstrict := h pre op post before (by simpa using hops.symm) hpre
            rw [jsonPatch_snoc, hbefore]
            exact (apply_iff op before).mpr hstrict d hd

/-- A member is taken away that is not there. -/
theorem not_appliesAsPatch : ¬ ∀ doc ops d, applyUndo doc ops = .ok d → jsonPatch doc ops = some d := by
  intro h
  have hpatch := h (.object []) [.object [("op", .string "remove"), ("path", .string "/status")]]
    (.object []) rfl
  have hnone : jsonPatch (.object []) [.object [("op", .string "remove"),
    ("path", .string "/status")]] = none := rfl
  rw [hnone] at hpatch
  cases hpatch

end Feed

end Frust.Kernel
