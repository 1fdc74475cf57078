import Frust.Proofs.Kernel.Decimal
import Frust.Proofs.Kernel.Solo

/-!
# `Frust.Proofs.Kernel.Delta`: what an update sends

`delta` compares what `validate` returned with what it was shown through `sameValue`, which
does not know the type of a field. `typedSame` does: in a field that is no `Currency`, a text
is a text. `merges_delta_iff` says when an update sends what the caller wrote and what the
hook changed, and nothing else: when `sameValue` sees the changes that `typedSame` sees in the
fields that the caller left alone, and `validate` returns the fields that the caller wrote.

`same_of_fits` and `same_of_texts` say where the two comparisons agree. A text field that goes
from one numeral to another of the same number is not sent (`not_merges_delta`).
-/

set_option autoImplicit false

namespace Frust.Kernel

open Frust.Lib

/-! ### Values of a field's type -/

/-- The number that a value of a field is. A text is one in a `Currency` only. -/
def numberOf (fieldtype : String) : Value → Option ℚ
  | .int i => some i
  | .float text => numeral text
  | .decimal s => numeral s
  | .text s => if fieldtype = "Currency" then numeral s else none
  | _ => none

/-- The same value of the field's type: the same number, or equal. -/
def typedSame (fieldtype : String) (a b : Value) : Bool :=
  match numberOf fieldtype a, numberOf fieldtype b with
  | some x, some y => x = y
  | _, _ => eqValue a b

/-- For a field, an entry was returned that is not the same as what was shown. -/
def Changes (same : Value → Value → Bool) (k : String) (shown validated : Doc) : Prop :=
  ∃ e ∈ validated, e.1 = k ∧ ∀ h ∈ shown, h.1 = k → same h.2 e.2 = false

/-- A document names a field. -/
def Names (doc : Doc) (k : String) : Prop := ∃ e ∈ doc, e.1 = k

/-- The content has a declared field exactly if the caller wrote it, or the hook changed its
value. -/
def MergesDelta (m : DocTypeMeta) (doc shown validated content : Doc) : Prop :=
  ∀ f ∈ m.fields, Names content f.fieldname ↔
    Names doc f.fieldname ∨ Changes (typedSame f.fieldtype) f.fieldname shown validated

/-- The hook returns the fields that the caller wrote. In the others `sameValue` sees a change
exactly if the value changed. `id` is neither written nor changed. -/
def SeesDelta (m : DocTypeMeta) (doc shown validated : Doc) : Prop :=
  ∀ f ∈ m.fields,
    (Names doc f.fieldname → Names validated f.fieldname ∧ f.fieldname ≠ "id") ∧
    (¬Names doc f.fieldname →
      (Changes sameValue f.fieldname shown validated ∧ f.fieldname ≠ "id" ↔
        Changes (typedSame f.fieldtype) f.fieldname shown validated))

instance (doc : Doc) (k : String) : Decidable (Names doc k) :=
  inferInstanceAs (Decidable (∃ e ∈ doc, e.1 = k))

instance (same : Value → Value → Bool) (k : String) (shown validated : Doc) :
    Decidable (Changes same k shown validated) :=
  inferInstanceAs (Decidable (∃ e ∈ validated, e.1 = k ∧ ∀ h ∈ shown, h.1 = k → same h.2 e.2 = false))

instance (m : DocTypeMeta) (doc shown validated content : Doc) :
    Decidable (MergesDelta m doc shown validated content) :=
  inferInstanceAs (Decidable (∀ f ∈ m.fields, _))

instance (m : DocTypeMeta) (doc shown validated : Doc) :
    Decidable (SeesDelta m doc shown validated) :=
  inferInstanceAs (Decidable (∀ f ∈ m.fields, _))

/-! ### Where the comparisons agree -/

/-- Decimals are compared as what they are, as long as the larger scale keeps them in range and the
scales are not cut. -/
theorem same_of_fits {s t fieldtype : String} {x y : Decimal} (hs : s.length < 2 ^ 32)
    (ht : t.length < 2 ^ 32) (hx : Decimal.parse s = some x) (hy : Decimal.parse t = some y)
    (hxfits : x.Fits (max x.scale y.scale)) (hyfits : y.Fits (max x.scale y.scale)) :
    sameValue (.decimal s) (.decimal t) = typedSame fieldtype (.decimal s) (.decimal t) := by
  have hsame : sameValue (.decimal s) (.decimal t) = x.numEq y := by
    simp only [sameValue, asNum, hx, hy]
  have htyped : typedSame fieldtype (.decimal s) (.decimal t) = decide (x.value = y.value) := by
    simp only [typedSame, numberOf, numeral_of_parse hs hx, numeral_of_parse ht hy]
  rw [hsame, htyped, Bool.eq_iff_iff, decide_eq_true_iff]
  exact Decimal.numEq_iff hxfits hyfits

/-- Texts of a field that is no `Currency` are compared as texts, unless they are two numerals
of one number. -/
theorem same_of_texts {s t fieldtype : String} (htype : fieldtype ≠ "Currency") :
    sameValue (.text s) (.text t) = typedSame fieldtype (.text s) (.text t) ↔
      (∀ x y, Decimal.parse s = some x → Decimal.parse t = some y → x.numEq y = decide (s = t)) := by
  have htyped : typedSame fieldtype (.text s) (.text t) = decide (s = t) := by
    simp only [typedSame, numberOf, if_neg htype, eqValue]
  rw [htyped]
  cases hx : Decimal.parse s with
  | none => simp [sameValue, asNum, hx, eqValue]
  | some x =>
      cases hy : Decimal.parse t with
      | none => simp [sameValue, asNum, hx, hy, eqValue]
      | some y => simp [sameValue, asNum, hx, hy]

/-! ### The content -/

/-- What of the hooks' output may be written: declared fields and the engine's. -/
theorem mem_envelope {m : DocTypeMeta} {entries : Doc} {e : String × Value} :
    e ∈ envelope m entries ↔ e ∈ entries ∧ e.1 ≠ "id" ∧
      (m.fields.any (·.fieldname = e.1) ∨ e.1 ∈ engineFields ∨ e.1 = "docstatus") := by
  unfold envelope
  simp only [List.mem_filter, ne_eq, decide_not, Bool.not_eq_true', decide_eq_false_iff_not,
    Bool.or_eq_true, decide_eq_true_eq, and_assoc, or_assoc]

/-- What of it is sent: what the caller wrote, and what differs from what was shown. -/
theorem mem_delta {doc shown entries : Doc} {e : String × Value} :
    e ∈ delta doc shown entries ↔ e ∈ entries ∧
      (Names doc e.1 ∨ ∀ h ∈ shown, h.1 = e.1 → sameValue h.2 e.2 = false) := by
  unfold delta
  simp only [List.mem_filter, Bool.or_eq_true, List.any_eq_true, decide_eq_true_eq,
    Bool.not_eq_true', List.any_eq_false, Bool.and_eq_true, not_and, Bool.not_eq_true, Names]

/-- The content names a declared field that `validate` returned, if the caller wrote it or
`sameValue` sees a change. -/
theorem names_content_iff {solo : Solo} {doc shown validated : Doc} {f : FieldMeta}
    (hf : f ∈ solo.doctype.fields) :
    Names (solo.content .update doc shown validated) f.fieldname ↔
      f.fieldname ≠ "id" ∧ (Names doc f.fieldname ∧ Names validated f.fieldname ∨
        Changes sameValue f.fieldname shown validated) := by
  have hdeclared : solo.doctype.fields.any (·.fieldname = f.fieldname) = true :=
    List.any_eq_true.mpr ⟨f, hf, by simp⟩
  show Names (delta doc shown (envelope solo.doctype validated)) f.fieldname ↔ _
  constructor
  · rintro ⟨e, he, hname⟩
    obtain ⟨hin, hsent⟩ := mem_delta.mp he
    obtain ⟨hin, hid, _⟩ := mem_envelope.mp hin
    rw [hname] at hid hsent
    rcases hsent with hdoc | hdiff
    · exact ⟨hid, Or.inl ⟨hdoc, e, hin, hname⟩⟩
    · exact ⟨hid, Or.inr ⟨e, hin, hname, hdiff⟩⟩
  · rintro ⟨hid, ⟨hdoc, e, hin, hname⟩ | ⟨e, hin, hname, hdiff⟩⟩
    · rw [← hname] at hid hdoc hdeclared
      exact ⟨e, mem_delta.mpr ⟨mem_envelope.mpr ⟨hin, hid, Or.inl hdeclared⟩, Or.inl hdoc⟩, hname⟩
    · rw [← hname] at hid hdiff hdeclared
      exact ⟨e, mem_delta.mpr ⟨mem_envelope.mpr ⟨hin, hid, Or.inl hdeclared⟩, Or.inr hdiff⟩, hname⟩

/-- The content is the delta exactly when the delta is seen. -/
theorem mergesDelta_iff {solo : Solo} {doc shown validated : Doc} :
    MergesDelta solo.doctype doc shown validated (solo.content .update doc shown validated) ↔
      SeesDelta solo.doctype doc shown validated := by
  unfold MergesDelta SeesDelta
  refine forall_congr' fun f => forall_congr' fun hf => ?_
  rw [names_content_iff hf]
  by_cases hdoc : Names doc f.fieldname
  · simp only [hdoc, true_and, true_or, iff_true, true_imp_iff, not_true_eq_false,
      false_imp_iff, and_true]
    constructor
    · rintro ⟨hid, hnamed | ⟨e, hin, hname, _⟩⟩
      · exact ⟨hnamed, hid⟩
      · exact ⟨⟨e, hin, hname⟩, hid⟩
    · rintro ⟨hnamed, hid⟩
      exact ⟨hid, Or.inl hnamed⟩
  · simp only [hdoc, false_and, false_or, false_imp_iff, true_and, not_false_eq_true, true_imp_iff]
    rw [and_comm]

/-- An update that is sent, whatever becomes of it, merges the delta exactly when the delta
is seen. -/
theorem merges_delta_iff {solo : Solo} {E : Engine} {caller : Caller} {chain : HookChain}
    {doctype : String} {record : Option String} {doc : Doc} {row : Option Doc}
    {r : Except BrokerError Json} {s : SoloState} {rid : String} {content : Doc}
    (h : (dbWrite caller chain .update doctype record doc).run (solo.serve E) { row := row }
      = (r, s))
    (hsent : .update rid content ∈ s.sent) :
    ∃ validated, solo.validate (solo.offered E row .update record doc) = .ok validated ∧
      (MergesDelta solo.doctype doc (solo.offered E row .update record doc) validated content ↔
        SeesDelta solo.doctype doc (solo.offered E row .update record doc) validated) := by
  -- An update that is sent is that of what `validate` returned.
  obtain ⟨shown, validated, hshown, hvalidated, hstmt⟩ :=
    solo_sends h (fun _ _ => List.not_mem_nil) hsent
  cases hshown
  refine ⟨validated, hvalidated, ?_⟩
  obtain ⟨_, _, hstmt⟩ := bind_eq_ok hstmt
  cases record with
  | none => cases hstmt
  | some key =>
      cases hstmt
      exact mergesDelta_iff

/-! ### An item with a code -/

/-- Items: a code and a note, both texts. -/
def item : DocTypeDef where
  name := "item"
  fields := [{ fieldname := "code", fieldtype := "Data" }, { fieldname := "note", fieldtype := "Data" }]

/-- A stored item. -/
def itemRow : Doc := [("code", .text "007"), ("note", .text "new"), ("status", .text "Draft")]

/-- The table of items, with a `validate` hook. -/
def itemSolo (validate : Doc → Except BrokerError Doc) : Solo where
  doctype := ⟨"item", [{ fieldname := "code", fieldtype := "Data" },
    { fieldname := "note", fieldtype := "Data" }]⟩
  gates := gatesOf [] (((doctypeDdlIn item []).toOption).getD [])
  session := ⟨"app_user:m", "manager"⟩
  fire _ doc := .ok doc
  validate := validate
  fresh := "item:new"

/-- A manager writes a note on the item. -/
def itemWrite (validate : Doc → Except BrokerError Doc) : Except BrokerError Json × SoloState :=
  (dbWrite ⟨"m", "", "manager"⟩ [] .update "item" (some "1") [("note", .text "old")]).run
    ((itemSolo validate).serve plain) { row := some itemRow }

/-- What the hooks are shown. -/
def itemShown : Doc :=
  [("code", .text "007"), ("note", .text "old"), ("status", .text "Draft"), ("id", .text "item:1")]

/-- A hook that gives the code another number is sent. -/
theorem merges_delta_code :
    ∃ content, (itemWrite (.ok <| setField "code" (.text "8") ·)).2.sent
        = [.record "item:1", .update "item:1" content] ∧
      MergesDelta (itemSolo .ok).doctype [("note", .text "old")] itemShown
        (setField "code" (.text "8") itemShown) content := by
  have hall : (itemWrite (.ok <| setField "code" (.text "8") ·)).2.sent = [.record "item:1",
      .update "item:1" [("code", .text "8"), ("note", .text "old")]] := rfl
  have hsent : .update "item:1" [("code", .text "8"), ("note", .text "old")] ∈
      (itemWrite (.ok <| setField "code" (.text "8") ·)).2.sent := by
    rw [hall]
    exact List.mem_cons_of_mem _ List.mem_cons_self
  obtain ⟨validated, hvalidated, hiff⟩ := merges_delta_iff (E := plain) rfl hsent
  cases hvalidated
  exact ⟨_, hall, hiff.mpr (by decide +kernel)⟩

/-- A hook that takes the zeros off the code is not sent. -/
theorem not_merges_delta :
    ∃ content, (itemWrite (.ok <| setField "code" (.text "7") ·)).2.sent
        = [.record "item:1", .update "item:1" content] ∧
      ¬MergesDelta (itemSolo .ok).doctype [("note", .text "old")] itemShown
        (setField "code" (.text "7") itemShown) content :=
  ⟨[("note", .text "old")], rfl, by decide +kernel⟩

end Frust.Kernel
