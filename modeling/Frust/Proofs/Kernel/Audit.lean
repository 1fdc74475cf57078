import Frust.Kernel.Audit
import Frust.Proofs.Kernel.Row
import Frust.Proofs.Rust.Str

/-!
# `Frust.Proofs.Kernel.Audit`: when the audit trail is the record's

`auditRoute_exact_iff` compares the answer with the entries that changed the record. The page is the
oldest entries of the feed, so a record that is changed after it is not followed further. On the
page an entry is taken by its text, and the text of another record can contain the id.
`contains_of_changed` is the half that holds of every id without a character that JSON escapes.
-/

set_option autoImplicit false

namespace Frust.Kernel

open Frust.Rust Feed

/-! ### Texts within texts -/

theorem contains_intercalate {pattern s sep : String} {parts : List String} (hmem : s ∈ parts)
    (h : Str.contains pattern s = true) : Str.contains pattern (sep.intercalate parts) = true := by
  induction parts with
  | nil => cases hmem
  | cons first rest ih =>
      cases rest with
      | nil =>
          rw [List.mem_singleton.mp hmem] at h
          rwa [String.intercalate_singleton]
      | cons second rest =>
          rw [String.intercalate_cons_cons]
          rcases List.mem_cons.mp hmem with rfl | hmem
          · exact Str.contains_append_left (Str.contains_append_left h _) _
          · exact Str.contains_append_right (ih hmem) _

theorem mem_itemTexts {v : Json} {items : List Json} (h : v ∈ items) :
    v.text ∈ Json.itemTexts items := by
  induction items with
  | nil => cases h
  | cons first rest ih =>
      unfold Json.itemTexts
      rcases List.mem_cons.mp h with rfl | h
      · exact List.mem_cons_self
      · exact List.mem_cons_of_mem _ (ih h)

theorem mem_entryTexts {k : String} {v : Json} {entries : List (String × Json)}
    (h : (k, v) ∈ entries) : jsonString k ++ ":" ++ v.text ∈ Json.entryTexts entries := by
  induction entries with
  | nil => cases h
  | cons first rest ih =>
      obtain ⟨k', v'⟩ := first
      unfold Json.entryTexts
      rcases List.mem_cons.mp h with heq | h
      · cases heq
        exact List.mem_cons_self
      · exact List.mem_cons_of_mem _ (ih h)

/-- The text of an item is in the text of the array. -/
theorem contains_array {pattern : String} {v : Json} {items : List Json} (hmem : v ∈ items)
    (h : Str.contains pattern v.text = true) :
    Str.contains pattern (Json.array items).text = true := by
  unfold Json.text
  refine Str.contains_append_left (Str.contains_append_right ?_ _) _
  exact contains_intercalate (mem_itemTexts hmem) h

/-- The text of a value is in the text of the object. -/
theorem contains_object {pattern k : String} {v : Json} {entries : List (String × Json)}
    (hmem : (k, v) ∈ entries) (h : Str.contains pattern v.text = true) :
    Str.contains pattern (Json.object entries).text = true := by
  unfold Json.text
  refine Str.contains_append_left (Str.contains_append_right ?_ _) _
  exact contains_intercalate (mem_entryTexts hmem) (Str.contains_append_right h _)

/-- No character of the text is escaped in JSON. -/
def Unescaped (s : String) : Prop := ∀ c ∈ s.toList, jsonChar c = String.ofList [c]

theorem contains_jsonString {s : String} (h : Unescaped s) :
    Str.contains s (jsonString s) = true := by
  -- A text without escapes stands in its quotes as it is.
  have hjoin : String.join (s.toList.map jsonChar) = s := by
    rw [← String.toList_inj, String.toList_join, List.flatMap_map]
    calc s.toList.flatMap (fun c => (jsonChar c).toList)
        = s.toList.flatMap (fun c => [c]) :=
          List.flatMap_congr fun c hc => by rw [h c hc, String.toList_ofList]
      _ = s.toList := List.flatMap_singleton' _
  unfold jsonString
  rw [hjoin]
  refine Str.contains_append_left (Str.contains_append_right ?_ _) _
  exact Str.contains_iff.mpr List.infix_rfl

/-- An entry that changed a record has its id in its text. -/
theorem contains_of_changed {record : String} (hplain : Unescaped record) {e : FeedEntry}
    (h : e.changed record = true) : Str.contains record e.json.text = true := by
  obtain ⟨c, hc, hrecord⟩ := List.any_eq_true.mp h
  replace hrecord : c.record = some record := of_decide_eq_true hrecord
  suffices Str.contains record c.json.text = true by
    refine contains_object (k := "changes") (List.mem_cons_of_mem _ List.mem_cons_self) ?_
    exact contains_array (List.mem_map_of_mem hc) this
  -- the id is an entry of the document of the change
  have hid : ∀ {v : Json}, v.asStr = some record → Str.contains record v.text = true := by
    intro v hv
    cases v with
    | string s =>
        obtain rfl : s = record := Option.some.inj hv
        exact contains_jsonString hplain
    | _ => cases hv
  have hfields : ∀ {fields : List (String × Json)},
      (fields.lookup "id").bind Json.asStr = some record →
      Str.contains record (Json.object fields).text = true := by
    intro fields hlookup
    obtain ⟨v, hv, hstr⟩ := Option.bind_eq_some_iff.mp hlookup
    exact contains_object (mem_of_lookup hv) (hid hstr)
  cases c with
  | defineTable info => cases hrecord
  | create fields =>
      exact contains_object (k := "update") List.mem_cons_self (hfields hrecord)
  | update current ops before undo =>
      refine contains_object (k := "current") List.mem_cons_self ?_
      cases current with
      | object fields => exact hfields hrecord
      | _ => cases hrecord
  | delete id original =>
      refine contains_object (k := "delete") List.mem_cons_self ?_
      exact contains_object (k := "id") List.mem_cons_self (hid hrecord)

/-! ### The page -/

/-- The newest entries, up to the cap. -/
def newest {α : Type} (cap : Nat) (entries : List α) : List α := entries.drop (entries.length - cap)

/-- The entries that changed the record. -/
def Feed.History.trail (h : History) (record : String) : List FeedEntry :=
  h.entries.filter (·.changed record)

theorem page_one (h : History) (limit : Nat) : h.page 1 limit = h.entries.take limit := by
  unfold History.page
  rw [List.filter_eq_self.mpr fun e _ => decide_eq_true e.pos]

theorem newest_of_length_le {α : Type} {cap : Nat} {entries : List α} (h : entries.length ≤ cap) :
    newest cap entries = entries := by
  unfold newest
  rw [Nat.sub_eq_zero_of_le h, List.drop_zero]

/-- The last entry is among the newest. -/
theorem getLast_mem_newest {α : Type} {cap : Nat} (hcap : 0 < cap) (before : List α)
    {after : List α} (hne : after ≠ []) : after.getLast hne ∈ newest cap (before ++ after) := by
  have hsplit : before ++ after = (before ++ after.dropLast) ++ [after.getLast hne] := by
    rw [List.append_assoc, List.dropLast_append_getLast]
  -- What is dropped ends before the last entry.
  unfold newest
  rw [hsplit,
    List.drop_append_of_le_length (by rw [List.length_append, List.length_singleton]; omega)]
  exact List.mem_append_right _ (List.mem_singleton.mpr rfl)

theorem nodup_versionstamps (h : History) : (h.entries.map (·.versionstamp)).Nodup :=
  List.pairwise_map.mpr (h.rising.imp Nat.ne_of_lt)

theorem eq_of_json_eq {h : History} {e e' : FeedEntry} (he : e ∈ h.entries) (he' : e' ∈ h.entries)
    (heq : e.json = e'.json) : e = e' := by
  -- The version is in the text, and each entry has its own.
  have hstamp : e.versionstamp = e'.versionstamp := by
    unfold FeedEntry.json at heq
    have hentries := Json.object.inj heq
    exact Int.ofNat.inj (Json.int.inj (Prod.mk.inj (List.cons.inj hentries).1).2)
  exact List.inj_on_of_nodup_map (nodup_versionstamps h) he he' hstamp

/-- The entries of a feed whose answers are the same are the same. -/
theorem mem_of_map_json_eq {h : History} {as bs : List FeedEntry} (has : as ⊆ h.entries)
    (hbs : bs ⊆ h.entries) (heq : as.map FeedEntry.json = bs.map FeedEntry.json) : as ⊆ bs := by
  intro e he
  have hmem : e.json ∈ bs.map FeedEntry.json := heq ▸ List.mem_map_of_mem he
  obtain ⟨e', he', hjson⟩ := List.mem_map.mp hmem
  rwa [eq_of_json_eq (has he) (hbs he') hjson.symm]

/-- The page has the trail exactly where no entry after it changed the record, and where on it the
texts that contain the id are those of the entries that did. -/
theorem page_eq_trail_iff (h : History) (record : String) {cap : Nat} (hcap : 1000 ≤ cap) :
    ((h.entries.take 1000).filter fun e => Str.contains record e.json.text).map FeedEntry.json
        = (newest cap (h.trail record)).map FeedEntry.json ↔
      (∀ e ∈ h.entries.drop 1000, e.changed record = false) ∧
      ∀ e ∈ h.entries.take 1000, Str.contains record e.json.text = e.changed record := by
  have hnodup : h.entries.Nodup := List.Nodup.of_map _ (nodup_versionstamps h)
  have htrail : h.trail record = (h.entries.take 1000).filter (·.changed record)
      ++ (h.entries.drop 1000).filter (·.changed record) := by
    unfold History.trail
    rw [← List.filter_append, List.take_append_drop]
  -- On the page there is never more than the cap.
  have hshort : ((h.entries.take 1000).filter (·.changed record)).length ≤ cap := by
    have hfilter := List.length_filter_le (·.changed record) (h.entries.take 1000)
    rw [List.length_take] at hfilter
    omega
  constructor
  · intro heq
    have hpage :
        ((h.entries.take 1000).filter fun e => Str.contains record e.json.text) ⊆ h.entries :=
      fun e he => List.mem_of_mem_take (List.mem_of_mem_filter he)
    have hnewest : newest cap (h.trail record) ⊆ h.entries :=
      fun e he => List.mem_of_mem_filter (List.mem_of_mem_drop he)
    -- Two answers that are the same have the same entries.
    have hto := mem_of_map_json_eq hpage hnewest heq
    have hfrom := mem_of_map_json_eq hnewest hpage heq.symm
    have hnone : (h.entries.drop 1000).filter (·.changed record) = [] := by
      by_contra hne
      -- the last of them is answered, and it is not on the page
      have hlast := getLast_mem_newest (by omega : 0 < cap)
        ((h.entries.take 1000).filter (·.changed record)) hne
      rw [← htrail] at hlast
      have hdrop := List.mem_of_mem_filter (List.getLast_mem hne)
      have htake := List.mem_of_mem_filter (hfrom hlast)
      exact (List.disjoint_take_drop hnodup (Nat.le_refl 1000)) htake hdrop
    rw [hnone, List.append_nil] at htrail
    rw [htrail, newest_of_length_le hshort] at hto hfrom
    refine ⟨fun e he => ?_, fun e he => ?_⟩
    · have hnot := List.filter_eq_nil_iff.mp hnone e he
      exact Bool.eq_false_iff.mpr hnot
    · rw [Bool.eq_iff_iff]
      constructor
      · exact fun hm => (List.mem_filter.mp (hto (List.mem_filter.mpr ⟨he, hm⟩))).2
      · exact fun hc => (List.mem_filter.mp (hfrom (List.mem_filter.mpr ⟨he, hc⟩))).2
  · rintro ⟨hafter, hpage⟩
    have hnone : (h.entries.drop 1000).filter (·.changed record) = [] :=
      List.filter_eq_nil_iff.mpr fun e he => by simp [hafter e he]
    rw [hnone, List.append_nil] at htrail
    rw [htrail, newest_of_length_le hshort, List.filter_congr hpage]

/-! ### The route -/

/-- What the database answers to the statement of the route. -/
def Feed.History.changes (h : History) (since limit : Nat) : Except BrokerError Json :=
  .ok (.array ((h.page since limit).map FeedEntry.json))

/-- The route answers the entries of the page whose text contains the id. -/
theorem auditRoute_eq {caller : Caller} (hmanager : caller.role = "manager") {doctype : String}
    (hident : isIdent doctype = true) (key : String) (h : History) :
    auditRoute caller doctype key h.changes = .ok (.object
      [("record", .string (doctype ++ ":" ++ key)), ("total", .int (h.entries.take 1000).length),
        ("entries", .array (((h.entries.take 1000).filter fun e =>
          Str.contains (doctype ++ ":" ++ key) e.json.text).map FeedEntry.json))]) := by
  unfold auditRoute Session.requireManager checkIdent History.changes
  rw [if_pos hmanager, if_pos hident, page_one]
  show Except.ok _ = Except.ok _
  rw [Json.rows, List.filter_map, List.length_map]
  rfl

/-- For a manager and a DocType's name, and every cap of 1000 entries or more: the route answers the
newest entries that changed the record, up to the cap, if and only if no entry after the first 1000
changed it, and of the first 1000 those that contain its id in their text are those that changed it.
For an id without escaped characters the last part is that none contains it that did not change the
record. -/
theorem auditRoute_exact_iff {caller : Caller} (hmanager : caller.role = "manager")
    {doctype : String} (hident : isIdent doctype = true) (key : String) (h : History) {cap : Nat}
    (hcap : 1000 ≤ cap) :
    ((∃ total, auditRoute caller doctype key h.changes = .ok (.object
        [("record", .string (doctype ++ ":" ++ key)), ("total", total),
          ("entries",
            .array ((newest cap (h.trail (doctype ++ ":" ++ key))).map FeedEntry.json))])) ↔
      (∀ e ∈ h.entries.drop 1000, e.changed (doctype ++ ":" ++ key) = false) ∧
      ∀ e ∈ h.entries.take 1000,
        Str.contains (doctype ++ ":" ++ key) e.json.text = e.changed (doctype ++ ":" ++ key)) ∧
    (Unescaped (doctype ++ ":" ++ key) →
      ((∀ e ∈ h.entries.take 1000,
          Str.contains (doctype ++ ":" ++ key) e.json.text = e.changed (doctype ++ ":" ++ key)) ↔
        ∀ e ∈ h.entries.take 1000, e.changed (doctype ++ ":" ++ key) = false →
          Str.contains (doctype ++ ":" ++ key) e.json.text = false)) := by
  constructor
  · rw [← page_eq_trail_iff h _ hcap, auditRoute_eq hmanager hident]
    constructor
    · rintro ⟨total, heq⟩
      -- The entries of the answer are the third field.
      have hentries := Json.object.inj (Except.ok.inj heq)
      exact Json.array.inj (Prod.mk.inj (List.cons.inj (List.cons.inj
        (List.cons.inj hentries).2).2).1).2
    · intro heq
      exact ⟨_, by rw [heq]⟩
  · intro hplain
    -- An entry that changed the record contains its id, so only the other half is left.
    refine forall₂_congr fun e _ => ⟨fun heq hc => heq.trans hc, fun himp => ?_⟩
    cases hc : e.changed (doctype ++ ":" ++ key) with
    | true => exact contains_of_changed hplain hc
    | false => exact himp hc

/-- One record, created once. -/
def oneNote (id : String) : History where
  entries := [⟨1, [.create [("id", .string id)]], by decide, by decide⟩]
  rising := List.pairwise_singleton _ _

/-- The trail of a record that is the only one. -/
theorem auditRoute_exact_one :
    ∃ total, auditRoute ⟨"admin", "", "manager"⟩ "note" "1" (oneNote "note:1").changes = .ok
      (.object [("record", .string "note:1"), ("total", total),
        ("entries",
          .array ((newest 1000 ((oneNote "note:1").trail "note:1")).map FeedEntry.json))]) := by
  refine (auditRoute_exact_iff rfl (by decide) "1" (oneNote "note:1") (Nat.le_refl _)).1.mpr
    ⟨fun e he => absurd he List.not_mem_nil, fun e he => ?_⟩
  rw [List.mem_singleton.mp he]
  decide +kernel

/-- The trail of `note:1` has the entry of `note:10`. -/
theorem not_auditRoute_exact :
    ¬∀ (caller : Caller) (doctype key : String) (h : History), caller.role = "manager" →
      isIdent doctype = true → ∃ total, auditRoute caller doctype key h.changes = .ok (.object
        [("record", .string (doctype ++ ":" ++ key)), ("total", total),
          ("entries",
            .array ((newest 1000 (h.trail (doctype ++ ":" ++ key))).map FeedEntry.json))]) := by
  intro hall
  obtain ⟨total, heq⟩ :=
    hall ⟨"admin", "", "manager"⟩ "note" "1" (oneNote "note:10") rfl (by decide)
  have hlength := congrArg (fun r => (r.toOption.bind fun v => v.get "entries").map
    fun v => v.rows.length) heq
  have hone : ((auditRoute ⟨"admin", "", "manager"⟩ "note" "1"
      (oneNote "note:10").changes).toOption.bind fun v => v.get "entries").map
      (fun v => v.rows.length) = some 1 := by decide +kernel
  have hnone : newest 1000 ((oneNote "note:10").trail ("note" ++ ":" ++ "1")) = [] :=
    List.length_eq_zero_iff.mp (by decide +kernel)
  simp only [hone, hnone] at hlength
  cases hlength

end Frust.Kernel
