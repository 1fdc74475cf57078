import Frust.Kernel.Sync
import Frust.Lib.Prog

/-!
# `Frust.Proofs.Kernel.Compile`: what a DocType compiles to

`doctypeDdlIn_cases` says all that the compiler does: the table of a rollup is one closed
statement, and any other table is the engine's frame (`frameDdls`) with the statements of the
declared fields (`Declares`) and of the counters after it.
-/

set_option autoImplicit false

namespace Frust.Kernel

open Frust.Lib

section

variable {dt : DocTypeDef} {ds : List Ddl}

/-! ### Declared fields -/

/-- What a declared field compiles to. -/
inductive Declares (f : FieldDef) : List Ddl → Prop where
  | table : f.fieldtype = "Table" → Declares f
      [.field { name := f.fieldname, type := .option (.array .object) }, .elements f.fieldname]
  | plain {required : Bool} {type : FieldType} {assert : Option Expr} : f.fieldtype ≠ "Table" →
      fieldClause f required = .ok (type, assert) → Declares f
      [.field { name := f.fieldname, type := type, assert := assert }]

theorem fieldDdl_inv {f : FieldDef} (h : fieldDdl dt f = .ok ds) :
    isIdent f.fieldname = true ∧ Declares f ds := by
  simp only [fieldDdl] at h
  split at h
  · exact absurd h (by simp [badValue])
  · rename_i hname
    have hident : isIdent f.fieldname = true := by simpa using hname
    refine ⟨hident, ?_⟩
    split at h
    · rename_i htable
      split at h
      · cases h
        exact .table htable
      · cases h
        exact .table htable
      · exact absurd h (by simp [badValue])
      · exact absurd h (by simp [badValue])
    · rename_i htable
      obtain ⟨clause, hclause, h⟩ := bind_eq_ok h
      cases h
      exact .plain htable hclause

/-- The statements of declared fields are those of each, in their order. -/
theorem fieldDdls_inv {fields : List FieldDef} (h : fieldDdls dt fields = .ok ds) :
    ∃ dss, ds = dss.flatten ∧
      List.Forall₂ (fun f ds => isIdent f.fieldname = true ∧ Declares f ds) fields dss := by
  induction fields generalizing ds with
  | nil =>
      cases h
      exact ⟨[], rfl, .nil⟩
  | cons f rest ih =>
      obtain ⟨ds₁, hf, h⟩ := bind_eq_ok h
      obtain ⟨ds₂, hrest, h⟩ := bind_eq_ok h
      cases h
      obtain ⟨dss, rfl, hdss⟩ := ih hrest
      exact ⟨ds₁ :: dss, rfl, .cons (fieldDdl_inv hf) hdss⟩

/-- Each statement is that of a declared field. -/
theorem declares_of_mem {fields : List FieldDef} (h : fieldDdls dt fields = .ok ds) {d : Ddl}
    (hd : d ∈ ds) :
    ∃ f ∈ fields, isIdent f.fieldname = true ∧ ∃ ds', Declares f ds' ∧ d ∈ ds' := by
  obtain ⟨dss, rfl, hdss⟩ := fieldDdls_inv h
  obtain ⟨ds', hds', hd⟩ := List.mem_flatten.mp hd
  obtain ⟨i, hi, rfl⟩ := List.getElem_of_mem hds'
  have hi' : i < fields.length := hdss.length_eq ▸ hi
  obtain ⟨hname, hdeclares⟩ := (List.forall₂_iff_get.mp hdss).2 i hi' hi
  exact ⟨_, List.get_mem fields ⟨i, hi'⟩, hname, _, hdeclares, hd⟩

/-- Each declared field has its statements. -/
theorem declares_of_field {fields : List FieldDef} (h : fieldDdls dt fields = .ok ds)
    {f : FieldDef} (hf : f ∈ fields) :
    isIdent f.fieldname = true ∧ ∃ ds', Declares f ds' ∧ ∀ d ∈ ds', d ∈ ds := by
  obtain ⟨dss, rfl, hdss⟩ := fieldDdls_inv h
  obtain ⟨i, hi, rfl⟩ := List.getElem_of_mem hf
  have hi' : i < dss.length := hdss.length_eq ▸ hi
  obtain ⟨hname, hdeclares⟩ := (List.forall₂_iff_get.mp hdss).2 i hi hi'
  exact ⟨hname, _, hdeclares,
    fun d hd => List.mem_flatten.mpr ⟨_, List.get_mem dss ⟨i, hi'⟩, hd⟩⟩

/-- Fields compile in a Single as in another Single. -/
theorem fieldDdls_congr {dt' : DocTypeDef} (h : dt'.issingle = dt.issingle)
    (fields : List FieldDef) : fieldDdls dt' fields = fieldDdls dt fields := by
  induction fields with
  | nil => rfl
  | cons f rest ih =>
      have hone : fieldDdl dt' f = fieldDdl dt f := by
        unfold fieldDdl
        rw [h]
      unfold fieldDdls
      rw [hone, ih]

/-- A declared field defines a column of its name, and elements. -/
theorem mem_fieldDdl {f : FieldDef} (h : fieldDdl dt f = .ok ds) {d : Ddl} (hd : d ∈ ds) :
    (∃ c, d = .field c ∧ c.name = f.fieldname) ∨ ∃ name, d = .elements name := by
  cases (fieldDdl_inv h).2 with
  | table _ =>
      rcases List.mem_pair.mp hd with rfl | rfl
      · exact Or.inl ⟨_, rfl, rfl⟩
      · exact Or.inr ⟨_, rfl⟩
  | plain _ _ =>
      rw [List.mem_singleton.mp hd]
      exact Or.inl ⟨_, rfl, rfl⟩

theorem mem_fieldDdls {fields : List FieldDef} : ∀ {ds : List Ddl},
    fieldDdls dt fields = .ok ds → ∀ d ∈ ds,
      (∃ c, d = .field c ∧ c.name ∈ fields.map (·.fieldname)) ∨ ∃ name, d = .elements name := by
  induction fields with
  | nil =>
      intro ds h d hd
      cases h
      exact absurd hd List.not_mem_nil
  | cons f rest ih =>
      intro ds h d hd
      obtain ⟨ds₁, hf, h⟩ := bind_eq_ok h
      obtain ⟨ds₂, hrest, h⟩ := bind_eq_ok h
      cases h
      rcases List.mem_append.mp hd with hd | hd
      · rcases mem_fieldDdl hf hd with ⟨c, rfl, hc⟩ | hel
        · exact Or.inl ⟨c, rfl, by rw [hc]; exact List.mem_cons_self⟩
        · exact Or.inr hel
      · rcases ih hrest d hd with ⟨c, rfl, hc⟩ | hel
        · exact Or.inl ⟨c, rfl, List.mem_cons_of_mem _ hc⟩
        · exact Or.inr hel

/-! ### Aggregates -/

theorem agg_inj {a b : String} (h : "agg_" ++ a = "agg_" ++ b) : a = b := by
  have hlist := congrArg String.toList h
  rw [String.toList_append, String.toList_append] at hlist
  exact String.toList_inj.mp (List.append_cancel_left hlist)

/-- What `validate_agg` has checked. -/
structure ValidAgg (agg : AggregateDef) : Prop where
  rollup : isIdent agg.rollup = true
  key : agg.kind = "counter" → isIdent agg.key = true
  metrics : ∀ m ∈ agg.metrics, isIdent m.name = true ∧ isIdent m.field = true ∧
    m.name ∉ ["k", "n", "id"]

theorem validateAgg_inv {agg : AggregateDef} (h : validateAgg agg = .ok ()) : ValidAgg agg := by
  unfold validateAgg at h
  dsimp only at h
  split at h
  · cases h
  rename_i hrollup
  split at h
  · cases h
  rename_i hkey
  split at h
  · cases h
  rename_i hmetrics
  refine ⟨by simpa using hrollup, fun hkind => by simpa [hkind] using hkey, fun m hm => ?_⟩
  have hvalid := List.find?_eq_none.mp hmetrics m hm
  simp only [Bool.or_eq_true, not_or, Bool.not_eq_true, Bool.not_eq_false',
    decide_eq_false_iff_not] at hvalid
  exact ⟨hvalid.1.1, hvalid.1.2, hvalid.2⟩

theorem counterEventDdl_inv {agg : AggregateDef} {d : Ddl}
    (h : counterEventDdl dt agg = .ok d) :
    d = .event ("agg_" ++ agg.rollup) (.cmp .ne .event (.str "SELECT"))
      (.counter dt.submittable agg) ∧ validateAgg agg = .ok () := by
  obtain ⟨_, hvalid, h⟩ := bind_eq_ok h
  cases h
  exact ⟨rfl, hvalid⟩

/-- The statements of an aggregate: those of a counter, or none. -/
theorem aggregateDdl_inv {agg : AggregateDef}
    (h : aggregateDdl dt agg = .ok ds) :
    (agg.kind = "counter" ∧ validateAgg agg = .ok () ∧
      ds = [.event ("agg_" ++ agg.rollup) (.cmp .ne .event (.str "SELECT"))
        (.counter dt.submittable agg)]) ∨ (agg.kind ≠ "counter" ∧ ds = []) := by
  unfold aggregateDdl at h
  split at h
  · rename_i hkind
    obtain ⟨d, hd, h⟩ := bind_eq_ok h
    cases h
    obtain ⟨rfl, hvalid⟩ := counterEventDdl_inv hd
    exact Or.inl ⟨hkind, hvalid, rfl⟩
  · rename_i hkind
    split at h
    · obtain ⟨_, _, h⟩ := bind_eq_ok h
      cases h
      exact Or.inr ⟨hkind, rfl⟩
    · exact absurd h (by simp [badValue])

/-- The statements of the aggregates are those of the counters, in their order. -/
theorem aggregateDdls_eq {aggs : List AggregateDef} (h : aggregateDdls dt aggs = .ok ds) :
    ds = (aggs.filter (·.kind = "counter")).map fun agg => .event ("agg_" ++ agg.rollup)
      (.cmp .ne .event (.str "SELECT")) (.counter dt.submittable agg) := by
  induction aggs generalizing ds with
  | nil =>
      cases h
      rfl
  | cons agg rest ih =>
      obtain ⟨ds₁, hagg, h⟩ := bind_eq_ok h
      obtain ⟨ds₂, hrest, h⟩ := bind_eq_ok h
      cases h
      rcases aggregateDdl_inv hagg with ⟨hkind, _, rfl⟩ | ⟨hkind, rfl⟩
      · rw [List.filter_cons_of_pos (by simpa using hkind), List.map_cons, ih hrest]
        rfl
      · rw [List.filter_cons_of_neg (by simpa using hkind), ih hrest]
        rfl

/-- Aggregates compile in a table as in another of its name. -/
theorem aggregateDdls_congr {dt' : DocTypeDef} (hname : dt'.name = dt.name)
    (hsub : dt'.submittable = dt.submittable) (aggs : List AggregateDef) :
    aggregateDdls dt' aggs = aggregateDdls dt aggs := by
  induction aggs with
  | nil => rfl
  | cons agg rest ih =>
      have hone : aggregateDdl dt' agg = aggregateDdl dt agg := by
        unfold aggregateDdl counterEventDdl
        rw [hname, hsub]
      unfold aggregateDdls
      rw [hone, ih]

/-- Every statement of the aggregates is that of a counter. -/
theorem mem_counters {aggs : List AggregateDef} (h : aggregateDdls dt aggs = .ok ds) (d : Ddl)
    (hd : d ∈ ds) : ∃ agg ∈ aggs, agg.kind = "counter" ∧
      d = .event ("agg_" ++ agg.rollup) (.cmp .ne .event (.str "SELECT"))
        (.counter dt.submittable agg) := by
  rw [aggregateDdls_eq h] at hd
  obtain ⟨agg, hagg, rfl⟩ := List.mem_map.mp hd
  obtain ⟨hmem, hkind⟩ := List.mem_filter.mp hagg
  exact ⟨agg, hmem, by simpa using hkind, rfl⟩

/-- The names of a counter were checked. -/
theorem validateAgg_of_counter {aggs : List AggregateDef} (h : aggregateDdls dt aggs = .ok ds)
    {agg : AggregateDef} (hmem : agg ∈ aggs) (hkind : agg.kind = "counter") :
    validateAgg agg = .ok () := by
  induction aggs generalizing ds with
  | nil => cases hmem
  | cons first rest ih =>
      obtain ⟨ds₁, hfirst, h⟩ := bind_eq_ok h
      obtain ⟨ds₂, hrest, h⟩ := bind_eq_ok h
      rcases List.mem_cons.mp hmem with rfl | hmem
      · rcases aggregateDdl_inv hfirst with ⟨_, hvalid, _⟩ | ⟨hother, _⟩
        · exact hvalid
        · exact absurd hkind hother
      · exact ih hrest hmem

/-- Aggregates define counter events only. -/
theorem mem_aggregateDdls {aggs : List AggregateDef} {ds : List Ddl}
    (h : aggregateDdls dt aggs = .ok ds) (d : Ddl) (hd : d ∈ ds) :
    ∃ name cond sub agg, d = .event name cond (.counter sub agg) := by
  obtain ⟨agg, _, _, rfl⟩ := mem_counters h d hd
  exact ⟨_, _, _, _, rfl⟩

/-! ### The table -/

/-- A Single's statements are events of other names. -/
theorem mem_singleDdls {d : Ddl} (hd : d ∈ singleDdls dt) :
    ∃ name cond body, d = .event name cond body ∧ name ≠ "docstatus_lattice" := by
  simp only [singleDdls] at hd
  split at hd
  · rcases List.mem_cons.mp hd with rfl | hd
    · exact ⟨_, _, _, rfl, by decide⟩
    · simp only [singleRequiredGuard, Option.mem_toList] at hd
      split at hd
      · exact absurd hd (by simp)
      · cases hd
        exact ⟨_, _, _, rfl, by decide⟩
  · exact absurd hd List.not_mem_nil

/-- The closed table of a rollup. -/
def rollupDdl : Ddl := .table false ⟨some isManager, none, none, none⟩ "CHANGEFEED 7d"

/-- The feed of a table. -/
def feedText (dt : DocTypeDef) : String :=
  if dt.aggregates.any (·.kind = "worker") then "CHANGEFEED 7d INCLUDE ORIGINAL"
  else "CHANGEFEED 7d"

/-- The statements of an ordinary table that stand before those of the declared fields. -/
def frameDdls (dt : DocTypeDef) (targets : List String) : List Ddl :=
  [.table true (tablePermissions dt (selectAccess dt.name targets)) (feedText dt),
    .field ownerField, .field statusField, identityGuard]
    ++ (if dt.submittable then submittableDdls else []) ++ singleDdls dt

/-- A table is that of a rollup, or the frame with what is declared after it. -/
theorem doctypeDdlIn_cases {targets : List String} (h : doctypeDdlIn dt targets = .ok ds) :
    isIdent dt.name = true ∧ ((dt.name ∈ targets ∧ ds = [rollupDdl]) ∨
      (dt.name ∉ targets ∧ ∃ fs aggs, fieldDdls dt dt.fields = .ok fs ∧
        aggregateDdls dt dt.aggregates = .ok aggs ∧ ds = frameDdls dt targets ++ fs ++ aggs)) := by
  unfold doctypeDdlIn at h
  dsimp only at h
  split at h
  · exact absurd h (by simp [badValue])
  rename_i hname
  refine ⟨by simpa using hname, ?_⟩
  split at h
  · rename_i haccess
    cases h
    left
    refine ⟨?_, rfl⟩
    unfold selectAccess at haccess
    by_contra htarget
    rw [if_neg htarget] at haccess
    split at haccess <;> cases haccess
  · rename_i haccess
    right
    refine ⟨fun htarget => haccess (if_pos htarget), ?_⟩
    obtain ⟨fs, hfs, h⟩ := bind_eq_ok h
    obtain ⟨aggs, haggs, h⟩ := bind_eq_ok h
    cases h
    exact ⟨fs, aggs, hfs, haggs, rfl⟩

theorem doctypeDdlIn_of_ordinary {targets : List String} {fs aggs : List Ddl}
    (hname : isIdent dt.name = true) (htarget : dt.name ∉ targets)
    (hfs : fieldDdls dt dt.fields = .ok fs) (haggs : aggregateDdls dt dt.aggregates = .ok aggs) :
    doctypeDdlIn dt targets = .ok (frameDdls dt targets ++ fs ++ aggs) := by
  have haccess : selectAccess dt.name targets ≠ .manager := by
    unfold selectAccess
    rw [if_neg htarget]
    split <;> simp
  unfold doctypeDdlIn
  dsimp only
  rw [hname, Bool.not_true, if_neg Bool.false_ne_true, if_neg haccess, hfs, haggs]
  rfl

theorem doctypeDdlIn_of_rollup {targets : List String} (hname : isIdent dt.name = true)
    (htarget : dt.name ∈ targets) : doctypeDdlIn dt targets = .ok [rollupDdl] := by
  have haccess : selectAccess dt.name targets = .manager := if_pos htarget
  unfold doctypeDdlIn
  dsimp only
  rw [hname, Bool.not_true, if_neg Bool.false_ne_true, if_pos haccess]
  rfl

theorem doctypeDdlIn_ordinary {targets : List String} (h : doctypeDdlIn dt targets = .ok ds)
    (htarget : dt.name ∉ targets) :
    isIdent dt.name = true ∧ ∃ fs aggs, fieldDdls dt dt.fields = .ok fs ∧
      aggregateDdls dt dt.aggregates = .ok aggs ∧ ds = frameDdls dt targets ++ fs ++ aggs := by
  obtain ⟨hname, ⟨hmem, _⟩ | ⟨_, hds⟩⟩ := doctypeDdlIn_cases h
  · exact absurd hmem htarget
  · exact ⟨hname, hds⟩

end

end Frust.Kernel
