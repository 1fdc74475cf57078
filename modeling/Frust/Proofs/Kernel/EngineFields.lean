import Frust.Kernel.Manifest
import Frust.Proofs.Kernel.Readback

/-!
# `Frust.Proofs.Kernel.EngineFields`: who defines `owner`, `status` and `docstatus`

Row permissions rest on the three fields that the engine defines on every ordinary table. The
engine's statements come first, and under a key the last definition stands. So the engine's own
definition stays exactly when the declared statements do not define the field again
(`kept_iff`), and as long as no option ends its literal that is a matter of the declared names
(`engineKept_iff`). Neither the manifest's validation nor the compiler looks at these names.
-/

set_option autoImplicit false

namespace Frust.Kernel

open Frust.Lib Frust.Orm Frust.Rust

/-- The fields that the engine defines on an ordinary table. -/
def engineFieldDdls (dt : DocTypeDef) : List FieldDdl :=
  [ownerField, statusField] ++ if dt.submittable then [docstatusField] else []

/-- The snapshot of an ordinary table has the engine's own definition of its fields. -/
def EngineKept (dt : DocTypeDef) (ds : List Ddl) : Prop :=
  ∀ e ∈ engineFieldDdls dt, (snapshotOf dt.name ds).objects[(Ddl.field e).key dt.name]?
    = some ((Ddl.field e).object dt.name)

/-- The last definition of a field of the engine that the splitter finds in the declared
statements, if there is one, is the engine's own. -/
def Untouched (dt : DocTypeDef) (declared : List Ddl) : Prop :=
  ∀ e ∈ engineFieldDdls dt, ∀ o,
    ((objectsOf dt.name declared).filter (·.key = (Ddl.field e).key dt.name)).getLast? = some o →
      o = (Ddl.field e).object dt.name

section

variable {dt : DocTypeDef} {targets : List String} {ds fs aggs : List Ddl}

theorem mem_engineFieldDdls {e : FieldDdl} (h : e ∈ engineFieldDdls dt) :
    e = ownerField ∨ e = statusField ∨ e = docstatusField ∧ dt.submittable = true := by
  unfold engineFieldDdls at h
  rcases List.mem_append.mp h with h | h
  · rcases List.mem_pair.mp h with rfl | rfl
    · exact Or.inl rfl
    · exact Or.inr (Or.inl rfl)
  · split at h
    · rename_i hsub
      exact Or.inr (Or.inr ⟨List.mem_singleton.mp h, hsub⟩)
    · cases h

theorem map_name_engineFieldDdls : (engineFieldDdls dt).map (·.name) = engineNames dt := by
  unfold engineFieldDdls engineNames
  cases dt.submittable <;> rfl

theorem name_mem_engineNames {e : FieldDdl} (h : e ∈ engineFieldDdls dt) :
    e.name ∈ engineNames dt := by
  rw [← map_name_engineFieldDdls]
  exact List.mem_map_of_mem h

/-- The engine's statements stand in the frame. -/
theorem mem_frame_of_engine {e : FieldDdl} (h : e ∈ engineFieldDdls dt) :
    Ddl.field e ∈ frameDdls dt targets := by
  unfold frameDdls
  refine List.mem_append_left _ ?_
  rcases mem_engineFieldDdls h with rfl | rfl | ⟨rfl, hsub⟩
  · exact List.mem_append_left _ (by simp)
  · exact List.mem_append_left _ (by simp)
  · rw [hsub]
    exact List.mem_append_right _ (by simp [submittableDdls])

/-- In the frame a field of the engine is defined once. -/
theorem filter_frame {e : FieldDdl} (h : e ∈ engineFieldDdls dt) :
    ((frameDdls dt targets).map (Ddl.object dt.name)).filter (·.key = (Ddl.field e).key dt.name)
      = [(Ddl.field e).object dt.name] := by
  have hnodup : (((frameDdls dt targets).map (Ddl.object dt.name)).map SchemaObject.key).Nodup := by
    have hidents : ((frameDdls dt targets).map (Ddl.ident dt.name)).Nodup := nodup_frameDdls
    have hkeys := nodup_key_iff.mpr hidents
    rw [List.map_map]
    exact hkeys
  have hmem : (Ddl.field e).object dt.name ∈ (frameDdls dt targets).map (Ddl.object dt.name) :=
    List.mem_map_of_mem (mem_frame_of_engine h)
  have hinj := List.inj_on_of_nodup_map hnodup
  have hone : ∀ o ∈ (frameDdls dt targets).map (Ddl.object dt.name),
      o.key = (Ddl.field e).key dt.name ↔ o = (Ddl.field e).object dt.name :=
    fun o ho => ⟨fun hkey => hinj ho hmem hkey, fun heq => heq ▸ rfl⟩
  rw [List.filter_congr (q := (· = (Ddl.field e).object dt.name))
    fun o ho => decide_eq_decide.mpr (hone o ho)]
  have hcount := List.count_eq_one_of_mem hnodup.of_map hmem
  rw [List.filter_eq, hcount]
  rfl

/-- The engine's definitions stay exactly where the declared statements leave them. -/
theorem kept_iff (hname : isIdent dt.name = true) (hfs : fieldDdls dt dt.fields = .ok fs) :
    EngineKept dt (frameDdls dt targets ++ fs ++ aggs) ↔ Untouched dt (fs ++ aggs) := by
  have hclean : ∀ d ∈ frameDdls dt targets, d.Clean :=
    clean_frameDdls hname (isIdent_of_fieldDdls hfs)
  have hread : ∀ e ∈ engineFieldDdls dt,
      (snapshotOf dt.name (frameDdls dt targets ++ fs ++ aggs)).objects[(Ddl.field e).key dt.name]?
        = (((objectsOf dt.name (fs ++ aggs)).filter
            (·.key = (Ddl.field e).key dt.name)).getLast?).or
          (some ((Ddl.field e).object dt.name)) := by
    intro e he
    rw [snapshotOf_objects, List.append_assoc, objectsOf_append (bare_of_isIdent hname) hclean,
      getElem?_insertAll, List.filter_append, List.getLast?_append, filter_frame he,
      Std.ExtTreeMap.getElem?_empty, Option.or_none]
    rfl
  unfold EngineKept Untouched
  refine forall₂_congr fun e he => ?_
  rw [hread e he]
  cases ((objectsOf dt.name (fs ++ aggs)).filter
      (·.key = (Ddl.field e).key dt.name)).getLast? with
  | none => simp
  | some o => simp

/-! ### Declared texts -/

/-- How the clauses of a declared field begin and end. -/
theorem typed_of_fieldClause {f : FieldDef} {required : Bool} {type : FieldType}
    {assert : Option Expr} (h : fieldClause f required = .ok (type, assert)) (name : String) :
    let typed := (Ddl.field { name := name, type := type, assert := assert }).typed.toList
    (∃ c ∈ ['o', 'd', 's'], typed.head? = some c) ∧
      ∃ c ∈ ['>', 'c', '0', ']'], typed.getLast? = some c := by
  have hhead : ∀ {a b : String} {c : Char}, a.toList.head? = some c →
      (a ++ b).toList.head? = some c := by
    intro a b c ha
    rw [String.toList_append, List.head?_append, ha]
    rfl
  have hlast : ∀ {a b : String} {c : Char}, b.toList.getLast? = some c →
      (a ++ b).toList.getLast? = some c := by
    intro a b c hb
    rw [String.toList_append, List.getLast?_append, hb]
    rfl
  have hnone : ∀ (t : FieldType), (FieldType.option t).text.toList.getLast? = some '>' := by
    intro t
    exact hlast (a := "option<" ++ t.text) (by decide)
  -- A type without default: the clauses begin with the type and end with it or the assertion.
  have hplain : ∀ (t : FieldType) (c : Char), c ∈ ['o', 'd', 's'] → t.text.toList.head? = some c →
      ∀ (assert : Option Expr) (c' : Char), c' ∈ ['>', 'c', '0', ']'] →
      ((assert.map fun e => " ASSERT " ++ e.text).getD "" = "" ∧ t.text.toList.getLast? = some c' ∨
        ∃ e, assert = some e ∧ e.text.toList.getLast? = some c') →
      (∃ c ∈ ['o', 'd', 's'], (Ddl.field { name := name, type := t, assert := assert }).typed.toList.head?
          = some c) ∧
        ∃ c ∈ ['>', 'c', '0', ']'], (Ddl.field { name := name, type := t, assert := assert }).typed.toList.getLast?
          = some c := by
    intro t c hc ht assert c' hc' hend
    refine ⟨⟨c, hc, ?_⟩, c', hc', ?_⟩
    · exact hhead (hhead (hhead ht))
    · rcases hend with ⟨hempty, hlast'⟩ | ⟨e, rfl, hlast'⟩
      · show (t.text ++ "" ++ "" ++ _).toList.getLast? = _
        rw [hempty, String.append_empty, String.append_empty, String.append_empty]
        exact hlast'
      · exact hlast (hlast hlast')
  have hoption : ∀ t : FieldType, (FieldType.option t).text.toList.head? = some 'o' :=
    fun t => hhead (b := ">") (hhead (a := "option<") (b := t.text) (by decide))
  have hchosen : (Expr.cmp .inside .value (.strs f.options)).text.toList.getLast? = some ']' :=
    hlast (hlast (b := "]") (by decide))
  -- By the field types, each required or not.
  unfold fieldClause at h
  dsimp only at h
  intro typed
  split at h
  · split at h <;> cases h
    exact hplain _ 'o' (by decide) (hoption _) none '>' (by decide) (Or.inl ⟨rfl, hnone _⟩)
  · split at h
    · split at h <;> cases h
      · exact hplain _ 'd' (by decide) (by decide) (some _) 'c' (by decide)
          (Or.inr ⟨_, rfl, by decide⟩)
      · exact hplain _ 'o' (by decide) (hoption _) (some _) 'c' (by decide)
          (Or.inr ⟨_, rfl, by decide⟩)
    · split at h
      · split at h <;> cases h
        · exact hplain _ 's' (by decide) (by decide) (some _) ']' (by decide)
            (Or.inr ⟨_, rfl, hchosen⟩)
        · exact hplain _ 'o' (by decide) (hoption _) (some _) ']' (by decide)
            (Or.inr ⟨_, rfl, hlast hchosen⟩)
      · split at h <;> cases h
        · exact hplain _ 's' (by decide) (by decide) (some _) '0' (by decide)
            (Or.inr ⟨_, rfl, by decide⟩)
        · exact hplain _ 'o' (by decide) (hoption _) none '>' (by decide) (Or.inl ⟨rfl, hnone _⟩)

/-- No declared statement has the text of a statement of the engine. -/
theorem text_ne_engine {e : FieldDdl} (he : e ∈ engineFieldDdls dt) {d : Ddl}
    (hfs : fieldDdls dt dt.fields = .ok fs) (hd : d ∈ fs) (hname : d.objectName dt.name = e.name) :
    d.text dt.name ≠ (Ddl.field e).text dt.name := by
  have hident : isIdent e.name = true := isIdent_of_mem_engineNames (name_mem_engineNames he)
  -- the clauses of a declared field begin or end otherwise
  have hother : ∀ d' : Ddl, d'.kind = .field → d'.objectName dt.name = e.name →
      (∃ c ∈ ['o', 'd', 's'], d'.typed.toList.head? = some c) →
      (∃ c ∈ ['>', 'c', '0', ']'], d'.typed.toList.getLast? = some c) →
      d'.text dt.name ≠ (Ddl.field e).text dt.name := by
    intro d' hkind hname' ⟨c, hc, hhead⟩ ⟨c', hc', hlast⟩ htext
    rw [text_of_field hkind, text_of_field (t := dt.name) (show (Ddl.field e).kind = .field from rfl),
      hname', show (Ddl.field e).objectName dt.name = e.name from rfl] at htext
    have hlists := congrArg String.toList htext
    simp only [String.toList_append, List.append_cancel_left_eq] at hlists
    rw [hlists] at hhead hlast
    have hengine : (Ddl.field ownerField).typed.toList.getLast? = some 'Y' ∧
        (Ddl.field statusField).typed.toList.getLast? = some '\'' ∧
        (Ddl.field docstatusField).typed.toList.head? = some 'i' := by decide
    rcases mem_engineFieldDdls he with rfl | rfl | ⟨rfl, _⟩
    · rw [hengine.1, Option.some.injEq] at hlast
      exact absurd hc' (hlast ▸ by decide)
    · rw [hengine.2.1, Option.some.injEq] at hlast
      exact absurd hc' (hlast ▸ by decide)
    · rw [hengine.2.2, Option.some.injEq] at hhead
      exact absurd hc (hhead ▸ by decide)
  obtain ⟨f, _, _, ds', hdeclares, hd⟩ := declares_of_mem hfs hd
  cases hdeclares with
  | table _ =>
      rcases List.mem_pair.mp hd with rfl | rfl
      · have htyped : ("option<array<object>>" ++ "" ++ "" ++ "").toList.head? = some 'o' ∧
            ("option<array<object>>" ++ "" ++ "" ++ "").toList.getLast? = some '>' := by decide
        exact hother _ rfl hname ⟨'o', by decide, htyped.1⟩ ⟨'>', by decide, htyped.2⟩
      · exact absurd hname.symm (ne_elements hident)
  | plain _ hclause =>
      obtain rfl := List.mem_singleton.mp hd
      obtain ⟨hhead, hlast⟩ := typed_of_fieldClause hclause f.fieldname
      exact hother _ rfl hname hhead hlast

/-- As long as no option ends its literal, the names of the declared fields decide. -/
theorem untouched_iff (hname : isIdent dt.name = true) (hfs : fieldDdls dt dt.fields = .ok fs)
    (haggs : aggregateDdls dt dt.aggregates = .ok aggs)
    (hoptions : ∀ f ∈ dt.fields, f.fieldtype = "Select" → ∀ o ∈ f.options, Quotable o) :
    Untouched dt (fs ++ aggs) ↔ ∀ f ∈ dt.fields, f.fieldname ∉ engineNames dt := by
  have hclean : ∀ d ∈ fs ++ aggs, d.Clean := by
    intro d hd
    have hchosen : ∀ d ∈ frameDdls dt [] ++ fs ++ aggs, ∀ o ∈ d.chosen, Quotable o :=
      (chosen_iff hfs haggs).mpr hoptions
    rcases List.mem_append.mp hd with hd | hd
    · obtain ⟨f, _, hident, ds', hdeclares, hd'⟩ := declares_of_mem hfs hd
      exact Declares.clean hident hdeclares d hd'
        (hchosen d (List.mem_append_left _ (List.mem_append_right _ hd)))
    · exact clean_aggregateDdls haggs d hd
  have hobjects : objectsOf dt.name (fs ++ aggs) = (fs ++ aggs).map (Ddl.object dt.name) := by
    have happend : objectsOf dt.name (fs ++ aggs ++ []) = _ :=
      objectsOf_append (bare_of_isIdent hname) hclean
    rw [List.append_nil] at happend
    rw [happend]
    exact List.append_nil _
  unfold Untouched
  rw [hobjects]
  constructor
  · intro h f hf hmem
    rw [← map_name_engineFieldDdls] at hmem
    obtain ⟨e, he, hname'⟩ := List.mem_map.mp hmem
    -- the field's own statement defines the object again, and the last one to do so is declared
    obtain ⟨hident, ds', hdeclares, hds'⟩ := declares_of_field hfs hf
    have hfirst : ∃ d ∈ fs, d.kind = .field ∧ d.objectName dt.name = e.name := by
      cases hdeclares with
      | table _ => exact ⟨_, hds' _ List.mem_cons_self, rfl, hname'.symm⟩
      | plain _ _ => exact ⟨_, hds' _ List.mem_cons_self, rfl, hname'.symm⟩
    obtain ⟨d, hd, hkind, hobject⟩ := hfirst
    have hkey : (d.object dt.name).key = (Ddl.field e).key dt.name := by
      show d.kind.keyword ++ ":" ++ d.objectName dt.name = _
      rw [hkind, hobject]
      rfl
    have hne : ((fs ++ aggs).map (Ddl.object dt.name)).filter
        (·.key = (Ddl.field e).key dt.name) ≠ [] :=
      List.ne_nil_of_mem (List.mem_filter.mpr
        ⟨List.mem_map_of_mem (List.mem_append_left _ hd), decide_eq_true hkey⟩)
    have hlast := List.getLast?_eq_some_getLast hne
    have hown := h e he _ hlast
    obtain ⟨hmem', hkey'⟩ := List.mem_filter.mp (List.getLast_mem hne)
    obtain ⟨d', hd', hobject'⟩ := List.mem_map.mp hmem'
    have hd'' : d' ∈ fs := by
      rcases List.mem_append.mp hd' with hd' | hd'
      · exact hd'
      · obtain ⟨_, _, _, _, rfl⟩ := mem_aggregateDdls haggs d' hd'
        rw [hown] at hobject'
        exact absurd (congrArg SchemaObject.kind hobject') (by simp [Ddl.object, Ddl.kind])
    rw [hown] at hobject'
    exact text_ne_engine he hfs hd'' (congrArg SchemaObject.name hobject')
      (congrArg SchemaObject.defineSql hobject')
  · intro h e he o ho
    have hmem := List.mem_of_getLast? ho
    obtain ⟨hmem, hkey⟩ := List.mem_filter.mp hmem
    obtain ⟨d, hd, rfl⟩ := List.mem_map.mp hmem
    obtain ⟨hkind, hobject⟩ := SchemaObject.key_inj (of_decide_eq_true hkey :
      (d.object dt.name).key = ((Ddl.field e).object dt.name).key)
    have hident : isIdent e.name = true := isIdent_of_mem_engineNames (name_mem_engineNames he)
    exfalso
    rcases List.mem_append.mp hd with hd | hd
    · obtain ⟨f, hf, _, ds', hdeclares, hd⟩ := declares_of_mem hfs hd
      have hengine : e.name ∈ engineNames dt := name_mem_engineNames he
      have hidents : d.ident dt.name ∈ f.idents :=
        hdeclares.ident dt.name ▸ List.mem_map_of_mem hd
      rcases mem_idents hidents with hi | hi
      · have hsame : d.objectName dt.name = f.fieldname := (Prod.mk.inj hi).2
        exact h f hf (hsame ▸ (show d.objectName dt.name = e.name from hobject) ▸ hengine)
      · have hsame : d.objectName dt.name = f.fieldname ++ ".*" := (Prod.mk.inj hi).2
        exact ne_elements hident (hsame ▸ (show d.objectName dt.name = e.name from hobject)).symm
    · obtain ⟨_, _, _, _, rfl⟩ := mem_aggregateDdls haggs d hd
      cases hkind

/-- The statements that are declared in an ordinary table. -/
def declaredDdls (dt : DocTypeDef) : Except BrokerError (List Ddl) := do
  let fs ← fieldDdls dt dt.fields
  let aggs ← aggregateDdls dt dt.aggregates
  return fs ++ aggs

theorem declaredDdls_eq (hfs : fieldDdls dt dt.fields = .ok fs)
    (haggs : aggregateDdls dt dt.aggregates = .ok aggs) : declaredDdls dt = .ok (fs ++ aggs) := by
  unfold declaredDdls
  rw [hfs, haggs]
  rfl

/-- For every ordinary DocType that compiles, the engine's definitions of `owner`, `status` and
`docstatus` stay exactly where the declared statements leave them. As long as no option has a quote
or a backslash, that is where no declared field has one of these names. So it is for the DocTypes of
a manifest. -/
theorem engineKept_iff (h : doctypeDdlIn dt targets = .ok ds) (hordinary : dt.name ∉ targets)
    (m : Manifest) :
    (EngineKept dt ds ↔ ∀ declared, declaredDdls dt = .ok declared → Untouched dt declared) ∧
    ((∀ f ∈ dt.fields, f.fieldtype = "Select" → ∀ o ∈ f.options, Quotable o) →
      (EngineKept dt ds ↔ ∀ f ∈ dt.fields, f.fieldname ∉ engineNames dt)) ∧
    ((∀ dt' ∈ m.doctypes, dt'.name ∉ targets → ∀ ds', doctypeDdlIn dt' targets = .ok ds' →
        EngineKept dt' ds') ↔
      ∀ dt' ∈ m.doctypes, dt'.name ∉ targets → ∀ ds', doctypeDdlIn dt' targets = .ok ds' →
        ∀ declared, declaredDdls dt' = .ok declared → Untouched dt' declared) := by
  -- A field of the engine is kept where no declared statement redefines it.
  have hkept : ∀ (dt' : DocTypeDef) (ds' : List Ddl), dt'.name ∉ targets →
      doctypeDdlIn dt' targets = .ok ds' →
      (EngineKept dt' ds' ↔ ∀ declared, declaredDdls dt' = .ok declared → Untouched dt' declared) := by
    intro dt' ds' hordinary' h'
    obtain ⟨hname, ⟨htarget, _⟩ | ⟨_, fs, aggs, hfs, haggs, rfl⟩⟩ := doctypeDdlIn_cases h'
    · exact absurd htarget hordinary'
    · rw [kept_iff hname hfs, declaredDdls_eq hfs haggs]
      simp
  refine ⟨hkept dt ds hordinary h, fun hoptions => ?_, ?_⟩
  · obtain ⟨hname, ⟨htarget, _⟩ | ⟨_, fs, aggs, hfs, haggs, rfl⟩⟩ := doctypeDdlIn_cases h
    · exact absurd htarget hordinary
    · rw [kept_iff hname hfs, untouched_iff hname hfs haggs hoptions]
  · refine forall₂_congr fun dt' _ => forall_congr' fun hordinary' => ?_
    exact forall₂_congr fun ds' h' => hkept dt' ds' hordinary' h'

end

/-- An app with a note. -/
def noteApp : Manifest :=
  { manifestVersion := 1, name := "desk", version := "1.0.0", doctypes := [bareNote] }

theorem engineKept_iff_note :
    bareNote.name ∉ ([] : List String) ∧ ∃ ds, doctypeDdlIn bareNote [] = .ok ds ∧
      EngineKept bareNote ds := by
  refine ⟨by decide, _, rfl, ?_⟩
  have hiff := engineKept_iff (show doctypeDdlIn bareNote [] = .ok _ from rfl) (by decide) noteApp
  exact (hiff.2.1 fun f hf => absurd hf List.not_mem_nil).mpr fun f hf => absurd hf List.not_mem_nil

/-- A note with a field of its own called `owner`. -/
def ownedNote : DocTypeDef :=
  { name := "note", fields := [{ fieldname := "owner", fieldtype := "Data" }] }

/-- A bundle whose DocType defines `owner` again is accepted, and the DocType compiles. -/
theorem not_engineKept : ∃ m : Manifest, m.validate = [] ∧ ∃ dt ∈ m.doctypes,
    ∃ ds, doctypeDdlIn dt [] = .ok ds ∧ ¬ EngineKept dt ds := by
  refine ⟨{ noteApp with doctypes := [ownedNote] }, by decide +kernel, ownedNote, by simp, _, rfl, ?_⟩
  have hfs : fieldDdls ownedNote ownedNote.fields
      = .ok [.field { name := "owner", type := .option .string }] := rfl
  have hoptions : ∀ f ∈ ownedNote.fields, f.fieldtype = "Select" → ∀ o ∈ f.options, Quotable o := by
    decide
  intro hkept
  have hnames := (untouched_iff (by decide) hfs rfl hoptions).mp ((kept_iff (by decide) hfs).mp hkept)
  exact absurd hnames (by decide)

end Frust.Kernel
