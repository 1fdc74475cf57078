import Frust.Proofs.Kernel.Faithful
import Frust.Proofs.Orm.Classify
import Mathlib.Algebra.Order.BigOperators.Group.List
import Mathlib.Algebra.Order.Group.Nat

/-!
# `Frust.Proofs.Kernel.Readback`: how the classifier reads a compiled field

The compiler writes `ON note TYPE`, and `FieldSnapshot.parse` reads `ON TABLE note TYPE`. So it
does not parse a compiled field at all, unless the DocType is called `TABLE` in some case; then it
takes `TYPE` for the name of the table and finds no type (`parse_field`). `Agrees` says what the
compiler and the classifier should agree on; they agree on no DocType (`never_agrees`).
-/

set_option autoImplicit false

namespace Frust.Kernel

open Frust.Lib Frust.Orm Frust.Rust

/-! ### What is intended -/

/-- The inner type that a type should be read as. -/
def FieldType.inner : FieldType → SurrealType
  | int => .int
  | string => .string
  | decimal => .decimal
  | object => .object
  | record table => .record table
  | array t => .array t.inner
  | option t => .other (option t).text

/-- Whether a type is optional, and the type that it should be read as. -/
def FieldType.reading : FieldType → Bool × SurrealType
  | option t => (true, t.inner)
  | t => (false, t.inner)

/-- What a statement on table `t` should be read as. -/
def Ddl.Intends (t : String) : Ddl → FieldSnapshot → Prop
  | .field f, s => s.name = f.name ∧ s.table = t ∧ (s.optional, s.ty) = f.type.reading
  | .elements name, s => s.name = name ++ ".*" ∧ s.table = t ∧ (s.optional, s.ty) = (false, .object)
  | _, _ => False

/-- The snapshot of compiled statements. -/
def snapshotOf (t : String) (ds : List Ddl) : SchemaSnapshot :=
  .fromSql t (";\n".intercalate (ds.map (Ddl.text t)))

/-- The DocType with one more field. -/
def DocTypeDef.withField (dt : DocTypeDef) (pre : List FieldDef) (f : FieldDef)
    (post : List FieldDef) : DocTypeDef := { dt with fields := pre ++ f :: post }

/-- What the compiler and the classifier should agree on. A field that is a table defines two
objects, and is left out of what is asked of added fields. -/
structure Agrees (dt : DocTypeDef) (targets : List String) (ds : List Ddl) : Prop where
  /-- Each field of the snapshot is read as one of the statements intends. -/
  fields : ∀ (key : String) (o : SchemaObject), (snapshotOf dt.name ds).objects[key]? = some o → o.kind = .field →
    ∃ s, FieldSnapshot.parse o.defineSql = some s ∧ ∃ d ∈ ds, d.Intends dt.name s
  /-- One more optional field is one safe addition, and production does not refuse it. -/
  added : ∀ pre f post ds', dt.fields = pre ++ post → f.required = false → f.fieldtype ≠ "Table" →
    f.fieldname ∉ dt.fields.map (·.fieldname) → f.fieldname ∉ engineNames dt →
    doctypeDdlIn (dt.withField pre f post) targets = .ok ds' →
    let report := classifyDiff (snapshotOf dt.name ds) (snapshotOf dt.name ds')
    (∃ e, report.entries = [e] ∧ e.change = .added ∧ e.cls = .safe) ∧
      classificationRefusal .prod false report = none

/-! ### What is read -/

section

variable {t : String}

/-- A field is read with the word `TYPE` for its table, or not at all. -/
theorem parse_field {name rest : String} (hname : Str.IsWord name) (ht : Str.IsWord t)
    (hends : Str.EndsPlain rest) :
    FieldSnapshot.parse ("DEFINE" ++ " " ++ ("FIELD" ++ " " ++ ("OVERWRITE" ++ " " ++ (name ++ " "
        ++ ("ON" ++ " " ++ (t ++ " " ++ ("TYPE" ++ " " ++ rest)))))))
      = if Str.eqIgnoreAsciiCase t "TABLE" then
          let c := scanClauses (Str.splitWhitespace rest) false {}
          let read := parseType (" ".intercalate c.typeParts)
          some {
            name, table := "TYPE", ty := read.2, optional := read.1
            readonly := c.readonly
            hasValueOrDefault := c.hasValueOrDefault
            hasAssert := c.hasAssert }
        else none := by
  have hplain := (((((((hends.append (a := "TYPE" ++ " ")).append (a := t ++ " ")).append
    (a := "ON" ++ " ")).append (a := name ++ " ")).append (a := "OVERWRITE" ++ " ")).append
    (a := "FIELD" ++ " ")).append (a := "DEFINE" ++ " "))
  -- The words of the statement are its parts, up to the clauses.
  have hwords := Str.splitWhitespace_word (show Str.IsWord "DEFINE" by decide) ("FIELD" ++ " "
    ++ ("OVERWRITE" ++ " " ++ (name ++ " " ++ ("ON" ++ " " ++ (t ++ " " ++ ("TYPE" ++ " " ++ rest))))))
  rw [Str.splitWhitespace_word (show Str.IsWord "FIELD" by decide),
    Str.splitWhitespace_word (show Str.IsWord "OVERWRITE" by decide),
    Str.splitWhitespace_word hname, Str.splitWhitespace_word (show Str.IsWord "ON" by decide),
    Str.splitWhitespace_word ht, Str.splitWhitespace_word (show Str.IsWord "TYPE" by decide)]
    at hwords
  have htight : Str.Tight ("DEFINE" ++ " " ++ ("FIELD" ++ " " ++ ("OVERWRITE" ++ " " ++ (name ++ " "
      ++ ("ON" ++ " " ++ (t ++ " " ++ ("TYPE" ++ " " ++ rest))))))) := by
    obtain ⟨c, hlast, hspace, _⟩ := hplain
    refine ⟨⟨'D', ?_, by decide⟩, c, hlast, hspace⟩
    rw [String.toList_append, String.toList_append]
    rfl
  -- What follows looks at the words and the ends of the text only.
  generalize "DEFINE" ++ " " ++ _ = text at hplain hwords htight ⊢
  have hsame : ∀ s : String, Str.eqIgnoreAsciiCase s s = true := fun s => beq_self_eq_true _
  unfold FieldSnapshot.parse
  rw [Str.trim_tight htight, Str.trimEndMatches_of_endsPlain hplain, Str.trim_tight htight]
  dsimp only
  rw [hwords]
  simp only [hsame, parseName, Bool.and_self, if_pos, Bool.true_and]

/-- What is read has `TYPE` for its table, which is not the table's name. -/
theorem table_of_parse_field {name rest : String} (hname : Str.IsWord name) (ht : Str.IsWord t)
    (hends : Str.EndsPlain rest) {s : FieldSnapshot}
    (h : FieldSnapshot.parse ("DEFINE" ++ " " ++ ("FIELD" ++ " " ++ ("OVERWRITE" ++ " " ++ (name ++ " "
        ++ ("ON" ++ " " ++ (t ++ " " ++ ("TYPE" ++ " " ++ rest))))))) = some s) : s.table ≠ t := by
  rw [parse_field hname ht hends] at h
  split at h
  · rename_i hcase
    cases h
    rintro rfl
    exact absurd hcase (show ¬ Str.eqIgnoreAsciiCase "TYPE" "TABLE" = true by decide)
  · cases h

/-- What follows the word `TYPE` in a statement that defines a field. -/
def Ddl.typed : Ddl → String
  | .field f =>
      f.type.text ++ ((f.default.map fun e => " DEFAULT " ++ e.text).getD "")
        ++ (if f.readonly then " READONLY" else "")
        ++ ((f.assert.map fun e => " ASSERT " ++ e.text).getD "")
  | _ => "object FLEXIBLE"

/-- A statement that defines a field, as words. -/
theorem text_of_field {d : Ddl} (h : d.kind = .field) :
    d.text t = "DEFINE" ++ " " ++ ("FIELD" ++ " " ++ ("OVERWRITE" ++ " " ++ (d.objectName t ++ " "
      ++ ("ON" ++ " " ++ (t ++ " " ++ ("TYPE" ++ " " ++ d.typed)))))) := by
  have hon : "ON " = "ON" ++ " " := by decide
  have htype : " TYPE " = " " ++ ("TYPE" ++ " ") := by decide
  have hobject : " TYPE object FLEXIBLE" = " " ++ ("TYPE" ++ (" " ++ "object FLEXIBLE")) := by decide
  rw [Ddl.text_eq, h]
  cases d with
  | table => cases h
  | event => cases h
  | field f =>
      show _ ++ (_ ++ (_ ++ (_ ++ ("ON " ++ t ++ " TYPE " ++ f.type.text
        ++ ((f.default.map fun e => " DEFAULT " ++ e.text).getD "")
        ++ (if f.readonly then " READONLY" else "")
        ++ ((f.assert.map fun e => " ASSERT " ++ e.text).getD ""))))) = _
      simp only [Ddl.typed, ObjectKind.sqlKeyword, hon, htype, String.append_assoc]
  | elements name =>
      show _ ++ (_ ++ (_ ++ (_ ++ ("ON " ++ t ++ " TYPE object FLEXIBLE")))) = _
      simp only [Ddl.typed, ObjectKind.sqlKeyword, hon, hobject, String.append_assoc]

theorem endsPlain_text_none {a : String} (h : Str.EndsPlain a) :
    Str.EndsPlain (a ++ ((none : Option Expr).map fun e => " ASSERT " ++ e.text).getD "") := by
  show Str.EndsPlain (a ++ "")
  rw [String.append_empty]
  exact h

/-- The clauses of a declared field end plainly, whatever its options are. -/
theorem endsPlain_fieldClause {f : FieldDef} {required : Bool} {type : FieldType}
    {assert : Option Expr} (h : fieldClause f required = .ok (type, assert)) (name : String) :
    Str.EndsPlain (Ddl.field { name := name, type := type, assert := assert }).typed := by
  -- An optional type ends in its bracket, and an assertion in what it compares with.
  have hoption : ∀ t : FieldType, Str.EndsPlain (FieldType.option t).text := fun t =>
    Str.EndsPlain.append (a := "option<" ++ t.text) (by decide)
  have hnone : ∀ {type : FieldType}, Str.EndsPlain type.text →
      Str.EndsPlain (Ddl.field { name := name, type := type, assert := none }).typed := by
    intro type htype
    refine endsPlain_text_none ?_
    show Str.EndsPlain (type.text ++ "" ++ "")
    rw [String.append_empty, String.append_empty]
    exact htype
  have hsome : ∀ {type : FieldType} {e : Expr}, Str.EndsPlain e.text →
      Str.EndsPlain (Ddl.field { name := name, type := type, assert := some e }).typed :=
    fun he => Str.EndsPlain.append (Str.EndsPlain.append he)
  have hchosen : Str.EndsPlain (Expr.cmp .inside .value (.strs f.options)).text :=
    Str.EndsPlain.append (Str.EndsPlain.append (b := "]") (by decide))
  -- The branches of the clause: a link, a check, a choice, and the rest.
  unfold fieldClause at h
  dsimp only at h
  split at h
  · split at h <;> cases h
    exact hnone (hoption _)
  · split at h
    · split at h <;> cases h <;> exact hsome (by decide)
    · split at h
      · split at h <;> cases h
        · exact hsome hchosen
        · exact hsome (Str.EndsPlain.append hchosen)
      · split at h <;> cases h
        · exact hsome (by decide)
        · exact hnone (hoption _)

variable {dt : DocTypeDef} {targets : List String} {ds : List Ddl}

/-- So do all statements of a compiled table that define a field. -/
theorem endsPlain_of_compiled (h : doctypeDdlIn dt targets = .ok ds) :
    ∀ d ∈ ds, d.kind = .field → Str.IsWord (d.objectName dt.name) ∧ Str.EndsPlain d.typed := by
  intro d hd hkind
  obtain ⟨hname, ⟨_, rfl⟩ | ⟨_, fs, aggs, hfs, haggs, rfl⟩⟩ := doctypeDdlIn_cases h
  · -- A table that is only a marker has no fields.
    rw [List.mem_singleton.mp hd] at hkind
    cases hkind
  · rcases List.mem_append.mp hd with hd | hd
    · rcases List.mem_append.mp hd with hd | hd
      · refine ⟨Ddl.named_of_clean (bare_of_isIdent hname)
          (clean_frameDdls hname (isIdent_of_fieldDdls hfs) d hd), ?_⟩
        -- Of the frame, the owner, the status and the parent are fields.
        unfold frameDdls at hd
        rcases List.mem_append.mp hd with hd | hd
        · rcases List.mem_append.mp hd with hd | hd
          · simp only [List.mem_cons, List.not_mem_nil, or_false] at hd
            rcases hd with rfl | rfl | rfl | rfl
            · cases hkind
            · decide
            · decide
            · cases hkind
          · split at hd
            · rcases List.mem_pair.mp hd with rfl | rfl
              · decide
              · cases hkind
            · cases hd
        · obtain ⟨_, _, _, rfl, _⟩ := mem_singleDdls hd
          cases hkind
      · -- The fields of the DocType.
        obtain ⟨f, _, hident, ds, hdeclares, hd⟩ := declares_of_mem hfs hd
        have hbare := bare_of_isIdent hident
        cases hdeclares with
        | table _ =>
            rcases List.mem_pair.mp hd with rfl | rfl
            · refine ⟨hbare.word, ?_⟩
              show Str.EndsPlain ("option<array<object>>" ++ "" ++ "" ++ "")
              decide
            · exact ⟨Ddl.named_of_clean (t := dt.name) (bare_of_isIdent hname)
                (show Ddl.Clean (.elements f.fieldname) from hbare),
                show Str.EndsPlain "object FLEXIBLE" by decide⟩
        | plain _ hclause =>
            obtain rfl := List.mem_singleton.mp hd
            exact ⟨hbare.word, endsPlain_fieldClause hclause _⟩
    · obtain ⟨_, _, _, _, rfl⟩ := mem_aggregateDdls haggs d hd
      cases hkind

/-- No compiled field is read as a field of its table. -/
theorem table_of_compiled (h : doctypeDdlIn dt targets = .ok ds) {d : Ddl} (hd : d ∈ ds)
    (hkind : d.kind = .field) {s : FieldSnapshot}
    (hparse : FieldSnapshot.parse (d.text dt.name) = some s) : s.table ≠ dt.name := by
  obtain ⟨hname, hends⟩ := endsPlain_of_compiled h d hd hkind
  rw [text_of_field hkind] at hparse
  exact table_of_parse_field hname (bare_of_isIdent (doctypeDdlIn_cases h).1).word hends hparse

/-! ### One more field -/

/-- The objects that statements define, as the splitter finds them. -/
def objectsOf (t : String) (ds : List Ddl) : List SchemaObject :=
  (trimmed (";\n".intercalate (ds.map (Ddl.text t)))).filterMap parseDefine

theorem snapshotOf_objects (t : String) (ds : List Ddl) :
    (snapshotOf t ds).objects = insertAll ∅ (objectsOf t ds) := fromSql_objects _ _

theorem text_ne_nil (d : Ddl) : (d.text t).toList ≠ [] := by
  rw [Ddl.text_eq, String.toList_append, String.toList_append, List.append_assoc]
  exact List.append_ne_nil_of_left_ne_nil (by decide) _

/-- Clean statements define their objects, whatever comes after them. -/
theorem objectsOf_append (ht : Bare t) {clean rest : List Ddl} (h : ∀ d ∈ clean, d.Clean) :
    objectsOf t (clean ++ rest) = clean.map (Ddl.object t) ++ objectsOf t rest := by
  cases clean with
  | nil => rfl
  | cons c cs =>
      have hwhole : ∀ x ∈ c.text t :: cs.map (Ddl.text t), Whole x := by
        intro x hx
        obtain ⟨d, hd, rfl⟩ := List.mem_map.mp (show x ∈ (c :: cs).map (Ddl.text t) from hx)
        exact Ddl.whole_of_clean ht (h d hd)
      have hsome : ∀ x ∈ rest.map (Ddl.text t), x.toList ≠ [] := by
        intro x hx
        obtain ⟨d, _, rfl⟩ := List.mem_map.mp hx
        exact text_ne_nil d
      have hparse : ∀ cs : List Ddl, (∀ d ∈ cs, d.Clean) →
          (cs.map (Ddl.text t)).filterMap parseDefine = cs.map (Ddl.object t) := by
        intro cs hcs
        rw [List.filterMap_map]
        refine List.filterMap_eq_map_iff_forall_eq_some.mpr fun d hd => ?_
        exact Ddl.parseDefine_text (Ddl.named_of_clean ht (hcs d hd))
      unfold objectsOf
      rw [List.map_append, List.map_cons, trimmed_joined hwhole hsome, List.filterMap_append,
        ← List.map_cons, hparse _ h]

theorem exists_fresh (os : List SchemaObject) :
    ∃ name, isIdent name = true ∧ ∀ o ∈ os, o.name ≠ name := by
  -- names are used up to a length only
  have hlength : ∀ o ∈ os, o.name.toList.length ≤ (os.map (·.name.toList.length)).sum :=
    fun o ho => List.single_le_sum (by simp) _ (List.mem_map_of_mem ho)
  refine ⟨String.ofList (List.replicate ((os.map (·.name.toList.length)).sum + 1) 'x'), ?_,
    fun o ho heq => ?_⟩
  · unfold isIdent
    rw [String.toList_ofList, List.all_replicate]
    simp
    decide
  · have hle := hlength o ho
    rw [heq, String.toList_ofList, List.length_replicate] at hle
    omega

/-- A field whose option reads like a clause. -/
def clauseField (name : String) : FieldDef where
  fieldname := name
  fieldtype := "Select"
  options := [" TYPE string "]

/-- Its statement. -/
def clauseDdl (name : String) : Ddl := .field
  { name := name, type := .option .string,
    assert := some (.or (.cmp .eq .value .none) (.cmp .inside .value (.strs [" TYPE string "]))) }

/-- The DocType compiles with it, and to one more statement. -/
theorem doctypeDdlIn_withField {fs aggs : List Ddl} {name : String} (hdt : isIdent dt.name = true)
    (htarget : dt.name ∉ targets) (hfs : fieldDdls dt dt.fields = .ok fs)
    (haggs : aggregateDdls dt dt.aggregates = .ok aggs) (hname : isIdent name = true) :
    doctypeDdlIn (dt.withField [] (clauseField name) dt.fields) targets
      = .ok (frameDdls dt targets ++ clauseDdl name :: (fs ++ aggs)) := by
  have hfield : fieldDdl (dt.withField [] (clauseField name) dt.fields) (clauseField name)
      = .ok [clauseDdl name] := by
    unfold fieldDdl
    rw [show isIdent (clauseField name).fieldname = true from hname, Bool.not_true,
      if_neg Bool.false_ne_true]
    rfl
  -- The other fields and the aggregates do not look at the list of fields.
  have hrest : fieldDdls (dt.withField [] (clauseField name) dt.fields) dt.fields = .ok fs := by
    rw [← hfs]
    refine fieldDdls_congr ?_ _
    rfl
  have hfields : fieldDdls (dt.withField [] (clauseField name) dt.fields)
      (dt.withField [] (clauseField name) dt.fields).fields = .ok (clauseDdl name :: fs) := by
    show fieldDdls _ (clauseField name :: dt.fields) = _
    unfold fieldDdls
    rw [hfield, hrest]
    rfl
  have haggregates : aggregateDdls (dt.withField [] (clauseField name) dt.fields)
      (dt.withField [] (clauseField name) dt.fields).aggregates = .ok aggs := by
    rw [← haggs]
    refine aggregateDdls_congr ?_ ?_ _
    · rfl
    · rfl
  have hcompiled : doctypeDdlIn (dt.withField [] (clauseField name) dt.fields) targets
      = .ok (frameDdls dt targets ++ clauseDdl name :: fs ++ aggs) :=
    doctypeDdlIn_of_ordinary hdt htarget hfields haggregates
  rw [hcompiled, List.append_assoc]
  rfl

theorem clean_clauseDdl {name : String} (hname : isIdent name = true) : (clauseDdl name).Clean := by
  refine ⟨bare_of_isIdent hname, trivial, (fun e he => nomatch he), fun e he => ?_⟩
  obtain rfl := Option.some.inj he
  decide

/-- The field is not read at all, or as a required one without a default. -/
theorem parse_clauseDdl {name : String} (hname : isIdent name = true) (ht : isIdent t = true)
    {s : FieldSnapshot} (h : FieldSnapshot.parse ((clauseDdl name).text t) = some s) :
    s.optional = false ∧ s.hasValueOrDefault = false := by
  have htyped : (clauseDdl name).typed
      = "option<string> ASSERT $value = NONE OR $value INSIDE [' TYPE string ']" := by
    show (clauseDdl "x").typed = _
    decide
  have hends : Str.EndsPlain (clauseDdl name).typed := by
    rw [htyped]
    decide
  -- the option's words end the clauses, and begin a type
  have hread : (parseType (" ".intercalate (scanClauses (Str.splitWhitespace
      "option<string> ASSERT $value = NONE OR $value INSIDE [' TYPE string ']") false
        {}).typeParts)).1 = false ∧ (scanClauses (Str.splitWhitespace
      "option<string> ASSERT $value = NONE OR $value INSIDE [' TYPE string ']") false
        {}).hasValueOrDefault = false := by decide +kernel
  have hword : Str.IsWord ((clauseDdl name).objectName t) := (bare_of_isIdent hname).word
  rw [text_of_field rfl, parse_field hword (bare_of_isIdent ht).word hends] at h
  split at h
  · cases h
    rw [htyped]
    exact hread
  · cases h

/-- A new field that is not read is blocked. -/
theorem newEntries_of_unread {old : SchemaSnapshot} {d : Ddl} (hkind : d.kind = .field)
    (hnone : old.objects[d.key t]? = none) (hparse : parseField (d.object t) = none) :
    newEntries false old (d.key t, d.object t)
      = (FieldChangeReport.pushConservative {} (d.objectName t) false true).entries := by
  unfold newEntries classifyNew
  dsimp only
  rw [if_neg (show ¬ (d.object t).kind ≠ .field from fun h => h hkind), hnone, hparse]
  rfl

/-- The entry of the field is no safe addition. -/
theorem entry_clauseDdl {old : SchemaSnapshot} {name : String} (hname : isIdent name = true)
    (ht : isIdent t = true) (hfresh : old.objects["field:" ++ name]? = none) :
    ∃ e ∈ newEntries false old ("field:" ++ name, (clauseDdl name).object t), e.cls ≠ .safe := by
  unfold newEntries classifyNew
  dsimp only
  rw [if_neg (show ¬ ((clauseDdl name).object t).kind ≠ .field from fun h => h rfl), hfresh]
  dsimp only
  cases hparse : parseField ((clauseDdl name).object t) with
  | none => exact ⟨_, List.mem_singleton.mpr rfl, by simp⟩
  | some s =>
      obtain ⟨hoptional, hdefault⟩ := parse_clauseDdl hname ht hparse
      refine ⟨_, List.mem_singleton.mpr rfl, ?_⟩
      show (classifyAdded false s).cls ≠ .safe
      unfold classifyAdded classifyFieldChange
      dsimp only
      rw [hoptional, hdefault]
      decide

/-- The clean statements before a new one, and those after it, define no object with its key. -/
theorem getElem?_insertAll_fresh {os : List SchemaObject} {o : SchemaObject}
    (h : ∀ o' ∈ os, o'.name ≠ o.name) : (insertAll ∅ os)[o.key]? = none := by
  rw [getElem?_insertAll, Std.ExtTreeMap.getElem?_empty, Option.or_none]
  have hnone : os.filter (·.key = o.key) = [] := by
    refine List.filter_eq_nil_iff.mpr fun o' ho' hkey => h o' ho' ?_
    exact (SchemaObject.key_inj (of_decide_eq_true hkey)).2
  rw [hnone]
  rfl

/-- A new object between others is there. -/
theorem getElem?_insertAll_new {os os' : List SchemaObject} {o : SchemaObject}
    (h : ∀ o' ∈ os ++ os', o'.name ≠ o.name) :
    (insertAll ∅ (os ++ o :: os'))[o.key]? = some o := by
  have hnone : ∀ l : List SchemaObject, (∀ o' ∈ l, o'.name ≠ o.name) →
      l.filter (·.key = o.key) = [] := by
    intro l hl
    refine List.filter_eq_nil_iff.mpr fun o' ho' hkey => hl o' ho' ?_
    exact (SchemaObject.key_inj (of_decide_eq_true hkey)).2
  rw [getElem?_insertAll, List.filter_append, List.filter_cons_of_pos (by simp),
    hnone os fun o' ho' => h o' (List.mem_append_left _ ho'),
    hnone os' fun o' ho' => h o' (List.mem_append_right _ ho')]
  rfl

/-- An ordinary table is in its snapshot. -/
theorem tableIsNew_of_frame {rest : List Ddl} (hname : isIdent dt.name = true)
    (hclean : ∀ d ∈ frameDdls dt targets, d.Clean) :
    (!(snapshotOf dt.name (frameDdls dt targets ++ rest)).objects.toList.any
      fun e => e.2.kind = .table) = false := by
  have htable : ∃ o os, (objectsOf dt.name (frameDdls dt targets ++ rest)) = o :: os ∧
      o.key = "table:" ++ dt.name := by
    rw [objectsOf_append (bare_of_isIdent hname) hclean]
    exact ⟨_, _, rfl, rfl⟩
  obtain ⟨o, os, hos, hkey⟩ := htable
  rw [Bool.not_eq_false', List.any_eq_true]
  -- under the table's key stands some object, and it is a table
  have hsome : ∃ o', (snapshotOf dt.name (frameDdls dt targets ++ rest)).objects[o.key]? = some o' := by
    rw [snapshotOf_objects, hos, getElem?_insertAll, List.filter_cons_of_pos (by simp),
      List.getLast?_cons]
    exact ⟨_, rfl⟩
  obtain ⟨o', ho'⟩ := hsome
  refine ⟨(o.key, o'), Std.ExtTreeMap.mem_toList_iff_getElem?_eq_some.mpr ho', ?_⟩
  have hkeyed := (snapshotOf dt.name _).keyed o.key o' ho'
  rw [hkey] at hkeyed
  have hobject : o'.key = (SchemaObject.mk .table dt.name "").key := hkeyed
  exact decide_eq_true (SchemaObject.key_inj hobject).1

/-- A clean statement for a new object after the frame: the old snapshot lacks the object, and what
it adds to the classification is there. -/
theorem entries_of_new {rest : List Ddl} {d : Ddl} (hname : isIdent dt.name = true)
    (hclean : ∀ d ∈ frameDdls dt targets, d.Clean) (hd : d.Clean)
    (hfresh : ∀ o ∈ objectsOf dt.name (frameDdls dt targets ++ rest), o.name ≠ d.objectName dt.name) :
    let old := snapshotOf dt.name (frameDdls dt targets ++ rest)
    old.objects[d.key dt.name]? = none ∧
      ∀ e ∈ newEntries false old (d.key dt.name, d.object dt.name),
        e ∈ (classifyDiff old (snapshotOf dt.name (frameDdls dt targets ++ d :: rest))).entries := by
  intro old
  have hbare := bare_of_isIdent hname
  have hnew : objectsOf dt.name (frameDdls dt targets ++ d :: rest)
      = (frameDdls dt targets).map (Ddl.object dt.name)
        ++ d.object dt.name :: objectsOf dt.name rest := by
    have hone : objectsOf dt.name ([d] ++ rest)
        = [d].map (Ddl.object dt.name) ++ objectsOf dt.name rest :=
      objectsOf_append hbare fun d' hd' => List.mem_singleton.mp hd' ▸ hd
    rw [objectsOf_append hbare hclean]
    exact congrArg _ hone
  rw [objectsOf_append hbare hclean] at hfresh
  have hthere : (snapshotOf dt.name (frameDdls dt targets ++ d :: rest)).objects[d.key dt.name]?
      = some (d.object dt.name) := by
    rw [snapshotOf_objects, hnew]
    exact getElem?_insertAll_new hfresh
  have hnone : old.objects[d.key dt.name]? = none := by
    rw [snapshotOf_objects, objectsOf_append hbare hclean]
    exact getElem?_insertAll_fresh (o := d.object dt.name) hfresh
  refine ⟨hnone, fun e he => ?_⟩
  rw [classifyDiff_entries, tableIsNew_of_frame hname hclean]
  exact List.mem_append_left _ (List.mem_flatMap.mpr
    ⟨_, Std.ExtTreeMap.mem_toList_iff_getElem?_eq_some.mpr hthere, he⟩)

/-- On no DocType do the compiler and the classifier agree. -/
theorem not_agrees (h : doctypeDdlIn dt targets = .ok ds) : ¬ Agrees dt targets ds := by
  rintro ⟨_, hadded⟩
  obtain ⟨hdt, hcases⟩ := doctypeDdlIn_cases h
  -- a name that no object and no field has
  obtain ⟨name, hname, hfresh⟩ := exists_fresh (objectsOf dt.name ds
    ++ (dt.fields.map (fun f => ⟨.field, f.fieldname, ""⟩)
      ++ (engineNames dt).map fun n => ⟨.field, n, ""⟩))
  have hobjects : ∀ o ∈ objectsOf dt.name ds, o.name ≠ name :=
    fun o ho => hfresh o (List.mem_append_left _ ho)
  have hfields : name ∉ dt.fields.map (·.fieldname) := by
    intro hmem
    obtain ⟨f, hf, hfname⟩ := List.mem_map.mp hmem
    exact hfresh _ (List.mem_append_right _ (List.mem_append_left _ (List.mem_map_of_mem hf))) hfname
  have hengine : name ∉ engineNames dt := fun hmem =>
    hfresh _ (List.mem_append_right _ (List.mem_append_right _ (List.mem_map_of_mem hmem))) rfl
  have hreport := fun ds' hds' => hadded [] (clauseField name) dt.fields ds' rfl rfl
    (show "Select" ≠ "Table" by decide) hfields hengine hds'
  rcases hcases with ⟨htarget, rfl⟩ | ⟨htarget, fs, aggs, hfs, haggs, rfl⟩
  · -- a rollup has no fields, so that nothing is added
    obtain ⟨⟨e, he, _⟩, _⟩ := hreport [rollupDdl] (doctypeDdlIn_of_rollup hdt htarget)
    have hnone := (entries_of_not_changesField
      (not_changesField_of_objects (rfl : (snapshotOf dt.name [rollupDdl]).objects = _))).1
    rw [hnone] at he
    cases he
  · obtain ⟨⟨e, he, _, hcls⟩, _⟩ := hreport _ (doctypeDdlIn_withField hdt htarget hfs haggs hname)
    have hclean : ∀ d ∈ frameDdls dt targets, d.Clean :=
      clean_frameDdls hdt (isIdent_of_fieldDdls hfs)
    rw [List.append_assoc] at hobjects he
    obtain ⟨hnone, hnew⟩ := entries_of_new hdt hclean (clean_clauseDdl hname) hobjects
    obtain ⟨e', hmem, hunsafe⟩ := entry_clauseDdl hname hdt hnone
    have hentry := hnew e' hmem
    rw [he] at hentry
    exact hunsafe (List.mem_singleton.mp hentry ▸ hcls)

/-- For every DocType that compiles, no field of it is read as a field of its table, and the
compiler and the classifier do not agree on it. -/
theorem never_agrees (h : doctypeDdlIn dt targets = .ok ds) :
    (∀ d ∈ ds, d.kind = .field → ∀ s, FieldSnapshot.parse (d.text dt.name) = some s →
      s.table ≠ dt.name) ∧ ¬ Agrees dt targets ds :=
  ⟨fun _ hd hkind _ hparse => table_of_compiled h hd hkind hparse, not_agrees h⟩

end

/-- A note with one more field. -/
def subtitle : FieldDef := { fieldname := "subtitle", fieldtype := "Data" }

/-- A note without fields. -/
def bareNote : DocTypeDef := { name := "note", fields := [] }

theorem never_agrees_note : ∃ ds, doctypeDdlIn bareNote [] = .ok ds ∧ ¬ Agrees bareNote [] ds :=
  ⟨_, rfl, (never_agrees rfl).2⟩

/-- The statement of the field. -/
def subtitleDdl : Ddl := .field { name := "subtitle", type := .option .string }

/-- An optional field of a note is a change that production blocks. -/
theorem not_agrees_note : ∃ ds ds', doctypeDdlIn bareNote [] = .ok ds ∧
    doctypeDdlIn (bareNote.withField [] subtitle []) [] = .ok ds' ∧
    (∃ e ∈ (classifyDiff (snapshotOf bareNote.name ds) (snapshotOf bareNote.name ds')).entries,
      e.field = "subtitle" ∧ e.change = .conservative ∧ e.cls = .blocked) ∧
    ¬ Agrees bareNote [] ds := by
  have hcompiled : doctypeDdlIn bareNote [] = .ok (frameDdls bareNote []) := rfl
  have hcompiled' : doctypeDdlIn (bareNote.withField [] subtitle []) []
      = .ok (frameDdls bareNote [] ++ [subtitleDdl]) := rfl
  have hclean : ∀ d ∈ frameDdls bareNote [], d.Clean :=
    clean_frameDdls (by decide) fun f hf => absurd hf List.not_mem_nil
  -- What is compared is the table as it stands in the database.
  have hobjects : objectsOf bareNote.name (frameDdls bareNote [])
      = (frameDdls bareNote []).map (Ddl.object bareNote.name) := by
    have happend : objectsOf bareNote.name (frameDdls bareNote [] ++ []) = _ :=
      objectsOf_append (by decide) hclean
    rw [List.append_nil] at happend
    rw [happend]
    exact List.append_nil _
  have hfresh : ∀ o ∈ objectsOf bareNote.name (frameDdls bareNote [] ++ []),
      o.name ≠ subtitleDdl.objectName bareNote.name := by
    have hnames : ∀ name ∈ (frameDdls bareNote []).map (Ddl.objectName bareNote.name),
        name ≠ subtitleDdl.objectName bareNote.name := by decide
    rw [List.append_nil, hobjects]
    intro o ho
    obtain ⟨d, hd, rfl⟩ := List.mem_map.mp ho
    exact hnames _ (List.mem_map_of_mem hd)
  have hsubtitle : subtitleDdl.Clean :=
    ⟨by decide, trivial, (fun e he => nomatch he), fun e he => nomatch he⟩
  obtain ⟨hnone, hnew⟩ := entries_of_new (show isIdent bareNote.name = true by decide) hclean hsubtitle hfresh
  rw [List.append_nil] at hnone hnew
  -- The table is not called `TABLE`, so the statement of the field is not read.
  have hparse : parseField (subtitleDdl.object bareNote.name) = none := by
    have htyped : subtitleDdl.typed = "option<string>" := by decide
    have hword : Str.IsWord (subtitleDdl.objectName bareNote.name) :=
      show Str.IsWord "subtitle" by decide
    have htable : Str.IsWord bareNote.name := show Str.IsWord "note" by decide
    have hends : Str.EndsPlain "option<string>" := by decide
    have hother : ¬ Str.eqIgnoreAsciiCase bareNote.name "TABLE" = true :=
      show ¬ Str.eqIgnoreAsciiCase "note" "TABLE" = true by decide
    show FieldSnapshot.parse (subtitleDdl.text bareNote.name) = none
    rw [text_of_field rfl, htyped, parse_field hword htable hends, if_neg hother]
  have hentry := newEntries_of_unread (show subtitleDdl.kind = .field from rfl) hnone hparse
  rw [hentry] at hnew
  have hmem := hnew _ (List.mem_singleton.mpr rfl)
  refine ⟨_, _, hcompiled, hcompiled', ⟨_, hmem, rfl, rfl, rfl⟩, ?_⟩
  -- An additive change would be the only entry, and is not blocked.
  rintro ⟨_, hadded⟩
  obtain ⟨⟨e, he, _, hcls⟩, _⟩ := hadded [] subtitle [] _ rfl rfl (by decide) (by decide) (by decide)
    hcompiled'
  have hone : _ ∈ (classifyDiff (snapshotOf bareNote.name (frameDdls bareNote []))
    (snapshotOf bareNote.name (frameDdls bareNote [] ++ [subtitleDdl]))).entries := hmem
  rw [he] at hone
  rw [← List.mem_singleton.mp hone] at hcls
  cases hcls

end Frust.Kernel
