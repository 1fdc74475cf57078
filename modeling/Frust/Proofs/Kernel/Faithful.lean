import Frust.Proofs.Kernel.Compile
import Frust.Proofs.Kernel.Text

/-!
# `Frust.Proofs.Kernel.Faithful`: from statements to text and back

`Faithful` says what the compiled text of a DocType should be: the splitter finds the statements
that were pushed, each option stands in a literal that denotes it, and the snapshot has one object
for each statement. It is, exactly when the options have no quote and no backslash and no two
statements define one object (`faithful_iff`), which for an ordinary table is a matter of the names
of its fields and rollups (`compiled_faithful`).
-/

set_option autoImplicit false

namespace Frust.Kernel

open Frust.Lib Frust.Orm Frust.Rust

/-! ### String literals -/

/-- How the database reads what follows a backslash: some text stands for one character. -/
structure Escapes where
  read : List Char → Option (Char × List Char)
  shorter : ∀ l c rest, read l = some (c, rest) → rest.length < l.length

/-- `Reads esc l out rest`: what follows an opening quote denotes `out`, and `rest` stands after
the closing one. -/
inductive Reads (esc : Escapes) : List Char → List Char → List Char → Prop where
  | close (rest : List Char) : Reads esc ('\'' :: rest) [] rest
  | plain {c : Char} {l out rest : List Char} : c ≠ '\'' → c ≠ '\\' → Reads esc l out rest →
      Reads esc (c :: l) (c :: out) rest
  | escape {c : Char} {l l' out rest : List Char} : esc.read l = some (c, l') →
      Reads esc l' out rest → Reads esc ('\\' :: l) (c :: out) rest

/-- The text is one literal, which denotes `s`. -/
def Denotes (esc : Escapes) (literal s : String) : Prop :=
  ∃ l, literal.toList = '\'' :: l ∧ Reads esc l s.toList []

section

variable {esc : Escapes}

/-- A literal is at least as long as what it denotes, and longer if it has a backslash. -/
theorem Reads.length {l out rest : List Char} (h : Reads esc l out rest) :
    out.length + rest.length + 1 ≤ l.length ∧
      (l.length = out.length + rest.length + 1 → ∀ c ∈ out, c ≠ '\'' ∧ c ≠ '\\') := by
  induction h with
  | close rest => simp
  | plain hquote hslash _ ih =>
      refine ⟨by simp only [List.length_cons]; omega, fun hlen c hc => ?_⟩
      rcases List.mem_cons.mp hc with rfl | hc
      · exact ⟨hquote, hslash⟩
      · exact ih.2 (by simp only [List.length_cons] at hlen; omega) c hc
  | escape hread _ ih =>
      have hshort := esc.shorter _ _ _ hread
      refine ⟨by simp only [List.length_cons]; omega, fun hlen => ?_⟩
      simp only [List.length_cons] at hlen
      omega

theorem reads_of_quotable {l : List Char} (h : ∀ c ∈ l, c ≠ '\'' ∧ c ≠ '\\') :
    Reads esc (l ++ ['\'']) l [] := by
  induction l with
  | nil => exact .close []
  | cons c l ih =>
      obtain ⟨hquote, hslash⟩ := h c List.mem_cons_self
      exact .plain hquote hslash (ih fun d hd => h d (List.mem_cons_of_mem _ hd))

/-- A text between quotes denotes itself exactly when it has no quote and no backslash. -/
theorem denotes_iff {s : String} : Denotes esc ("'" ++ s ++ "'") s ↔ Quotable s := by
  have htext : ("'" ++ s ++ "'").toList = '\'' :: (s.toList ++ ['\'']) := by
    rw [String.toList_append, String.toList_append]
    rfl
  constructor
  · rintro ⟨l, hl, hreads⟩
    rw [htext, List.cons.injEq] at hl
    obtain ⟨_, rfl⟩ := hl
    exact hreads.length.2 (by simp)
  · intro h
    exact ⟨_, htext, reads_of_quotable h⟩

end

/-! ### Options -/

/-- The options that an expression has in literals. -/
def Expr.chosen : Expr → List String
  | .strs ss => ss
  | .strLen e | .castString e | .paren e => e.chosen
  | .cmp _ a b | .and a b | .or a b => a.chosen ++ b.chosen
  | _ => []

/-- The options that a statement has in literals. -/
def Ddl.chosen : Ddl → List String
  | .field f => (f.assert.map Expr.chosen).getD []
  | _ => []

/-- What the compiled text of a DocType should be. -/
structure Faithful (esc : Escapes) (t sql : String) (ds : List Ddl) : Prop where
  /-- The splitter finds the statements that were pushed. -/
  split : trimmed sql = ds.map (Ddl.text t)
  /-- Each option is what its literal denotes. -/
  literals : ∀ d ∈ ds, ∀ o ∈ d.chosen, Denotes esc ("'" ++ o ++ "'") o
  /-- The snapshot has one object for each statement. -/
  objects : ((SchemaSnapshot.fromSql t sql).objects.toList.map Prod.snd).Perm (ds.map (Ddl.object t))

/-- Statements that are clean as far as their options are. -/
structure CleanBut (t : String) (ds : List Ddl) : Prop where
  table : Bare t
  clean : ∀ d ∈ ds, (∀ o ∈ d.chosen, Quotable o) → d.Clean

theorem Ddl.named_of_clean {t : String} {d : Ddl} (ht : Bare t) (h : d.Clean) : d.Named t := by
  unfold Named
  cases d with
  | table => exact ht.word
  | field f => exact h.1.word
  | elements name =>
      have hname : Bare name := h
      refine ⟨by simp [objectName], fun c hc => ?_⟩
      simp only [objectName, String.toList_append] at hc
      rcases List.mem_append.mp hc with hc | hc
      · exact hname.word.2 c hc
      · exact (show Str.IsWord ".*" by decide).2 c hc
  | event name cond body => exact h.1.word

/-- The snapshot of clean statements. -/
theorem fromSql_of_clean {t : String} {ds : List Ddl} (ht : Bare t) (h : ∀ d ∈ ds, d.Clean) :
    trimmed (";\n".intercalate (ds.map (Ddl.text t))) = ds.map (Ddl.text t) ∧
      (SchemaSnapshot.fromSql t (";\n".intercalate (ds.map (Ddl.text t)))).objects
        = insertAll ∅ (ds.map (Ddl.object t)) := by
  have hsplit : trimmed (";\n".intercalate (ds.map (Ddl.text t))) = ds.map (Ddl.text t) := by
    refine trimmed_whole fun x hx => ?_
    obtain ⟨d, hd, rfl⟩ := List.mem_map.mp hx
    exact Ddl.whole_of_clean ht (h d hd)
  refine ⟨hsplit, ?_⟩
  rw [fromSql_objects, hsplit]
  congr 1
  clear hsplit
  induction ds with
  | nil => rfl
  | cons d ds ih =>
      have hd := h d List.mem_cons_self
      rw [List.map_cons, List.map_cons,
        List.filterMap_cons_some (Ddl.parseDefine_text (Ddl.named_of_clean ht hd)),
        ih fun d' hd' => h d' (List.mem_cons_of_mem _ hd')]

/-- The text is faithful exactly when the options are quotable and no two statements define one
object. -/
theorem faithful_iff {esc : Escapes} {t : String} {ds : List Ddl} (h : CleanBut t ds) :
    Faithful esc t (";\n".intercalate (ds.map (Ddl.text t))) ds ↔
      (∀ d ∈ ds, ∀ o ∈ d.chosen, Quotable o) ∧ (ds.map (Ddl.key t)).Nodup := by
  have hkeys : ds.map (Ddl.key t) = (ds.map (Ddl.object t)).map SchemaObject.key := by
    rw [List.map_map]
    rfl
  constructor
  · intro hfaithful
    refine ⟨fun d hd o ho => denotes_iff.mp (hfaithful.literals d hd o ho), ?_⟩
    rw [hkeys]
    exact (hfaithful.objects.map SchemaObject.key).nodup_iff.mp (nodup_keys _)
  · rintro ⟨hoptions, hnodup⟩
    obtain ⟨hsplit, hobjects⟩ := fromSql_of_clean h.table fun d hd => h.clean d hd (hoptions d hd)
    refine ⟨hsplit, fun d hd o ho => denotes_iff.mpr (hoptions d hd o ho), ?_⟩
    rw [objects_perm_iff hobjects, ← hkeys]
    exact hnodup

/-! ### Compiled statements -/

section

variable {dt : DocTypeDef} {targets : List String} {ds fs aggs : List Ddl}

theorem clean_identityGuard : identityGuard.Clean :=
  ⟨by decide, by decide, show ∀ g ∈ _, Guard.Clean g by decide⟩

theorem clean_latticeEvent : latticeEvent.Clean :=
  ⟨by decide, by decide, show ∀ g ∈ _, Guard.Clean g by decide⟩

theorem clean_requiredCheck {f : FieldDef} (h : isIdent f.fieldname = true) :
    (requiredCheck f).Clean := by
  have hafter : (Expr.after f.fieldname).Clean := bare_of_isIdent h
  refine ⟨?_, Quotable.append (by decide) (quotable_of_isIdent h)⟩
  unfold requiredCheck
  dsimp only
  split
  · exact ⟨hafter, trivial⟩
  · exact ⟨⟨hafter, trivial⟩, hafter, by decide⟩

theorem clean_singleIdentityGuard (hname : isIdent dt.name = true) :
    (singleIdentityGuard dt).Clean := by
  have hrid : (Expr.record (singleRecordId dt.name)).Clean :=
    ((quotable_of_isIdent hname).append (by decide)).append (quotable_of_isIdent hname)
  refine ⟨by decide, by decide, fun g hg => ?_⟩
  rcases List.mem_pair.mp hg with rfl | rfl
  · exact ⟨⟨by decide, by decide, hrid⟩, show Quotable "FRUST:E_SINGLE_RECORD" by decide⟩
  · exact ⟨⟨by decide, by decide, hrid⟩, show Quotable singleDeleteRefusal by decide⟩

theorem clean_singleRequiredGuard (hfields : ∀ f ∈ dt.fields, isIdent f.fieldname = true) :
    ∀ d ∈ singleRequiredGuard dt, d.Clean := by
  intro d hd
  unfold singleRequiredGuard at hd
  dsimp only at hd
  split at hd
  · cases hd
  · cases hd
    refine ⟨by decide, by decide, fun g hg => ?_⟩
    obtain ⟨f, hf, rfl⟩ := List.mem_map.mp hg
    exact clean_requiredCheck (hfields f (List.mem_filter.mp hf).1)

theorem clean_tablePermissions (access : SelectAccess) : (tablePermissions dt access).Clean := by
  have hupdate : ∀ submittable, (updateClause submittable).Clean := by decide
  refine ⟨fun e he => ?_, fun e he => ?_, fun e he => ?_, fun e he => ?_⟩
  · obtain rfl := Option.some.inj he
    cases access <;> decide
  · obtain rfl := Option.some.inj he
    decide
  · obtain rfl := Option.some.inj he
    exact hupdate _
  · obtain rfl := Option.some.inj he
    decide

theorem fits_feedText : Fits (feedText dt) := by
  unfold feedText
  split <;> exact fits_of_still (by decide) (by decide)

/-- The engine's frame is clean, whatever the options are. -/
theorem clean_frameDdls (hname : isIdent dt.name = true)
    (hfields : ∀ f ∈ dt.fields, isIdent f.fieldname = true) : ∀ d ∈ frameDdls dt targets, d.Clean := by
  have hnone : ∀ e ∈ (none : Option Expr), e.Clean := fun e he => nomatch he
  have hdefault : ∀ {e : Expr}, e.Clean → ∀ e' ∈ some e, e'.Clean := by
    rintro e he e' he'
    obtain rfl := Option.some.inj he'
    exact he
  intro d hd
  unfold frameDdls at hd
  rcases List.mem_append.mp hd with hd | hd
  · rcases List.mem_append.mp hd with hd | hd
    · simp only [List.mem_cons, List.not_mem_nil, or_false] at hd
      rcases hd with rfl | rfl | rfl | rfl
      · exact ⟨clean_tablePermissions _, fits_feedText⟩
      · exact ⟨by decide, (by decide : Bare "app_user"), hdefault trivial, hnone⟩
      · exact ⟨by decide, trivial, hdefault (by decide), hnone⟩
      · exact clean_identityGuard
    · split at hd
      · rcases List.mem_pair.mp hd with rfl | rfl
        · exact ⟨by decide, trivial, hdefault (by decide), hnone⟩
        · exact clean_latticeEvent
      · cases hd
  · unfold singleDdls at hd
    split at hd
    · rcases List.mem_cons.mp hd with rfl | hd
      · exact clean_singleIdentityGuard hname
      · exact clean_singleRequiredGuard hfields d (by simpa using hd)
    · cases hd

/-- The options of a declared field in literals, and its clauses as far as these are clean. -/
theorem fieldClause_inv {f : FieldDef} {required : Bool} {type : FieldType} {assert : Option Expr}
    (h : fieldClause f required = .ok (type, assert)) :
    (assert.map Expr.chosen).getD [] = (if f.fieldtype = "Select" then f.options else []) ∧
      type.Clean ∧
      ((∀ o ∈ (assert.map Expr.chosen).getD [], Quotable o) → ∀ e ∈ assert, e.Clean) := by
  have hnone : ∀ e ∈ (none : Option Expr), e.Clean := fun e he => nomatch he
  unfold fieldClause at h
  dsimp only at h
  split at h
  · rename_i hlink
    split at h
    · rename_i htarget
      cases h
      exact ⟨by simp [hlink], bare_of_isIdent htarget, fun _ => hnone⟩
    · cases h
  · split at h
    · rename_i hcurrency
      split at h <;> cases h
      · refine ⟨by simp [hcurrency, Expr.chosen], trivial, fun _ e he => ?_⟩
        obtain rfl := Option.some.inj he
        decide
      · refine ⟨by simp [hcurrency, Expr.chosen], trivial, fun _ e he => ?_⟩
        obtain rfl := Option.some.inj he
        decide
    · split at h
      · rename_i hselect
        split at h <;> cases h
        · refine ⟨by simp [hselect.1, Expr.chosen], trivial, fun hoptions e he => ?_⟩
          obtain rfl := Option.some.inj he
          exact ⟨trivial, fun o ho => hoptions o (by simpa [Expr.chosen] using ho)⟩
        · refine ⟨by simp [hselect.1, Expr.chosen], trivial, fun hoptions e he => ?_⟩
          obtain rfl := Option.some.inj he
          exact ⟨⟨trivial, trivial⟩, trivial,
            fun o ho => hoptions o (by simpa [Expr.chosen] using ho)⟩
      · rename_i hselect
        -- Only a `Select` with options has them in its assertion.
        have hempty : (if f.fieldtype = "Select" then f.options else []) = [] := by
          split
          · rename_i hkind
            simpa [hkind] using hselect
          · rfl
        split at h <;> cases h
        · refine ⟨by rw [hempty]; rfl, trivial, fun _ e he => ?_⟩
          obtain rfl := Option.some.inj he
          decide
        · exact ⟨by rw [hempty]; rfl, trivial, fun _ => hnone⟩

/-- The statements of a declared field are clean as far as its options are. -/
theorem Declares.clean {f : FieldDef} (hname : isIdent f.fieldname = true) (h : Declares f ds) :
    ∀ d ∈ ds, (∀ o ∈ d.chosen, Quotable o) → d.Clean := by
  have hbare := bare_of_isIdent hname
  cases h with
  | table _ =>
      intro d hd _
      rcases List.mem_pair.mp hd with rfl | rfl
      · exact ⟨hbare, trivial, (fun e he => nomatch he), fun e he => nomatch he⟩
      · exact hbare
  | @plain required type assert _ hclause =>
      intro d hd hoptions
      obtain rfl := List.mem_singleton.mp hd
      obtain ⟨_, htype, hassert⟩ := fieldClause_inv hclause
      exact ⟨hbare, htype, (fun e he => nomatch he), hassert hoptions⟩

/-- The options of a declared field in literals. -/
theorem Declares.chosen {f : FieldDef} (h : Declares f ds) (o : String) :
    (∃ d ∈ ds, o ∈ d.chosen) ↔ f.fieldtype = "Select" ∧ o ∈ f.options := by
  cases h with
  | table htable => simp [Ddl.chosen, htable]
  | plain _ hclause =>
      simp only [List.mem_singleton, exists_eq_left]
      show o ∈ (_ : Option _).getD [] ↔ _
      rw [(fieldClause_inv hclause).1]
      split
      · rename_i hkind
        exact ⟨fun ho => ⟨hkind, ho⟩, fun ho => ho.2⟩
      · rename_i hkind
        exact ⟨fun ho => (List.not_mem_nil ho).elim, fun ho => absurd ho.1 hkind⟩

/-- Counters are clean. -/
theorem clean_aggregateDdls (h : aggregateDdls dt dt.aggregates = .ok aggs) :
    ∀ d ∈ aggs, d.Clean := by
  intro d hd
  obtain ⟨agg, hagg, hkind, rfl⟩ := mem_counters h d hd
  have hvalid := validateAgg_inv (validateAgg_of_counter h hagg hkind)
  have hname : Bare ("agg_" ++ agg.rollup) := by
    have hrollup := bare_of_isIdent hvalid.rollup
    refine ⟨Still.append (by decide) hrollup.still, by simp, fun c hc => ?_⟩
    rw [String.toList_append] at hc
    rcases List.mem_append.mp hc with hc | hc
    · exact (show Str.IsWord "agg_" by decide).2 c hc
    · exact hrollup.word.2 c hc
  exact ⟨hname, by decide, hvalid.rollup, hvalid.key hkind,
    fun m hm => ⟨(hvalid.metrics m hm).1, (hvalid.metrics m hm).2.1⟩⟩

/-- Accepted fields have identifiers as names. -/
theorem isIdent_of_fieldDdls {fields : List FieldDef} (h : fieldDdls dt fields = .ok fs) :
    ∀ f ∈ fields, isIdent f.fieldname = true := fun _ hf => (declares_of_field h hf).1

/-- A compiled table is clean as far as its options are. -/
theorem cleanBut_of_compiled (h : doctypeDdlIn dt targets = .ok ds) : CleanBut dt.name ds := by
  obtain ⟨hname, ⟨_, rfl⟩ | ⟨_, fs, aggs, hfs, haggs, rfl⟩⟩ := doctypeDdlIn_cases h
  · refine ⟨bare_of_isIdent hname, fun d hd _ => ?_⟩
    obtain rfl := List.mem_singleton.mp hd
    have hnone : ∀ e ∈ (none : Option Expr), e.Clean := fun e he => nomatch he
    refine ⟨⟨fun e he => ?_, hnone, hnone, hnone⟩, fits_of_still (by decide) (by decide)⟩
    obtain rfl := Option.some.inj he
    decide
  · refine ⟨bare_of_isIdent hname, fun d hd hoptions => ?_⟩
    rcases List.mem_append.mp hd with hd | hd
    · rcases List.mem_append.mp hd with hd | hd
      · exact clean_frameDdls hname (isIdent_of_fieldDdls hfs) d hd
      · obtain ⟨f, _, hident, ds, hdeclares, hd⟩ := declares_of_mem hfs hd
        exact Declares.clean hident hdeclares d hd hoptions
    · exact clean_aggregateDdls haggs d hd

/-! ### Names of objects -/

/-- The kind and the name of the object that a statement defines. -/
def Ddl.ident (t : String) (d : Ddl) : ObjectKind × String := (d.kind, d.objectName t)

theorem nodup_key_iff {t : String} : (ds.map (Ddl.key t)).Nodup ↔ (ds.map (Ddl.ident t)).Nodup := by
  have hkey : ds.map (Ddl.key t) = (ds.map (Ddl.ident t)).map fun i => i.1.keyword ++ ":" ++ i.2 := by
    rw [List.map_map]
    rfl
  rw [hkey]
  refine List.nodup_map_iff fun a b hab => ?_
  have hobject : (SchemaObject.mk a.1 a.2 "").key = (SchemaObject.mk b.1 b.2 "").key := hab
  obtain ⟨hkind, hname⟩ := SchemaObject.key_inj hobject
  exact Prod.ext hkind hname

/-- No identifier is the name of elements. -/
theorem ne_elements {a b : String} (h : isIdent a = true) : a ≠ b ++ ".*" := by
  rintro rfl
  have hdot : '.' ∈ (b ++ ".*").toList := by
    rw [String.toList_append]
    exact List.mem_append_right _ (by decide)
  exact absurd (isIdentChar_of_isIdent h '.' hdot) (by decide)

theorem elements_inj {a b : String} (h : a ++ ".*" = b ++ ".*") : a = b := by
  have hlist := congrArg String.toList h
  rw [String.toList_append, String.toList_append] at hlist
  exact String.toList_inj.mp (List.append_cancel_right hlist)

/-- The objects of a declared field. -/
def FieldDef.idents (f : FieldDef) : List (ObjectKind × String) :=
  (.field, f.fieldname) :: if f.fieldtype = "Table" then [(.field, f.fieldname ++ ".*")] else []

theorem Declares.ident {f : FieldDef} (h : Declares f ds) (t : String) :
    ds.map (Ddl.ident t) = f.idents := by
  unfold FieldDef.idents
  cases h with
  | table htable => rw [if_pos htable]; rfl
  | plain htable _ => rw [if_neg htable]; rfl

theorem fieldDdls_ident {fields : List FieldDef} (h : fieldDdls dt fields = .ok fs) (t : String) :
    fs.map (Ddl.ident t) = fields.flatMap FieldDef.idents := by
  obtain ⟨dss, rfl, hdss⟩ := fieldDdls_inv h
  clear h
  induction hdss with
  | nil => rfl
  | cons hf _ ih =>
      rw [List.flatten_cons, List.map_append, List.flatMap_cons, ih, hf.2.ident t]

theorem mem_idents {f : FieldDef} {i : ObjectKind × String} (h : i ∈ f.idents) :
    i = (.field, f.fieldname) ∨ i = (.field, f.fieldname ++ ".*") := by
  unfold FieldDef.idents at h
  rcases List.mem_cons.mp h with rfl | h
  · exact Or.inl rfl
  · split at h
    · exact Or.inr (List.mem_singleton.mp h)
    · cases h

theorem disjoint_idents_iff {f g : FieldDef} (hf : isIdent f.fieldname = true)
    (hg : isIdent g.fieldname = true) :
    List.Disjoint f.idents g.idents ↔ f.fieldname ≠ g.fieldname := by
  constructor
  · intro hdisjoint hname
    refine hdisjoint (a := (.field, f.fieldname)) List.mem_cons_self ?_
    rw [hname]
    exact List.mem_cons_self
  · intro hne i hi hi'
    rcases mem_idents hi with rfl | rfl <;> rcases mem_idents hi' with hi' | hi'
    · exact hne (Prod.mk.inj hi').2
    · exact ne_elements hf (Prod.mk.inj hi').2
    · exact ne_elements hg (Prod.mk.inj hi').2.symm
    · exact hne (elements_inj (Prod.mk.inj hi').2)

/-- The objects of declared fields are different exactly when the fields' names are. -/
theorem nodup_idents_iff {fields : List FieldDef} (h : ∀ f ∈ fields, isIdent f.fieldname = true) :
    (fields.flatMap FieldDef.idents).Nodup ↔ (fields.map (·.fieldname)).Nodup := by
  have hone : ∀ f ∈ fields, f.idents.Nodup := by
    intro f hf
    unfold FieldDef.idents
    split
    · have hne := ne_elements (b := f.fieldname) (h f hf)
      simpa using hne
    · exact List.nodup_singleton _
  have hnames : (fields.map (·.fieldname)).Nodup ↔
      fields.Pairwise fun f g => f.fieldname ≠ g.fieldname := List.pairwise_map
  rw [List.nodup_flatMap, hnames]
  constructor
  · rintro ⟨_, hpairs⟩
    exact hpairs.imp_of_mem fun hf hg hdisjoint =>
      (disjoint_idents_iff (h _ hf) (h _ hg)).mp hdisjoint
  · intro hpairs
    exact ⟨hone, hpairs.imp_of_mem fun hf hg hne =>
      (disjoint_idents_iff (h _ hf) (h _ hg)).mpr hne⟩

/-- The field names that the engine defines. -/
def engineNames (dt : DocTypeDef) : List String :=
  ["owner", "status"] ++ if dt.submittable then ["docstatus"] else []

theorem isIdent_of_mem_engineNames {name : String} (h : name ∈ engineNames dt) :
    isIdent name = true := by
  have hall : ∀ submittable : Bool, ∀ name ∈ ["owner", "status"] ++ (if submittable then ["docstatus"]
      else []), isIdent name = true := by decide
  exact hall dt.submittable name h

theorem ident_frameDdls : (frameDdls dt targets).map (Ddl.ident dt.name)
    = [(.table, dt.name), (.field, "owner"), (.field, "status"), (.event, "identity_guard")]
      ++ (if dt.submittable then [(.field, "docstatus"), (.event, "docstatus_lattice")] else [])
      ++ (if dt.issingle then (.event, "single_identity_guard") ::
            (if dt.fields.any (·.required) then [(.event, "single_required_guard")] else [])
          else []) := by
  have hguard : (singleRequiredGuard dt).toList.map (Ddl.ident dt.name)
      = if dt.fields.any (·.required) then [(.event, "single_required_guard")] else [] := by
    unfold singleRequiredGuard
    dsimp only
    by_cases hany : dt.fields.any (·.required) = true
    · have hsome : (dt.fields.filter (·.required)).map requiredCheck ≠ [] := by
        obtain ⟨f, hf, hrequired⟩ := List.any_eq_true.mp hany
        exact List.ne_nil_of_mem (List.mem_map_of_mem (List.mem_filter.mpr ⟨hf, hrequired⟩))
      rw [if_pos hany, List.isEmpty_eq_false_iff.mpr hsome]
      rfl
    · have hnone : (dt.fields.filter (·.required)).map requiredCheck = [] := by
        rw [List.map_eq_nil_iff, List.filter_eq_nil_iff]
        exact fun f hf hrequired => hany (List.any_eq_true.mpr ⟨f, hf, hrequired⟩)
      rw [if_neg hany, hnone]
      rfl
  unfold frameDdls singleDdls
  rw [List.map_append, List.map_append]
  cases dt.submittable <;> cases dt.issingle <;>
    simp only [Bool.false_eq_true, if_true, if_false, List.map_cons, hguard] <;> rfl

theorem mem_ident_frameDdls {i : ObjectKind × String}
    (h : i ∈ (frameDdls dt targets).map (Ddl.ident dt.name)) :
    i.1 = .table ∨ (∃ name ∈ engineNames dt, i = (.field, name)) ∨
      ∃ name ∈ ["identity_guard", "docstatus_lattice", "single_identity_guard",
        "single_required_guard"], i = (.event, name) := by
  rw [ident_frameDdls] at h
  unfold engineNames
  revert h
  cases dt.submittable <;> cases dt.issingle <;> cases dt.fields.any (·.required) <;>
    simp <;> grind

theorem mem_engineNames {name : String} (h : name ∈ engineNames dt) :
    (ObjectKind.field, name) ∈ (frameDdls dt targets).map (Ddl.ident dt.name) := by
  rw [ident_frameDdls]
  unfold engineNames at h
  revert h
  cases dt.submittable <;> simp

theorem nodup_frameDdls : ((frameDdls dt targets).map (Ddl.ident dt.name)).Nodup := by
  rw [ident_frameDdls]
  cases dt.submittable <;> cases dt.issingle <;> cases dt.fields.any (·.required) <;> simp

/-- The names of an ordinary table are its own: no option can end its literal, and no two fields,
and no two counters, have one name, or one that the engine uses. -/
structure Separate (dt : DocTypeDef) : Prop where
  options : ∀ f ∈ dt.fields, f.fieldtype = "Select" → ∀ o ∈ f.options, Quotable o
  names : (dt.fields.map (·.fieldname)).Nodup
  engine : ∀ f ∈ dt.fields, f.fieldname ∉ engineNames dt
  counters : ((dt.aggregates.filter (·.kind = "counter")).map (·.rollup)).Nodup

/-- The options in the literals of an ordinary table. -/
theorem chosen_iff (hfs : fieldDdls dt dt.fields = .ok fs)
    (haggs : aggregateDdls dt dt.aggregates = .ok aggs) :
    (∀ d ∈ frameDdls dt targets ++ fs ++ aggs, ∀ o ∈ d.chosen, Quotable o) ↔
      ∀ f ∈ dt.fields, f.fieldtype = "Select" → ∀ o ∈ f.options, Quotable o := by
  -- The statements of the engine, and those of the counters, have no options.
  have hframe : ∀ d ∈ frameDdls dt targets, d.chosen = [] := by
    intro d hd
    unfold frameDdls at hd
    rcases List.mem_append.mp hd with hd | hd
    · rcases List.mem_append.mp hd with hd | hd
      · simp only [List.mem_cons, List.not_mem_nil, or_false] at hd
        rcases hd with rfl | rfl | rfl | rfl <;> rfl
      · split at hd
        · rcases List.mem_pair.mp hd with rfl | rfl <;> rfl
        · cases hd
    · obtain ⟨_, _, _, rfl, _⟩ := mem_singleDdls hd
      rfl
  have hcounters : ∀ d ∈ aggs, d.chosen = [] := by
    intro d hd
    obtain ⟨_, _, _, _, rfl⟩ := mem_aggregateDdls haggs d hd
    rfl
  constructor
  · intro h f hf hselect o ho
    obtain ⟨_, ds, hdeclares, hds⟩ := declares_of_field hfs hf
    obtain ⟨d, hd, ho⟩ := (Declares.chosen hdeclares o).mpr ⟨hselect, ho⟩
    exact h d (List.mem_append_left _ (List.mem_append_right _ (hds d hd))) o ho
  · intro h d hd o ho
    rcases List.mem_append.mp hd with hd | hd
    · rcases List.mem_append.mp hd with hd | hd
      · rw [hframe d hd] at ho
        cases ho
      · obtain ⟨f, hf, _, ds, hdeclares, hd⟩ := declares_of_mem hfs hd
        obtain ⟨hselect, hmem⟩ := (Declares.chosen hdeclares o).mp ⟨d, hd, ho⟩
        exact h f hf hselect o hmem
    · rw [hcounters d hd] at ho
      cases ho

/-- The objects of the counters are different exactly when their rollups are. -/
theorem nodup_aggregateDdls_iff (haggs : aggregateDdls dt dt.aggregates = .ok aggs) (t : String) :
    (aggs.map (Ddl.ident t)).Nodup ↔
      ((dt.aggregates.filter (·.kind = "counter")).map (·.rollup)).Nodup := by
  have hmap : aggs.map (Ddl.ident t)
      = ((dt.aggregates.filter (·.kind = "counter")).map (·.rollup)).map
          fun r => (ObjectKind.event, "agg_" ++ r) := by
    rw [aggregateDdls_eq haggs, List.map_map, List.map_map]
    rfl
  rw [hmap]
  exact List.nodup_map_iff fun a b hab => agg_inj (Prod.mk.inj hab).2

/-- The objects of an ordinary table are different exactly when its names are its own. -/
theorem nodup_compiled_iff (hfs : fieldDdls dt dt.fields = .ok fs)
    (haggs : aggregateDdls dt dt.aggregates = .ok aggs) :
    ((frameDdls dt targets ++ fs ++ aggs).map (Ddl.ident dt.name)).Nodup ↔
      (dt.fields.map (·.fieldname)).Nodup ∧ (∀ f ∈ dt.fields, f.fieldname ∉ engineNames dt) ∧
      ((dt.aggregates.filter (·.kind = "counter")).map (·.rollup)).Nodup := by
  have hidents := isIdent_of_fieldDdls hfs
  have hagg : ∀ i ∈ aggs.map (Ddl.ident dt.name), ∃ r, i = (.event, "agg_" ++ r) := by
    intro i hi
    obtain ⟨d, hd, rfl⟩ := List.mem_map.mp hi
    obtain ⟨agg, _, _, rfl⟩ := mem_counters haggs d hd
    exact ⟨agg.rollup, rfl⟩
  have hfield : ∀ i ∈ fs.map (Ddl.ident dt.name), ∃ f ∈ dt.fields,
      i = (.field, f.fieldname) ∨ i = (.field, f.fieldname ++ ".*") := by
    intro i hi
    rw [fieldDdls_ident hfs] at hi
    obtain ⟨f, hf, hi⟩ := List.mem_flatMap.mp hi
    exact ⟨f, hf, mem_idents hi⟩
  rw [List.map_append, List.map_append, List.nodup_append, List.nodup_append,
    nodup_aggregateDdls_iff haggs, fieldDdls_ident hfs, nodup_idents_iff hidents,
    ← fieldDdls_ident hfs dt.name]
  constructor
  · rintro ⟨⟨_, hnames, hframe⟩, hcounters, _⟩
    refine ⟨hnames, fun f hf hengine => ?_, hcounters⟩
    refine hframe _ (mem_engineNames hengine) (.field, f.fieldname) ?_ rfl
    rw [fieldDdls_ident hfs]
    exact List.mem_flatMap.mpr ⟨f, hf, List.mem_cons_self⟩
  · rintro ⟨hnames, hengine, hcounters⟩
    refine ⟨⟨nodup_frameDdls, hnames, fun i hi j hj hij => ?_⟩, hcounters, fun i hi j hj hij => ?_⟩
    · -- a field of the table against the frame
      subst hij
      obtain ⟨f, hf, hi'⟩ := hfield i hj
      rcases mem_ident_frameDdls hi with htable | ⟨name, hname, rfl⟩ | ⟨name, _, rfl⟩
      · rcases hi' with rfl | rfl <;> cases htable
      · rcases hi' with hi' | hi'
        · exact hengine f hf ((Prod.mk.inj hi').2 ▸ hname)
        · exact ne_elements (isIdent_of_mem_engineNames hname) (Prod.mk.inj hi').2
      · rcases hi' with hi' | hi' <;> cases (Prod.mk.inj hi').1
    · -- a counter against the frame and the fields
      subst hij
      obtain ⟨r, rfl⟩ := hagg i hj
      rcases List.mem_append.mp hi with hi | hi
      · rcases mem_ident_frameDdls hi with htable | ⟨name, _, hi⟩ | ⟨name, hname, hi⟩
        · cases htable
        · cases (Prod.mk.inj hi).1
        · have hlist := congrArg (fun s => s.toList.head?) (Prod.mk.inj hi).2
          have hfirst : ("agg_" ++ r).toList.head? = some 'a' := by
            rw [String.toList_append]
            rfl
          rw [hfirst] at hlist
          simp only [List.mem_cons, List.not_mem_nil, or_false] at hname
          rcases hname with rfl | rfl | rfl | rfl <;> exact absurd hlist (by decide)
      · obtain ⟨f, _, hi | hi⟩ := hfield _ hi <;> cases (Prod.mk.inj hi).1

/-- For every DocType that compiles, its text is faithful if and only if it is a rollup, or no
option has a quote or a backslash and no two fields, and no two counters, have one name, or a name
of the engine's. -/
theorem compiled_faithful (esc : Escapes) {sql : String} (h : doctypeDdlIn dt targets = .ok ds)
    (hsql : doctypeDdlText dt targets = .ok sql) :
    Faithful esc dt.name sql ds ↔ dt.name ∈ targets ∨ Separate dt := by
  obtain rfl : ";\n".intercalate (ds.map (Ddl.text dt.name)) = sql := by
    unfold doctypeDdlText at hsql
    rw [h] at hsql
    exact Except.ok.inj hsql
  -- Each statement is read back, so only the options and the keys are left to ask about.
  rw [faithful_iff (cleanBut_of_compiled h), nodup_key_iff]
  obtain ⟨_, ⟨htarget, rfl⟩ | ⟨htarget, fs, aggs, hfs, haggs, rfl⟩⟩ := doctypeDdlIn_cases h
  · -- The table of a rollup is one statement without options.
    refine ⟨fun _ => Or.inl htarget, fun _ => ⟨fun d hd o ho => ?_, List.nodup_singleton _⟩⟩
    rw [List.mem_singleton.mp hd] at ho
    cases ho
  · rw [chosen_iff hfs haggs, nodup_compiled_iff hfs haggs]
    constructor
    · rintro ⟨hoptions, hnames, hengine, hcounters⟩
      exact Or.inr ⟨hoptions, hnames, hengine, hcounters⟩
    · rintro (hmem | hsep)
      · exact absurd hmem htarget
      · exact ⟨hsep.options, hsep.names, hsep.engine, hsep.counters⟩

end

/-! ### Notes -/

/-- A backslash before a character stands for the character. -/
def plainEscapes : Escapes where
  read
    | [] => none
    | c :: rest => some (c, rest)
  shorter l c rest h := by
    cases l with
    | nil => cases h
    | cons d l =>
        cases h
        simp

/-- A note with a title and a kind. -/
def note (kinds : List String) : DocTypeDef where
  name := "note"
  fields := [{ fieldname := "title", fieldtype := "Data", required := true }, { fieldname := "kind", fieldtype := "Select", options := kinds }]

/-- Its kinds are any words. -/
theorem compiled_faithful_note : ∃ ds sql, doctypeDdlIn (note ["Idee", "Übung"]) [] = .ok ds ∧
    doctypeDdlText (note ["Idee", "Übung"]) [] = .ok sql ∧
    Faithful plainEscapes "note" sql ds := by
  have hsep : Separate (note ["Idee", "Übung"]) :=
    ⟨by decide, by decide, by decide, by decide⟩
  have hok : (doctypeDdlIn (note ["Idee", "Übung"]) []).toOption.isSome = true := by decide
  cases hds : doctypeDdlIn (note ["Idee", "Übung"]) [] with
  | error e =>
      rw [hds] at hok
      cases hok
  | ok ds =>
      have hsql : doctypeDdlText (note ["Idee", "Übung"]) []
          = .ok (";\n".intercalate (ds.map (Ddl.text "note"))) := by
        unfold doctypeDdlText
        rw [hds]
        rfl
      exact ⟨ds, _, rfl, hsql, (compiled_faithful plainEscapes hds hsql).mpr (Or.inr hsep)⟩

/-- The text of a DocType is not faithful. -/
def Unfaithful (dt : DocTypeDef) : Prop :=
  ∃ ds sql, doctypeDdlIn dt [] = .ok ds ∧ doctypeDdlText dt [] = .ok sql ∧
    ¬ Faithful plainEscapes dt.name sql ds

theorem unfaithful_of {dt : DocTypeDef} {ds : List Ddl} (h : doctypeDdlIn dt [] = .ok ds)
    (hbad : ¬ ((∀ d ∈ ds, ∀ o ∈ d.chosen, Quotable o) ∧ (ds.map (Ddl.ident dt.name)).Nodup)) :
    Unfaithful dt := by
  refine ⟨ds, _, h, by unfold doctypeDdlText; rw [h]; rfl, fun hfaithful => hbad ?_⟩
  rw [← nodup_key_iff]
  exact (faithful_iff (cleanBut_of_compiled h)).mp hfaithful

/-- A kind with a quote, a field that is called as the engine's, and two counters with one rollup
are accepted, and the text is not faithful. -/
theorem not_compiled_faithful :
    Unfaithful (note ["don't"]) ∧
    Unfaithful { name := "note", fields := [{ fieldname := "owner", fieldtype := "Data" }] } ∧
    Unfaithful { note [] with aggregates := [⟨"counter", "totals", "title", [], none⟩,
      ⟨"counter", "totals", "kind", [], none⟩] } := by
  refine ⟨unfaithful_of rfl fun h => ?_, unfaithful_of rfl fun h => ?_,
    unfaithful_of rfl fun h => ?_⟩
  · exact absurd h.1 (by decide)
  · exact absurd h.2 (by decide)
  · exact absurd h.2 (by decide)

end Frust.Kernel
