import Frust.Proofs.Kernel.Faithful
import Frust.Proofs.Kernel.Installs
import Frust.Proofs.Orm.Turns

/-!
# `Frust.Proofs.Kernel.Orphans`: what a sync carries and what a reclaim drops

`carryOrphans` appends to a resource the definitions of the columns that its history has and that it
does not declare. Where the text of the resource is complete for the splitter (`Closed`), the
appended definitions are read as if they stood alone (`defined_carried`), and the snapshot of the
carried resource has what the resource declares and the columns that were carried (`mem_wanted`).
So the diff is known object by object (`mem_drops_wanted`). What a sync applies is complete again, so
that the next one can carry it on (`restorable_wanted`).

Whether a column is carried is decided by its base name, and whether it is declared by its own name.
The two differ for the elements of a list that is declared no longer as one: they are neither
declared nor carried, and a sync refuses to drop them. `orphans_iff` says exactly when a sync drops
no column, when a reclaim drops its own column and nothing else, and when its success means what it
says.
-/

set_option autoImplicit false

namespace Frust.Kernel.Orphans

open Frust.Lib Frust.Orm Frust.Rust

/-! ### Complete texts -/

/-- Whole statements make a closed block. -/
theorem closed_intercalate {ss : List String} (h : ∀ s ∈ ss, Whole s) :
    Closed (";\n".intercalate ss) := by
  induction ss with
  | nil => rfl
  | cons s ss ih =>
      have hs := (h s List.mem_cons_self).closed
      have hrest := ih fun s' hs' => h s' (List.mem_cons_of_mem _ hs')
      cases ss with
      | nil => simpa using hs
      | cons s' ss =>
          rw [String.intercalate_cons_cons]
          exact (hs.append (show Closed ";\n" by decide)).append hrest

/-- The options that stand in literals end none. -/
def QuotableOptions (dt : DocTypeDef) : Prop :=
  ∀ f ∈ dt.fields, f.fieldtype = "Select" → ∀ o ∈ f.options, Quotable o

instance (dt : DocTypeDef) : Decidable (QuotableOptions dt) :=
  inferInstanceAs (Decidable
    (∀ f ∈ dt.fields, f.fieldtype = "Select" → ∀ o ∈ f.options, Quotable o))

theorem quotable_of_options {dt : DocTypeDef} {targets : List String} {ds : List Ddl}
    (h : doctypeDdlIn dt targets = .ok ds) (hoptions : QuotableOptions dt) :
    ∀ d ∈ ds, ∀ o ∈ d.chosen, Quotable o := by
  obtain ⟨_, ⟨_, rfl⟩ | ⟨_, fs, aggs, hfs, haggs, rfl⟩⟩ := doctypeDdlIn_cases h
  · intro d hd o ho
    rw [List.mem_singleton.mp hd] at ho
    cases ho
  · exact (chosen_iff hfs haggs).mpr hoptions

/-- The text of a DocType is complete, where its options have no quote and no backslash. -/
theorem closed_compiled {dt : DocTypeDef} {targets : List String} {spec : ResourceSpec}
    (h : doctypeSpecIn dt targets = .ok spec) (hoptions : QuotableOptions dt) :
    Closed spec.schema := by
  obtain ⟨sql, hsql, h⟩ := bind_eq_ok h
  cases h
  obtain ⟨ds, hds, hsql⟩ := bind_eq_ok hsql
  cases hsql
  have hbut := cleanBut_of_compiled hds
  refine closed_intercalate fun x hx => ?_
  obtain ⟨d, hd, rfl⟩ := List.mem_map.mp hx
  exact Ddl.whole_of_clean hbut.table (hbut.clean d hd (quotable_of_options hds hoptions d hd))

/-- A closed text is terminated by its own last semicolon, or by one more. Either way it is a closed
text with a semicolon, and with whitespace after it. -/
theorem terminated_cases {sql : String} (h : Closed sql) :
    ∃ v w, Closed v ∧ (∀ c ∈ w, Str.isWhitespace c = true) ∧
      terminated sql = v ++ ";" ++ String.ofList w ∧ (sql = v ∨ sql = terminated sql) := by
  unfold terminated
  split
  · rename_i hlast
    have hback : sql.toList.reverse.takeWhile Str.isWhitespace
        ++ sql.toList.reverse.dropWhile Str.isWhitespace = sql.toList.reverse :=
      List.takeWhile_append_dropWhile
    cases hrest : sql.toList.reverse.dropWhile Str.isWhitespace with
    | nil =>
        rw [hrest] at hlast
        cases hlast
    | cons c r =>
        rw [hrest, List.head?_cons, Option.some.injEq] at hlast
        subst hlast
        rw [hrest] at hback
        set w := (sql.toList.reverse.takeWhile Str.isWhitespace).reverse with hw
        have hspace : ∀ c ∈ w, Str.isWhitespace c = true := fun c hc =>
          List.mem_takeWhile_imp (List.mem_reverse.mp hc)
        have hlist : sql.toList = r.reverse ++ ';' :: w := by
          rw [← List.reverse_reverse sql.toList, ← hback, List.reverse_append, List.reverse_cons,
            List.append_assoc]
          rfl
        -- the state before the semicolon is the start state
        have hstart : r.reverse.foldl splitNext (0, .code) = (0, .code) := by
          unfold Closed at h
          rw [hlist, List.foldl_append, List.foldl_cons] at h
          have hsemi := Cutter.eq_of_foldl (C := splitter)
            (fun c hc s hs => (splitNext_back (.inr (hspace c hc))).2 s hs) h
          exact (splitNext_back (.inl rfl)).2 _ hsemi
        have hsql : sql = String.ofList r.reverse ++ ";" ++ String.ofList w := by
          refine String.toList_inj.mp ?_
          simp only [hlist, String.toList_append, String.toList_ofList, List.append_assoc]
          rfl
        refine ⟨String.ofList r.reverse, w, ?_, hspace, hsql, .inr rfl⟩
        unfold Closed
        rw [String.toList_ofList]
        exact hstart
  · exact ⟨sql, [], h, fun c hc => absurd hc List.not_mem_nil, (String.append_empty).symm, .inl rfl⟩

/-- What stands after a closed text that was terminated is read as if it stood alone. -/
theorem defined_terminated {sql : String} (h : Closed sql) (m : String) :
    defined (terminated sql ++ m) = defined sql ++ defined m := by
  obtain ⟨v, w, hv, hw, htext, hsql⟩ := terminated_cases h
  have hspaces (m : String) : defined (String.ofList w ++ m) = defined m := by
    have hm := defined_spaces hw m.toList
    rw [String.ofList_toList] at hm
    rw [← hm, String.ofList_append, String.ofList_toList]
  rw [htext, String.append_assoc, defined_append hv, hspaces]
  refine congrArg (· ++ _) ?_
  rcases hsql with rfl | hsql
  · rfl
  · have hend := hspaces ""
    rw [String.append_empty] at hend
    rw [hsql, htext, defined_append hv, hend]
    exact (List.append_nil _).symm

theorem closed_terminated {sql : String} (h : Closed sql) : Closed (terminated sql) := by
  unfold terminated
  split
  · exact h
  · exact h.append (show Closed ";" by decide)

/-! ### What is carried -/

/-- The key of a column. -/
def fieldKey (field : String) : String := "field:" ++ field

theorem key_of_field {o : SchemaObject} (h : o.kind = .field) : o.key = fieldKey o.name := by
  unfold SchemaObject.key
  rw [h]
  rfl

/-- Only a column has the key of a column. -/
theorem kind_of_fieldKey {o : SchemaObject} {f : String} (h : o.key = fieldKey f) :
    o.kind = .field ∧ o.name = f := by
  have hkey : o.key = (⟨.field, f, ""⟩ : SchemaObject).key := by
    rw [h, key_of_field rfl]
  exact SchemaObject.key_inj hkey

theorem lookup_toList {α β : Type} (m : Std.ExtTreeMap String α) (g : α → β) (k : String) :
    (m.toList.map fun e => (e.1, g e.2)).lookup k = m[k]?.map g := by
  have hdistinct : m.toList.Pairwise fun a b => a.1 ≠ b.1 :=
    Std.ExtTreeMap.distinct_keys_toList.imp fun h heq =>
      h (Std.LawfulEqCmp.compare_eq_iff_eq.mpr heq)
  have hmem (v : α) : m[k]? = some v ↔ (k, v) ∈ m.toList :=
    Std.ExtTreeMap.mem_toList_iff_getElem?_eq_some.symm
  revert hdistinct hmem
  generalize m.toList = l
  generalize m[k]? = r
  intro hdistinct hmem
  induction l generalizing r with
  | nil =>
      cases r with
      | none => rfl
      | some v => exact absurd ((hmem v).mp rfl) List.not_mem_nil
  | cons e l ih =>
      rw [List.pairwise_cons] at hdistinct
      rw [List.map_cons, List.lookup_cons]
      by_cases hk : k = e.1
      · rw [beq_iff_eq.mpr hk]
        have hr : r = some e.2 := (hmem e.2).mpr (by rw [hk]; exact List.mem_cons_self)
        rw [hr]
        rfl
      · rw [beq_eq_false_iff_ne.mpr hk]
        refine ih r hdistinct.2 fun v => (hmem v).trans ?_
        rw [List.mem_cons]
        exact ⟨fun h => h.resolve_left fun he => hk (congrArg Prod.fst he), .inr⟩

section

variable {db : ScopeDb} {spec : ResourceSpec} {reclaiming : Option String}

/-- The schema that was applied last. -/
def applied (db : ScopeDb) (spec : ResourceSpec) : SchemaSnapshot := (db.head spec.key).2

/-- The schema that the resource declares. -/
def declared (spec : ResourceSpec) : SchemaSnapshot := .fromSql spec.name spec.schema

/-- The resource with its orphans. -/
def carried (db : ScopeDb) (spec : ResourceSpec) (reclaiming : Option String) : ResourceSpec :=
  (carryOrphans spec (TenantDb.historyFields db) reclaiming).1

/-- The schema that a sync asks for. -/
def wanted (db : ScopeDb) (spec : ResourceSpec) (reclaiming : Option String) : SchemaSnapshot :=
  .fromSql spec.name (carried db spec reclaiming).schema

/-- The columns that are carried. -/
def orphans (db : ScopeDb) (spec : ResourceSpec) (reclaiming : Option String) :
    List (String × String) :=
  undeclaredFields (declared spec) reclaiming (TenantDb.snapshotFields (applied db spec))

theorem carried_key : (carried db spec reclaiming).key = spec.key := by
  unfold carried carryOrphans
  split <;> rfl

theorem carried_name : (carried db spec reclaiming).name = spec.name := by
  unfold carried carryOrphans
  split <;> rfl

theorem carried_app : (carried db spec reclaiming).app = spec.app := by
  unfold carried carryOrphans
  split <;> rfl

/-- The history that the sync reads is the last snapshot's. -/
theorem lookup_historyFields (hv : db.Versioned) (key : String) :
    (TenantDb.historyFields db).lookup key = none ∧ (db.head key).2 = .default ∨
    (TenantDb.historyFields db).lookup key = some (TenantDb.snapshotFields (db.head key).2) := by
  have hhead := loadHistory_getD hv key
  rw [Std.ExtTreeMap.getD_eq_getD_getElem?] at hhead
  unfold TenantDb.historyFields
  rw [lookup_toList (loadHistory db) fun e => TenantDb.snapshotFields e.2]
  cases hget : (loadHistory db)[key]? with
  | none =>
      rw [hget] at hhead
      exact .inl ⟨rfl, by rw [← hhead]; rfl⟩
  | some e =>
      rw [hget] at hhead
      exact .inr (by rw [← hhead]; rfl)

/-- The carried columns have definitions in the applied schema. -/
theorem mem_orphans {e : String × String} (he : e ∈ orphans db spec reclaiming) :
    ∃ (k : String) (o : SchemaObject), (applied db spec).objects[k]? = some o ∧ o.kind = .field ∧
      e = (o.name, o.defineSql) := by
  have hfield := (List.mem_filter.mp he).1
  obtain ⟨x, hx, rfl⟩ := List.mem_map.mp hfield
  obtain ⟨hmem, hkind⟩ := List.mem_filter.mp hx
  have hget := Std.ExtTreeMap.mem_toList_iff_getElem?_eq_some.mp hmem
  exact ⟨x.1, x.2, hget, by simpa using hkind, rfl⟩

/-- A column is carried if its base is neither declared nor reclaimed. -/
theorem mem_orphans_iff {o : SchemaObject} (ho : (applied db spec).objects[o.key]? = some o)
    (hkind : o.kind = .field) : (o.name, o.defineSql) ∈ orphans db spec reclaiming ↔
      fieldKey (fieldBase o.name) ∉ (declared spec).objects ∧
        reclaiming ≠ some (fieldBase o.name) := by
  have hmem : (o.name, o.defineSql) ∈ TenantDb.snapshotFields (applied db spec) := by
    refine List.mem_map.mpr ⟨(o.key, o), List.mem_filter.mpr ⟨?_, by simpa using hkind⟩, rfl⟩
    exact Std.ExtTreeMap.mem_toList_iff_getElem?_eq_some.mpr ho
  unfold orphans undeclaredFields
  rw [List.mem_filter]
  simp only [hmem, true_and, Bool.and_eq_true, Bool.not_eq_true', decide_eq_false_iff_not,
    beq_eq_false_iff_ne]
  rfl

section

variable (hv : db.Versioned) (hclosed : Closed spec.schema) (hold : (applied db spec).Restorable)
include hv hclosed hold

/-- The carried columns are defined behind what the resource declares. -/
theorem defined_carried : defined (carried db spec reclaiming).schema
    = defined spec.schema ++ ((orphans db spec reclaiming).map (·.2)).filterMap parseDefine := by
  have hwhole : ∀ s ∈ (orphans db spec reclaiming).map (·.2), Whole s := by
    intro s hs
    obtain ⟨e, he, rfl⟩ := List.mem_map.mp hs
    obtain ⟨k, o, ho, _, rfl⟩ := mem_orphans he
    exact (hold k o ho).1
  unfold carried carryOrphans
  rcases lookup_historyFields hv spec.key with ⟨hnone, hdefault⟩ | hsome
  · rw [hnone]
    have hempty : orphans db spec reclaiming = [] := by
      unfold orphans applied
      rw [hdefault]
      rfl
    rw [hempty]
    exact (List.append_nil _).symm
  · rw [hsome]
    have hjoin : String.join ((orphans db spec reclaiming).map fun e => e.2 ++ ";")
        = String.join (((orphans db spec reclaiming).map (·.2)).map (· ++ ";")) := by
      rw [List.map_map]
      rfl
    show defined (terminated spec.schema
      ++ String.join ((orphans db spec reclaiming).map fun e => e.2 ++ ";")) = _
    rw [defined_terminated hclosed, hjoin, defined_join hwhole]

/-- What a sync asks for is declared, or carried. -/
theorem mem_wanted {k : String} : k ∈ (wanted db spec reclaiming).objects ↔
    k ∈ (declared spec).objects ∨
    ∃ o : SchemaObject, (applied db spec).objects[k]? = some o ∧ o.kind = .field ∧
      fieldKey (fieldBase o.name) ∉ (declared spec).objects ∧
      reclaiming ≠ some (fieldBase o.name) := by
  unfold wanted
  rw [mem_fromSql, defined_carried hv hclosed hold]
  unfold declared
  rw [mem_fromSql]
  constructor
  · rintro ⟨o, ho, rfl⟩
    rcases List.mem_append.mp ho with ho | ho
    · exact .inl ⟨o, ho, rfl⟩
    · obtain ⟨s, hs, hparse⟩ := List.mem_filterMap.mp ho
      obtain ⟨e, he, rfl⟩ := List.mem_map.mp hs
      obtain ⟨k, o', ho', hkind, rfl⟩ := mem_orphans he
      obtain rfl : o = o' := Option.some.inj (hparse.symm.trans (hold k o' ho').2)
      have hkey : o.key = k := (applied db spec).keyed k o ho'
      rw [← hkey] at ho'
      exact .inr ⟨o, ho', hkind, (mem_orphans_iff ho' hkind).mp he⟩
  · rintro (⟨o, ho, rfl⟩ | ⟨o, ho, hkind, hcarried⟩)
    · exact ⟨o, List.mem_append_left _ ho, rfl⟩
    · have hkey : o.key = k := (applied db spec).keyed k o ho
      subst hkey
      have hmem := (mem_orphans_iff ho hkind).mpr hcarried
      have hsql := List.mem_map_of_mem (f := fun e : String × String => e.2) hmem
      refine ⟨o, List.mem_append_right _ ?_, rfl⟩
      exact List.mem_filterMap.mpr ⟨o.defineSql, hsql, (hold _ o ho).2⟩

/-- What a sync drops: what is not declared, and for a column where its base is declared or
reclaimed. -/
theorem mem_drops_wanted {d : DroppedObject} :
    d ∈ (diff (applied db spec) (wanted db spec reclaiming)).drops ↔
      ∃ o : SchemaObject, (applied db spec).objects[o.key]? = some o ∧ d = ⟨o.kind, o.name⟩ ∧
        o.key ∉ (declared spec).objects ∧ (o.kind = .field →
          fieldKey (fieldBase o.name) ∈ (declared spec).objects ∨
            reclaiming = some (fieldBase o.name)) := by
  have hnone (k : String) : (wanted db spec reclaiming).objects[k]? = none ↔
      k ∉ (wanted db spec reclaiming).objects := by
    rw [Std.ExtTreeMap.mem_iff_isSome_getElem?, Option.not_isSome_iff_eq_none]
  rw [mem_drops]
  simp only [hnone, mem_wanted hv hclosed hold]
  constructor
  · rintro ⟨k, o, ho, hlost, rfl⟩
    have hkey : o.key = k := (applied db spec).keyed k o ho
    subst hkey
    rw [not_or] at hlost
    refine ⟨o, ho, rfl, hlost.1, fun hkind => ?_⟩
    by_contra hstays
    rw [not_or] at hstays
    exact hlost.2 ⟨o, ho, hkind, hstays.1, hstays.2⟩
  · rintro ⟨o, ho, rfl, hundeclared, hbase⟩
    refine ⟨o.key, o, ho, ?_, rfl⟩
    rintro (hdeclared | ⟨o', ho', hkind, hno, hne⟩)
    · exact hundeclared hdeclared
    · obtain rfl := Option.some.inj (ho'.symm.trans ho)
      rcases hbase hkind with hdeclared | hreclaimed
      · exact hno hdeclared
      · exact hne hreclaimed

/-- The text that a sync applies is complete again, so that its snapshot can be carried on. -/
theorem closed_carried : Closed (carried db spec reclaiming).schema := by
  unfold carried carryOrphans
  rcases lookup_historyFields hv spec.key with ⟨hnone, _⟩ | hsome
  · rw [hnone]
    exact hclosed
  · rw [hsome]
    show Closed (terminated spec.schema
      ++ String.join ((orphans db spec reclaiming).map fun e => e.2 ++ ";"))
    refine (closed_terminated hclosed).append ?_
    have hentries : ∀ e ∈ orphans db spec reclaiming, Closed e.2 := by
      intro e he
      obtain ⟨k, o, ho, _, rfl⟩ := mem_orphans he
      exact (hold k o ho).1.closed
    revert hentries
    generalize orphans db spec reclaiming = es
    intro hentries
    induction es with
    | nil => rfl
    | cons e es ih =>
        rw [List.map_cons, String.join_cons]
        refine Closed.append ((hentries e List.mem_cons_self).append (by decide)) ?_
        exact ih fun e' he' => hentries e' (List.mem_cons_of_mem _ he')

/-- What is applied by a sync can be carried by the next one. -/
theorem restorable_wanted : (wanted db spec reclaiming).Restorable :=
  restorable_fromSql (closed_carried hv hclosed hold) _

end

end

/-! ### Bases -/

theorem fieldBase_of_not_mem {f : String} (h : '.' ∉ f.toList) : fieldBase f = f := by
  unfold fieldBase Str.split
  rw [List.splitOn_eq_singleton h]
  exact String.ofList_toList

theorem fieldBase_append {c : String} (h : '.' ∉ c.toList) (rest : String) :
    fieldBase (c ++ "." ++ rest) = c := by
  have hlist : (c ++ "." ++ rest).toList = c.toList ++ '.' :: rest.toList := by
    rw [String.toList_append, String.toList_append, List.append_assoc]
    rfl
  unfold fieldBase Str.split
  rw [hlist, List.splitOn_append_cons_self_of_not_mem h]
  exact String.ofList_toList

/-- A column belongs to `c` if it is `c`, or one of its children. -/
theorem fieldBase_eq_iff {f c : String} (hc : '.' ∉ c.toList) :
    fieldBase f = c ↔ f = c ∨ ∃ rest, f = c ++ "." ++ rest := by
  constructor
  · rintro rfl
    by_cases hf : '.' ∈ f.toList
    · obtain ⟨x, y, hlist, hx⟩ := List.eq_append_cons_of_mem hf
      have hsplit : f = String.ofList x ++ "." ++ String.ofList y := by
        refine String.toList_inj.mp ?_
        simp only [hlist, String.toList_append, String.toList_ofList, List.append_assoc]
        rfl
      have hbase : fieldBase f = String.ofList x := by
        have hdot : '.' ∉ (String.ofList x).toList := by
          rw [String.toList_ofList]
          exact hx
        rw [hsplit, fieldBase_append hdot]
      rw [hbase]
      exact .inr ⟨_, hsplit⟩
    · exact .inl (fieldBase_of_not_mem hf).symm
  · rintro (rfl | ⟨rest, rfl⟩)
    · exact fieldBase_of_not_mem hc
    · exact fieldBase_append hc rest

theorem not_mem_of_isIdent {c : String} (h : isIdent c = true) : '.' ∉ c.toList := by
  intro hdot
  exact absurd (isIdentChar_of_isIdent h '.' hdot) (by decide)

/-! ### What a sync and a reclaim should do -/

section

variable (db : ScopeDb) (spec : ResourceSpec) (c : String)

/-- A sync drops no column of the resource, and the migrator does not refuse it. -/
def Unblocked : Prop :=
  (∀ d ∈ (diff (applied db spec) (wanted db spec none)).drops, d.kind ≠ .field) ∧
  ∀ (error : Option String) (db' : ScopeDb) (e : MigrationError),
    (migrateResource (loadHistory db) (.defaultFor .dev) error db' (carried db spec none)).2
      ≠ .refused e

/-- A reclaim of `c` drops `c` and its children, and nothing else. -/
def DropsExactly : Prop :=
  ∀ d, d ∈ (diff (applied db spec) (wanted db spec (some c))).drops ↔
    d.kind = .field ∧ (d.name = c ∨ ∃ rest, d.name = c ++ "." ++ rest) ∧
      fieldKey d.name ∈ (applied db spec).objects

/-- Every applied column whose base is declared is declared itself. -/
def DeclaredWhole : Prop :=
  ∀ f, fieldKey f ∈ (applied db spec).objects →
    fieldKey (fieldBase f) ∈ (declared spec).objects → fieldKey f ∈ (declared spec).objects

/-- No column of `c` is declared, every other applied one whose base is declared is so itself, and
so is everything that is no column. -/
structure OnlyColumn : Prop where
  own : ∀ f, fieldKey f ∈ (applied db spec).objects → fieldBase f = c →
    fieldKey f ∉ (declared spec).objects
  others : ∀ f, fieldKey f ∈ (applied db spec).objects → fieldBase f ≠ c →
    fieldKey (fieldBase f) ∈ (declared spec).objects → fieldKey f ∈ (declared spec).objects
  rest : ∀ (k : String) (o : SchemaObject), (applied db spec).objects[k]? = some o →
    o.kind ≠ .field → k ∈ (declared spec).objects

end

section

variable {db : ScopeDb} {spec : ResourceSpec} {c : String}

theorem object_of_fieldKey {f : String} (h : fieldKey f ∈ (applied db spec).objects) :
    ∃ o : SchemaObject, (applied db spec).objects[o.key]? = some o ∧ o.kind = .field ∧
      o.name = f := by
  rw [Std.ExtTreeMap.mem_iff_isSome_getElem?, Option.isSome_iff_exists] at h
  obtain ⟨o, ho⟩ := h
  have hkey := (applied db spec).keyed _ o ho
  obtain ⟨hkind, hname⟩ := kind_of_fieldKey hkey
  rw [← hkey] at ho
  exact ⟨o, ho, hkind, hname⟩

theorem fieldKey_of_object {o : SchemaObject} (h : (applied db spec).objects[o.key]? = some o)
    (hkind : o.kind = .field) : fieldKey o.name ∈ (applied db spec).objects := by
  rw [Std.ExtTreeMap.mem_iff_isSome_getElem?, ← key_of_field hkind, h]
  rfl

/-- The turn of the migrator for a resource with its orphans. -/
theorem devTurn_carried (hv : db.Versioned) (spec : ResourceSpec) (reclaiming : Option String)
    (opts : MigrationOptions) (henv : opts.environment = .dev) (hdry : opts.dryRun = false)
    (error : Option String) (db' : ScopeDb) :
    DevTurn (diff (applied db spec) (wanted db spec reclaiming)) (applied db spec)
      (wanted db spec reclaiming) (db.head spec.key).1 opts error db' (carried db spec reclaiming)
      (migrateResource (loadHistory db) opts error db' (carried db spec reclaiming)) := by
  refine devTurn henv hdry error db' ?_ ?_
  · rw [carried_key, loadHistory_getD hv]
    rfl
  · rw [carried_name]
    rfl

theorem destructive_iff (d : SchemaDiff) :
    d.destructive.isEmpty = false ↔ ∃ x ∈ d.drops, x.kind = .field := by
  unfold SchemaDiff.destructive
  rw [List.isEmpty_eq_false_iff, ne_eq, List.map_eq_nil_iff, List.filter_eq_nil_iff]
  simp

/-- The migrator refuses nothing but to drop a column. -/
theorem not_refused (hv : db.Versioned) {reclaiming : Option String}
    (h : ∀ d ∈ (diff (applied db spec) (wanted db spec reclaiming)).drops, d.kind ≠ .field)
    (error : Option String) (db' : ScopeDb) (e : MigrationError) :
    (migrateResource (loadHistory db) (.defaultFor .dev) error db'
      (carried db spec reclaiming)).2 ≠ .refused e := by
  have hturn := devTurn_carried hv spec reclaiming (.defaultFor .dev) rfl rfl error db'
  generalize migrateResource (loadHistory db) (.defaultFor .dev) error db'
    (carried db spec reclaiming) = out at hturn ⊢
  cases hturn with
  | refused e' _ hdestructive _ =>
      obtain ⟨d, hd, hkind⟩ := (destructive_iff _).mp hdestructive
      exact absurd hkind (h d hd)
  | _ => simp

section

variable (hv : db.Versioned) (hclosed : Closed spec.schema) (hold : (applied db spec).Restorable)
include hv hclosed hold

/-- A sync goes through exactly when every applied column whose base is declared is so itself. -/
theorem unblocked_iff : Unblocked db spec ↔ DeclaredWhole db spec := by
  have hdrops : (∀ d ∈ (diff (applied db spec) (wanted db spec none)).drops, d.kind ≠ .field) ↔
      DeclaredWhole db spec := by
    constructor
    · intro h f hf hbase
      obtain ⟨o, ho, hkind, rfl⟩ := object_of_fieldKey hf
      by_contra hundeclared
      refine h ⟨o.kind, o.name⟩ ((mem_drops_wanted hv hclosed hold).mpr ?_) hkind
      rw [← key_of_field hkind] at hundeclared
      exact ⟨o, ho, rfl, hundeclared, fun _ => .inl hbase⟩
    · intro h d hd hfield
      obtain ⟨o, ho, rfl, hundeclared, hbase⟩ := (mem_drops_wanted hv hclosed hold).mp hd
      rcases hbase hfield with hdeclared | hreclaimed
      · rw [key_of_field hfield] at hundeclared
        exact hundeclared (h _ (fieldKey_of_object ho hfield) hdeclared)
      · cases hreclaimed
  unfold Unblocked
  rw [← hdrops]
  exact ⟨fun h => h.1, fun h => ⟨h, not_refused hv h⟩⟩

/-- A reclaim is exact exactly when only its column is not declared. -/
theorem dropsExactly_iff (hc : isIdent c = true) :
    DropsExactly db spec c ↔ OnlyColumn db spec c := by
  have hbase (f : String) : (f = c ∨ ∃ rest, f = c ++ "." ++ rest) ↔ fieldBase f = c :=
    (fieldBase_eq_iff (not_mem_of_isIdent hc)).symm
  unfold DropsExactly
  simp only [hbase, mem_drops_wanted hv hclosed hold, Option.some.injEq]
  constructor
  · intro h
    -- From an exact reclaim: the column itself is undeclared, no other column is touched, and
    -- nothing else is gone.
    refine ⟨fun f hf hfc => ?_, fun f hf hfc hdeclared => ?_, fun k o ho hkind => ?_⟩
    · obtain ⟨o, ho, hkind, rfl⟩ := object_of_fieldKey hf
      obtain ⟨o', _, heq, hundeclared, _⟩ := (h ⟨o.kind, o.name⟩).mpr ⟨hkind, hfc, hf⟩
      obtain ⟨hkind', hname⟩ := DroppedObject.mk.inj heq
      rw [hname, ← key_of_field (hkind'.symm.trans hkind)]
      exact hundeclared
    · obtain ⟨o, ho, hkind, rfl⟩ := object_of_fieldKey hf
      by_contra hundeclared
      rw [← key_of_field hkind] at hundeclared
      exact hfc ((h ⟨o.kind, o.name⟩).mp ⟨o, ho, rfl, hundeclared, fun _ => .inl hdeclared⟩).2.1
    · have hkey := (applied db spec).keyed k o ho
      subst hkey
      by_contra hundeclared
      exact hkind ((h ⟨o.kind, o.name⟩).mp
        ⟨o, ho, rfl, hundeclared, fun hfield => absurd hfield hkind⟩).1
  · intro h d
    constructor
    · -- A drop that is not of the column would be of an object that the spec declares.
      rintro ⟨o, ho, rfl, hundeclared, hreclaimed⟩
      by_cases hkind : o.kind = .field
      · have hf := fieldKey_of_object ho hkind
        refine ⟨hkind, ?_, hf⟩
        by_contra hne
        rcases hreclaimed hkind with hdeclared | heq
        · rw [key_of_field hkind] at hundeclared
          exact hundeclared (h.others _ hf hne hdeclared)
        · exact hne heq.symm
      · exact absurd (h.rest _ o ho hkind) hundeclared
    · rintro ⟨hkind, hfc, hf⟩
      obtain ⟨o, ho, hkind', hname⟩ := object_of_fieldKey hf
      refine ⟨o, ho, ?_, ?_, fun _ => .inr ?_⟩
      · obtain ⟨kind, name⟩ := d
        simp_all
      · rw [key_of_field hkind', hname]
        exact h.own _ hf hfc
      · rw [hname, hfc]

end

end

/-! ### The run of a reclaim -/

section

open AppProg

variable {engine : RowEngine} {luck : MigrationPhase → ScopeFaults} {s s' : TenantDb}
  {dt : DocTypeDef} {spec : ResourceSpec} {c : String}

theorem orderResources_singleton (r : ResourceSpec) : orderResources [r] = [r] :=
  List.perm_singleton.mp (orderResources_perm (List.nodup_singleton r.name))

theorem run_singleton (r : ResourceSpec) (opts : MigrationOptions) (txn : Nat → Option String)
    (db : ScopeDb) (report : MigrationReport) :
    run [r] opts txn db report
      = ((migrateResource (loadHistory db) opts (txn report.considered) db r).1,
        report.record (migrateResource (loadHistory db) opts (txn report.considered) db r).2) := by
  unfold run
  rw [orderResources_singleton]
  rfl

theorem record_applied (report : MigrationReport) (out : Outcome) :
    (report.record out).applied = report.applied ++ out.applied?.toList := by
  cases out <;> simp [MigrationReport.record, Outcome.applied?]

theorem record_errors (report : MigrationReport) (out : Outcome) :
    (report.record out).errors = report.errors ++ out.error?.toList := by
  cases out <;> simp [MigrationReport.record, Outcome.error?]

/-- A migration of one resource leaves the platform's alone, and is one turn for any other. -/
theorem migrated_singleton {phase : MigrationPhase} {r : ResourceSpec} {opts : MigrationOptions}
    {db db' : ScopeDb} {report : MigrationReport}
    (h : TenantDb.migrated luck phase [r] opts db = (db', .ok report)) :
    r.app = platformApp ∧ db' = db ∧ report.applied = [] ∨
    r.app ≠ platformApp ∧ ∃ out, migrateResource (loadHistory db) opts ((luck phase).txn 0) db r
        = (db', out) ∧ report.applied = out.applied?.toList := by
  unfold TenantDb.migrated migrateScope at h
  split at h
  · cases h
  · unfold tenantSpecs at h
    by_cases happ : r.app = platformApp
    · rw [List.filter_cons_of_neg (by simpa using happ)] at h
      cases h
      exact .inl ⟨happ, rfl, rfl⟩
    · rw [List.filter_cons_of_pos (by simpa using happ), List.filter_nil, run_singleton] at h
      obtain ⟨rfl, hreport⟩ := Prod.mk.inj h
      obtain rfl := Except.ok.inj hreport
      exact .inr ⟨happ, _, rfl, record_applied _ _⟩

/-- Where no call fails, the migration goes through. -/
theorem migrated_clear (hclear : Clear luck) (phase : MigrationPhase) {r : ResourceSpec}
    (happ : r.app ≠ platformApp) (opts : MigrationOptions) (db : ScopeDb) :
    ∃ report, TenantDb.migrated luck phase [r] opts db
        = ((migrateResource (loadHistory db) opts none db r).1, .ok report) ∧
      report.applied = (migrateResource (loadHistory db) opts none db r).2.applied?.toList ∧
      report.errors = (migrateResource (loadHistory db) opts none db r).2.error?.toList := by
  unfold TenantDb.migrated migrateScope tenantSpecs
  rw [hclear, firstError_clear, List.filter_cons_of_pos (by simpa using happ), List.filter_nil,
    run_singleton]
  exact ⟨_, rfl, record_applied _ _, record_errors _ _⟩

/-- A reclaim builds the resource of its DocType only. -/
theorem syncSpecs_none {targets : List String} {history : List (String × List (String × String))}
    {name : String} {dts : List DocTypeDef} (h : name ∉ dts.map (·.name)) :
    syncSpecs targets history (some (name, c)) dts = .ok ([], []) := by
  induction dts with
  | nil => rfl
  | cons d dts ih =>
      rw [List.map_cons, List.mem_cons, not_or] at h
      unfold syncSpecs
      rw [if_pos (by simpa using h.1)]
      exact ih h.2

theorem syncSpecs_reclaim {targets : List String} {dts : List DocTypeDef} (c : String)
    (history : List (String × List (String × String))) (hnames : (dts.map (·.name)).Nodup)
    (hmem : dt ∈ dts) (hspec : doctypeSpecIn dt targets = .ok spec) :
    ∃ names, syncSpecs targets history (some (dt.name, c)) dts
      = .ok ([(carryOrphans spec history (some c)).1], names) := by
  induction dts with
  | nil => cases hmem
  | cons d dts ih =>
      rw [List.map_cons, List.nodup_cons] at hnames
      rcases List.mem_cons.mp hmem with rfl | hmem
      · refine ⟨((carryOrphans spec history (some c)).2.map fun f => dt.name ++ "." ++ f) ++ [], ?_⟩
        unfold syncSpecs
        rw [if_neg (by simp), hspec, syncSpecs_none hnames.1]
        rfl
      · have hne : dt.name ≠ d.name := fun heq =>
          hnames.1 (heq ▸ List.mem_map_of_mem hmem)
        obtain ⟨names, hnames'⟩ := ih hnames.2 hmem
        refine ⟨names, ?_⟩
        unfold syncSpecs
        rw [if_pos (by simpa using hne)]
        exact hnames'

/-- A DocType of a database, with its resource. The records' names were checked, the text of the
resource is complete, and the history is one that the migrator wrote. -/
structure Deployed (s : TenantDb) (dt : DocTypeDef) (spec : ResourceSpec) : Prop where
  names : (s.defs.map (·.name)).Nodup
  idents : ∀ d ∈ s.defs, isIdent d.name = true
  mem : dt ∈ s.defs
  compiles : doctypeSpecIn dt (rollupTargets s.defs) = .ok spec
  closed : Closed spec.schema
  versioned : s.schema.Versioned
  restorable : (applied s.schema spec).Restorable

theorem Deployed.name (h : Deployed s dt spec) : spec.name = dt.name := by
  obtain ⟨sql, _, hspec⟩ := bind_eq_ok h.compiles
  cases hspec
  rfl

/-- The options of a reclaim. -/
def reclaimOptions : MigrationOptions :=
  { MigrationOptions.defaultFor .dev with allowDestructive := true }

/-- A sync for one column asks the migrator for one resource. -/
theorem syncInner_reclaim (engine : RowEngine) (luck : MigrationPhase → ScopeFaults) (c : String)
    (h : Deployed s dt spec) : ∃ names,
    (syncInner (some (dt.name, c))).exec engine luck s
      = ((sql (.migrate .sync [carried s.schema spec (some c)] reclaimOptions) >>= fun report =>
          AppProg.lift ((report : Except String MigrationReport).mapError fun e =>
            .db ("metadata sync: " ++ e)) >>= fun report =>
          seedSingleRows s.defs >>= fun _ => AppProg.lift (syncOutcome names report)) :
            AppProg SyncOutcome).exec engine luck s := by
  obtain ⟨names, hspecs⟩ := syncSpecs_reclaim c (TenantDb.historyFields s.schema) h.names h.mem
    h.compiles
  refine ⟨names, ?_⟩
  unfold syncInner
  refine (exec_bind_ok (loadDoctypes_exec s)).trans ?_
  refine (exec_bind_ok (exec_sql _ _)).trans ?_
  refine (exec_bind_ok (exec_check hspecs s)).trans ?_
  rfl

theorem syncOutcome_applied {names : List String} {report : MigrationReport} {out : SyncOutcome}
    (h : syncOutcome names report = .ok out) : out.applied = report.applied.length := by
  unfold syncOutcome at h
  dsimp only at h
  split at h
  · cases h
  · cases h
    rfl

/-- A reclaim that succeeds has applied the schema without the column. -/
theorem reclaim_inv (h : Deployed s dt spec)
    (hrun : (reclaim dt.name c).exec engine luck s = (.ok (), s')) :
    spec.app ≠ platformApp ∧
    (diff (applied s.schema spec) (wanted s.schema spec (some c))).isEmpty = false ∧
    s'.schema = s.schema.commit spec.key (wanted s.schema spec (some c)) spec.name .up := by
  unfold reclaim at hrun
  obtain ⟨out, t, hsync, hrun⟩ := exec_bind_inv hrun
  obtain ⟨names, hinner⟩ := syncInner_reclaim engine luck c h
  rw [hinner] at hsync
  obtain ⟨reply, t₁, hmigrate, hsync⟩ := exec_bind_inv hsync
  obtain ⟨report, hreport, hsync⟩ := exec_lift_bind_inv hsync
  obtain ⟨_, t₂, hseed, hsync⟩ := exec_bind_inv hsync
  rw [exec_lift] at hsync
  obtain ⟨hout, rfl⟩ := Prod.mk.inj hsync
  -- something was applied
  have hsome : out.applied ≠ 0 ∧ s' = t₂ := by
    split at hrun
    · cases hrun
    · rename_i hne
      cases hrun
      exact ⟨hne, rfl⟩
  obtain ⟨hsome, rfl⟩ := hsome
  have happlied : report.applied ≠ [] := by
    rintro hnil
    rw [syncOutcome_applied hout, hnil] at hsome
    exact hsome rfl
  have hschema : Part.schema.Same s' t₁ :=
    (seedSingleRows_within s.defs).same_of_ok (by decide) hseed
  rw [exec_sql] at hmigrate
  obtain ⟨hreply, ht₁⟩ := Prod.mk.inj hmigrate
  have hmigrated : TenantDb.migrated luck .sync [carried s.schema spec (some c)] reclaimOptions
      s.schema = (t₁.schema, .ok report) := by
    cases reply with
    | error e => cases hreport
    | ok report' =>
        cases hreport
        rw [← ht₁]
        exact Prod.ext rfl (Except.ok.inj hreply)
  rcases migrated_singleton hmigrated with ⟨_, _, hnil⟩ | ⟨happ, turn, hturn, hlist⟩
  · exact absurd hnil happlied
  · have hdev := devTurn_carried h.versioned spec (some c) reclaimOptions rfl rfl
      ((luck .sync).txn 0) s.schema
    rw [hturn] at hdev
    rw [hlist] at happlied
    rw [carried_app] at happ
    generalize hstep : (t₁.schema, turn) = step at hdev
    cases hdev with
    | applied a hpending _ _ =>
        refine ⟨happ, hpending, ?_⟩
        obtain ⟨hdb, rfl⟩ := Prod.mk.inj hstep
        rw [show s'.schema = t₁.schema from hschema, hdb, carried_key, carried_name]
        rfl
    | _ =>
        obtain ⟨_, rfl⟩ := Prod.mk.inj hstep
        exact absurd rfl happlied

/-- The first record of a Single can be written into tables that take it. -/
theorem seedSingleRows_ok (luck : MigrationPhase → ScopeFaults) {dts : List DocTypeDef}
    (h : ∀ d ∈ dts, isIdent d.name = true) (s : TenantDb) : ∃ t, (seedSingleRows dts).exec noTables luck s = (.ok (), t) := by
  have hone (d : DocTypeDef) (hd : isIdent d.name = true) (s : TenantDb) :
      ∃ t, (seedSingleRow d).exec noTables luck s = (.ok (), t) := by
    unfold seedSingleRow
    split
    · exact ⟨s, rfl⟩
    · rw [hd, Bool.not_true, if_neg Bool.false_ne_true]
      have hread : (sql (.row d.name d.name)).exec noTables luck s
          = (.ok (s.rows.lookup (d.name, d.name)), s) := rfl
      cases hrow : s.rows.lookup (d.name, d.name) with
      | none =>
          rw [hrow] at hread
          exact ⟨_, (exec_bind_ok hread).trans rfl⟩
      | some row =>
          rw [hrow] at hread
          exact ⟨_, (exec_bind_ok hread).trans rfl⟩
  induction dts generalizing s with
  | nil => exact ⟨s, rfl⟩
  | cons d dts ih =>
      obtain ⟨t, ht⟩ := hone d (h d List.mem_cons_self) s
      obtain ⟨u, hu⟩ := ih (fun d' hd' => h d' (List.mem_cons_of_mem _ hd')) t
      exact ⟨u, (exec_bind_ok ht).trans hu⟩

/-- Where anything is pending, a reclaim whose calls all go through succeeds. -/
theorem reclaim_ok (h : Deployed s dt spec) (hclear : Clear luck) (happ : spec.app ≠ platformApp)
    (hpending : (diff (applied s.schema spec) (wanted s.schema spec (some c))).isEmpty = false) :
    ∃ s', (reclaim dt.name c).exec noTables luck s = (.ok (), s') := by
  obtain ⟨report, hmigrated, happlied, herrors⟩ := migrated_clear hclear .sync
    (r := carried s.schema spec (some c)) (by rw [carried_app]; exact happ) reclaimOptions s.schema
  have hdev := devTurn_carried h.versioned spec (some c) reclaimOptions rfl rfl none s.schema
  revert hmigrated happlied herrors
  generalize migrateResource (loadHistory s.schema) reclaimOptions none s.schema
    (carried s.schema spec (some c)) = step at hdev
  intro hmigrated happlied herrors
  -- The diff is not empty and destruction is allowed, so the resource is migrated.
  have hone : ∃ a, report.applied = [a] ∧ report.errors = [] := by
    cases hdev with
    | skipped hempty => rw [hempty] at hpending; cases hpending
    | refused _ _ _ hallow => cases hallow
    | failed _ _ _ herror => exact absurd rfl herror
    | applied a _ _ _ => exact ⟨a, happlied, herrors⟩
  obtain ⟨a, happlied, herrors⟩ := hone
  obtain ⟨names, hinner⟩ := syncInner_reclaim noTables luck c h
  obtain ⟨t, hseed⟩ := seedSingleRows_ok luck h.idents { s with schema := step.1 }
  -- One migration and no error is what the caller counts.
  have hout : ∃ out, syncOutcome names report = .ok out ∧ out.applied = 1 := by
    unfold syncOutcome
    rw [herrors, happlied]
    exact ⟨_, rfl, rfl⟩
  obtain ⟨out, hout, hcount⟩ := hout
  have hsync : (syncInner (some (dt.name, c))).exec noTables luck s = (.ok out, t) := by
    rw [hinner]
    refine (exec_bind_ok (a := .ok report) (t := { s with schema := step.1 }) ?_).trans ?_
    · rw [exec_sql]
      simp only [TenantDb.serve, hmigrated]
    refine (exec_bind_ok (a := report) (exec_lift _ _)).trans ?_
    refine (exec_bind_ok hseed).trans ?_
    rw [exec_lift, hout]
  -- A count above zero is the only check that is left.
  refine ⟨t, ?_⟩
  unfold reclaim
  refine (exec_bind_ok hsync).trans ?_
  rw [if_neg (by rw [hcount]; decide)]
  rfl

/-! ### Orphans and reclaims -/

/-- A reclaim of `c` that succeeds had a column to reclaim: it was applied, no field and no engine
field declares it, and it is gone from the history and from the table. -/
def ReclaimSound (s : TenantDb) (dt : DocTypeDef) (spec : ResourceSpec) (c : String) : Prop :=
  ∀ engine luck s', (reclaim dt.name c).exec engine luck s = (.ok (), s') →
    (fieldKey c ∈ (applied s.schema spec).objects ∧ c ∉ dt.fields.map (·.fieldname) ∧
      fieldKey c ∉ (declared spec).objects) ∧
    fieldKey c ∉ (applied s'.schema spec).objects ∧ fieldKey c ∉ s'.schema.live dt.name

/-- A reclaim of `c` has nothing to do: the resource is the platform's, or nothing is pending. -/
def NothingToReclaim (s : TenantDb) (spec : ResourceSpec) (c : String) : Prop :=
  spec.app = platformApp ∨
    (diff (applied s.schema spec) (wanted s.schema spec (some c))).isEmpty = true

/-- The column that is reclaimed goes. -/
theorem reclaimed_gone (h : Deployed s dt spec) (hc : isIdent c = true)
    (hin : fieldKey c ∈ (applied s.schema spec).objects)
    (hno : fieldKey c ∉ (declared spec).objects) :
    fieldKey c ∉ (wanted s.schema spec (some c)).objects ∧
    fieldKey c ∉ ((diff (applied s.schema spec) (wanted s.schema spec (some c))).statements
      spec.name).foldl Stmt.apply s.schema.live spec.name := by
  have hbase : fieldBase c = c := fieldBase_of_not_mem (not_mem_of_isIdent hc)
  have hwanted : fieldKey c ∉ (wanted s.schema spec (some c)).objects := by
    rw [mem_wanted h.versioned h.closed h.restorable, not_or]
    refine ⟨hno, ?_⟩
    rintro ⟨o, ho, hkind, _, hne⟩
    have hname := (kind_of_fieldKey ((applied s.schema spec).keyed _ o ho)).2
    rw [hname, hbase] at hne
    exact hne rfl
  refine ⟨hwanted, ?_⟩
  obtain ⟨o, ho, hkind, hname⟩ := object_of_fieldKey hin
  refine not_mem_foldl_of_remove .field c (fun o' ho' hkey => ?_) ?_ _
  · -- what is defined is wanted
    rcases mem_statements.mp ho' with ⟨o'', hdefines, heq⟩ | ⟨_, _, _, heq⟩
    · obtain rfl := Stmt.define.inj heq
      have hget : (wanted s.schema spec (some c)).objects[o'.key]? = some o' := by
        rcases hdefines with hcreate | halter
        · exact (mem_creates.mp hcreate).1
        · exact (mem_alters.mp halter).1
      refine hwanted ?_
      rw [show fieldKey c = o'.key from hkey.symm, Std.ExtTreeMap.mem_iff_isSome_getElem?, hget]
      rfl
    · cases heq
  · refine mem_statements.mpr (.inr ⟨⟨.field, c⟩, ?_, by simp, rfl⟩)
    refine (mem_drops_wanted h.versioned h.closed h.restorable).mpr
      ⟨o, ho, ?_, ?_, fun _ => .inr ?_⟩
    · rw [hkind, hname]
    · rw [key_of_field hkind, hname]
      exact hno
    · rw [hname, hbase]

/-- The success of a reclaim means what it says exactly when there is such a column, or nothing to
do. -/
theorem reclaimSound_iff (h : Deployed s dt spec) (hc : isIdent c = true) :
    ReclaimSound s dt spec c ↔
      (fieldKey c ∈ (applied s.schema spec).objects ∧ c ∉ dt.fields.map (·.fieldname) ∧
        fieldKey c ∉ (declared spec).objects) ∨ NothingToReclaim s spec c := by
  constructor
  · intro hsound
    -- Where something is pending, a reclaim without faults returns, and must then be right.
    by_cases hidle : NothingToReclaim s spec c
    · exact .inr hidle
    · unfold NothingToReclaim at hidle
      rw [not_or, Bool.not_eq_true] at hidle
      obtain ⟨s', hrun⟩ := reclaim_ok h clear_noFaults hidle.1 hidle.2
      exact .inl (hsound _ _ _ hrun).1
  · -- A reclaim that returns was not of the platform, and had something to do.
    intro hcond engine luck s' hrun
    obtain ⟨happ, hpending, hschema⟩ := reclaim_inv h hrun
    rcases hcond with hcolumn | hidle
    · obtain ⟨hwanted, hlive⟩ := reclaimed_gone h hc hcolumn.1 hcolumn.2.2
      refine ⟨hcolumn, ?_, ?_⟩
      · unfold applied
        rw [hschema, ScopeDb.head_commit_self]
        exact hwanted
      · have hcommit := (congrArg ScopeDb.live hschema).trans
          (ScopeDb.commit_live s.schema spec.key _ spec.name .up)
        rw [h.name] at hcommit hlive
        unfold applied at hlive
        rw [hcommit]
        exact hlive
    · rcases hidle with hplatform | hempty
      · exact absurd hplatform happ
      · rw [hempty] at hpending
        cases hpending

/-- For every applied schema and every DocType with a complete text: a sync drops no column, and is
not refused, exactly when each applied column whose base is declared is declared itself; a reclaim
drops its column and nothing else exactly when nothing else is missing; and its success means what
it says exactly when there is such a column, or nothing pending at all. -/
theorem orphans_iff (h : Deployed s dt spec) :
    (Unblocked s.schema spec ↔ DeclaredWhole s.schema spec) ∧
    ∀ c, isIdent c = true →
      (DropsExactly s.schema spec c ↔ OnlyColumn s.schema spec c) ∧
      (ReclaimSound s dt spec c ↔
        (fieldKey c ∈ (applied s.schema spec).objects ∧ c ∉ dt.fields.map (·.fieldname) ∧
          fieldKey c ∉ (declared spec).objects) ∨ NothingToReclaim s spec c) :=
  ⟨unblocked_iff h.versioned h.closed h.restorable, fun _ hc =>
    ⟨dropsExactly_iff h.versioned h.closed h.restorable hc, reclaimSound_iff h hc⟩⟩

end

/-! ### Bills -/

/-- A resource declares the objects that its DocType compiles to. -/
theorem key_declared_iff {dt : DocTypeDef} {targets : List String} {spec : ResourceSpec}
    {ds : List Ddl} (h : doctypeSpecIn dt targets = .ok spec) (hoptions : QuotableOptions dt)
    (hds : doctypeDdlIn dt targets = .ok ds) (o : SchemaObject) :
    o.key ∈ (declared spec).objects ↔ (o.kind, o.name) ∈ ds.map (Ddl.ident dt.name) := by
  obtain ⟨sql, hsql, h⟩ := bind_eq_ok h
  cases h
  unfold doctypeDdlText at hsql
  rw [hds] at hsql
  cases hsql
  have hbut := cleanBut_of_compiled hds
  have hobjects := (fromSql_of_clean hbut.table fun d hd =>
    hbut.clean d hd (quotable_of_options hds hoptions d hd)).2
  have hkey (d : Ddl) : (d.object dt.name).key = o.key ↔ d.ident dt.name = (o.kind, o.name) := by
    constructor
    · intro hkey
      exact Prod.ext (SchemaObject.key_inj hkey).1 (SchemaObject.key_inj hkey).2
    · intro hident
      show d.kind.keyword ++ ":" ++ d.objectName dt.name = o.kind.keyword ++ ":" ++ o.name
      rw [show d.kind = o.kind from congrArg Prod.fst hident,
        show d.objectName dt.name = o.name from congrArg Prod.snd hident]
  unfold declared
  rw [hobjects, mem_insertAll]
  simp only [List.mem_map, exists_exists_and_eq_and, hkey]

/-- The columns that an ordinary DocType declares: the engine's, those of its fields, and the
elements of its lists. -/
theorem fieldKey_declared_iff {dt : DocTypeDef} {targets : List String} {spec : ResourceSpec}
    (h : doctypeSpecIn dt targets = .ok spec) (hoptions : QuotableOptions dt)
    (htarget : dt.name ∉ targets) (f : String) :
    fieldKey f ∈ (declared spec).objects ↔
      f ∈ engineNames dt ∨ ∃ g ∈ dt.fields, (ObjectKind.field, f) ∈ g.idents := by
  obtain ⟨_, hsql, _⟩ := bind_eq_ok h
  obtain ⟨ds, hds, _⟩ := bind_eq_ok hsql
  rw [← key_of_field (o := ⟨.field, f, ""⟩) rfl, key_declared_iff h hoptions hds]
  obtain ⟨_, fs, aggs, hfs, haggs, rfl⟩ := doctypeDdlIn_ordinary hds htarget
  rw [List.map_append, List.map_append, List.mem_append, List.mem_append, fieldDdls_ident hfs,
    List.mem_flatMap]
  constructor
  · rintro ((hframe | hfield) | hcounter)
    · rcases mem_ident_frameDdls hframe with htable | ⟨name, hname, heq⟩ | ⟨name, _, heq⟩
      · cases htable
      · rw [show f = name from congrArg Prod.snd heq]
        exact .inl hname
      · cases congrArg Prod.fst heq
    · exact .inr hfield
    · obtain ⟨d, hd, heq⟩ := List.mem_map.mp hcounter
      obtain ⟨_, _, _, rfl⟩ := mem_counters haggs d hd
      cases congrArg Prod.fst heq
  · rintro (hengine | hfield)
    · exact .inl (.inl (mem_engineNames hengine))
    · exact .inl (.inr hfield)

/-- A bill with these fields. -/
def bill (fields : List FieldDef) : DocTypeDef where
  name := "bill"
  fields := fields

/-- Its resource. -/
def billSpec (fields : List FieldDef) : ResourceSpec :=
  match doctypeSpecIn (bill fields) [] with
  | .ok spec => spec
  | .error _ => ⟨"", "", "", []⟩

/-- A database where bills had some fields and now have others. -/
def bills (before after : List FieldDef) : TenantDb where
  doctypes := [("bill", { fields := after.map fun f => { field := f } })]
  schema := ⟨[⟨"app__bill", 1, declared (billSpec before), .up⟩], fun _ => ∅⟩

theorem defs_bills (before after : List FieldDef) :
    (bills before after).defs = [bill after] := by
  show [DocTypeDef.mk "bill" none false false
    ((after.map fun f => (⟨f, none, none⟩ : StoredField)).map (·.field)) []] = _
  rw [List.map_map]
  exact congrArg (fun fields => [bill fields]) (List.map_id after)

theorem billSpec_of {fields : List FieldDef}
    (h : (doctypeSpecIn (bill fields) []).toOption.isSome = true) :
    doctypeSpecIn (bill fields) [] = .ok (billSpec fields) ∧
      (billSpec fields).app = "app" ∧ (billSpec fields).key = "app__bill" := by
  unfold billSpec
  cases hspec : doctypeSpecIn (bill fields) [] with
  | error e =>
      rw [hspec] at h
      cases h
  | ok spec =>
      obtain ⟨sql, _, hsql⟩ := bind_eq_ok hspec
      cases hsql
      exact ⟨rfl, rfl, rfl⟩

section

variable {before after : List FieldDef}
  (hbefore : (doctypeSpecIn (bill before) []).toOption.isSome = true)
  (hafter : (doctypeSpecIn (bill after) []).toOption.isSome = true)
include hafter

theorem applied_bills :
    applied (bills before after).schema (billSpec after) = declared (billSpec before) := by
  unfold applied
  rw [(billSpec_of hafter).2.2]
  rfl

include hbefore

theorem deployed_bills (hqbefore : QuotableOptions (bill before))
    (hqafter : QuotableOptions (bill after)) :
    Deployed (bills before after) (bill after) (billSpec after) := by
  refine ⟨?_, ?_, ?_, ?_, closed_compiled (billSpec_of hafter).1 hqafter, ?_, ?_⟩
  · rw [defs_bills]
    exact List.nodup_singleton _
  · rw [defs_bills]
    intro d hd
    rw [List.mem_singleton.mp hd]
    exact (by decide : isIdent "bill" = true)
  · rw [defs_bills]
    exact List.mem_singleton_self _
  · rw [defs_bills]
    exact (billSpec_of hafter).1
  · intro name
    by_cases hname : "app__bill" = name
    · subst hname
      rfl
    · have hnone : (bills before after).schema.rowsOf name = [] :=
        List.filter_cons_of_neg (by simpa using hname)
      rw [hnone]
      rfl
  · rw [applied_bills hafter]
    exact restorable_fromSql (closed_compiled (billSpec_of hbefore).1 hqbefore) _

end

/-- A note on a bill. -/
def memo : FieldDef := { fieldname := "memo", fieldtype := "Data" }

/-- Bills lose a note: it stays, and a reclaim drops it. -/
theorem orphans_iff_memo : Unblocked (bills [memo] []).schema (billSpec []) ∧
    DropsExactly (bills [memo] []).schema (billSpec []) "memo" ∧
    ReclaimSound (bills [memo] []) (bill []) (billSpec []) "memo" := by
  have hbefore : (doctypeSpecIn (bill [memo]) []).toOption.isSome = true := by decide
  have hafter : (doctypeSpecIn (bill []) []).toOption.isSome = true := by decide
  have hqbefore : QuotableOptions (bill [memo]) := by decide
  have hqafter : QuotableOptions (bill []) := by decide
  have hdeployed := deployed_bills hbefore hafter hqbefore hqafter
  -- Before and after, the objects of the table are read off its statements.
  have hwas (o : SchemaObject) : o.key ∈ (applied (bills [memo] []).schema (billSpec [])).objects ↔
      (o.kind, o.name) ∈ [(ObjectKind.table, "bill"), (.field, "owner"), (.field, "status"),
        (.event, "identity_guard"), (.field, "memo")] := by
    rw [applied_bills hafter]
    exact key_declared_iff (billSpec_of hbefore).1 hqbefore rfl o
  have his (o : SchemaObject) : o.key ∈ (declared (billSpec [])).objects ↔
      (o.kind, o.name) ∈ [(ObjectKind.table, "bill"), (.field, "owner"), (.field, "status"),
        (.event, "identity_guard")] :=
    key_declared_iff (billSpec_of hafter).1 hqafter rfl o
  have hfwas (f : String) : fieldKey f ∈ (applied (bills [memo] []).schema (billSpec [])).objects ↔
      f = "owner" ∨ f = "status" ∨ f = "memo" := by
    have h := hwas ⟨.field, f, ""⟩
    rw [key_of_field rfl] at h
    simpa using h
  have hfis (f : String) : fieldKey f ∈ (declared (billSpec [])).objects ↔
      f = "owner" ∨ f = "status" := by
    have h := his ⟨.field, f, ""⟩
    rw [key_of_field rfl] at h
    simpa using h
  have hbase : fieldBase "memo" = "memo" ∧ fieldBase "owner" = "owner" ∧
      fieldBase "status" = "status" := by decide
  obtain ⟨hsync, hreclaim⟩ := orphans_iff hdeployed
  obtain ⟨hdrops, hsound⟩ := hreclaim "memo" (by decide)
  -- The memo is the only column that was and is not, and has no other object.
  refine ⟨hsync.mpr fun f hf hdeclared => ?_,
    hdrops.mpr ⟨fun f hf hmemo => ?_, fun f hf hne _ => ?_, fun k o ho hkind => ?_⟩,
    hsound.mpr (.inl ⟨(hfwas _).mpr (by simp), by decide, ?_⟩)⟩
  · rcases (hfwas f).mp hf with rfl | rfl | rfl
    · exact (hfis _).mpr (.inl rfl)
    · exact (hfis _).mpr (.inr rfl)
    · rw [hbase.1] at hdeclared
      exact hdeclared
  · rw [hfis]
    rintro (rfl | rfl)
    · rw [hbase.2.1] at hmemo
      exact absurd hmemo (by decide)
    · rw [hbase.2.2] at hmemo
      exact absurd hmemo (by decide)
  · rcases (hfwas f).mp hf with rfl | rfl | rfl
    · exact (hfis _).mpr (.inl rfl)
    · exact (hfis _).mpr (.inr rfl)
    · exact absurd hbase.1 hne
  · have hkey := (applied (bills [memo] []).schema (billSpec [])).keyed k o ho
    subst hkey
    have hin := (hwas o).mp (by rw [Std.ExtTreeMap.mem_iff_isSome_getElem?, ho]; rfl)
    rw [his]
    simp only [List.mem_cons, Prod.mk.injEq, List.not_mem_nil, or_false] at hin ⊢
    rcases hin with h | h | h | h | h
    · exact .inl h
    · exact absurd h.1 hkind
    · exact absurd h.1 hkind
    · exact .inr (.inr (.inr h))
    · exact absurd h.1 hkind
  · rw [hfis]
    decide

/-- The lines of a bill. -/
def lines (fieldtype : String) : FieldDef := { fieldname := "lines", fieldtype := fieldtype }

/-- Bills keep their lines as a text: the elements of the list are not declared and not carried,
so that a sync would drop them and is refused, and the reclaim of a column that never was succeeds
and drops them. -/
theorem not_orphans :
    Deployed (bills [lines "Table"] [lines "Data"]) (bill [lines "Data"])
      (billSpec [lines "Data"]) ∧
    ¬ Unblocked (bills [lines "Table"] [lines "Data"]).schema (billSpec [lines "Data"]) ∧
    ¬ DropsExactly (bills [lines "Table"] [lines "Data"]).schema (billSpec [lines "Data"])
      "ghost" ∧
    ¬ ReclaimSound (bills [lines "Table"] [lines "Data"]) (bill [lines "Data"])
      (billSpec [lines "Data"]) "ghost" := by
  have hbefore : (doctypeSpecIn (bill [lines "Table"]) []).toOption.isSome = true := by decide
  have hafter : (doctypeSpecIn (bill [lines "Data"]) []).toOption.isSome = true := by decide
  have hqbefore : QuotableOptions (bill [lines "Table"]) := by decide
  have hqafter : QuotableOptions (bill [lines "Data"]) := by decide
  have hdeployed := deployed_bills hbefore hafter hqbefore hqafter
  have hwas := fieldKey_declared_iff (billSpec_of hbefore).1 hqbefore List.not_mem_nil
  have his := fieldKey_declared_iff (billSpec_of hafter).1 hqafter List.not_mem_nil
  rw [← applied_bills hafter] at hwas
  -- the elements were there, the list still is, and the elements are declared no longer
  have helements : fieldKey "lines.*" ∈
      (applied (bills [lines "Table"] [lines "Data"]).schema (billSpec [lines "Data"])).objects :=
    (hwas _).mpr (by decide)
  have hlist : fieldKey (fieldBase "lines.*") ∈ (declared (billSpec [lines "Data"])).objects :=
    (his _).mpr (by decide)
  have hgone : fieldKey "lines.*" ∉ (declared (billSpec [lines "Data"])).objects := by
    rw [his]
    decide
  have hghost : fieldKey "ghost" ∉ (applied (bills [lines "Table"] [lines "Data"]).schema
      (billSpec [lines "Data"])).objects := by
    rw [hwas]
    decide
  have hv := hdeployed.versioned
  have hclosed := hdeployed.closed
  have hold := hdeployed.restorable
  refine ⟨hdeployed, fun h => ?_, fun h => ?_, fun h => ?_⟩
  · exact hgone ((unblocked_iff hv hclosed hold).mp h _ helements hlist)
  · have honly := (dropsExactly_iff hv hclosed hold (by decide)).mp h
    exact hgone (honly.others _ helements (by decide) hlist)
  · rcases (reclaimSound_iff hdeployed (by decide)).mp h with hcolumn | happ | hempty
    · exact hghost hcolumn.1
    · rw [(billSpec_of hafter).2.1] at happ
      exact absurd happ (by decide)
    · have hsame := isEmpty_diff_iff.mp hempty
      rw [hsame, mem_wanted hv hclosed hold] at helements
      rcases helements with hdeclared | ⟨o, ho, _, hno, _⟩
      · exact hgone hdeclared
      · rw [(kind_of_fieldKey ((applied _ _).keyed _ o ho)).2] at hno
        exact hno hlist

end Frust.Kernel.Orphans
