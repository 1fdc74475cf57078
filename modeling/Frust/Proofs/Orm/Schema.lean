import Frust.Lib.Edits
import Frust.Orm.Migrator

/-!
# `Frust.Proofs.Orm.Schema`: what a diff does

`key_inj`: an object's key determines its kind and its name, because the four
key prefixes have one length. So a snapshot is determined by its table and the
definition at each key, and `isEmpty_diff_iff` follows: the diff of two snapshots
is empty exactly when they have the same objects.

`statements_foldl_self`: take a live schema whose non-table objects on `table`
are those of `old`. The statements of `diff old new` leave the non-table objects
of `new` there. `statements_foldl_ne`: every other table stays as it was. The
order in which `statements` sorts does not enter; the argument is
`Frust.Lib.Turns`.
-/

set_option autoImplicit false

namespace Frust.Orm

open Frust.Lib

/-! ### Keys -/

/-- The four key prefixes have five characters each. -/
theorem ObjectKind.length_keyword (k : ObjectKind) : k.keyword.toList.length = 5 := by
  cases k <;> rfl

/-- The key prefix determines the kind. -/
theorem ObjectKind.keyword_inj {a b : ObjectKind} (h : a.keyword = b.keyword) : a = b := by
  cases a <;> cases b <;> first | rfl | exact absurd h (by decide)

/-- A key determines the kind and the name. -/
theorem SchemaObject.key_inj {a b : SchemaObject} (h : a.key = b.key) :
    a.kind = b.kind ∧ a.name = b.name := by
  have hl : a.kind.keyword.toList ++ (":" ++ a.name).toList
      = b.kind.keyword.toList ++ (":" ++ b.name).toList := by
    have := congrArg String.toList h
    simpa [SchemaObject.key, String.toList_append, List.append_assoc] using this
  have hsplit := List.append_inj hl
    (by rw [ObjectKind.length_keyword, ObjectKind.length_keyword])
  refine ⟨ObjectKind.keyword_inj (String.toList_inj.mp hsplit.1), ?_⟩
  have hname := hsplit.2
  simp only [String.toList_append] at hname
  exact String.toList_inj.mp (List.append_cancel_left hname)

/-- Two objects under one key with one definition are equal. -/
theorem SchemaObject.eq_of_key {a b : SchemaObject} (hkey : a.key = b.key)
    (hsql : a.defineSql = b.defineSql) : a = b := by
  obtain ⟨hkind, hname⟩ := key_inj hkey
  cases a
  cases b
  simp_all

namespace SchemaSnapshot

/-- The definition a snapshot holds at a key. -/
def defineAt (s : SchemaSnapshot) (k : String) : Option String :=
  s.objects[k]?.map (·.defineSql)

@[simp] theorem defineAt_default (k : String) : defineAt default k = none := by
  simp [defineAt, default]

/-- Objects with equal definitions at each key are equal. -/
theorem objects_eq_of_defineAt {a b : SchemaSnapshot} (h : ∀ k, a.defineAt k = b.defineAt k) :
    a.objects = b.objects := by
  refine Std.ExtTreeMap.ext_getElem? fun k => ?_
  have hk := h k
  simp only [defineAt] at hk
  cases ha : a.objects[k]? with
  | none =>
      rw [ha] at hk
      cases hb : b.objects[k]? with
      | none => rfl
      | some o => rw [hb] at hk; exact absurd hk (by simp)
  | some o =>
      rw [ha] at hk
      cases hb : b.objects[k]? with
      | none => rw [hb] at hk; exact absurd hk (by simp)
      | some o' =>
          rw [hb] at hk
          have hsql : o.defineSql = o'.defineSql := by simpa using hk
          have hkey : o.key = o'.key := (a.keyed k o ha).trans (b.keyed k o' hb).symm
          rw [SchemaObject.eq_of_key hkey hsql]

@[simp] theorem addStatement_table (s : SchemaSnapshot) (raw : String) :
    (s.addStatement raw).table = s.table := by
  simp only [addStatement]
  split
  · rfl
  · split <;> rfl

/-- A parsed snapshot is about the table it was parsed for. -/
@[simp] theorem fromSql_table (table sql : String) : (fromSql table sql).table = table := by
  have hfold : ∀ (stmts : List String) (s : SchemaSnapshot),
      (stmts.foldl addStatement s).table = s.table := by
    intro stmts
    induction stmts with
    | nil => intro s; rfl
    | cons raw rest ih => intro s; rw [List.foldl_cons, ih, addStatement_table]
  exact hfold _ _

end SchemaSnapshot

/-! ### The parts of a diff -/

variable {old new : SchemaSnapshot}

/-- An object is created exactly when the new snapshot has it and the old one
has nothing under its key. -/
theorem mem_creates {o : SchemaObject} :
    o ∈ (diff old new).creates ↔ new.objects[o.key]? = some o ∧ old.objects[o.key]? = none := by
  simp only [diff, List.mem_filterMap, Prod.exists]
  constructor
  · rintro ⟨k, o', hmem, hres⟩
    have hnew := Std.ExtTreeMap.mem_toList_iff_getElem?_eq_some.mp hmem
    split at hres
    · rename_i hold
      cases hres
      rw [new.keyed k o hnew]
      exact ⟨hnew, hold⟩
    · exact absurd hres (by simp)
  · rintro ⟨hnew, hold⟩
    exact ⟨o.key, o, Std.ExtTreeMap.mem_toList_iff_getElem?_eq_some.mpr hnew, by rw [hold]⟩

/-- An object is altered exactly when both snapshots have its key, with two
definitions. -/
theorem mem_alters {o : SchemaObject} :
    o ∈ (diff old new).alters ↔ new.objects[o.key]? = some o ∧
      ∃ prev, old.objects[o.key]? = some prev ∧ prev.defineSql ≠ o.defineSql := by
  simp only [diff, List.mem_filterMap, Prod.exists]
  constructor
  · rintro ⟨k, o', hmem, hres⟩
    have hnew := Std.ExtTreeMap.mem_toList_iff_getElem?_eq_some.mp hmem
    split at hres
    · exact absurd hres (by simp)
    · rename_i prev hold
      split at hres
      · exact absurd hres (by simp)
      · rename_i hne
        cases hres
        rw [new.keyed k o hnew]
        exact ⟨hnew, prev, hold, hne⟩
  · rintro ⟨hnew, prev, hold, hne⟩
    exact ⟨o.key, o, Std.ExtTreeMap.mem_toList_iff_getElem?_eq_some.mpr hnew, by simp [hold, hne]⟩

/-- An object is dropped exactly when the old snapshot has it and the new one
has nothing under its key. -/
theorem mem_drops {d : DroppedObject} :
    d ∈ (diff old new).drops ↔ ∃ (k : String) (o : SchemaObject),
      old.objects[k]? = some o ∧ new.objects[k]? = none ∧ d = ⟨o.kind, o.name⟩ := by
  simp only [diff, List.mem_filterMap, Prod.exists]
  constructor
  · rintro ⟨k, o, hmem, hres⟩
    have hold := Std.ExtTreeMap.mem_toList_iff_getElem?_eq_some.mp hmem
    split at hres
    · exact absurd hres (by simp)
    · rename_i hk
      exact ⟨k, o, hold, Std.ExtTreeMap.getElem?_eq_none hk, by simpa using hres.symm⟩
  · rintro ⟨k, o, hold, hnone, rfl⟩
    refine ⟨k, o, Std.ExtTreeMap.mem_toList_iff_getElem?_eq_some.mpr hold, ?_⟩
    have hk : k ∉ new.objects := fun hk => by
      rw [Std.ExtTreeMap.getElem?_eq_some_getElem hk] at hnone
      exact absurd hnone (by simp)
    rw [if_neg hk]

/-- The diff is empty exactly when the two snapshots have the same objects. -/
theorem isEmpty_diff_iff : (diff old new).isEmpty = true ↔ old.objects = new.objects := by
  simp only [SchemaDiff.isEmpty, Bool.and_eq_true, List.isEmpty_iff]
  constructor
  · rintro ⟨⟨hc, ha⟩, hd⟩
    -- At a key where the two differ there would be a drop, a create or an alter.
    refine SchemaSnapshot.objects_eq_of_defineAt fun k => ?_
    simp only [SchemaSnapshot.defineAt]
    cases hn : new.objects[k]? with
    | none =>
        cases ho : old.objects[k]? with
        | none => rfl
        | some o =>
            have : (⟨o.kind, o.name⟩ : DroppedObject) ∈ (diff old new).drops :=
              mem_drops.mpr ⟨k, o, ho, hn, rfl⟩
            rw [hd] at this
            exact absurd this List.not_mem_nil
    | some o =>
        have hkey := new.keyed k o hn
        subst hkey
        cases ho : old.objects[o.key]? with
        | none =>
            have : o ∈ (diff old new).creates := mem_creates.mpr ⟨hn, ho⟩
            rw [hc] at this
            exact absurd this List.not_mem_nil
        | some prev =>
            by_cases hsql : prev.defineSql = o.defineSql
            · simp [hsql]
            · have : o ∈ (diff old new).alters := mem_alters.mpr ⟨hn, prev, ho, hsql⟩
              rw [ha] at this
              exact absurd this List.not_mem_nil
  · intro h
    refine ⟨⟨?_, ?_⟩, ?_⟩
    · refine List.eq_nil_iff_forall_not_mem.mpr fun o ho => ?_
      obtain ⟨hn, ho'⟩ := mem_creates.mp ho
      rw [h, hn] at ho'
      exact absurd ho' (by simp)
    · refine List.eq_nil_iff_forall_not_mem.mpr fun o ho => ?_
      obtain ⟨hn, prev, ho', hne⟩ := mem_alters.mp ho
      rw [h, hn] at ho'
      cases ho'
      exact hne rfl
    · refine List.eq_nil_iff_forall_not_mem.mpr fun d hd => ?_
      obtain ⟨k, o, ho, hn, _⟩ := mem_drops.mp hd
      rw [h, hn] at ho
      exact absurd ho (by simp)

/-! ### The statements of a diff -/

/-- Every object of the snapshot is defined on the snapshot's own table. -/
def SchemaSnapshot.Own (s : SchemaSnapshot) : Prop :=
  ∀ (k : String) (o : SchemaObject), s.objects[k]? = some o → o.target = some s.table

instance (s : SchemaSnapshot) : Decidable s.Own :=
  decidable_of_iff (∀ e ∈ s.objects.toList, e.2.target = some s.table) <| by
    simp only [SchemaSnapshot.Own, Prod.forall, Std.ExtTreeMap.mem_toList_iff_getElem?_eq_some]

/-- The key belongs to an object that is not a table. -/
def NonTable (k : String) : Prop := ∀ name, k ≠ ObjectKind.table.keyword ++ ":" ++ name

/-- The edit a statement makes on its own table. -/
def Stmt.edit : Stmt → Edit String String
  | .define o => .put o.key o.defineSql
  | .remove kind name _ => .del (kind.keyword ++ ":" ++ name)

/-- The statement edits the table `t`. -/
def Stmt.On (t : String) : Stmt → Prop
  | .define o => o.target = some t
  | .remove _ _ t' => t' = t

/-- A table's live objects, as a partial map. -/
def LiveSchema.at (live : LiveSchema) (t : String) : String → Option String :=
  fun k => (live t)[k]?

theorem Stmt.apply_self {t : String} {s : Stmt} (h : s.On t) (live : LiveSchema) :
    LiveSchema.at (s.apply live) t = Edit.apply (live.at t) s.edit := by
  funext k
  cases s with
  | define o =>
      have ht : o.target = some t := h
      simp only [apply, ht, LiveSchema.at, Function.update_self, edit, Edit.apply, Edit.key,
        Edit.value, Function.update_apply, Std.ExtTreeMap.getElem?_insert,
        Std.LawfulEqCmp.compare_eq_iff_eq]
      by_cases hk : o.key = k
      · simp [hk]
      · simp [hk, Ne.symm hk]
  | remove kind name t' =>
      have ht : t' = t := h
      subst ht
      simp only [apply, LiveSchema.at, Function.update_self, edit, Edit.apply, Edit.key,
        Edit.value, Function.update_apply, Std.ExtTreeMap.getElem?_erase,
        Std.LawfulEqCmp.compare_eq_iff_eq]
      by_cases hk : kind.keyword ++ ":" ++ name = k
      · simp [hk]
      · simp [hk, Ne.symm hk]

/-- A statement on `t` leaves every other table as it was. -/
theorem Stmt.apply_ne {t t' : String} {s : Stmt} (h : s.On t) (hne : t' ≠ t)
    (live : LiveSchema) : s.apply live t' = live t' := by
  cases s with
  | define o =>
      have ht : o.target = some t := h
      simp [apply, ht, hne]
  | remove kind name t'' =>
      have ht : t'' = t := h
      simp [apply, ht, hne]

/-- Statements on `t` edit `t` one after the other. -/
theorem foldl_apply_self {t : String} (stmts : List Stmt) (h : ∀ s ∈ stmts, s.On t)
    (live : LiveSchema) :
    LiveSchema.at (stmts.foldl Stmt.apply live) t
      = (stmts.map Stmt.edit).foldl Edit.apply (live.at t) := by
  induction stmts generalizing live with
  | nil => rfl
  | cons s rest ih =>
      rw [List.foldl_cons, List.map_cons, List.foldl_cons,
        ih (fun s' hs' => h s' (List.mem_cons_of_mem _ hs')),
        Stmt.apply_self (h s List.mem_cons_self)]

/-- Statements on `t` leave every other table as it was. -/
theorem foldl_apply_ne {t t' : String} (stmts : List Stmt) (h : ∀ s ∈ stmts, s.On t)
    (hne : t' ≠ t) (live : LiveSchema) : stmts.foldl Stmt.apply live t' = live t' := by
  induction stmts generalizing live with
  | nil => rfl
  | cons s rest ih =>
      rw [List.foldl_cons, ih (fun s' hs' => h s' (List.mem_cons_of_mem _ hs')),
        Stmt.apply_ne (h s List.mem_cons_self) hne]

/-- The statements of a diff: the definition of each created or altered object,
and the removal of each dropped object that is not a table. -/
theorem mem_statements {d : SchemaDiff} {t : String} {s : Stmt} :
    s ∈ d.statements t ↔
      (∃ o, (o ∈ d.creates ∨ o ∈ d.alters) ∧ s = .define o) ∨
      (∃ x ∈ d.drops, x.kind ≠ .table ∧ s = .remove x.kind x.name t) := by
  simp only [SchemaDiff.statements, List.mem_append, List.mem_map, List.mem_insertionSort,
    List.mem_filterMap]
  constructor
  · rintro (⟨o, ho, rfl⟩ | ⟨x, hx, hs⟩)
    · exact Or.inl ⟨o, ho, rfl⟩
    · refine Or.inr ⟨x, hx, ?_⟩
      simp only [SchemaDiff.dropStatement] at hs
      split at hs <;> simp_all
  · rintro (⟨o, ho, rfl⟩ | ⟨x, hx, hkind, rfl⟩)
    · exact Or.inl ⟨o, ho, rfl⟩
    · refine Or.inr ⟨x, hx, ?_⟩
      simp only [SchemaDiff.dropStatement]
      split <;> simp_all

/-- The statements of a diff edit the diff's own table, when the new snapshot
defines its own objects. -/
theorem statements_on (hnew : new.Own) {t : String} (ht : new.table = t) :
    ∀ s ∈ (diff old new).statements t, s.On t := by
  intro s hs
  rcases mem_statements.mp hs with ⟨o, ho, rfl⟩ | ⟨x, _, _, rfl⟩
  · have hget : new.objects[o.key]? = some o := by
      rcases ho with ho | ho
      · exact (mem_creates.mp ho).1
      · exact (mem_alters.mp ho).1
    exact ht ▸ hnew o.key o hget
  · rfl

/-- The statements of `diff old new` turn the non-table objects of `old` into
those of `new`. -/
theorem statements_turns (t : String) :
    Turns (((diff old new).statements t).map Stmt.edit) old.defineAt new.defineAt NonTable where
  value e he hon := by
    obtain ⟨s, hs, rfl⟩ := List.mem_map.mp he
    -- A statement defines an object as the new snapshot has it, or removes one that it has not.
    rcases mem_statements.mp hs with ⟨o, ho, rfl⟩ | ⟨x, hx, _, rfl⟩
    · have hget : new.objects[o.key]? = some o := by
        rcases ho with ho | ho
        · exact (mem_creates.mp ho).1
        · exact (mem_alters.mp ho).1
      simp [Stmt.edit, Edit.value, Edit.key, SchemaSnapshot.defineAt, hget]
    · obtain ⟨k, o, hold, hnone, rfl⟩ := mem_drops.mp hx
      have hkey : o.kind.keyword ++ ":" ++ o.name = k := old.keyed k o hold
      simp [Stmt.edit, Edit.value, Edit.key, SchemaSnapshot.defineAt, hkey, hnone]
  covers k hk hne := by
    simp only [SchemaSnapshot.defineAt] at hne
    -- Where the two differ, the object is new, changed or gone.
    cases hn : new.objects[k]? with
    | some o =>
        have hkey := new.keyed k o hn
        subst hkey
        have hin : o ∈ (diff old new).creates ∨ o ∈ (diff old new).alters := by
          cases ho : old.objects[o.key]? with
          | none => exact Or.inl (mem_creates.mpr ⟨hn, ho⟩)
          | some prev =>
              refine Or.inr (mem_alters.mpr ⟨hn, prev, ho, fun hsql => hne ?_⟩)
              simp [ho, hn, hsql]
        exact ⟨_, List.mem_map_of_mem (mem_statements.mpr (Or.inl ⟨o, hin, rfl⟩)), rfl⟩
    | none =>
        cases ho : old.objects[k]? with
        | none => rw [hn, ho] at hne; exact absurd rfl hne
        | some o =>
            have hkey : o.kind.keyword ++ ":" ++ o.name = k := old.keyed k o ho
            have hkind : o.kind ≠ .table := fun h => hk o.name (by rw [← hkey, h])
            have hdrop : (⟨o.kind, o.name⟩ : DroppedObject) ∈ (diff old new).drops :=
              mem_drops.mpr ⟨k, o, ho, hn, rfl⟩
            exact ⟨_, List.mem_map_of_mem
              (mem_statements.mpr (Or.inr ⟨_, hdrop, hkind, rfl⟩)), hkey⟩

/-- A table whose non-table objects are those of `old` has those of `new` after
the statements of `diff old new`. -/
theorem statements_foldl_self (hnew : new.Own) (live : LiveSchema)
    (hlive : ∀ k, NonTable k → live.at new.table k = old.defineAt k) (k : String)
    (hk : NonTable k) :
    LiveSchema.at (((diff old new).statements new.table).foldl Stmt.apply live) new.table k
      = new.defineAt k := by
  rw [foldl_apply_self _ (statements_on hnew rfl)]
  exact (statements_turns new.table).foldl _ hlive k hk

/-- The statements of `diff old new` leave every other table as it was. -/
theorem statements_foldl_ne (hnew : new.Own) (live : LiveSchema) {t : String}
    (hne : t ≠ new.table) :
    ((diff old new).statements new.table).foldl Stmt.apply live t = live t :=
  foldl_apply_ne _ (statements_on hnew rfl) hne live

/-- What is not there, and not defined, does not come. -/
theorem not_mem_foldl {stmts : List Stmt} {k : String}
    (hput : ∀ o, Stmt.define o ∈ stmts → o.key ≠ k) {live : LiveSchema} {t : String}
    (hlive : k ∉ live t) : k ∉ stmts.foldl Stmt.apply live t := by
  induction stmts generalizing live with
  | nil => exact hlive
  | cons s rest ih =>
      rw [List.foldl_cons]
      refine ih (fun o ho => hput o (List.mem_cons_of_mem _ ho)) ?_
      cases s with
      | define o =>
          have hne := hput o List.mem_cons_self
          cases htarget : o.target with
          | none => simpa [Stmt.apply, htarget] using hlive
          | some t' =>
              simp only [Stmt.apply, htarget]
              rw [Function.update_apply]
              split
              · rename_i ht
                subst ht
                simp [hne, hlive]
              · exact hlive
      | remove kind name t' =>
          simp only [Stmt.apply]
          rw [Function.update_apply]
          split
          · rename_i ht
            subst ht
            simp [hlive]
          · exact hlive

/-- What is removed, and not defined, is gone. -/
theorem not_mem_foldl_of_remove {stmts : List Stmt} (kind : ObjectKind) (name : String) {t : String}
    (hput : ∀ o, Stmt.define o ∈ stmts → o.key ≠ kind.keyword ++ ":" ++ name)
    (hremove : Stmt.remove kind name t ∈ stmts) (live : LiveSchema) :
    kind.keyword ++ ":" ++ name ∉ stmts.foldl Stmt.apply live t := by
  induction stmts generalizing live with
  | nil => cases hremove
  | cons s rest ih =>
      have hrest : ∀ o, Stmt.define o ∈ rest → o.key ≠ kind.keyword ++ ":" ++ name :=
        fun o ho => hput o (List.mem_cons_of_mem _ ho)
      rw [List.foldl_cons]
      rcases List.mem_cons.mp hremove with rfl | hremove
      · refine not_mem_foldl hrest ?_
        simp [Stmt.apply]
      · exact ih hrest hremove _

end Frust.Orm
