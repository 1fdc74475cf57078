import Frust.Proofs.Orm.Gate

/-!
# `Frust.Proofs.Orm.Once`: every changed field is gated once

The entries of a classification are the changed fields of the diff, each once (`entries_perm`). An
entry of a surviving field is counted by the severity gate, and an entry of a dropped one is left to
`allow_destructive`, if its definition parses. One that does not parse is counted as well
(`gatedOnce_iff`).
-/

set_option autoImplicit false

namespace Frust.Orm

/-- The names of the fields among the creates, alters and drops. -/
def SchemaDiff.changedFields (d : SchemaDiff) : List String :=
  ((d.creates.filter (·.kind = .field)).map (·.name)
      ++ (d.alters.filter (·.kind = .field)).map (·.name))
    ++ (d.drops.filter (·.kind = .field)).map (·.name)

/-- The field of an entry still exists. -/
def Survives (new : SchemaSnapshot) (e : FieldChangeEntry) : Prop :=
  "field:" ++ e.field ∈ new.objects

instance (new : SchemaSnapshot) (e : FieldChangeEntry) : Decidable (Survives new e) :=
  inferInstanceAs (Decidable (_ ∈ _))

/-- Every field change is classified once, and gated once. -/
structure GatedOnce (old new : SchemaSnapshot) : Prop where
  /-- The entries are the changed fields. -/
  entries : ((classifyDiff old new).entries.map (·.field)).Perm (diff old new).changedFields
  distinct : (diff old new).changedFields.Nodup
  /-- An entry counts exactly when its field survives. -/
  counted : ∀ e ∈ (classifyDiff old new).entries, e.change ≠ .dropped ↔ Survives new e
  summary : ∀ c, (classifyDiff old new).nonDropSummary.count c
    = (classifyDiff old new).entries.countP fun e => decide (Survives new e) && decide (e.cls = c)
  /-- `allow_destructive` is asked about the entries whose field does not. -/
  destructive : (diff old new).destructive
    = ((classifyDiff old new).entries.filter fun e => ¬ Survives new e).map fun e =>
        "REMOVE FIELD " ++ e.field
  /-- The severity gate refuses because of surviving fields only. -/
  severity : ∀ env acknowledge,
    (classificationRefusal env acknowledge (classifyDiff old new)).isSome = true ↔
      env.isStrict = true ∧ acknowledge = false ∧ ∃ e ∈ (classifyDiff old new).entries,
        Survives new e ∧ (e.cls = .needsBackfill ∨ e.cls = .blocked)

section

variable {old new : SchemaSnapshot} {tableIsNew : Bool}

/-! ### Entries and changed fields -/

/-- The names of the fields of a part of a diff, object by object. -/
theorem names_filterMap {α : Type} (g : α → Option SchemaObject) (l : List α) :
    ((l.filterMap g).filter (·.kind = .field)).map (·.name)
      = l.flatMap fun x => ((g x).toList.filter (·.kind = .field)).map (·.name) := by
  induction l with
  | nil => rfl
  | cons x l ih =>
      rw [List.flatMap_cons, ← ih]
      cases hx : g x with
      | none => rw [List.filterMap_cons_none hx]; rfl
      | some o =>
          rw [List.filterMap_cons_some hx, Option.toList_some, List.filter_cons, List.filter_cons]
          split <;> rfl

/-- What an object of the new snapshot adds to the creates. -/
def created (old : SchemaSnapshot) (entry : String × SchemaObject) : Option SchemaObject :=
  match old.objects[entry.1]? with
  | none => some entry.2
  | some _ => none

/-- What it adds to the alters. -/
def altered (old : SchemaSnapshot) (entry : String × SchemaObject) : Option SchemaObject :=
  match old.objects[entry.1]? with
  | none => none
  | some prev => if prev.defineSql = entry.2.defineSql then none else some entry.2

/-- The entries of an object are those of a create and of an alter. -/
theorem map_newEntries (entry : String × SchemaObject) :
    (newEntries tableIsNew old entry).map (·.field)
      = ((created old entry).toList.filter (·.kind = .field)).map (·.name)
        ++ ((altered old entry).toList.filter (·.kind = .field)).map (·.name) := by
  obtain ⟨key, obj⟩ := entry
  unfold newEntries classifyNew created altered
  dsimp only
  -- The two parses decide how a changed field is classed. Its entry has the name of the object
  -- in every case, and what is no field, or has not changed, has none.
  by_cases hkind : obj.kind = .field
  · cases hold : old.objects[key]? with
    | none =>
        dsimp only
        cases parseField obj <;>
          simp [hkind, FieldChangeReport.push, FieldChangeReport.pushConservative]
    | some prev =>
        dsimp only
        by_cases hsame : prev.defineSql = obj.defineSql
        · simp [hkind, hsame]
        · cases parseField prev <;> cases parseField obj <;>
            simp [hkind, hsame, FieldChangeReport.push, FieldChangeReport.pushConservative]
  · cases hold : old.objects[key]? with
    | none => simp [hkind]
    | some prev =>
        by_cases hsame : prev.defineSql = obj.defineSql <;> simp [hkind, hsame]

/-- What an object of the old snapshot adds to the drops. -/
theorem map_oldEntries (entry : String × SchemaObject) :
    (oldEntries new entry).map (·.field)
      = if entry.2.kind = .field ∧ entry.1 ∉ new.objects then [entry.2.name] else [] := by
  obtain ⟨key, obj⟩ := entry
  unfold oldEntries classifyOld
  dsimp only
  by_cases hkind : obj.kind = .field
  · by_cases hkey : key ∈ new.objects
    · simp [hkind, hkey]
    · -- The entry of a dropped field has its name, parsed or not.
      cases parseField obj <;>
        simp [hkind, hkey, FieldChangeReport.push, FieldChangeReport.pushConservative]
  · simp [hkind]

/-- The dropped fields are those of the entries of the old snapshot. -/
theorem names_drops (old new : SchemaSnapshot) :
    ((diff old new).drops.filter (·.kind = .field)).map (·.name)
      = (old.objects.toList.flatMap (oldEntries new)).map (·.field) := by
  rw [List.map_flatMap]
  simp only [map_oldEntries, diff]
  induction old.objects.toList with
  | nil => rfl
  | cons entry l ih =>
      obtain ⟨key, obj⟩ := entry
      rw [List.flatMap_cons, ← ih, List.filterMap_cons]
      by_cases hkey : key ∈ new.objects
      · simp [hkey]
      · by_cases hkind : obj.kind = .field <;> simp [hkey, hkind]

/-- The entries are the changed fields, each once. -/
theorem entries_perm (old new : SchemaSnapshot) :
    ((classifyDiff old new).entries.map (·.field)).Perm (diff old new).changedFields := by
  have hcreates : (diff old new).creates = new.objects.toList.filterMap (created old) := rfl
  have halters : (diff old new).alters = new.objects.toList.filterMap (altered old) := rfl
  rw [classifyDiff_entries, List.map_append, List.map_flatMap]
  unfold SchemaDiff.changedFields
  rw [names_drops, hcreates, halters, names_filterMap, names_filterMap]
  -- The classifier goes object by object, a create or an alter at each. The diff lists all creates
  -- and then all alters.
  refine List.Perm.append_right _ ?_
  simp only [map_newEntries]
  exact (List.flatMap_append_perm _ _ _).symm

/-! ### Where an entry comes from -/

/-- An entry of the new snapshot is about a field of it. -/
theorem survives_of_mem_newEntries {entry : String × SchemaObject}
    (hentry : entry ∈ new.objects.toList) {e : FieldChangeEntry}
    (he : e ∈ newEntries tableIsNew old entry) :
    entry.1 = "field:" ++ e.field ∧ Survives new e := by
  have hobject := Std.ExtTreeMap.mem_toList_iff_getElem?_eq_some.mp hentry
  have hname : e.field ∈ (newEntries tableIsNew old entry).map (·.field) := List.mem_map_of_mem he
  -- In whichever of the two lists the name is, it is the name of the entry's own object.
  have hown : ∀ o : Option SchemaObject, (∀ x ∈ o, x = entry.2) →
      e.field ∈ (o.toList.filter (·.kind = .field)).map (·.name) →
      entry.2.kind = .field ∧ entry.2.name = e.field := by
    intro o ho hmem
    obtain ⟨x, hx, hxname⟩ := List.mem_map.mp hmem
    obtain ⟨hx, hxkind⟩ := List.mem_filter.mp hx
    obtain rfl := ho x (Option.mem_toList.mp hx)
    exact ⟨of_decide_eq_true hxkind, hxname⟩
  have hfield : entry.2.kind = .field ∧ entry.2.name = e.field := by
    rw [map_newEntries] at hname
    rcases List.mem_append.mp hname with h | h
    · refine hown _ (fun x hx => ?_) h
      unfold created at hx
      split at hx
      · exact (Option.some.inj hx).symm
      · cases hx
    · refine hown _ (fun x hx => ?_) h
      unfold altered at hx
      split at hx
      · cases hx
      · split at hx
        · cases hx
        · exact (Option.some.inj hx).symm
  -- The key of a field object is made of its name.
  have hkey : entry.1 = "field:" ++ e.field := by
    rw [← hfield.2]
    exact SchemaSnapshot.key_of_field hobject hfield.1
  refine ⟨hkey, ?_⟩
  unfold Survives
  rw [← hkey]
  exact Std.ExtTreeMap.mem_iff_isSome_getElem?.mpr (by rw [hobject]; rfl)

/-- An entry of the old snapshot is about a field that the new one lacks; it is a drop exactly when
the definition parses. -/
theorem mem_oldEntries {entry : String × SchemaObject} (hentry : entry ∈ old.objects.toList)
    {e : FieldChangeEntry} (he : e ∈ oldEntries new entry) :
    entry.1 = "field:" ++ e.field ∧ ¬ Survives new e ∧
      (e.change = .dropped ↔ (parseField entry.2).isSome = true) := by
  have hobject := Std.ExtTreeMap.mem_toList_iff_getElem?_eq_some.mp hentry
  have hname : e.field ∈ (oldEntries new entry).map (·.field) := List.mem_map_of_mem he
  rw [map_oldEntries] at hname
  split at hname
  · rename_i hdrop
    obtain ⟨hkind, hkey⟩ := hdrop
    have hfield := List.mem_singleton.mp hname
    have hentryKey : entry.1 = "field:" ++ e.field := by
      rw [hfield]
      exact SchemaSnapshot.key_of_field hobject hkind
    refine ⟨hentryKey, fun h => hkey (hentryKey ▸ h), ?_⟩
    obtain ⟨key, obj⟩ := entry
    unfold oldEntries classifyOld at he
    dsimp only at he hkind hkey ⊢
    rw [if_neg (not_not.mpr hkind), if_neg hkey] at he
    -- `push_conservative` gives the change `Conservative`, which is not `Dropped`.
    cases hparse : parseField obj with
    | none =>
        rw [hparse] at he
        rw [List.mem_singleton.mp he]
        simp
    | some o =>
        rw [hparse] at he
        rw [List.mem_singleton.mp he]
        simp [classifyFieldChange]
  · cases hname

/-- Every entry is one of the two kinds. -/
theorem mem_entries {e : FieldChangeEntry} :
    e ∈ (classifyDiff old new).entries ↔
      (∃ entry ∈ new.objects.toList,
        e ∈ newEntries (!old.objects.toList.any fun e => e.2.kind = .table) old entry) ∨
      ∃ entry ∈ old.objects.toList, e ∈ oldEntries new entry := by
  rw [classifyDiff_entries, List.mem_append, List.mem_flatMap, List.mem_flatMap]

/-- The entries of objects with distinct keys have distinct fields. -/
theorem nodup_flatMap_field {l : List (String × SchemaObject)}
    {f : String × SchemaObject → List FieldChangeEntry}
    (hkeys : l.Pairwise fun a b => ¬ compare a.1 b.1 = .eq)
    (hone : ∀ entry ∈ l, (f entry).length ≤ 1)
    (hkey : ∀ entry ∈ l, ∀ e ∈ f entry, entry.1 = "field:" ++ e.field) :
    ((l.flatMap f).map (·.field)).Nodup := by
  rw [List.map_flatMap, List.nodup_flatMap]
  refine ⟨fun entry hentry => ?_, ?_⟩
  · have hlength := hone entry hentry
    match hf : f entry with
    | [] => exact List.nodup_nil
    | [e] => exact List.nodup_singleton _
    | _ :: _ :: _ =>
        rw [hf] at hlength
        simp at hlength
  · refine List.Pairwise.imp_of_mem (fun {a b} ha hb hab => ?_) hkeys
    -- The field of an entry gives the key of its object back.
    intro name hnameA hnameB
    obtain ⟨e, he, rfl⟩ := List.mem_map.mp hnameA
    obtain ⟨e', he', hsame⟩ := List.mem_map.mp hnameB
    have hsame' : e'.field = e.field := hsame
    have hkeys' : a.1 = b.1 := by rw [hkey a ha e he, hkey b hb e' he', hsame']
    exact hab (Std.LawfulEqCmp.compare_eq_iff_eq.mpr hkeys')

/-- An object adds one entry at most. -/
theorem length_newEntries (entry : String × SchemaObject) :
    (newEntries tableIsNew old entry).length ≤ 1 := by
  obtain ⟨key, obj⟩ := entry
  unfold newEntries classifyNew
  dsimp only
  repeat' split
  all_goals simp [FieldChangeReport.push, FieldChangeReport.pushConservative]

theorem length_oldEntries (entry : String × SchemaObject) :
    (oldEntries new entry).length ≤ 1 := by
  rw [← List.length_map (f := (·.field)), map_oldEntries]
  split <;> simp

theorem nodup_changedFields (old new : SchemaSnapshot) : (diff old new).changedFields.Nodup := by
  refine (entries_perm old new).nodup_iff.mp ?_
  rw [classifyDiff_entries, List.map_append, List.nodup_append]
  refine ⟨?_, ?_, ?_⟩
  · exact nodup_flatMap_field Std.ExtTreeMap.distinct_keys_toList
      (fun entry _ => length_newEntries entry)
      fun entry hentry e he => (survives_of_mem_newEntries hentry he).1
  · exact nodup_flatMap_field Std.ExtTreeMap.distinct_keys_toList
      (fun entry _ => length_oldEntries entry)
      fun entry hentry e he => (mem_oldEntries hentry he).1
  · -- a field of the new snapshot is no field that it lacks
    intro name hname name' hname' hsame
    obtain ⟨e, he, rfl⟩ := List.mem_map.mp hname
    obtain ⟨e', he', rfl⟩ := List.mem_map.mp hname'
    obtain ⟨entry, hentry, he⟩ := List.mem_flatMap.mp he
    obtain ⟨entry', hentry', he'⟩ := List.mem_flatMap.mp he'
    have hthere := (survives_of_mem_newEntries hentry he).2
    unfold Survives at hthere
    rw [hsame] at hthere
    exact (mem_oldEntries hentry' he').2.1 hthere

/-- The entries whose field does not survive are those of the old snapshot. -/
theorem filter_gone (old new : SchemaSnapshot) :
    ((classifyDiff old new).entries.filter fun e => ¬ Survives new e)
      = old.objects.toList.flatMap (oldEntries new) := by
  rw [classifyDiff_entries, List.filter_append]
  have hnew : (new.objects.toList.flatMap (newEntries (!old.objects.toList.any fun e =>
      e.2.kind = .table) old)).filter (fun e => ¬ Survives new e) = [] := by
    refine List.filter_eq_nil_iff.mpr fun e he => ?_
    obtain ⟨entry, hentry, he⟩ := List.mem_flatMap.mp he
    simpa using (survives_of_mem_newEntries hentry he).2
  have hold : (old.objects.toList.flatMap (oldEntries new)).filter (fun e => ¬ Survives new e)
      = old.objects.toList.flatMap (oldEntries new) := by
    refine List.filter_eq_self.mpr fun e he => ?_
    obtain ⟨entry, hentry, he⟩ := List.mem_flatMap.mp he
    simpa using (mem_oldEntries hentry he).2.1
  rw [hnew, hold, List.nil_append]

/-! ### The two gates -/

/-- The severity gate refuses in a strict environment, without leave, for what was counted. -/
theorem classificationRefusal_isSome {env : Environment} {acknowledge : Bool}
    {r : FieldChangeReport} :
    (classificationRefusal env acknowledge r).isSome = true ↔ env.isStrict = true ∧
      acknowledge = false ∧ (0 < r.nonDropSummary.count .needsBackfill ∨
        0 < r.nonDropSummary.count .blocked) := by
  unfold classificationRefusal Environment.decide
  cases hworst : r.nonDropSummary.worst with
  | none =>
      have hzero := ClassSummary.worst_eq_none.mp hworst
      simp [hzero]
  | some c =>
      -- The worst class is one that the summary has counted.
      have hrisky (h : c = .needsBackfill ∨ c = .blocked) :
          0 < r.nonDropSummary.count .needsBackfill ∨ 0 < r.nonDropSummary.count .blocked := by
        unfold ClassSummary.worst at hworst
        simp only [ClassSummary.count]
        rcases h with rfl | rfl
        · split at hworst
          · cases hworst
          · split at hworst
            · omega
            · repeat' split at hworst
              all_goals cases hworst
        · split at hworst
          · omega
          · repeat' split at hworst
            all_goals cases hworst
      cases c with
      | safe => simp [ClassSummary.count_of_worst (.inl hworst)]
      | warn => simp [ClassSummary.count_of_worst (.inr hworst)]
      | needsBackfill =>
          have h := hrisky (.inl rfl)
          cases hstrict : env.isStrict <;> cases acknowledge <;> simp [h]
      | blocked =>
          have h := hrisky (.inr rfl)
          cases hstrict : env.isStrict <;> cases acknowledge <;> simp [h]

/-- A dropped field object of the old snapshot, whether or not it parses. -/
def Dropped (old new : SchemaSnapshot) (obj : SchemaObject) : Prop :=
  obj.kind = .field ∧ ∃ key, old.objects[key]? = some obj ∧ key ∉ new.objects

/-- Every field change is gated once exactly when every dropped field parses. -/
theorem gatedOnce_iff (old new : SchemaSnapshot) :
    GatedOnce old new ↔ ∀ obj, Dropped old new obj → (parseField obj).isSome = true := by
  constructor
  · rintro h obj ⟨hkind, key, hobject, hkey⟩
    -- A dropped object has an entry. Were its change not `Dropped`, the entry would count, and the
    -- field would have to survive.
    have hentry := Std.ExtTreeMap.mem_toList_iff_getElem?_eq_some.mpr hobject
    have hone : oldEntries new (key, obj) ≠ [] := by
      rw [ne_eq, oldEntries_eq_nil, not_or, not_not]
      exact ⟨hkind, hkey⟩
    obtain ⟨e, he⟩ := List.exists_mem_of_ne_nil _ hone
    obtain ⟨_, hgone, hdropped⟩ := mem_oldEntries hentry he
    have hcounted := h.counted e (mem_entries.mpr (.inr ⟨_, hentry, he⟩))
    exact hdropped.mp (not_not.mp fun hne => hgone (hcounted.mp hne))
  · intro hparse
    -- What comes from the new snapshot survives and is no drop. What comes from the old one does
    -- not, and is a drop since its definition parses.
    have hcounted : ∀ e ∈ (classifyDiff old new).entries, e.change ≠ .dropped ↔ Survives new e := by
      intro e he
      rcases mem_entries.mp he with ⟨entry, hentry, he⟩ | ⟨entry, hentry, he⟩
      · have hthere := (survives_of_mem_newEntries hentry he).2
        exact ⟨fun _ => hthere, fun _ => change_of_mem_newEntries he⟩
      · obtain ⟨hkey, hgone, hdropped⟩ := mem_oldEntries hentry he
        have hobject := Std.ExtTreeMap.mem_toList_iff_getElem?_eq_some.mp hentry
        have hkind : entry.2.kind = .field := by
          rw [hkey] at hobject
          exact SchemaSnapshot.kind_of_key hobject
        have hsome := hparse entry.2 ⟨hkind, entry.1, hobject, by rw [hkey]; exact hgone⟩
        exact ⟨fun hne => absurd (hdropped.mpr hsome) hne, fun h => absurd h hgone⟩
    have hsummary : ∀ c, (classifyDiff old new).nonDropSummary.count c
        = (classifyDiff old new).entries.countP
            fun e => decide (Survives new e) && decide (e.cls = c) := by
      intro c
      rw [count_nonDropSummary]
      refine List.countP_congr fun e he => ?_
      have hiff := hcounted e he
      simp [counts, hiff]
    refine ⟨entries_perm old new, nodup_changedFields old new, hcounted, hsummary, ?_, ?_⟩
    · -- `destructive` lists the drops, and the entries of the old snapshot are these.
      have hnames := congrArg (List.map ("REMOVE FIELD " ++ ·)) (names_drops old new)
      rw [List.map_map, List.map_map] at hnames
      rw [filter_gone]
      exact hnames
    · intro env acknowledge
      rw [classificationRefusal_isSome, hsummary, hsummary, List.countP_pos_iff,
        List.countP_pos_iff]
      constructor
      · rintro ⟨hstrict, hack, h | h⟩ <;> obtain ⟨e, he, hcls⟩ := h <;>
          simp only [Bool.and_eq_true, decide_eq_true_eq] at hcls
        · exact ⟨hstrict, hack, e, he, hcls.1, .inl hcls.2⟩
        · exact ⟨hstrict, hack, e, he, hcls.1, .inr hcls.2⟩
      · rintro ⟨hstrict, hack, e, he, hthere, hcls | hcls⟩
        · exact ⟨hstrict, hack, .inl ⟨e, he, by simp [hthere, hcls]⟩⟩
        · exact ⟨hstrict, hack, .inr ⟨e, he, by simp [hthere, hcls]⟩⟩

end

/-! ### A field without the word `TABLE` -/

/-- A `note` with a field whose definition is one, but does not parse as a field. -/
def noteWithTitle : SchemaSnapshot :=
  .fromSql "note" "DEFINE TABLE note SCHEMAFULL; DEFINE FIELD title ON note TYPE string"

/-- The `note` without it. -/
def noteAlone : SchemaSnapshot := .fromSql "note" "DEFINE TABLE note SCHEMAFULL"

/-- Dropping it is a destructive change, and the severity gate refuses it again where destructive
changes are allowed. -/
theorem not_gatedOnce_note :
    (diff noteWithTitle noteAlone).destructive = ["REMOVE FIELD title"] ∧
      (classificationRefusal .prod false (classifyDiff noteWithTitle noteAlone)).isSome = true ∧
      ¬ GatedOnce noteWithTitle noteAlone := by
  -- the two snapshots are read once
  obtain ⟨hdrop, hrefused, hgone⟩ :
      (diff noteWithTitle noteAlone).destructive = ["REMOVE FIELD title"] ∧
        (classificationRefusal .prod false (classifyDiff noteWithTitle noteAlone)).isSome = true ∧
        ∀ e ∈ (classifyDiff noteWithTitle noteAlone).entries, ¬ Survives noteAlone e := by
    decide +kernel
  refine ⟨hdrop, hrefused, fun h => ?_⟩
  obtain ⟨_, _, e, he, hthere, _⟩ := (h.severity .prod false).mp hrefused
  exact hgone e he hthere

end Frust.Orm
