import Frust.Proofs.Orm.Schema

/-!
# `Frust.Proofs.Orm.Classify`: the entries of a classification

`classifyDiff` folds over the objects of two snapshots. Its entries are those that each object
adds, in their order (`classifyDiff_entries`): an object of the new snapshot adds one entry if it
is a field with another definition, and never a drop; an object of the old one adds one if it is a
field that the new one lacks.
-/

set_option autoImplicit false

namespace Frust.Orm

/-- Some field is defined otherwise, or in one of the two only. -/
def ChangesField (old new : SchemaSnapshot) : Prop :=
  ∃ name, old.defineAt ("field:" ++ name) ≠ new.defineAt ("field:" ++ name)

/-! ### What an object adds -/

/-- The entries that an object of the new snapshot adds. -/
def newEntries (tableIsNew : Bool) (old : SchemaSnapshot) (entry : String × SchemaObject) :
    List FieldChangeEntry := (classifyNew tableIsNew old {} entry).entries

/-- The entries that an object of the old snapshot adds. -/
def oldEntries (new : SchemaSnapshot) (entry : String × SchemaObject) : List FieldChangeEntry :=
  (classifyOld new {} entry).entries

section

variable {old new : SchemaSnapshot} {tableIsNew : Bool} {r : FieldChangeReport}
  {entry : String × SchemaObject}

theorem classifyNew_entries :
    (classifyNew tableIsNew old r entry).entries = r.entries ++ newEntries tableIsNew old entry := by
  obtain ⟨key, obj⟩ := entry
  unfold newEntries classifyNew
  dsimp only
  split
  · exact (List.append_nil _).symm
  · split
    · split <;> rfl
    · split
      · exact (List.append_nil _).symm
      · split <;> rfl

theorem classifyOld_entries :
    (classifyOld new r entry).entries = r.entries ++ oldEntries new entry := by
  obtain ⟨key, obj⟩ := entry
  unfold oldEntries classifyOld
  dsimp only
  split
  · exact (List.append_nil _).symm
  · split
    · exact (List.append_nil _).symm
    · split <;> rfl

theorem foldl_entries {f : FieldChangeReport → String × SchemaObject → FieldChangeReport}
    {g : String × SchemaObject → List FieldChangeEntry}
    (hf : ∀ r entry, (f r entry).entries = r.entries ++ g entry)
    (l : List (String × SchemaObject)) (r : FieldChangeReport) :
    (l.foldl f r).entries = r.entries ++ l.flatMap g := by
  induction l generalizing r with
  | nil => exact (List.append_nil _).symm
  | cons entry l ih => rw [List.foldl_cons, ih, hf, List.flatMap_cons, List.append_assoc]

theorem classifyDiff_entries (old new : SchemaSnapshot) :
    (classifyDiff old new).entries
      = new.objects.toList.flatMap
          (newEntries (!old.objects.toList.any fun e => e.2.kind = .table) old)
        ++ old.objects.toList.flatMap (oldEntries new) := by
  unfold classifyDiff
  dsimp only
  rw [foldl_entries (g := oldEntries new) fun _ _ => classifyOld_entries,
    foldl_entries (g := newEntries _ old) fun _ _ => classifyNew_entries]
  rfl

/-- A change between two definitions is no drop. -/
theorem classifyModify_change (o n : FieldSnapshot) : (classifyModify o n).change ≠ .dropped := by
  unfold classifyModify
  dsimp only
  repeat' split
  all_goals simp

theorem classifyAdded_change (n : FieldSnapshot) :
    (classifyAdded tableIsNew n).change ≠ .dropped := by
  unfold classifyAdded classifyFieldChange
  dsimp only
  repeat' split
  all_goals simp

/-- An object of the new snapshot adds no drop. -/
theorem change_of_mem_newEntries {e : FieldChangeEntry} (he : e ∈ newEntries tableIsNew old entry) :
    e.change ≠ .dropped := by
  obtain ⟨key, obj⟩ := entry
  unfold newEntries classifyNew at he
  dsimp only at he
  split at he
  · cases he
  · split at he
    · split at he <;> obtain rfl := List.mem_singleton.mp he
      · exact classifyAdded_change _
      · simp
    · split at he
      · cases he
      · split at he <;> obtain rfl := List.mem_singleton.mp he
        · exact classifyModify_change _ _
        · simp

/-- It adds none exactly when it is no field, or is defined as before. -/
theorem newEntries_eq_nil {key : String} {obj : SchemaObject} :
    newEntries tableIsNew old (key, obj) = [] ↔
      obj.kind ≠ .field ∨ old.defineAt key = some obj.defineSql := by
  unfold newEntries classifyNew SchemaSnapshot.defineAt
  dsimp only
  split
  · rename_i hkind
    exact ⟨fun _ => Or.inl hkind, fun _ => rfl⟩
  · rename_i hkind
    cases hold : old.objects[key]? with
    | none =>
        dsimp only
        split <;> simp [FieldChangeReport.push, FieldChangeReport.pushConservative, hkind]
    | some prev =>
        dsimp only
        split
        · rename_i hsame
          simp [hsame]
        · rename_i hsame
          split <;> simp [FieldChangeReport.push, FieldChangeReport.pushConservative, hkind, hsame]

/-- An object of the old snapshot adds none exactly when it is no field, or is still there. -/
theorem oldEntries_eq_nil {key : String} {obj : SchemaObject} :
    oldEntries new (key, obj) = [] ↔ obj.kind ≠ .field ∨ key ∈ new.objects := by
  unfold oldEntries classifyOld
  dsimp only
  split
  · rename_i hkind
    exact ⟨fun _ => Or.inl hkind, fun _ => rfl⟩
  · split
    · rename_i hkey
      exact ⟨fun _ => Or.inr hkey, fun _ => rfl⟩
    · rename_i hkind hkey
      split <;> simp [FieldChangeReport.push, FieldChangeReport.pushConservative, hkind, hkey]

theorem SchemaSnapshot.key_of_field {s : SchemaSnapshot} {key : String} {obj : SchemaObject}
    (h : s.objects[key]? = some obj) (hkind : obj.kind = .field) : key = "field:" ++ obj.name := by
  rw [← s.keyed key obj h]
  unfold SchemaObject.key
  rw [hkind]
  rfl

/-- What stands under the name of a field is a field. -/
theorem SchemaSnapshot.kind_of_key {s : SchemaSnapshot} {name : String} {obj : SchemaObject}
    (h : s.objects["field:" ++ name]? = some obj) : obj.kind = .field := by
  have hkey : obj.key = (SchemaObject.mk .field name "").key := s.keyed _ obj h
  exact (SchemaObject.key_inj hkey).1

theorem not_changesField_of_objects (h : old.objects = new.objects) : ¬ ChangesField old new := by
  rintro ⟨name, hne⟩
  unfold SchemaSnapshot.defineAt at hne
  rw [h] at hne
  exact hne rfl

/-- No destructive change is no drop of a field. -/
theorem destructive_eq_nil {d : SchemaDiff} :
    d.destructive = [] ↔ ∀ o ∈ d.drops, o.kind ≠ .field := by
  unfold SchemaDiff.destructive
  rw [List.map_eq_nil_iff, List.filter_eq_nil_iff]
  simp

/-- Without a change of a field there is no entry and no destructive change. -/
theorem entries_of_not_changesField (h : ¬ ChangesField old new) :
    (classifyDiff old new).entries = [] ∧ (diff old new).destructive = [] := by
  unfold ChangesField at h
  push Not at h
  -- A field of the new snapshot is as in the old one, and no old one is gone.
  have hnew : ∀ key obj, new.objects[key]? = some obj → obj.kind = .field →
      old.defineAt key = some obj.defineSql := by
    intro key obj hobj hkind
    obtain rfl := SchemaSnapshot.key_of_field hobj hkind
    rw [h obj.name]
    unfold SchemaSnapshot.defineAt
    rw [hobj]
    rfl
  have hold : ∀ key obj, old.objects[key]? = some obj → obj.kind = .field →
      key ∈ new.objects := by
    intro key obj hobj hkind
    obtain rfl := SchemaSnapshot.key_of_field hobj hkind
    by_contra hnone
    have hsame := h obj.name
    unfold SchemaSnapshot.defineAt at hsame
    rw [hobj, Std.ExtTreeMap.getElem?_eq_none hnone] at hsame
    cases hsame
  refine ⟨?_, ?_⟩
  · rw [classifyDiff_entries, List.append_eq_nil_iff, List.flatMap_eq_nil_iff,
      List.flatMap_eq_nil_iff]
    refine ⟨fun ⟨key, obj⟩ hmem => newEntries_eq_nil.mpr ?_,
      fun ⟨key, obj⟩ hmem => oldEntries_eq_nil.mpr ?_⟩
    · by_cases hkind : obj.kind = .field
      · exact Or.inr (hnew key obj (Std.ExtTreeMap.mem_toList_iff_getElem?_eq_some.mp hmem) hkind)
      · exact Or.inl hkind
    · by_cases hkind : obj.kind = .field
      · exact Or.inr (hold key obj (Std.ExtTreeMap.mem_toList_iff_getElem?_eq_some.mp hmem) hkind)
      · exact Or.inl hkind
  · refine destructive_eq_nil.mpr fun d hd hkind => ?_
    obtain ⟨key, obj, hobj, hnone, rfl⟩ := mem_drops.mp hd
    have hmem := hold key obj hobj hkind
    rw [Std.ExtTreeMap.getElem?_eq_some_getElem hmem] at hnone
    cases hnone

/-- A change of a field adds an entry that is no drop, or is a destructive change. -/
theorem entry_of_changesField (h : ChangesField old new) :
    (∃ e ∈ (classifyDiff old new).entries, e.change ≠ .dropped) ∨
      (diff old new).destructive ≠ [] := by
  obtain ⟨name, hne⟩ := h
  cases hnew : new.objects["field:" ++ name]? with
  | some obj =>
      left
      -- A field that is there now was not there, or was defined otherwise.
      have hentries : newEntries (!old.objects.toList.any fun e => e.2.kind = .table) old
          ("field:" ++ name, obj) ≠ [] := by
        rw [ne_eq, newEntries_eq_nil, not_or, not_not]
        refine ⟨SchemaSnapshot.kind_of_key hnew, fun hsame => hne ?_⟩
        rw [hsame]
        unfold SchemaSnapshot.defineAt
        rw [hnew]
        rfl
      obtain ⟨e, he⟩ := List.exists_mem_of_ne_nil _ hentries
      refine ⟨e, ?_, change_of_mem_newEntries he⟩
      rw [classifyDiff_entries]
      exact List.mem_append_left _ (List.mem_flatMap.mpr
        ⟨_, Std.ExtTreeMap.mem_toList_iff_getElem?_eq_some.mpr hnew, he⟩)
  | none =>
      right
      cases hold : old.objects["field:" ++ name]? with
      | none =>
          unfold SchemaSnapshot.defineAt at hne
          rw [hnew, hold] at hne
          exact absurd rfl hne
      | some obj =>
          -- A field that is gone is a destructive change.
          have hdrop := mem_drops.mpr ⟨_, obj, hold, hnew, rfl⟩
          exact fun hnone =>
            destructive_eq_nil.mp hnone _ hdrop (SchemaSnapshot.kind_of_key hold)

/-- Without destructive changes no entry is a drop. -/
theorem change_of_not_destructive (h : (diff old new).destructive = []) {e : FieldChangeEntry}
    (he : e ∈ (classifyDiff old new).entries) : e.change ≠ .dropped := by
  rw [classifyDiff_entries, List.mem_append, List.mem_flatMap, List.mem_flatMap] at he
  rcases he with ⟨_, _, he⟩ | ⟨⟨key, obj⟩, hmem, he⟩
  · exact change_of_mem_newEntries he
  · exfalso
    have hold := Std.ExtTreeMap.mem_toList_iff_getElem?_eq_some.mp hmem
    have hsome := List.ne_nil_of_mem he
    rw [ne_eq, oldEntries_eq_nil, not_or, not_not] at hsome
    have hdrop := mem_drops.mpr
      ⟨key, obj, hold, Std.ExtTreeMap.getElem?_eq_none hsome.2, rfl⟩
    exact destructive_eq_nil.mp h _ hdrop hsome.1

end

end Frust.Orm
