import Frust.Kernel.Row
import Frust.Kernel.Surql

/-!
# `Frust.Proofs.Kernel.Row`: reading a column back

What a column holds after a field is written into a row (`col_putField`) and after
`MERGE` (`col_mergeRow`), and what a document holds after fields are written over it
(`lookup_setField`).
-/

set_option autoImplicit false

namespace Frust.Kernel

/-! ### Writing over a document -/

theorem lookup_cons_eq {β : Type} (k k₀ : String) (v : β) (rest : List (String × β)) :
    List.lookup k ((k₀, v) :: rest) = if k = k₀ then some v else rest.lookup k := by
  rw [List.lookup_cons]
  by_cases h : k = k₀
  · rw [if_pos h, beq_iff_eq.mpr h]
  · rw [if_neg h, beq_false_of_ne h]

/-- Where keys are unique, an entry is found by its key. -/
theorem lookup_of_mem {β : Type} {entries : List (String × β)}
    (hnodup : (entries.map (·.1)).Nodup) {e : String × β} (he : e ∈ entries) :
    entries.lookup e.1 = some e.2 := by
  induction entries with
  | nil => exact absurd he List.not_mem_nil
  | cons e₀ rest ih =>
      obtain ⟨k₀, v₀⟩ := e₀
      rw [List.map_cons, List.nodup_cons] at hnodup
      rw [lookup_cons_eq]
      rcases List.mem_cons.mp he with rfl | hrest
      · rw [if_pos rfl]
      · have hmem : e.1 ∈ rest.map (·.1) := List.mem_map_of_mem hrest
        have hne : e.1 ≠ k₀ := fun h => hnodup.1 (h ▸ hmem)
        rw [if_neg hne]
        exact ih hnodup.2 hrest

theorem mem_of_lookup {β : Type} {entries : List (String × β)} {k : String} {v : β}
    (h : entries.lookup k = some v) : (k, v) ∈ entries := by
  induction entries with
  | nil => cases h
  | cons e rest ih =>
      obtain ⟨k₀, v₀⟩ := e
      rw [lookup_cons_eq] at h
      split at h
      · rename_i hk
        cases h
        subst hk
        exact List.mem_cons_self
      · exact List.mem_cons_of_mem _ (ih h)

/-- A change of entries that keeps the keys. -/
theorem lookup_map_keyed {β : Type} {f : String × β → String × β} (hf : ∀ e, (f e).1 = e.1)
    (entries : List (String × β)) (k : String) :
    (entries.map f).lookup k = (entries.lookup k).map fun v => (f (k, v)).2 := by
  induction entries with
  | nil => rfl
  | cons e rest ih =>
      obtain ⟨k₀, v₀⟩ := e
      have hentry : f (k₀, v₀) = (k₀, (f (k₀, v₀)).2) := Prod.ext (hf _) rfl
      rw [List.map_cons, hentry, lookup_cons_eq, lookup_cons_eq, ih]
      by_cases h : k = k₀
      · rw [if_pos h, if_pos h, h]
        rfl
      · rw [if_neg h, if_neg h]

theorem keys_map_keyed {β : Type} {f : String × β → String × β} (hf : ∀ e, (f e).1 = e.1)
    (entries : List (String × β)) : (entries.map f).map (·.1) = entries.map (·.1) := by
  rw [List.map_map]
  exact List.map_congr_left fun e _ => hf e

theorem lookup_map_snd {β γ : Type} (f : β → γ) (entries : List (String × β)) (k : String) :
    (entries.map fun e => (e.1, f e.2)).lookup k = (entries.lookup k).map f := by
  induction entries with
  | nil => rfl
  | cons e rest ih =>
      rw [List.map_cons, List.lookup_cons, List.lookup_cons]
      split
      · rfl
      · exact ih

@[simp] theorem lookup_setField (k : String) (v : Value) (d : Doc) (k' : String) :
    (setField k v d).lookup k' = if k' = k then some v else d.lookup k' := by
  induction d with
  | nil => simp only [setField, lookup_cons_eq]
  | cons e rest ih =>
      obtain ⟨k₀, v₀⟩ := e
      simp only [setField]
      split
      · rename_i h₀
        subst h₀
        simp only [lookup_cons_eq]
        split <;> rfl
      · rename_i h₀
        simp only [lookup_cons_eq, ih]
        by_cases h : k' = k₀
        · subst h
          simp [h₀]
        · simp [h]

/-- After fields were written over a document, a field is one of them or the document's. -/
theorem mem_or_of_lookup_overlay {doc : Doc} {k : String} {v : Value} : ∀ {base : Doc},
    (overlay base doc).lookup k = some v → (k, v) ∈ doc ∨ base.lookup k = some v := by
  induction doc with
  | nil => exact fun h => Or.inr h
  | cons e rest ih =>
      intro base h
      rcases @ih (setField e.1 e.2 base) h with hrest | hbase
      · exact Or.inl (List.mem_cons_of_mem _ hrest)
      · rw [lookup_setField] at hbase
        split at hbase
        · rename_i hk
          cases hbase
          subst hk
          exact Or.inl List.mem_cons_self
        · exact Or.inr hbase

/-- A field of an object literal is one of its entries. -/
theorem mem_of_lookup_objectOf {entries : Doc} {k : String} {v : Value}
    (h : (objectOf entries).lookup k = some v) : (k, v) ∈ entries := by
  rcases mem_or_of_lookup_overlay h with hmem | hnil
  · exact hmem
  · cases hnil

theorem keys_setField (k : String) (v : Value) (d : Doc) :
    (setField k v d).map (·.1) = if k ∈ d.map (·.1) then d.map (·.1) else d.map (·.1) ++ [k] := by
  induction d with
  | nil => simp [setField]
  | cons e rest ih =>
      obtain ⟨k₀, v₀⟩ := e
      simp only [setField]
      by_cases h₀ : k₀ = k
      · simp [h₀]
      · have h₀' : ¬k = k₀ := fun h => h₀ h.symm
        simp only [h₀, if_false, List.map_cons, ih, List.mem_cons, h₀', false_or]
        split <;> simp

/-- Writing fields leaves one field for each key. -/
theorem nodup_overlay (doc : Doc) : ∀ base : Doc, (base.map (·.1)).Nodup →
    ((overlay base doc).map (·.1)).Nodup := by
  induction doc with
  | nil => exact fun base h => h
  | cons e rest ih =>
      intro base h
      refine ih _ ?_
      rw [keys_setField]
      split
      · exact h
      · rename_i hk
        refine List.nodup_append.mpr ⟨h, by simp, ?_⟩
        intro a ha b hb hab
        rw [List.mem_singleton.mp hb] at hab
        exact hk (hab ▸ ha)

theorem nodup_objectOf (entries : Doc) : ((objectOf entries).map (·.1)).Nodup :=
  nodup_overlay entries [] (by simp)

/-! ### Storing -/

theorem lookup_filter {β : Type} (P : String → Bool) (row : List (String × β)) (k : String) :
    (row.filter fun e => P e.1).lookup k = if P k then row.lookup k else none := by
  induction row with
  | nil => simp
  | cons e rest ih =>
      obtain ⟨k₀, v₀⟩ := e
      rw [List.filter_cons]
      by_cases hk : k = k₀
      · subst hk
        split
        · rw [lookup_cons_eq, lookup_cons_eq]
          simp
        · rename_i hP
          rw [ih, if_neg hP]
      · rw [lookup_cons_eq, if_neg hk, ← ih]
        split
        · rw [lookup_cons_eq, if_neg hk]
        · rfl

/-- A column that was stored. -/
@[simp] theorem col_putField (k : String) (v : Value) (row : Doc) (k' : String) :
    col (putField k v row) k' = if k' = k then v else col row k' := by
  cases v with
  | null =>
      simp only [col, putField, lookup_filter fun k' => decide (k' ≠ k)]
      by_cases h : k' = k <;> simp [h]
  | _ =>
      simp only [col, putField, lookup_setField]
      split <;> simp

theorem setField_of_lookup {k : String} {v : Value} {row : Doc} (h : row.lookup k = some v) :
    setField k v row = row := by
  induction row with
  | nil => cases h
  | cons e rest ih =>
      obtain ⟨k', v'⟩ := e
      rw [lookup_cons_eq] at h
      unfold setField
      by_cases hk : k' = k
      · subst hk
        rw [if_pos rfl] at h ⊢
        cases h
        rfl
      · rw [if_neg fun heq => hk heq.symm] at h
        rw [if_neg hk, ih h]

theorem lookup_of_col {k : String} {v : Value} {row : Doc} (h : col row k = v) (hv : v ≠ .null) :
    row.lookup k = some v := by
  unfold col at h
  cases hlookup : row.lookup k with
  | none =>
      rw [hlookup] at h
      exact absurd h.symm hv
  | some w =>
      rw [hlookup] at h
      exact congrArg some h

theorem putField_col {k : String} {row : Doc} (h : row.lookup k ≠ some .null) :
    putField k (col row k) row = row := by
  by_cases hnull : col row k = .null
  · have hnone : row.lookup k = none := by
      unfold col at hnull
      cases hlookup : row.lookup k with
      | none => rfl
      | some v =>
          rw [hlookup] at hnull
          exact absurd (hlookup.trans (congrArg some hnull)) h
    rw [hnull]
    show row.filter (·.1 ≠ k) = row
    refine List.filter_eq_self.mpr fun e he => decide_eq_true fun hk => ?_
    have hall := List.lookup_eq_none_iff.mp hnone e he
    simp [hk] at hall
  · have hput : ∀ v, v ≠ .null → putField k v row = setField k v row := by
      intro v hv
      cases v <;> first | exact absurd rfl hv | rfl
    rw [hput _ hnull]
    exact setField_of_lookup (lookup_of_col rfl hnull)

theorem lookup_putField_ne_null (k : String) (v : Value) (row : Doc) :
    (putField k v row).lookup k ≠ some .null := by
  cases v with
  | null =>
      simp only [putField, lookup_filter fun k' => decide (k' ≠ k)]
      simp
  | _ => simp [putField]

/-! ### `MERGE` -/

theorem col_mergeFields (fields : Doc) (hnodup : (fields.map (·.1)).Nodup) (k : String) :
    ∀ row : Doc, col (mergeFields row fields) k =
      match fields.lookup k with
      | none => col row k
      | some v => mergeValue (col row k) v := by
  induction fields with
  | nil => intro row; simp [mergeFields]
  | cons e rest ih =>
      obtain ⟨k₀, v₀⟩ := e
      intro row
      rw [List.map_cons, List.nodup_cons] at hnodup
      rw [mergeFields, ih hnodup.2, lookup_cons_eq]
      by_cases h : k = k₀
      · -- the rest does not write this field again
        subst h
        have hrest : rest.lookup k = none := by
          rw [List.lookup_eq_none_iff]
          intro e he
          have hmem : e.1 ∈ rest.map (·.1) := List.mem_map_of_mem he
          have hne : k ≠ e.1 := fun h => hnodup.1 (h ▸ hmem)
          simpa using hne
        simp [hrest]
      · simp [h]

/-- A column after `MERGE`: merged with what is written, or as it was. -/
theorem col_mergeRow (row content : Doc) (k : String) :
    col (mergeRow row content) k =
      match (objectOf content).lookup k with
      | none => col row k
      | some v => mergeValue (col row k) v :=
  col_mergeFields _ (nodup_objectOf content) k row

/-- Over anything but an object, `MERGE` replaces. -/
theorem mergeValue_of_not_object {old : Value} (h : ∀ fields, old ≠ .object fields)
    (v : Value) : mergeValue old v = v := by
  cases v with
  | object fields =>
      cases old with
      | object row => exact absurd rfl (h row)
      | _ => rfl
  | _ => rfl

theorem col_newRow (content : Doc) (k : String) :
    col (newRow content) k = col (objectOf content) k := by
  have hnil : col [] k = .null := rfl
  have hmerge : ∀ v, mergeValue .null v = v := mergeValue_of_not_object (by simp)
  rw [newRow, col_mergeRow, hnil]
  cases hw : (objectOf content).lookup k with
  | none => simp [col, hw]
  | some v => simp [col, hw, hmerge]

/-! ### Record ids -/

/-- A record id that can be written into a query. -/
def Renders (id : String) : Prop := ∃ text, renderValue (.recordId id) = .ok text

end Frust.Kernel
