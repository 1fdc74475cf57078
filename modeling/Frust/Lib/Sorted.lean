import Mathlib.Data.List.Basic
import Mathlib.Order.Lattice

/-!
# `Frust.Lib.Sorted`: entries of a map, sorted by their keys

A sorted map lists its entries by key, each key once. `collect` builds one from a list of entries,
where a later entry replaces an earlier one of its key. A list that is sorted already is kept
(`collect_of_sortedKeys`).
-/

set_option autoImplicit false

namespace Frust.Lib

variable {κ ν ν' : Type} [LinearOrder κ]

/-- Each key is larger than the one before. -/
def SortedKeys (l : List (κ × ν)) : Prop := (l.map Prod.fst).Pairwise (· < ·)

instance (l : List (κ × ν)) : Decidable (SortedKeys l) :=
  inferInstanceAs (Decidable ((l.map Prod.fst).Pairwise (· < ·)))

/-- Puts an entry in its place. -/
def insertKey (k : κ) (v : ν) : List (κ × ν) → List (κ × ν)
  | [] => [(k, v)]
  | e :: rest =>
      if k < e.1 then (k, v) :: e :: rest
      else if k = e.1 then (k, v) :: rest
      else e :: insertKey k v rest

/-- The sorted map of some entries. -/
def collect (l : List (κ × ν)) : List (κ × ν) := l.foldl (fun m e => insertKey e.1 e.2 m) []

theorem mem_keys_insertKey {k k' : κ} {v : ν} {l : List (κ × ν)}
    (h : k' ∈ (insertKey k v l).map Prod.fst) : k' = k ∨ k' ∈ l.map Prod.fst := by
  induction l with
  | nil => exact .inl (List.mem_singleton.mp h)
  | cons e l ih =>
      unfold insertKey at h
      split at h
      · exact List.mem_cons.mp h
      · split at h
        · rename_i heq
          rw [List.map_cons, List.mem_cons] at h ⊢
          exact h.imp_right .inr
        · rw [List.map_cons, List.mem_cons] at h ⊢
          rcases h with h | h
          · exact .inr (.inl h)
          · exact (ih h).imp_right .inr

theorem mem_insertKey {k : κ} {v : ν} {l : List (κ × ν)} {e : κ × ν} (h : e ∈ insertKey k v l) :
    e = (k, v) ∨ e ∈ l := by
  induction l with
  | nil => exact .inl (List.mem_singleton.mp h)
  | cons d l ih =>
      unfold insertKey at h
      split at h
      · exact List.mem_cons.mp h
      · split at h
        · exact (List.mem_cons.mp h).imp_right (List.mem_cons_of_mem _)
        · rcases List.mem_cons.mp h with rfl | h
          · exact .inr List.mem_cons_self
          · exact (ih h).imp_right (List.mem_cons_of_mem _)

theorem mem_insertKey_self (k : κ) (v : ν) (l : List (κ × ν)) : (k, v) ∈ insertKey k v l := by
  induction l with
  | nil => exact List.mem_cons_self
  | cons e l ih =>
      unfold insertKey
      split
      · exact List.mem_cons_self
      · split
        · exact List.mem_cons_self
        · exact List.mem_cons_of_mem _ ih

/-- Without the new key, the entries are what they were. -/
theorem filter_insertKey {k : κ} {v : ν} {l : List (κ × ν)} (h : k ∉ l.map Prod.fst) :
    (insertKey k v l).filter (·.1 ≠ k) = l := by
  have hkeep : l.filter (·.1 ≠ k) = l := List.filter_eq_self.mpr fun e he => by
    have hne : e.1 ≠ k := fun heq => h (heq ▸ List.mem_map_of_mem he)
    simpa using hne
  induction l with
  | nil => simp [insertKey]
  | cons e l ih =>
      rw [List.map_cons, List.mem_cons, not_or] at h
      unfold insertKey
      split
      · rw [List.filter_cons_of_neg (by simp), hkeep]
      · have hne : e.1 ≠ k := Ne.symm h.1
        rw [if_neg h.1]
        rw [List.filter_cons_of_pos (by simpa using hne)] at hkeep ⊢
        rw [ih h.2 (List.cons.inj hkeep).2]

theorem sortedKeys_insertKey {k : κ} {v : ν} {l : List (κ × ν)} (h : SortedKeys l) :
    SortedKeys (insertKey k v l) := by
  induction l with
  | nil => exact List.pairwise_singleton _ _
  | cons e l ih =>
      obtain ⟨hhead, hrest⟩ := List.pairwise_cons.mp h
      unfold insertKey
      split
      · rename_i hlt
        refine List.pairwise_cons.mpr ⟨fun k' hk' => ?_, h⟩
        rcases List.mem_cons.mp hk' with rfl | hk'
        · exact hlt
        · exact lt_trans hlt (hhead k' hk')
      · rename_i hnot
        split
        · rename_i heq
          subst heq
          exact List.pairwise_cons.mpr ⟨hhead, hrest⟩
        · rename_i hne
          refine List.pairwise_cons.mpr ⟨fun k' hk' => ?_, ih hrest⟩
          rcases mem_keys_insertKey hk' with rfl | hk'
          · exact lt_of_le_of_ne (not_lt.mp hnot) (Ne.symm hne)
          · exact hhead k' hk'

theorem map_insertKey (f : ν → ν') (k : κ) (v : ν) (l : List (κ × ν)) :
    (insertKey k v l).map (fun e => (e.1, f e.2))
      = insertKey k (f v) (l.map fun e => (e.1, f e.2)) := by
  induction l with
  | nil => rfl
  | cons e l ih =>
      rw [List.map_cons]
      unfold insertKey
      split
      · rfl
      · split
        · rfl
        · rw [List.map_cons, ih]

/-- An entry with the largest key is put at the end. -/
theorem insertKey_of_lt {k : κ} {v : ν} {l : List (κ × ν)} (h : ∀ k' ∈ l.map Prod.fst, k' < k) :
    insertKey k v l = l ++ [(k, v)] := by
  induction l with
  | nil => rfl
  | cons e l ih =>
      have hlt : e.1 < k := h e.1 List.mem_cons_self
      unfold insertKey
      rw [if_neg (not_lt.mpr (le_of_lt hlt)), if_neg (ne_of_gt hlt),
        ih fun k' hk' => h k' (List.mem_cons_of_mem _ hk')]
      rfl

/-! ### Whole maps -/

theorem sortedKeys_collect (l : List (κ × ν)) : SortedKeys (collect l) := by
  suffices hfold : ∀ (l m : List (κ × ν)), SortedKeys m →
      SortedKeys (l.foldl (fun m e => insertKey e.1 e.2 m) m) from hfold l [] List.Pairwise.nil
  intro l
  induction l with
  | nil => exact fun m hm => hm
  | cons e l ih => exact fun m hm => ih _ (sortedKeys_insertKey hm)

/-- Every entry of a map is one of those that it was made of. -/
theorem mem_collect {l : List (κ × ν)} {e : κ × ν} (h : e ∈ collect l) : e ∈ l := by
  have hfold (l m : List (κ × ν)) (h : e ∈ l.foldl (fun m d => insertKey d.1 d.2 m) m) :
      e ∈ m ∨ e ∈ l := by
    induction l generalizing m with
    | nil => exact .inl h
    | cons d l ih =>
        rcases ih (insertKey d.1 d.2 m) h with h | h
        · rcases mem_insertKey h with rfl | h
          · exact .inr List.mem_cons_self
          · exact .inl h
        · exact .inr (List.mem_cons_of_mem d h)
  exact (hfold l [] h).resolve_left List.not_mem_nil

theorem SortedKeys.nodup {l : List (κ × ν)} (h : SortedKeys l) : (l.map Prod.fst).Nodup :=
  List.Pairwise.imp (fun hlt => ne_of_lt hlt) h

theorem map_collect (f : ν → ν') (l : List (κ × ν)) :
    (collect l).map (fun e => (e.1, f e.2)) = collect (l.map fun e => (e.1, f e.2)) := by
  unfold collect
  suffices hfold : ∀ (l m : List (κ × ν)),
      (l.foldl (fun m e => insertKey e.1 e.2 m) m).map (fun e => (e.1, f e.2))
        = (l.map fun e => (e.1, f e.2)).foldl (fun m e => insertKey e.1 e.2 m)
            (m.map fun e => (e.1, f e.2)) from hfold l []
  intro l
  induction l with
  | nil => exact fun m => rfl
  | cons e l ih =>
      intro m
      rw [List.foldl_cons, ih, map_insertKey]
      rfl

theorem collect_of_sortedKeys {l : List (κ × ν)} (h : SortedKeys l) : collect l = l := by
  unfold collect
  -- what is read so far has smaller keys than the rest
  suffices hfold : ∀ l m : List (κ × ν), SortedKeys (m ++ l) →
      l.foldl (fun m e => insertKey e.1 e.2 m) m = m ++ l from hfold l [] h
  intro l
  induction l with
  | nil => exact fun m _ => (List.append_nil m).symm
  | cons e l ih =>
      intro m hm
      have hlt : ∀ k ∈ m.map Prod.fst, k < e.1 := by
        unfold SortedKeys at hm
        rw [List.map_append, List.pairwise_append] at hm
        exact fun k hk => hm.2.2 k hk e.1 List.mem_cons_self
      rw [List.foldl_cons, insertKey_of_lt hlt, ih _ (by rwa [List.append_assoc]),
        List.append_assoc]
      rfl

/-- A sorted map of changed values is what it was made of if and only if that is sorted and no value
is changed. -/
theorem collect_map_eq_iff (f : ν → ν) (l : List (κ × ν)) :
    collect (l.map fun e => (e.1, f e.2)) = l ↔ SortedKeys l ∧ ∀ e ∈ l, f e.2 = e.2 := by
  have hkeys : SortedKeys (l.map fun e => (e.1, f e.2)) ↔ SortedKeys l := by
    unfold SortedKeys
    rw [List.map_map]
    rfl
  constructor
  · intro h
    have hsorted : SortedKeys l := by
      rw [← h]
      exact sortedKeys_collect _
    rw [collect_of_sortedKeys (hkeys.mpr hsorted)] at h
    refine ⟨hsorted, fun e he => ?_⟩
    have hsame := List.map_eq_map_iff.mp (h.trans (List.map_id l).symm) e he
    exact congrArg Prod.snd hsame
  · rintro ⟨hsorted, hsame⟩
    rw [collect_of_sortedKeys (hkeys.mpr hsorted)]
    refine (List.map_congr_left fun e he => ?_).trans (List.map_id l)
    rw [hsame e he]
    rfl

end Frust.Lib
