import Mathlib.Data.List.Basic

/-!
# `Frust.Lib.Entries`: entries of a map in a list

A map is a list of keys with values, and `List.lookup` reads it. `alter` changes what is under one
key, or puts it at the end, and leaves what is under the others.
-/

set_option autoImplicit false

namespace Frust.Lib

variable {κ ν : Type} [DecidableEq κ]

/-- What is under a key, or else `init`, becomes another. -/
def alter (k : κ) (init : ν) (f : ν → ν) : List (κ × ν) → List (κ × ν)
  | [] => [(k, f init)]
  | e :: rest => if e.1 = k then (k, f e.2) :: rest else e :: alter k init f rest

section

variable [BEq κ] [LawfulBEq κ]

theorem lookup_alter_self (k : κ) (init : ν) (f : ν → ν) (l : List (κ × ν)) :
    (alter k init f l).lookup k = some (f ((l.lookup k).getD init)) := by
  induction l with
  | nil => simp [alter]
  | cons e l ih =>
      unfold alter
      split
      · rename_i hk
        subst hk
        obtain ⟨k, v⟩ := e
        simp
      · rename_i hk
        have hne : (k == e.1) = false := beq_false_of_ne (Ne.symm hk)
        rw [List.lookup_cons, List.lookup_cons, hne]
        exact ih

theorem lookup_alter_ne {k k' : κ} (h : k' ≠ k) (init : ν) (f : ν → ν) (l : List (κ × ν)) :
    (alter k init f l).lookup k' = l.lookup k' := by
  induction l with
  | nil => simp [alter, h]
  | cons e l ih =>
      unfold alter
      split
      · rename_i hk
        have hne : (k' == k) = false := beq_false_of_ne h
        rw [List.lookup_cons, List.lookup_cons, hk, hne]
      · rw [List.lookup_cons, List.lookup_cons, ih]

theorem lookup_alter (k k' : κ) (init : ν) (f : ν → ν) (l : List (κ × ν)) :
    (alter k init f l).lookup k'
      = if k' = k then some (f ((l.lookup k).getD init)) else l.lookup k' := by
  split
  · rename_i hk
    rw [hk, lookup_alter_self]
  · rename_i hk
    exact lookup_alter_ne hk init f l

end

theorem mem_alter {k : κ} {init : ν} {f : ν → ν} {l : List (κ × ν)} {e : κ × ν}
    (h : e ∈ alter k init f l) : e ∈ l ∨ ∃ v, e = (k, f v) := by
  induction l with
  | nil => exact Or.inr ⟨init, List.mem_singleton.mp h⟩
  | cons e' l ih =>
      unfold alter at h
      split at h
      · rcases List.mem_cons.mp h with rfl | h
        · exact Or.inr ⟨e'.2, rfl⟩
        · exact Or.inl (List.mem_cons_of_mem _ h)
      · rcases List.mem_cons.mp h with rfl | h
        · exact Or.inl List.mem_cons_self
        · exact (ih h).imp_left (List.mem_cons_of_mem _)

theorem keys_alter (k : κ) (init : ν) (f : ν → ν) (l : List (κ × ν)) :
    (alter k init f l).map Prod.fst
      = if k ∈ l.map Prod.fst then l.map Prod.fst else l.map Prod.fst ++ [k] := by
  induction l with
  | nil => simp [alter]
  | cons e l ih =>
      unfold alter
      by_cases hk : e.1 = k
      · simp [hk]
      · rw [if_neg hk, List.map_cons, ih, List.map_cons]
        by_cases hmem : k ∈ l.map Prod.fst
        · rw [if_pos hmem, if_pos (List.mem_cons_of_mem _ hmem)]
        · rw [if_neg hmem, if_neg (by simp [Ne.symm hk] at hmem ⊢; exact hmem)]
          rfl

theorem nodup_alter {k : κ} {init : ν} {f : ν → ν} {l : List (κ × ν)}
    (h : (l.map Prod.fst).Nodup) : ((alter k init f l).map Prod.fst).Nodup := by
  rw [keys_alter]
  split
  · exact h
  · rename_i hk
    refine List.nodup_append.mpr ⟨h, by simp, fun a ha b hb => ?_⟩
    rw [List.mem_singleton.mp hb]
    rintro rfl
    exact hk ha

section

variable [BEq κ] [LawfulBEq κ]

/-- Where keys are unique, the entries are what is found. -/
theorem mem_iff_lookup {k : κ} {v : ν} {l : List (κ × ν)} (h : (l.map Prod.fst).Nodup) :
    (k, v) ∈ l ↔ l.lookup k = some v := by
  induction l with
  | nil => simp
  | cons e l ih =>
      obtain ⟨k', v'⟩ := e
      obtain ⟨hk, hl⟩ := List.nodup_cons.mp h
      rw [List.mem_cons, ih hl]
      by_cases heq : k = k'
      · subst heq
        rw [List.lookup_cons_self]
        have hnone : l.lookup k ≠ some v := fun hv =>
          hk (List.mem_map.mpr ⟨(k, v), (ih hl).mpr hv, rfl⟩)
        simp [hnone, eq_comm]
      · rw [List.lookup_cons, beq_false_of_ne heq]
        simp [heq]

/-- An entry, and the others. -/
theorem perm_eraseP {k : κ} {v : ν} {l : List (κ × ν)} (h : l.lookup k = some v) :
    l.Perm ((k, v) :: l.eraseP (·.1 = k)) := by
  induction l with
  | nil => cases h
  | cons e l ih =>
      obtain ⟨k', v'⟩ := e
      by_cases hk : k' = k
      · subst hk
        rw [List.lookup_cons_self] at h
        cases h
        rw [List.eraseP_cons_of_pos (by simp)]
      · have hne : (k == k') = false := beq_false_of_ne (Ne.symm hk)
        rw [List.lookup_cons, hne] at h
        rw [List.eraseP_cons_of_neg (by simpa using hk)]
        exact ((ih h).cons _).trans (List.Perm.swap _ _ _)

/-- No entry to erase. -/
theorem eraseP_of_lookup {k : κ} {l : List (κ × ν)} (h : l.lookup k = none) :
    l.eraseP (·.1 = k) = l := by
  refine List.eraseP_of_forall_not fun e he hk => ?_
  rw [List.lookup_eq_none_iff] at h
  exact bne_iff_ne.mp (h e he) (of_decide_eq_true hk).symm

end

/-! ### Rows under a key -/

/-- Puts a value under a key. -/
def put (k : κ) (v : ν) (l : List (κ × ν)) : List (κ × ν) := alter k v (fun _ => v) l

/-- Changes what is under a key, if there is something. -/
def modify (k : κ) (f : ν → ν) (l : List (κ × ν)) : List (κ × ν) :=
  l.map fun e => if e.1 = k then (e.1, f e.2) else e

/-- Changes every value. -/
def modifyAll (f : ν → ν) (l : List (κ × ν)) : List (κ × ν) := l.map fun e => (e.1, f e.2)

/-- Takes a key out. -/
def remove (k : κ) (l : List (κ × ν)) : List (κ × ν) := l.filter (·.1 ≠ k)

section

variable [BEq κ] [LawfulBEq κ]

@[simp] theorem lookup_put (k k' : κ) (v : ν) (l : List (κ × ν)) :
    (put k v l).lookup k' = if k' = k then some v else l.lookup k' := lookup_alter k k' v _ l

@[simp] theorem lookup_modify (k k' : κ) (f : ν → ν) (l : List (κ × ν)) :
    (modify k f l).lookup k' = if k' = k then (l.lookup k).map f else l.lookup k' := by
  unfold modify
  induction l with
  | nil => simp
  | cons e l ih =>
      obtain ⟨k₁, v⟩ := e
      rw [List.map_cons]
      by_cases hk : k₁ = k
      · subst hk
        by_cases hk' : k' = k₁
        · subst hk'
          simp
        · have hne : (k' == k₁) = false := beq_false_of_ne hk'
          simp only [if_true, List.lookup_cons, hne, hk', if_false] at ih ⊢
          exact ih
      · have hne₁ : (k == k₁) = false := beq_false_of_ne (Ne.symm hk)
        rw [if_neg hk]
        by_cases hk' : k' = k₁
        · subst hk'
          simp [hk]
        · have hne : (k' == k₁) = false := beq_false_of_ne hk'
          rw [List.lookup_cons, List.lookup_cons, List.lookup_cons, hne, hne₁]
          exact ih

omit [DecidableEq κ] [LawfulBEq κ] in
@[simp] theorem lookup_modifyAll (k : κ) (f : ν → ν) (l : List (κ × ν)) :
    (modifyAll f l).lookup k = (l.lookup k).map f := by
  unfold modifyAll
  induction l with
  | nil => rfl
  | cons e l ih =>
      obtain ⟨k₁, v⟩ := e
      rw [List.map_cons, List.lookup_cons, List.lookup_cons]
      cases k == k₁ with
      | true => rfl
      | false => exact ih

@[simp] theorem lookup_remove (k k' : κ) (l : List (κ × ν)) :
    (remove k l).lookup k' = if k' = k then none else l.lookup k' := by
  unfold remove
  induction l with
  | nil => simp
  | cons e l ih =>
      obtain ⟨k₁, v⟩ := e
      by_cases hk : k₁ = k
      · subst hk
        rw [List.filter_cons_of_neg (by simp), ih]
        by_cases hk' : k' = k₁
        · rw [if_pos hk', if_pos hk']
        · have hne : (k' == k₁) = false := beq_false_of_ne hk'
          rw [if_neg hk', if_neg hk', List.lookup_cons, hne]
      · rw [List.filter_cons_of_pos (by simpa using hk), List.lookup_cons, List.lookup_cons]
        by_cases hk' : k' = k₁
        · subst hk'
          simp [hk]
        · have hne : (k' == k₁) = false := beq_false_of_ne hk'
          rw [hne]
          exact ih

end

/-- Changes under one key, one after the other. -/
theorem modify_modify (k : κ) (f g : ν → ν) (l : List (κ × ν)) :
    modify k f (modify k g l) = modify k (fun v => f (g v)) l := by
  unfold modify
  rw [List.map_map]
  refine List.map_congr_left fun e _ => ?_
  by_cases hk : e.1 = k <;> simp [hk]

/-- A change that is none. -/
theorem modify_of_forall {k : κ} {f : ν → ν} (h : ∀ v, f v = v) (l : List (κ × ν)) :
    modify k f l = l := by
  unfold modify
  have hid : (fun e : κ × ν => if e.1 = k then (e.1, f e.2) else e) = id := by
    funext e
    simp [h]
  rw [hid, List.map_id]

/-- Puts each value under its own key. -/
def putAll (key : ν → κ) (vs : List ν) (l : List (κ × ν)) : List (κ × ν) :=
  vs.foldl (fun l v => put (key v) v l) l

/-- Takes several keys out. -/
def removeAll (ks : List κ) (l : List (κ × ν)) : List (κ × ν) := ks.foldl (fun l k => remove k l) l

section

variable [BEq κ] [LawfulBEq κ]

/-- The last value under a key stands. -/
theorem lookup_putAll (key : ν → κ) (k : κ) (vs : List ν) (l : List (κ × ν)) :
    (putAll key vs l).lookup k = (vs.reverse.find? (key · = k)).or (l.lookup k) := by
  induction vs generalizing l with
  | nil => rfl
  | cons v vs ih =>
      show (putAll key vs (put (key v) v l)).lookup k = _
      rw [ih, lookup_put, List.reverse_cons, List.find?_append]
      by_cases hk : key v = k
      · simp [hk]
      · simp [hk, Ne.symm hk]

theorem lookup_removeAll (k : κ) (ks : List κ) (l : List (κ × ν)) :
    (removeAll ks l).lookup k = if k ∈ ks then none else l.lookup k := by
  induction ks generalizing l with
  | nil => simp [removeAll]
  | cons k' ks ih =>
      show (removeAll ks (remove k' l)).lookup k = _
      rw [ih, lookup_remove]
      by_cases hk : k = k' <;> simp [hk]

end

/-- Alters what is under the key of each element, one after another. -/
def alterAll {α : Type} (key : α → κ) (init : α → ν) (f : α → ν → ν) (as : List α) (l : List (κ × ν)) :
    List (κ × ν) :=
  as.foldl (fun l a => alter (key a) (init a) (f a) l) l

theorem nodup_alterAll {α : Type} (key : α → κ) (init : α → ν) (f : α → ν → ν) (as : List α)
    {l : List (κ × ν)} (h : (l.map Prod.fst).Nodup) :
    ((alterAll key init f as l).map Prod.fst).Nodup := by
  induction as generalizing l with
  | nil => exact h
  | cons a as ih => exact ih (nodup_alter h)

/-- What is under a key then comes from the elements with this key. -/
theorem lookup_alterAll [BEq κ] [LawfulBEq κ] {α : Type} (key : α → κ) (init : α → ν) (f : α → ν → ν)
    (as : List α) (l : List (κ × ν)) (k : κ) : (alterAll key init f as l).lookup k =
      (as.filter (key · = k)).foldl (fun o a => some (f a (o.getD (init a)))) (l.lookup k) := by
  induction as generalizing l with
  | nil => rfl
  | cons a as ih =>
      show (alterAll key init f as (alter (key a) (init a) (f a) l)).lookup k = _
      rw [ih, lookup_alter]
      by_cases hk : key a = k
      · subst hk
        rw [if_pos rfl, List.filter_cons_of_pos (by simp)]
        rfl
      · rw [if_neg (Ne.symm hk), List.filter_cons_of_neg (by simpa using hk)]

/-- The elements one name after another are the elements. -/
theorem perm_flatMap_filter {α : Type} (name : α → κ) {names : List κ} (hnames : names.Nodup)
    {l : List α} (h : ∀ a ∈ l, name a ∈ names) :
    (names.flatMap fun n => l.filter (name · = n)).Perm l := by
  have hskip {names : List κ} {a : α} {l : List α} (ha : name a ∉ names) :
      (names.flatMap fun n => (a :: l).filter (name · = n)) = names.flatMap fun n => l.filter (name · = n) :=
    List.flatMap_congr fun n hn => by
      have hne : name a ≠ n := fun heq => ha (heq ▸ hn)
      rw [List.filter_cons_of_neg (by simpa using hne)]
  induction l with
  | nil => simp
  | cons a l ih =>
      refine List.Perm.trans ?_ (.cons a (ih fun b hb => h b (List.mem_cons_of_mem _ hb)))
      have ha : name a ∈ names := h a List.mem_cons_self
      clear h ih
      induction names with
      | nil => cases ha
      | cons n names ih =>
          obtain ⟨hn, hrest⟩ := List.nodup_cons.mp hnames
          rw [List.flatMap_cons, List.flatMap_cons]
          by_cases heq : name a = n
          · rw [List.filter_cons_of_pos (by simpa using heq), hskip (heq ▸ hn)]
            exact .refl _
          · rw [List.filter_cons_of_neg (by simpa using heq)]
            have hmem : name a ∈ names := (List.mem_cons.mp ha).resolve_left heq
            exact ((ih hrest hmem).append_left _).trans List.perm_middle

end Frust.Lib
