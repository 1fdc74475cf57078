import Mathlib.Data.List.Basic

/-!
# `Frust.Lib.Cut`: cutting a list by an automaton

A `Cutter` reads a list in a state, and cuts it at each element that ends a piece in the state
it is read in. `pass` reads a part of the list in which nothing ends. What passes stays in one
piece, whatever comes after it (`cut_append`), so that pieces which pass from a state back to it
are found again when they were joined by a separator that ends a piece there (`cut_joined`), and
what follows them is cut as if it stood alone. `cut_at` says the same of any list after which a piece
ends, and `pass_of_mem_cut` that the pieces of a list which comes back to its first state pass.
-/

set_option autoImplicit false

namespace Frust.Lib

/-- An automaton over the elements of a list. -/
structure Cutter (σ α : Type) where
  /-- The state after an element. -/
  next : σ → α → σ
  /-- An element ends the piece. -/
  ends : σ → α → Bool

namespace Cutter

variable {σ α : Type} (C : Cutter σ α)

/-- The pieces of a list; `cur` is the piece being read, last element first. What is left at the
end of the list is a piece unless it is empty. -/
def cut : List α → σ → (cur : List α) → List (List α)
  | [], _, cur => if cur.isEmpty then [] else [cur.reverse]
  | c :: rest, s, cur =>
      if C.ends s c then cur.reverse :: cut rest (C.next s c) []
      else cut rest (C.next s c) (c :: cur)

/-- The state after a list in which nothing ends. -/
def pass : σ → List α → Option σ
  | s, [] => some s
  | s, c :: rest => if C.ends s c then none else pass (C.next s c) rest

variable {C} {s s' s'' : σ} {l m : List α}

@[simp] theorem pass_nil : C.pass s [] = some s := rfl

/-- Two lists that pass one after the other pass together. -/
theorem pass_append (hl : C.pass s l = some s') (hm : C.pass s' m = some s'') :
    C.pass s (l ++ m) = some s'' := by
  induction l generalizing s with
  | nil =>
      obtain rfl := Option.some.inj hl
      exact hm
  | cons c l ih =>
      unfold pass at hl
      rw [List.cons_append]
      unfold pass
      split at hl
      · cases hl
      · rename_i hends
        rw [if_neg hends]
        exact ih hl

/-- Elements that neither end a piece nor change the state pass. -/
theorem pass_of_still (h : ∀ c ∈ l, C.ends s c = false ∧ C.next s c = s) :
    C.pass s l = some s := by
  induction l with
  | nil => rfl
  | cons c l ih =>
      obtain ⟨hends, hnext⟩ := h c List.mem_cons_self
      unfold pass
      rw [hends, if_neg Bool.false_ne_true, hnext]
      exact ih fun d hd => h d (List.mem_cons_of_mem _ hd)

/-- Lists that pass from a state back to it pass one after the other. -/
theorem pass_flatten {ls : List (List α)} (h : ∀ l ∈ ls, C.pass s l = some s) :
    C.pass s ls.flatten = some s := by
  induction ls with
  | nil => rfl
  | cons l ls ih =>
      rw [List.flatten_cons]
      exact pass_append (h l List.mem_cons_self)
        (ih fun l' hl' => h l' (List.mem_cons_of_mem _ hl'))

/-- So do they with a separator between them. -/
theorem pass_intercalate {ls : List (List α)} (hsep : C.pass s m = some s)
    (h : ∀ l ∈ ls, C.pass s l = some s) : C.pass s (m.intercalate ls) = some s := by
  induction ls with
  | nil => rfl
  | cons l ls ih =>
      have hl := h l List.mem_cons_self
      have hrest := ih fun l' hl' => h l' (List.mem_cons_of_mem _ hl')
      cases ls with
      | nil => simpa [List.intercalate] using hl
      | cons l' ls =>
          rw [List.intercalate_cons_cons]
          exact pass_append (pass_append hl hsep) hrest

/-- What passes joins the piece being read. -/
theorem cut_append (hl : C.pass s l = some s') (rest cur : List α) :
    C.cut (l ++ rest) s cur = C.cut rest s' (l.reverse ++ cur) := by
  induction l generalizing s cur with
  | nil =>
      obtain rfl := Option.some.inj hl
      rfl
  | cons c l ih =>
      unfold pass at hl
      split at hl
      · cases hl
      · rename_i hends
        rw [List.cons_append, cut, if_neg hends, ih hl, List.reverse_cons, List.append_assoc]
        rfl

/-- What passes up to an element that ends the piece is a piece. -/
theorem cut_piece {c : α} (hl : C.pass s l = some s') (hc : C.ends s' c = true)
    (rest : List α) : C.cut (l ++ c :: rest) s [] = l :: C.cut rest (C.next s' c) [] := by
  rw [cut_append hl, cut, if_pos hc, List.append_nil, List.reverse_reverse]

/-- What passes up to the end of the list is a piece. -/
theorem cut_last (hl : C.pass s l = some s') (hne : l ≠ []) : C.cut l s [] = [l] := by
  have h := cut_append hl [] []
  rw [List.append_nil, List.append_nil] at h
  rw [h, cut, List.isEmpty_eq_false_iff.mpr (List.reverse_ne_nil_iff.mpr hne),
    if_neg Bool.false_ne_true, List.reverse_reverse]

/-- What was read before joins the first piece. -/
theorem cut_cur {l : List α} (hne : l ≠ []) (s : σ) (cur : List α) :
    ∃ p ps, C.cut l s [] = p :: ps ∧ C.cut l s cur = (cur.reverse ++ p) :: ps := by
  induction l generalizing s cur with
  | nil => exact absurd rfl hne
  | cons c l ih =>
      by_cases hends : C.ends s c = true
      · exact ⟨[], C.cut l (C.next s c) [], by rw [cut, if_pos hends]; rfl,
          by rw [cut, if_pos hends, List.append_nil]⟩
      · cases l with
        | nil => exact ⟨[c], [], by simp [cut, hends], by simp [cut, hends]⟩
        | cons d l =>
            obtain ⟨p, ps, hone, hcur⟩ := ih (List.cons_ne_nil _ _) (C.next s c) (c :: cur)
            obtain ⟨p', ps', hone', hcur'⟩ := ih (List.cons_ne_nil _ _) (C.next s c) [c]
            rw [hone] at hone'
            obtain ⟨rfl, rfl⟩ := List.cons.inj hone'
            refine ⟨c :: p, ps, ?_, ?_⟩
            · rw [cut, if_neg hends]
              exact hcur'
            · rw [cut, if_neg hends, hcur, List.reverse_cons, List.append_assoc]
              rfl

section

variable {c : α} {tail : List α}

/-- Pieces that pass from a state back to it are found again when they were joined by a separator
whose first element ends a piece there; each but the first begins with the rest of the separator.
What stands after them is cut as if it stood alone. -/
theorem cut_joined (hends : C.ends s c = true) (hnext : C.next s c = s)
    (htail : C.pass s tail = some s) {l : List α} {ls rest : List (List α)} (hne : l ≠ [])
    (hl : C.pass s l = some s) (hls : ∀ l ∈ ls, l ≠ [] ∧ C.pass s l = some s) :
    C.cut ((c :: tail).intercalate (l :: ls ++ rest)) s []
      = l :: ls.map (tail ++ ·)
        ++ if rest = [] then [] else C.cut (tail ++ (c :: tail).intercalate rest) s [] := by
  induction ls generalizing l with
  | nil =>
      cases rest with
      | nil =>
          rw [if_pos rfl]
          simpa [List.intercalate] using cut_last hl hne
      | cons r rest =>
          rw [if_neg (List.cons_ne_nil _ _), List.cons_append, List.nil_append,
            List.intercalate_cons_cons, List.append_assoc, List.cons_append,
            cut_piece hl hends, hnext]
          rfl
  | cons l' ls ih =>
      obtain ⟨hne', hl'⟩ := hls l' List.mem_cons_self
      -- the next piece takes the rest of the separator with it
      have hjoin : tail ++ (c :: tail).intercalate (l' :: (ls ++ rest))
          = (c :: tail).intercalate ((tail ++ l') :: ls ++ rest) := by
        cases hmore : ls ++ rest with
        | nil => simp [List.intercalate, hmore]
        | cons x xs =>
            rw [List.cons_append, hmore, List.intercalate_cons_cons, List.intercalate_cons_cons]
            simp only [List.append_assoc]
      have hrec := ih (l := tail ++ l') (List.append_ne_nil_of_right_ne_nil _ hne')
        (pass_append htail hl') fun l hl => hls l (List.mem_cons_of_mem _ hl)
      rw [List.cons_append, List.cons_append, List.intercalate_cons_cons, List.append_assoc,
        List.cons_append, cut_piece hl hends, hnext, hjoin, hrec]
      rfl

end

/-! ### Lists that end in the state they began in -/

/-- A list whose end may end a piece is cut there: up to it as it was, but for an empty last piece,
and after it as if what follows stood alone. -/
theorem cut_at {c : α} (l : List α) (s : σ) (hends : C.ends (l.foldl C.next s) c = true)
    (rest cur : List α) :
    ∃ ps last, C.cut l s cur = ps ++ (if last = [] then [] else [last]) ∧
      C.cut (l ++ c :: rest) s cur
        = ps ++ last :: C.cut rest (C.next (l.foldl C.next s) c) [] := by
  induction l generalizing s cur with
  | nil =>
      refine ⟨[], cur.reverse, ?_, ?_⟩
      · cases cur <;> simp [cut]
      · rw [List.nil_append, cut]
        exact if_pos hends
  | cons d l ih =>
      rw [List.foldl_cons] at hends ⊢
      by_cases hd : C.ends s d = true
      · obtain ⟨ps, last, hone, hboth⟩ := ih (C.next s d) hends []
        refine ⟨cur.reverse :: ps, last, ?_, ?_⟩
        · rw [cut, if_pos hd, hone, List.cons_append]
        · rw [List.cons_append, cut, if_pos hd, hboth, List.cons_append]
      · obtain ⟨ps, last, hone, hboth⟩ := ih (C.next s d) hends (d :: cur)
        refine ⟨ps, last, ?_, ?_⟩
        · rw [cut, if_neg hd, hone]
        · rw [List.cons_append, cut, if_neg hd, hboth]

/-- Where pieces end in one state only, and stay in it, the pieces of a list that comes back to that
state pass from it back to it. -/
theorem pass_of_mem_cut {s₀ : σ} (hends : ∀ s c, C.ends s c = true → s = s₀ ∧ C.next s c = s₀)
    (l : List α) (s : σ) (hback : l.foldl C.next s = s₀) (cur : List α)
    (hcur : C.pass s₀ cur.reverse = some s) : ∀ p ∈ C.cut l s cur, C.pass s₀ p = some s₀ := by
  induction l generalizing s cur with
  | nil =>
      intro p hp
      obtain rfl : s = s₀ := hback
      unfold cut at hp
      split at hp
      · cases hp
      · rw [List.mem_singleton.mp hp]
        exact hcur
  | cons d l ih =>
      intro p hp
      rw [List.foldl_cons] at hback
      unfold cut at hp
      split at hp
      · -- a piece ends here, and the next one begins in the state it ended in
        rename_i hd
        obtain ⟨rfl, hnext⟩ := hends s d hd
        rcases List.mem_cons.mp hp with rfl | hp
        · exact hcur
        · exact ih _ hback [] (by rw [List.reverse_nil, pass_nil, hnext]) p hp
      · rename_i hd
        refine ih _ hback (d :: cur) ?_ p hp
        rw [List.reverse_cons]
        refine pass_append hcur ?_
        unfold pass
        rw [if_neg hd]
        rfl

/-- What passes is read to the state it passes to. -/
theorem foldl_of_pass (h : C.pass s l = some s') : l.foldl C.next s = s' := by
  induction l generalizing s with
  | nil => exact Option.some.inj h
  | cons c l ih =>
      unfold pass at h
      split at h
      · cases h
      · exact ih h

/-- What passes up to its end passes part by part. -/
theorem pass_append_inv (h : C.pass s (l ++ m) = some s'') :
    ∃ s', C.pass s l = some s' ∧ C.pass s' m = some s'' := by
  induction l generalizing s with
  | nil => exact ⟨s, rfl, h⟩
  | cons c l ih =>
      rw [List.cons_append] at h
      unfold pass at h
      split at h
      · cases h
      · rename_i hends
        obtain ⟨s', hl, hm⟩ := ih h
        exact ⟨s', (if_neg hends).trans hl, hm⟩

/-- Elements that lead to a state from itself only lead back to it. -/
theorem eq_of_foldl {s₀ : σ} (hback : ∀ c ∈ l, ∀ s, C.next s c = s₀ → s = s₀)
    (h : l.foldl C.next s = s₀) : s = s₀ := by
  induction l generalizing s with
  | nil => exact h
  | cons c l ih =>
      refine hback c List.mem_cons_self s (ih (fun d hd => hback d (List.mem_cons_of_mem _ hd)) ?_)
      exact h

/-! ### The pieces joined again -/

section

variable {sep : α}

theorem cut_eq_nil (h : C.cut l s [] = []) : l = [] := by
  by_contra hne
  obtain ⟨p, ps, hcut, -⟩ := C.cut_cur hne s []
  rw [h] at hcut
  cases hcut

/-- Where one element only ends pieces, the pieces joined by it are the list, but for that element
at its end. -/
theorem join_cut (hsep : ∀ s c, C.ends s c = true → c = sep) (l : List α) (s : σ) (cur : List α) :
    [sep].intercalate (C.cut l s cur) = cur.reverse ++ l ∨
      [sep].intercalate (C.cut l s cur) ++ [sep] = cur.reverse ++ l := by
  induction l generalizing s cur with
  | nil => cases cur <;> simp [cut, List.intercalate]
  | cons c l ih =>
      rw [cut]
      by_cases hends : C.ends s c = true
      · obtain rfl := hsep s c hends
        rw [if_pos hends]
        cases hcut : C.cut l (C.next s c) [] with
        | nil =>
            obtain rfl := cut_eq_nil hcut
            exact .inr (by simp [List.intercalate])
        | cons p ps =>
            have hrest := ih (C.next s c) []
            rw [hcut] at hrest
            rw [List.intercalate_cons_cons]
            rcases hrest with h | h
            · exact .inl (by rw [h]; simp)
            · exact .inr (by rw [List.append_assoc, h]; simp)
      · rw [if_neg hends]
        simpa using ih (C.next s c) (c :: cur)

/-- A list is cut wherever the element may end a piece: the pieces up to there, joined, are the list
up to there. -/
theorem exists_cut (hsep : ∀ s c, C.ends s c = true → c = sep) (pre : List α) (s : σ)
    (hends : C.ends (pre.foldl C.next s) sep = true) (post cur : List α) :
    ∃ ps qs, C.cut (pre ++ sep :: post) s cur = ps ++ qs ∧ ps ≠ [] ∧
      [sep].intercalate ps = cur.reverse ++ pre := by
  induction pre generalizing s cur with
  | nil =>
      refine ⟨[cur.reverse], C.cut post (C.next s sep) [], ?_, List.cons_ne_nil _ _, ?_⟩
      · rw [List.nil_append, cut]
        exact if_pos hends
      · simp [List.intercalate]
  | cons c pre ih =>
      rw [List.cons_append, cut]
      by_cases hc : C.ends s c = true
      · obtain ⟨ps, qs, hcut, hne, hjoin⟩ := ih (C.next s c) hends []
        obtain ⟨p, ps, rfl⟩ := List.exists_cons_of_ne_nil hne
        refine ⟨cur.reverse :: p :: ps, qs, ?_, List.cons_ne_nil _ _, ?_⟩
        · rw [if_pos hc, hcut]
          rfl
        · rw [List.intercalate_cons_cons, hjoin, hsep s c hc]
          simp
      · obtain ⟨ps, qs, hcut, hne, hjoin⟩ := ih (C.next s c) hends (c :: cur)
        refine ⟨ps, qs, ?_, hne, ?_⟩
        · rw [if_neg hc, hcut]
        · rw [hjoin]
          simp

/-- What was read before stands in front of the first piece, so the pieces are longer. -/
theorem length_lt_of_cut {c : α} {cur : List α} {ps qs : List (List α)} (hne : ps ≠ [])
    (hcut : C.cut l s (c :: cur) = ps ++ qs) : cur.length < ([sep].intercalate ps).length := by
  obtain ⟨p, ps, rfl⟩ := List.exists_cons_of_ne_nil hne
  have hfirst : cur.length < p.length := by
    cases l with
    | nil =>
        have hone : [(c :: cur).reverse] = p :: ps ++ qs := hcut
        rw [← (List.cons.inj hone).1]
        simp
    | cons d l =>
        obtain ⟨q, _, -, hwhole⟩ := C.cut_cur (List.cons_ne_nil d l) s (c :: cur)
        rw [hwhole] at hcut
        rw [← (List.cons.inj hcut).1]
        simp
  cases ps with
  | nil => simpa [List.intercalate] using hfirst
  | cons p' ps =>
      rw [List.intercalate_cons_cons]
      simp
      omega

/-- Where pieces end in one state only, and stay in it, the list is in that state wherever it is
cut. -/
theorem foldl_of_cut {s₀ : σ}
    (hends : ∀ s c, C.ends s c = true → s = s₀ ∧ C.next s c = s₀) (pre : List α) (s : σ)
    (post cur : List α) {ps qs : List (List α)}
    (hcut : C.cut (pre ++ sep :: post) s cur = ps ++ qs) (hne : ps ≠ [])
    (hjoin : [sep].intercalate ps = cur.reverse ++ pre) : pre.foldl C.next s = s₀ := by
  induction pre generalizing s cur ps with
  | nil =>
      rw [List.nil_append, cut] at hcut
      split at hcut
      · rename_i hc
        exact (hends s sep hc).1
      · have hlength : cur.length < ([sep].intercalate ps).length := length_lt_of_cut hne hcut
        rw [hjoin] at hlength
        exact absurd hlength (by simp)
  | cons c pre ih =>
      rw [List.cons_append, cut] at hcut
      split at hcut
      · rename_i hc
        obtain ⟨p, ps, rfl⟩ := List.exists_cons_of_ne_nil hne
        obtain ⟨hp, hps⟩ := List.cons.inj hcut
        cases ps with
        | nil =>
            -- one piece alone is shorter
            have hlength := congrArg List.length hjoin
            rw [← hp] at hlength
            simp [List.intercalate] at hlength
        | cons p' ps =>
            rw [List.intercalate_cons_cons, ← hp, List.append_assoc] at hjoin
            have hrest := (List.cons.inj (List.append_cancel_left hjoin)).2
            exact ih (C.next s c) [] hps (List.cons_ne_nil _ _) hrest
      · exact ih (C.next s c) (c :: cur) hcut hne (by rw [hjoin]; simp)

/-- Pieces that pass from a state back to it are found again when they were joined, but for a last
one that is empty. -/
theorem cut_intercalate (hends : C.ends s sep = true) (hnext : C.next s sep = s)
    {ls : List (List α)} (h : ∀ l ∈ ls, C.pass s l = some s) :
    (ls.getLast? = some [] → C.cut ([sep].intercalate ls) s [] = ls.dropLast) ∧
      (ls.getLast? ≠ some [] → C.cut ([sep].intercalate ls) s [] = ls) := by
  induction ls with
  | nil => exact ⟨fun _ => rfl, fun _ => rfl⟩
  | cons l ls ih =>
      have hl := h l List.mem_cons_self
      cases ls with
      | nil =>
          have hone : [sep].intercalate [l] = l := by simp [List.intercalate]
          rw [hone]
          cases l with
          | nil => exact ⟨fun _ => rfl, fun hne => absurd rfl hne⟩
          | cons c l =>
              have hne := List.cons_ne_nil c l
              exact ⟨fun hlast => absurd (Option.some.inj hlast) hne, fun _ => cut_last hl hne⟩
      | cons l' ls =>
          obtain ⟨hempty, hfull⟩ := ih fun m hm => h m (List.mem_cons_of_mem _ hm)
          rw [List.intercalate_cons_cons, List.append_assoc, List.cons_append, List.nil_append,
            cut_piece hl hends, hnext, List.getLast?_cons_cons, List.dropLast_cons_cons]
          exact ⟨fun hlast => congrArg (l :: ·) (hempty hlast),
            fun hlast => congrArg (l :: ·) (hfull hlast)⟩

end

/-! ### Elements that are spelled -/

/-- `D` reads the spelling of an element as `C` reads the element. -/
structure Spells {β : Type} (C : Cutter σ α) (D : Cutter σ β) (spell : α → List β) : Prop where
  ne_nil : ∀ c, spell c ≠ []
  ends : ∀ s c, C.ends s c = true →
    ∃ b, spell c = [b] ∧ D.ends s b = true ∧ D.next s b = C.next s c
  pass : ∀ s c, C.ends s c = false → D.pass s (spell c) = some (C.next s c)

/-- A spelled list has the spelled pieces. -/
theorem Spells.cut {β : Type} {D : Cutter σ β} {spell : α → List β} (h : Spells C D spell)
    (l : List α) (s : σ) (cur : List α) :
    D.cut (l.flatMap spell) s (cur.reverse.flatMap spell).reverse
      = (C.cut l s cur).map (·.flatMap spell) := by
  induction l generalizing s cur with
  | nil =>
      cases cur with
      | nil => rfl
      | cons c cur =>
          have hne : ((c :: cur).reverse.flatMap spell).reverse ≠ [] := by
            intro hnil
            have hall := List.flatMap_eq_nil_iff.mp (List.reverse_eq_nil_iff.mp hnil)
            exact h.ne_nil c (hall c (by simp))
          rw [List.flatMap_nil, Cutter.cut, List.isEmpty_eq_false_iff.mpr hne,
            if_neg Bool.false_ne_true, List.reverse_reverse]
          rfl
  | cons c l ih =>
      rw [List.flatMap_cons, Cutter.cut]
      by_cases hc : C.ends s c = true
      · obtain ⟨b, hspell, hends, hnext⟩ := h.ends s c hc
        rw [hspell, if_pos hc, List.cons_append, List.nil_append, Cutter.cut, if_pos hends, hnext,
          List.reverse_reverse, List.map_cons, ← ih]
        rfl
      · rw [if_neg hc, cut_append (h.pass s c (by simpa using hc)), ← ih]
        congr 1
        rw [List.reverse_cons, List.flatMap_append, List.reverse_append]
        simp

end Cutter

end Frust.Lib
