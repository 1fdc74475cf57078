import Mathlib.Data.List.Basic

/-!
# `Frust.Lib.Buffer`: writing at a place of a buffer

`patch` writes a piece over a buffer of a fixed length, and `slice` reads one back. What was written is
read (`slice_patch_self`), any place apart from it is as it was (`slice_patch_of_apart`), and a piece is
gone when another of its length is written over it (`patch_patch`). `patches` writes a list of pieces.
-/

set_option autoImplicit false

namespace Frust.Lib.Buffer

variable {α : Type}

/-- `b` is written over what the buffer has from `i` on. -/
def patch (l : List α) (i : Nat) (b : List α) : List α := l.take i ++ b ++ l.drop (i + b.length)

/-- The `n` elements from `i` on. -/
def slice (l : List α) (i n : Nat) : List α := (l.drop i).take n

variable {l b c : List α} {i j n : Nat}

theorem length_patch (h : i + b.length ≤ l.length) : (patch l i b).length = l.length := by
  unfold patch
  rw [List.length_append, List.length_append, List.length_take, List.length_drop]
  omega

theorem getElem?_patch_of_lt (h : i + b.length ≤ l.length) (hj : j < i) :
    (patch l i b)[j]? = l[j]? := by
  unfold patch
  rw [List.append_assoc, List.getElem?_append_left (by rw [List.length_take]; omega),
    List.getElem?_take_of_lt hj]

theorem getElem?_patch_of_ge (h : i + b.length ≤ l.length) (hj : i + b.length ≤ j) :
    (patch l i b)[j]? = l[j]? := by
  have hlen : (l.take i ++ b).length = i + b.length := by
    rw [List.length_append, List.length_take]
    omega
  unfold patch
  rw [List.getElem?_append_right (by omega), hlen, List.getElem?_drop]
  congr 1
  omega

/-- What was written is read. -/
theorem slice_patch_self (h : i + b.length ≤ l.length) : slice (patch l i b) i b.length = b := by
  have hlen : (l.take i).length = i := by
    rw [List.length_take]
    omega
  unfold slice patch
  rw [List.append_assoc, List.drop_append_of_le_length (by omega), List.drop_of_length_le (by omega),
    List.nil_append, List.take_left]

/-- A place apart from it is as it was. -/
theorem slice_patch_of_apart (h : i + b.length ≤ l.length) (hapart : j + n ≤ i ∨ i + b.length ≤ j) :
    slice (patch l i b) j n = slice l j n := by
  refine List.ext_getElem? fun k => ?_
  unfold slice
  by_cases hk : k < n
  · rw [List.getElem?_take_of_lt hk, List.getElem?_take_of_lt hk, List.getElem?_drop,
      List.getElem?_drop]
    rcases hapart with hbefore | hafter
    · exact getElem?_patch_of_lt h (by omega)
    · exact getElem?_patch_of_ge h (by omega)
  · rw [List.getElem?_eq_none (by rw [List.length_take]; omega),
      List.getElem?_eq_none (by rw [List.length_take]; omega)]

/-- A piece is gone when another of its length is written over it. -/
theorem patch_patch (h : i + b.length ≤ l.length) (hlen : c.length = b.length) :
    patch (patch l i b) i c = patch l i c := by
  have htake : (l.take i).length = i := by
    rw [List.length_take]
    omega
  unfold patch
  rw [List.append_assoc (l.take i) b, List.take_append_of_le_length (by omega),
    List.take_of_length_le (by omega), ← List.append_assoc (l.take i) b, hlen]
  congr 1
  rw [List.drop_append_of_le_length (by rw [List.length_append]; omega),
    List.drop_of_length_le (by rw [List.length_append]; omega), List.nil_append]

/-- What is there is written over itself. -/
theorem patch_slice (h : i + n ≤ l.length) : patch l i (slice l i n) = l := by
  have hlen : (slice l i n).length = n := by
    unfold slice
    rw [List.length_take, List.length_drop]
    omega
  unfold patch
  rw [hlen]
  unfold slice
  rw [← List.drop_drop, List.append_assoc, List.take_append_drop, List.take_append_drop]

theorem mem_slice {a : α} (h : a ∈ slice l i n) : a ∈ l := List.mem_of_mem_drop (List.mem_of_mem_take h)

/-! ### Pieces -/

/-- Each piece is written at its place. -/
def patches (l : List α) (ps : List (Nat × List α)) : List α :=
  ps.foldl (fun l p => patch l p.1 p.2) l

/-- The piece is inside a buffer of length `n`. -/
def Inside (n : Nat) (p : Nat × List α) : Prop := p.1 + p.2.length ≤ n

/-- The piece is apart from the `n` places from `j` on. -/
def Apart (j n : Nat) (p : Nat × List α) : Prop := j + n ≤ p.1 ∨ p.1 + p.2.length ≤ j

variable {ps qs : List (Nat × List α)}

theorem patches_cons (l : List α) (p : Nat × List α) (ps : List (Nat × List α)) :
    patches l (p :: ps) = patches (patch l p.1 p.2) ps := rfl

theorem patches_append (l : List α) (ps qs : List (Nat × List α)) :
    patches l (ps ++ qs) = patches (patches l ps) qs := List.foldl_append

theorem length_patches (h : ∀ p ∈ ps, Inside l.length p) : (patches l ps).length = l.length := by
  induction ps generalizing l with
  | nil => rfl
  | cons p ps ih =>
      have hp := length_patch (h p List.mem_cons_self)
      have hps : ∀ q ∈ ps, Inside (patch l p.1 p.2).length q := by
        intro q hq
        rw [hp]
        exact h q (List.mem_cons_of_mem _ hq)
      rw [patches_cons, ih hps, hp]

/-- A place apart from every piece is as it was. -/
theorem slice_patches_of_apart (h : ∀ p ∈ ps, Inside l.length p) (hapart : ∀ p ∈ ps, Apart j n p) :
    slice (patches l ps) j n = slice l j n := by
  induction ps generalizing l with
  | nil => rfl
  | cons p ps ih =>
      have hp := h p List.mem_cons_self
      have hps : ∀ q ∈ ps, Inside (patch l p.1 p.2).length q := by
        intro q hq
        rw [length_patch hp]
        exact h q (List.mem_cons_of_mem _ hq)
      rw [patches_cons, ih hps fun q hq => hapart q (List.mem_cons_of_mem _ hq),
        slice_patch_of_apart hp (hapart p List.mem_cons_self)]

/-- A piece is read where the later ones are apart from it. -/
theorem slice_patches {p : Nat × List α} (h : ∀ q ∈ ps ++ p :: qs, Inside l.length q)
    (hapart : ∀ q ∈ qs, Apart p.1 p.2.length q) :
    slice (patches l (ps ++ p :: qs)) p.1 p.2.length = p.2 := by
  have hps := length_patches fun q hq => h q (List.mem_append_left _ hq)
  have hp : Inside (patches l ps).length p := by
    rw [hps]
    exact h p (by simp)
  have hlen := length_patch hp
  have hqs : ∀ q ∈ qs, Inside (patch (patches l ps) p.1 p.2).length q := by
    intro q hq
    rw [hlen, hps]
    exact h q (by simp [hq])
  rw [patches_append, patches_cons, slice_patches_of_apart hqs hapart, slice_patch_self hp]

end Frust.Lib.Buffer
