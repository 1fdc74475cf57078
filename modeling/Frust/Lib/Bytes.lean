import Mathlib.Data.List.Basic
import Mathlib.Data.List.Induction
import Mathlib.Tactic.Ring

/-!
# `Frust.Lib.Bytes`: numbers, keys and pieces of byte strings

`toBe n v` is a number as `n` bytes, highest first, and `ofBe` reads it back. `xorKey` is a text under
a key that says one byte for each place; a second time it gives the text back. `takeExact` cuts off a
piece of a known length, where the text is long enough.
-/

set_option autoImplicit false

namespace Frust.Lib.Bytes

/-! ### Numbers -/

/-- The lowest `n` bytes of a number, highest first. -/
def toBe : Nat → Nat → List UInt8
  | 0, _ => []
  | n + 1, v => toBe n (v / 256) ++ [UInt8.ofNat v]

/-- The number that bytes spell, highest first. -/
def ofBe (l : List UInt8) : Nat := l.foldl (fun acc b => acc * 256 + b.toNat) 0

@[simp] theorem length_toBe (n v : Nat) : (toBe n v).length = n := by
  induction n generalizing v with
  | zero => rfl
  | succ n ih => rw [toBe, List.length_append, ih, List.length_singleton]

theorem ofBe_concat (l : List UInt8) (b : UInt8) : ofBe (l ++ [b]) = ofBe l * 256 + b.toNat := by
  rw [ofBe, List.foldl_concat, ofBe]

/-- A number that fits is read back. -/
theorem ofBe_toBe {n v : Nat} (h : v < 256 ^ n) : ofBe (toBe n v) = v := by
  induction n generalizing v with
  | zero =>
      obtain rfl : v = 0 := by simpa using h
      rfl
  | succ n ih =>
      have hhigh : v / 256 < 256 ^ n := by
        rw [Nat.div_lt_iff_lt_mul (by decide)]
        rwa [pow_succ] at h
      rw [toBe, ofBe_concat, ih hhigh, UInt8.toNat_ofNat']
      exact Nat.div_add_mod' v 256

theorem ofBe_lt (l : List UInt8) : ofBe l < 256 ^ l.length := by
  induction l using List.reverseRecOn with
  | nil => exact Nat.one_pos
  | append_singleton l b ih =>
      have hb : b.toNat < 256 := b.toNat_lt
      rw [ofBe_concat, List.length_append, List.length_singleton, pow_succ]
      omega

/-- Bytes that spell a number are its bytes. -/
theorem toBe_ofBe (l : List UInt8) : toBe l.length (ofBe l) = l := by
  induction l using List.reverseRecOn with
  | nil => rfl
  | append_singleton l b ih =>
      have hb : b.toNat < 256 := b.toNat_lt
      have hdiv : (ofBe l * 256 + b.toNat) / 256 = ofBe l := by omega
      have hlow : UInt8.ofNat (ofBe l * 256 + b.toNat) = b := by
        apply UInt8.toNat_inj.mp
        rw [UInt8.toNat_ofNat']
        omega
      rw [ofBe_concat, List.length_append, List.length_singleton, toBe, hdiv, ih, hlow]

/-! ### Keys -/

/-- Each byte, with the byte that the key has for its place. -/
def xorKey (key : Nat → UInt8) (l : List UInt8) : List UInt8 := l.mapIdx fun i b => b ^^^ key i

@[simp] theorem length_xorKey (key : Nat → UInt8) (l : List UInt8) :
    (xorKey key l).length = l.length := List.length_mapIdx

/-- Under its key twice, a text is itself. -/
theorem xorKey_xorKey (key : Nat → UInt8) (l : List UInt8) : xorKey key (xorKey key l) = l := by
  unfold xorKey
  refine List.ext_getElem (by simp) fun i h₁ h₂ => ?_
  rw [List.getElem_mapIdx, List.getElem_mapIdx, UInt8.xor_assoc, UInt8.xor_self, UInt8.xor_zero]

/-! ### Pieces -/

section

variable {α : Type}

/-- The first `n` of a list, and the rest, where there are as many. -/
def takeExact (n : Nat) (l : List α) : Option (List α × List α) :=
  if n ≤ l.length then some (l.take n, l.drop n) else none

/-- What a text begins with is cut off. -/
theorem takeExact_append {n : Nat} {l : List α} (h : l.length = n) (rest : List α) :
    takeExact n (l ++ rest) = some (l, rest) := by
  subst h
  rw [takeExact, if_pos (by simp), List.take_left, List.drop_left]

/-- What was cut off is what the text begins with. -/
theorem takeExact_inv {n : Nat} {l a rest : List α} (h : takeExact n l = some (a, rest)) :
    l = a ++ rest ∧ a.length = n := by
  unfold takeExact at h
  split at h
  · rename_i hle
    cases h
    exact ⟨(List.take_append_drop n l).symm, List.length_take_of_le hle⟩
  · cases h

end

end Frust.Lib.Bytes
