import Frust.Lib.Bytes
import Mathlib.Data.List.Nodup

/-!
# `Frust.Lib.Base64`: bytes as base64 text

The standard alphabet, with padding. Three bytes are four digits in base 64; one or two bytes at the
end are followed by zero bits up to a digit, and by `=` up to four characters. `decode` reads such a
text and no other: the digits must be there, `=` only at the end, and the spare bits zero. So the text
of some bytes is the one that reads as them (`decode_eq_some_iff`).
-/

set_option autoImplicit false

namespace Frust.Lib.Base64

/-! ### Digits -/

/-- The standard alphabet. -/
def alphabet : List Char :=
  "ABCDEFGHIJKLMNOPQRSTUVWXYZabcdefghijklmnopqrstuvwxyz0123456789+/".toList

theorem length_alphabet : alphabet.length = 64 := by decide

theorem nodup_alphabet : alphabet.Nodup := by decide

/-- The digit of a number, which is that of its six lowest bits. -/
def digit (v : Nat) : Char :=
  alphabet.get ⟨v % 64, length_alphabet ▸ Nat.mod_lt v (by decide)⟩

/-- The value of a digit. -/
def value (c : Char) : Option Nat :=
  if alphabet.idxOf c < 64 then some (alphabet.idxOf c) else none

@[simp] theorem value_digit (v : Nat) : value (digit v) = some (v % 64) := by
  have hidx : alphabet.idxOf (digit v) = v % 64 := nodup_alphabet.idxOf_getElem _ _
  rw [value, hidx, if_pos (Nat.mod_lt v (by decide))]

theorem digit_of_value {c : Char} {v : Nat} (h : value c = some v) : v < 64 ∧ digit v = c := by
  unfold value at h
  split at h
  · rename_i hlt
    cases h
    refine ⟨hlt, ?_⟩
    unfold digit
    simp only [Nat.mod_eq_of_lt hlt]
    exact List.getElem_idxOf (length_alphabet ▸ hlt)
  · cases h

theorem digit_ne_pad (v : Nat) : digit v ≠ '=' := by
  intro h
  have hvalue := value_digit v
  rw [h, show value '=' = none by decide] at hvalue
  cases hvalue

/-- The lowest `n` digits of a number, highest first. -/
def digits : Nat → Nat → List Char
  | 0, _ => []
  | n + 1, v => digits n (v / 64) ++ [digit v]

/-- One more digit of a number. -/
def shift (acc : Nat) (c : Char) : Option Nat := (value c).map (acc * 64 + ·)

/-- The number that digits spell, highest first. -/
def number (ds : List Char) : Option Nat := ds.foldlM shift 0

theorem number_concat (ds : List Char) (c : Char) :
    number (ds ++ [c]) = (number ds).bind fun acc => shift acc c := by
  unfold number
  rw [List.foldlM_append]
  cases ds.foldlM shift 0 with
  | none => rfl
  | some acc =>
      show [c].foldlM shift acc = shift acc c
      rw [List.foldlM_cons]
      cases shift acc c <;> rfl

theorem number_digits {n v : Nat} (h : v < 64 ^ n) : number (digits n v) = some v := by
  induction n generalizing v with
  | zero =>
      obtain rfl : v = 0 := by simpa using h
      rfl
  | succ n ih =>
      have hhigh : v / 64 < 64 ^ n := by
        rw [Nat.div_lt_iff_lt_mul (by decide)]
        rwa [pow_succ] at h
      rw [digits, number_concat, ih hhigh, Option.bind_some, shift, value_digit, Option.map_some,
        Nat.div_add_mod']

/-- Digits that spell a number are its digits. -/
theorem digits_of_number {n v : Nat} {ds : List Char} (hn : ds.length = n)
    (h : number ds = some v) : v < 64 ^ n ∧ digits n v = ds := by
  induction ds using List.reverseRecOn generalizing n v with
  | nil =>
      cases h
      subst hn
      exact ⟨by decide, rfl⟩
  | append_singleton ds c ih =>
      obtain rfl : n = ds.length + 1 := by rw [← hn, List.length_append, List.length_singleton]
      rw [number_concat] at h
      obtain ⟨high, hhigh, h⟩ := Option.bind_eq_some_iff.mp h
      obtain ⟨low, hlow, rfl⟩ := Option.map_eq_some_iff.mp h
      obtain ⟨hlt, hdigit⟩ := digit_of_value hlow
      obtain ⟨hbound, hdigits⟩ := ih rfl hhigh
      have hdiv : (high * 64 + low) / 64 = high := by omega
      have hmod : digit (high * 64 + low) = digit low := by
        unfold digit
        congr 2
        omega
      refine ⟨by rw [pow_succ]; omega, ?_⟩
      rw [digits, hdiv, hdigits, hmod, hdigit]

/-! ### Texts -/

/-- The padded text of bytes. -/
def encode : List UInt8 → List Char
  | [] => []
  | [a] => digits 2 (Bytes.ofBe [a] * 16) ++ ['=', '=']
  | [a, b] => digits 3 (Bytes.ofBe [a, b] * 4) ++ ['=']
  | a :: b :: c :: rest => digits 4 (Bytes.ofBe [a, b, c]) ++ encode rest

/-- The bytes before the padding: `n` of them, and then `spare` as the bound of the bits that are left
over. -/
def decodeLast (n spare : Nat) (ds : List Char) : Option (List UInt8) := do
  let v ← number ds
  if v % spare = 0 then some (Bytes.toBe n (v / spare)) else none

/-- The bytes of a padded text. -/
def decode : List Char → Option (List UInt8)
  | [] => some []
  | a :: b :: c :: d :: rest =>
      if d ≠ '=' then do
        let v ← number [a, b, c, d]
        let bytes ← decode rest
        return Bytes.toBe 3 v ++ bytes
      else if rest ≠ [] then none
      else if c ≠ '=' then decodeLast 2 4 [a, b, c]
      else decodeLast 1 16 [a, b]
  | _ => none

/-! ### Reading a text -/

theorem decodeLast_digits {n k spare v : Nat} (hspare : 0 < spare) (hv : v * spare < 64 ^ k) :
    decodeLast n spare (digits k (v * spare)) = some (Bytes.toBe n v) := by
  unfold decodeLast
  rw [number_digits hv, Option.bind_eq_bind, Option.bind_some, if_pos (Nat.mul_mod_left v spare),
    Nat.mul_div_cancel v hspare]

theorem digits_of_decodeLast {n k spare : Nat} {ds : List Char} {l : List UInt8}
    (hds : ds.length = k) (hbits : 64 ^ k = 256 ^ n * spare) (h : decodeLast n spare ds = some l) :
    l.length = n ∧ digits k (Bytes.ofBe l * spare) = ds := by
  unfold decodeLast at h
  obtain ⟨v, hv, h⟩ := Option.bind_eq_some_iff.mp h
  split at h
  · rename_i hspare
    cases h
    obtain ⟨hbound, hdigits⟩ := digits_of_number hds hv
    have hlt : v / spare < 256 ^ n := by
      rw [Nat.div_lt_iff_lt_mul (Nat.pos_of_ne_zero fun h0 => by simp [h0] at hbits)]
      rwa [← hbits]
    refine ⟨Bytes.length_toBe _ _, ?_⟩
    rw [Bytes.ofBe_toBe hlt, Nat.div_mul_cancel (Nat.dvd_of_mod_eq_zero hspare), hdigits]
  · cases h

/-- Four characters that are no padding. -/
theorem decode_digits {v : Nat} (hv : v < 64 ^ 4) (rest : List Char) :
    decode (digits 4 v ++ rest) = (decode rest).map (Bytes.toBe 3 v ++ ·) := by
  have hnumber := number_digits hv
  show decode (_ :: _ :: _ :: digit v :: rest) = _
  rw [decode, if_pos (digit_ne_pad v)]
  show ((number (digits 4 v)).bind fun v => (decode rest).bind fun bytes => _) = _
  rw [hnumber, Option.bind_some]
  cases decode rest <;> rfl

/-- The text of some bytes reads as them. -/
theorem decode_encode (l : List UInt8) : decode (encode l) = some l := by
  fun_induction encode l with
  | case1 => rfl
  | case2 a =>
      have hlt := Bytes.ofBe_lt [a]
      have hlast : decodeLast 1 16 (digits 2 (Bytes.ofBe [a] * 16))
          = some (Bytes.toBe 1 (Bytes.ofBe [a])) :=
        decodeLast_digits (by decide) (by simp only [List.length_singleton] at hlt; omega)
      show decode (_ :: _ :: '=' :: '=' :: []) = _
      rw [decode, if_neg (by decide), if_neg (by decide), if_neg (by decide)]
      exact hlast.trans (congrArg some (Bytes.toBe_ofBe [a]))
  | case3 a b =>
      have hlt := Bytes.ofBe_lt [a, b]
      have hlast : decodeLast 2 4 (digits 3 (Bytes.ofBe [a, b] * 4))
          = some (Bytes.toBe 2 (Bytes.ofBe [a, b])) :=
        decodeLast_digits (by decide) (by simp only [List.length_cons, List.length_nil] at hlt; omega)
      show decode (_ :: _ :: digit (Bytes.ofBe [a, b] * 4) :: '=' :: []) = _
      rw [decode, if_neg (by decide), if_neg (by decide), if_pos (digit_ne_pad _)]
      exact hlast.trans (congrArg some (Bytes.toBe_ofBe [a, b]))
  | case4 a b c rest ih =>
      have hlt := Bytes.ofBe_lt [a, b, c]
      rw [decode_digits (by simp only [List.length_cons, List.length_nil] at hlt; omega), ih]
      exact congrArg some (congrArg (· ++ rest) (Bytes.toBe_ofBe [a, b, c]))

/-- A text is that of the bytes it reads as. -/
theorem encode_of_decode {text : List Char} {l : List UInt8} (h : decode text = some l) :
    encode l = text := by
  fun_induction decode text generalizing l with
  | case1 =>
      cases h
      rfl
  | case2 a b c d rest hd ih =>
      obtain ⟨v, hv, h⟩ := Option.bind_eq_some_iff.mp h
      obtain ⟨bytes, hbytes, h⟩ := Option.bind_eq_some_iff.mp h
      cases h
      obtain ⟨hbound, hdigits⟩ := digits_of_number (n := 4) rfl hv
      have hback : Bytes.ofBe (Bytes.toBe 3 v) = v := Bytes.ofBe_toBe (by omega)
      show digits 4 (Bytes.ofBe (Bytes.toBe 3 v)) ++ encode bytes = _
      rw [hback, hdigits, ih hbytes]
      rfl
  | case3 => cases h
  | case4 a b c d rest hd hrest hc =>
      obtain ⟨hlength, hdigits⟩ := digits_of_decodeLast (k := 3) rfl (by decide) h
      obtain ⟨x, y, rfl⟩ := List.length_eq_two.mp hlength
      rw [encode, hdigits, not_not.mp hd, not_not.mp hrest]
      rfl
  | case5 a b c d rest hd hrest hc =>
      obtain ⟨hlength, hdigits⟩ := digits_of_decodeLast (k := 2) rfl (by decide) h
      obtain ⟨x, rfl⟩ := List.length_eq_one_iff.mp hlength
      rw [encode, hdigits, not_not.mp hd, not_not.mp hrest, not_not.mp hc]
      rfl
  | case6 => cases h

/-- Of all texts, one reads as given bytes. -/
theorem decode_eq_some_iff {text : List Char} {l : List UInt8} :
    decode text = some l ↔ text = encode l :=
  ⟨fun h => (encode_of_decode h).symm, fun h => h ▸ decode_encode l⟩

end Frust.Lib.Base64
