import Frust.Kernel.Credentials
import Frust.Lib.Base64

/-!
# `Frust.Proofs.Kernel.Credentials`: both encoders write base64

A chunk's bits, shifted and masked, are its digits in base 64 (`chunkText_three`). Both loops append the
text of one chunk after the other, so both build the padded standard text
(`toList_b64`, `toList_rootBasicText`), which is the one text that a standard decoder reads as the bytes
(`credentials_base64`).
-/

set_option autoImplicit false

namespace Frust.Kernel

open Frust.Lib

/-- The four characters of a chunk. -/
def chunkText (chunk : List UInt8) : List Char :=
  let n := chunkBits chunk
  [base64Char (n >>> 18).toNat, base64Char (n >>> 12).toNat,
    if chunk.length > 1 then base64Char (n >>> 6).toNat else '=',
    if chunk.length > 2 then base64Char n.toNat else '=']

/-! ### One chunk -/

theorem base64Char_eq (i : Nat) : base64Char i = Base64.digit i := by
  have hmask : i &&& 63 = i % 64 := Nat.and_two_pow_sub_one_eq_mod i 6
  unfold base64Char Base64.digit
  simp only [hmask]
  rfl

/-- A byte that is shifted within 32 bits. -/
theorem toNat_shiftLeft_byte (b : UInt8) {k : UInt32} (hk : k.toNat ≤ 24) :
    (b.toUInt32 <<< k).toNat = b.toNat <<< k.toNat := by
  have hb : b.toNat < 2 ^ 8 := b.toNat_lt
  have hpow : 2 ^ k.toNat ≤ 2 ^ 24 := Nat.pow_le_pow_right (by decide) hk
  have hk32 : k.toNat % 32 = k.toNat := Nat.mod_eq_of_lt (by omega)
  rw [UInt32.toNat_shiftLeft, UInt8.toNat_toUInt32, hk32, Nat.shiftLeft_eq]
  exact Nat.mod_eq_of_lt (lt_of_lt_of_le (Nat.mul_lt_mul_of_lt_of_le hb hpow (by decide)) (by decide))

/-- The bits of a chunk are a number in base 256. -/
theorem toNat_chunkBits (chunk : List UInt8) :
    (chunkBits chunk).toNat = (chunk.getD 0 0).toNat * 65536 + (chunk.getD 1 0).toNat * 256
      + (chunk.getD 2 0).toNat := by
  have hb : (chunk.getD 1 0).toNat < 2 ^ 8 := (chunk.getD 1 0).toNat_lt
  have hc : (chunk.getD 2 0).toNat < 2 ^ 8 := (chunk.getD 2 0).toNat_lt
  have hhigh := toNat_shiftLeft_byte (chunk.getD 0 0) (k := 16) (by decide)
  have hmid := toNat_shiftLeft_byte (chunk.getD 1 0) (k := 8) (by decide)
  have hlow : (chunk.getD 1 0).toNat <<< 8 + (chunk.getD 2 0).toNat < 2 ^ 16 := by
    rw [Nat.shiftLeft_eq]
    omega
  -- Each byte is in bits of its own, so the union is a sum.
  rw [chunkBits, UInt32.toNat_or, UInt32.toNat_or, hhigh, hmid, UInt8.toNat_toUInt32, Nat.or_assoc]
  show _ <<< 16 ||| (_ <<< 8 ||| _) = _
  rw [← Nat.shiftLeft_add_eq_or_of_lt hc, ← Nat.shiftLeft_add_eq_or_of_lt hlow, Nat.shiftLeft_eq,
    Nat.shiftLeft_eq, ← Nat.add_assoc]

/-- A chunk's digits: of its bits, those from place 18, 12, 6 and 0 on. -/
theorem digits_chunkBits (chunk : List UInt8) :
    Base64.digits 4 (chunkBits chunk).toNat
      = [base64Char (chunkBits chunk >>> 18).toNat, base64Char (chunkBits chunk >>> 12).toNat,
        base64Char (chunkBits chunk >>> 6).toNat, base64Char (chunkBits chunk).toNat] := by
  have hshift {k : UInt32} (hk : k.toNat < 32) :
      (chunkBits chunk >>> k).toNat = (chunkBits chunk).toNat / 2 ^ k.toNat := by
    rw [UInt32.toNat_shiftRight, Nat.mod_eq_of_lt hk, Nat.shiftRight_eq_div_pow]
  rw [hshift (k := 18) (by decide), hshift (k := 12) (by decide), hshift (k := 6) (by decide)]
  simp only [base64Char_eq, Base64.digits, List.nil_append, List.cons_append, Nat.div_div_eq_div_mul]
  rfl

theorem chunkText_three (a b c : UInt8) :
    chunkText [a, b, c] = Base64.digits 4 (Bytes.ofBe [a, b, c]) := by
  have hbits : Bytes.ofBe [a, b, c] = (chunkBits [a, b, c]).toNat := by
    rw [toNat_chunkBits]
    show ((0 * 256 + a.toNat) * 256 + b.toNat) * 256 + c.toNat = _
    simp only [List.getD_cons_zero, List.getD_cons_succ]
    omega
  rw [hbits, digits_chunkBits]
  rfl

/-- All digits of a number but the last one. -/
theorem dropLast_digits (n v : Nat) :
    (Base64.digits (n + 1) v).dropLast = Base64.digits n (v / 64) := by
  rw [Base64.digits, List.dropLast_concat]

theorem chunkText_two (a b : UInt8) : chunkText [a, b] = Base64.encode [a, b] := by
  have hbits : (chunkBits [a, b]).toNat / 64 = Bytes.ofBe [a, b] * 4 := by
    rw [toNat_chunkBits]
    show _ = ((0 * 256 + a.toNat) * 256 + b.toNat) * 4
    simp only [List.getD_cons_zero, List.getD_cons_succ, List.getD_nil, UInt8.toNat_zero]
    omega
  rw [Base64.encode, ← hbits, ← dropLast_digits, digits_chunkBits]
  rfl

theorem chunkText_one (a : UInt8) : chunkText [a] = Base64.encode [a] := by
  have hbits : (chunkBits [a]).toNat / 64 / 64 = Bytes.ofBe [a] * 16 := by
    rw [toNat_chunkBits]
    show _ = (0 * 256 + a.toNat) * 16
    simp only [List.getD_cons_zero, List.getD_cons_succ, List.getD_nil, UInt8.toNat_zero]
    omega
  rw [Base64.encode, ← hbits, ← dropLast_digits, ← dropLast_digits, digits_chunkBits]
  rfl

/-! ### Both loops -/

/-- The chunks of a text, each as its characters, are the padded text. -/
theorem flatMap_chunkText (bytes : List UInt8) :
    (chunks3 bytes).flatMap chunkText = Base64.encode bytes := by
  fun_induction Base64.encode bytes with
  | case1 => rfl
  | case2 a => exact (List.append_nil _).trans (chunkText_one a)
  | case3 a b => exact (List.append_nil _).trans (chunkText_two a b)
  | case4 a b c rest ih => rw [chunks3, List.flatMap_cons, ih, chunkText_three]

/-- A loop whose turn appends a chunk's characters. -/
theorem toList_foldl_chunks {step : String → List UInt8 → String}
    (hstep : ∀ out chunk, (step out chunk).toList = out.toList ++ chunkText chunk)
    (chunks : List (List UInt8)) (out : String) :
    (chunks.foldl step out).toList = out.toList ++ chunks.flatMap chunkText := by
  induction chunks generalizing out with
  | nil => simp
  | cons chunk chunks ih => rw [List.foldl_cons, ih, hstep, List.flatMap_cons, List.append_assoc]

theorem toList_b64 (bytes : List UInt8) : (Wsrpc.b64 bytes).toList = Base64.encode bytes := by
  have hstep (out : String) (chunk : List UInt8) :
      (Wsrpc.b64Step out chunk).toList = out.toList ++ chunkText chunk := by
    simp [Wsrpc.b64Step, chunkText]
  rw [Wsrpc.b64, toList_foldl_chunks hstep, flatMap_chunkText]
  rfl

theorem toList_rootBasicText (bytes : List UInt8) :
    (rootBasicText bytes).toList = Base64.encode bytes := by
  have hstep (out : String) (chunk : List UInt8) :
      (rootBasicStep out chunk).toList = out.toList ++ chunkText chunk := by
    simp [rootBasicStep, chunkText, toString]
  rw [rootBasicText, toList_foldl_chunks hstep, flatMap_chunkText]
  rfl

/-- Both encoders build the one text that a standard decoder reads as the bytes, and agree; the header
of the root user is that of its name and password. -/
theorem credentials_base64 :
    (∀ bytes : List UInt8,
      (∀ text : String, Base64.decode text.toList = some bytes ↔ text = Wsrpc.b64 bytes) ∧
      (∀ text : String, Base64.decode text.toList = some bytes ↔ text = rootBasicText bytes) ∧
      rootBasicText bytes = Wsrpc.b64 bytes) ∧
    ∀ rootUser rootPass : String, rootBasic rootUser rootPass
      = "Basic " ++ Wsrpc.b64 (rootUser ++ ":" ++ rootPass).toUTF8.data.toList := by
  have hagree (bytes : List UInt8) : rootBasicText bytes = Wsrpc.b64 bytes :=
    String.toList_inj.mp ((toList_rootBasicText bytes).trans (toList_b64 bytes).symm)
  have hread (bytes : List UInt8) (text : String) :
      Base64.decode text.toList = some bytes ↔ text = Wsrpc.b64 bytes := by
    rw [Base64.decode_eq_some_iff, ← toList_b64, String.toList_inj]
  refine ⟨fun bytes => ⟨hread bytes, fun text => ?_, hagree bytes⟩, fun rootUser rootPass => ?_⟩
  · rw [hagree, hread]
  · rw [rootBasic, hagree]

end Frust.Kernel
