import Frust.Kernel.Feed
import Frust.Proofs.Rust.Str

/-!
# `Frust.Proofs.Kernel.Percent`: the lines of a text diff, as they are written

A line of a text diff has its text in percent encoding: a character stands for itself, or each
byte of its UTF-8 is a `%` and two digits. A line of any such text is read as the text
(`decodeLine_written`), a number as the number, and lines that end in `\n` as those lines.
-/

set_option autoImplicit false

namespace Frust.Kernel.Feed

open Frust.Rust.Str

/-! ### Percent encoding -/

/-- The hexadecimal digits, in either case. -/
def hexDigits : List (Char × UInt8) :=
  [('0', 0), ('1', 1), ('2', 2), ('3', 3), ('4', 4), ('5', 5), ('6', 6), ('7', 7), ('8', 8),
    ('9', 9), ('a', 10), ('b', 11), ('c', 12), ('d', 13), ('e', 14), ('f', 15),
    ('A', 10), ('B', 11), ('C', 12), ('D', 13), ('E', 14), ('F', 15)]

/-- Bytes, each as a `%` and two digits. -/
inductive Escaped : List UInt8 → List Char → Prop where
  | nil : Escaped [] []
  | cons {h l : Char} {high low : UInt8} {bytes : List UInt8} {text : List Char} :
      (h, high) ∈ hexDigits → (l, low) ∈ hexDigits → Escaped bytes text →
      Escaped ((16 * high + low) :: bytes) ('%' :: h :: l :: text)

/-- A text, and a line that it is written as. -/
inductive Written : List Char → List Char → Prop where
  | nil : Written [] []
  | plain {c : Char} {text line : List Char} : c ≠ '%' → c ≠ '\n' → c ≠ '\r' →
      Written text line → Written (c :: text) (c :: line)
  | escaped {c : Char} {text escape line : List Char} : Escaped (String.utf8EncodeChar c) escape →
      Written text line → Written (c :: text) (escape ++ line)

theorem unescape_plain {b : UInt8} (hb : b ≠ 37) (line : String) (rest : List UInt8) :
    unescape line (b :: rest) = (unescape line rest).map (b :: ·) := by
  conv_lhs => unfold unescape
  split
  · exact absurd rfl hb
  · rfl

theorem unescape_percent {h l byte : UInt8} (hbyte : hexByte h l = some byte) (line : String)
    (rest : List UInt8) :
    unescape line (37 :: h :: l :: rest) = (unescape line rest).map (byte :: ·) := by
  rw [unescape]
  simp only [hbyte]

theorem ne_of_mem_utf8EncodeChar {c : Char} (hc : c ≠ '%') {b : UInt8}
    (hb : b ∈ String.utf8EncodeChar c) : b ≠ 37 := by
  rintro rfl
  rcases Frust.Rust.utf8EncodeChar_cases c with ⟨hlt, hbytes⟩ | ⟨_, hge⟩
  · rw [hbytes, List.mem_singleton] at hb
    have hnat := congrArg UInt8.toNat hb
    simp at hnat
    have hcode : c.toNat = 37 := by omega
    exact hc (Char.ext (UInt32.toNat_inj.mp hcode))
  · exact absurd (hge 37 hb) (by decide)

theorem unescape_plains {bytes : List UInt8} (h : ∀ b ∈ bytes, b ≠ 37) (line : String)
    (rest : List UInt8) :
    unescape line (bytes ++ rest) = (unescape line rest).map (bytes ++ ·) := by
  induction bytes with
  | nil => cases h : unescape line rest <;> simp [h, Except.map]
  | cons b bytes ih =>
      rw [List.cons_append, unescape_plain (h b List.mem_cons_self),
        ih fun c hc => h c (List.mem_cons_of_mem _ hc)]
      cases unescape line rest <;> rfl

/-- Two digits are read as their byte. -/
theorem hexByte_digits {h l : Char} {high low : UInt8} (hh : (h, high) ∈ hexDigits)
    (hl : (l, low) ∈ hexDigits) :
    String.utf8EncodeChar h = [UInt8.ofNat h.toNat] ∧
      String.utf8EncodeChar l = [UInt8.ofNat l.toNat] ∧
      hexByte (UInt8.ofNat h.toNat) (UInt8.ofNat l.toNat) = some (16 * high + low) := by
  have hall : ∀ p ∈ hexDigits, String.utf8EncodeChar p.1 = [UInt8.ofNat p.1.toNat] ∧
      hexDigit (UInt8.ofNat p.1.toNat) = some p.2 ∧ UInt8.ofNat p.1.toNat ≠ 43 := by decide
  obtain ⟨hencode, hdigit, hplus⟩ := hall _ hh
  obtain ⟨lencode, ldigit, -⟩ := hall _ hl
  refine ⟨hencode, lencode, ?_⟩
  unfold hexByte
  rw [if_neg hplus, hdigit, ldigit]
  rfl

theorem unescape_escaped {bytes : List UInt8} {text : List Char} (h : Escaped bytes text)
    (line : String) (rest : List UInt8) :
    unescape line (text.flatMap String.utf8EncodeChar ++ rest)
      = (unescape line rest).map (bytes ++ ·) := by
  induction h with
  | nil => cases h : unescape line rest <;> simp [h, Except.map]
  | @cons h l high low bytes text hh hl _ ih =>
      have hpercent : String.utf8EncodeChar '%' = [37] := by decide
      obtain ⟨hencode, lencode, hbyte⟩ := hexByte_digits hh hl
      simp only [List.flatMap_cons, hpercent, hencode, lencode, List.cons_append, List.nil_append]
      rw [unescape_percent hbyte, ih]
      cases unescape line rest <;> rfl

theorem unescape_written {text line : List Char} (h : Written text line) (whole : String) :
    unescape whole (line.flatMap String.utf8EncodeChar)
      = .ok (text.flatMap String.utf8EncodeChar) := by
  induction h with
  | nil => rw [List.flatMap_nil, unescape]
  | plain hc _ _ _ ih =>
      rw [List.flatMap_cons, List.flatMap_cons,
        unescape_plains fun b hb => ne_of_mem_utf8EncodeChar hc hb, ih]
      rfl
  | escaped hescape _ ih =>
      rw [List.flatMap_append, List.flatMap_cons, unescape_escaped hescape, ih]
      rfl

/-- A line has no end of a line in it. -/
theorem not_mem_written {text line : List Char} (h : Written text line) :
    '\n' ∉ line ∧ '\r' ∉ line := by
  have hdigits : ∀ p ∈ hexDigits, p.1 ≠ '\n' ∧ p.1 ≠ '\r' := by decide
  have hescaped : ∀ {bytes escape}, Escaped bytes escape → '\n' ∉ escape ∧ '\r' ∉ escape := by
    intro bytes escape hescape
    induction hescape with
    | nil => simp
    | cons hh hl _ ih =>
        have hfirst := hdigits _ hh
        have hsecond := hdigits _ hl
        simp [ih, Ne.symm hfirst.1, Ne.symm hfirst.2, Ne.symm hsecond.1, Ne.symm hsecond.2]
  induction h with
  | nil => simp
  | plain _ hn hr _ ih => simp [ih, Ne.symm hn, Ne.symm hr]
  | escaped hescape _ ih => simp [ih, hescaped hescape]

/-- A line is read as the text that it is written for. -/
theorem decodeLine_written {text line : List Char} (h : Written text line) :
    decodeLine (String.ofList line) = .ok text := by
  have hbytes := Frust.Rust.toUTF8_eq_flatMap line
  have htext : String.fromUTF8? ⟨(text.flatMap String.utf8EncodeChar).toArray⟩
      = some (String.ofList text) := by
    have harray : (⟨(text.flatMap String.utf8EncodeChar).toArray⟩ : ByteArray) = text.utf8Encode :=
      ByteArray.ext List.data_toByteArray.symm
    rw [harray]
    unfold String.fromUTF8?
    rw [dif_pos ByteArray.isValidUTF8_utf8Encode]
    exact congrArg some (String.toByteArray_inj.mp String.toByteArray_ofList.symm)
  unfold decodeLine
  rw [hbytes, unescape_written h]
  refine Eq.trans ?_ (congrArg Except.ok (String.toList_ofList (l := text)))
  simp only [bind, Except.bind, htext]
  rfl

/-! ### Numbers and lines -/

/-- A machine word is read back from its digits. -/
theorem parseUsize_toDigits {n : Nat} (h : n < 2 ^ 64) :
    parseUsize (Nat.toDigits 10 n) = some n := by
  have hdigits : ∀ c ∈ Nat.toDigits 10 n, isAsciiDigit c = true := by
    intro c hc
    have hdigit := Nat.isDigit_of_mem_toDigits (by decide) (by decide) hc
    simp only [Char.isDigit, Bool.and_eq_true, decide_eq_true_iff] at hdigit
    unfold isAsciiDigit
    rw [Bool.and_eq_true, decide_eq_true_iff, decide_eq_true_iff]
    exact hdigit
  have hplus : ∀ rest, Nat.toDigits 10 n ≠ '+' :: rest := by
    intro rest hrest
    have hc := hdigits '+' (by rw [hrest]; exact List.mem_cons_self)
    exact absurd hc (by decide)
  have hcheck : ((Nat.toDigits 10 n).isEmpty || !(Nat.toDigits 10 n).all isAsciiDigit) = false := by
    rw [List.all_eq_true.mpr hdigits, List.isEmpty_eq_false_iff.mpr Nat.toDigits_ne_nil]
    rfl
  unfold parseUsize
  dsimp only
  split
  · exact absurd ‹_› (hplus _)
  · rw [hcheck, if_neg Bool.false_ne_true, Nat.ofDigitChars_ten_toDigits, if_pos h]

theorem splitOn_join {ls : List String} (h : ∀ l ∈ ls, '\n' ∉ l.toList) :
    (String.join (ls.map (· ++ "\n"))).toList.splitOn '\n' = ls.map String.toList ++ [[]] := by
  induction ls with
  | nil => rfl
  | cons l ls ih =>
      rw [List.map_cons, String.join_cons, String.toList_append, String.toList_append,
        List.append_assoc]
      show (l.toList ++ '\n' :: (String.join (ls.map (· ++ "\n"))).toList).splitOn '\n' = _
      rw [List.splitOn_append_cons_self_of_not_mem (h l List.mem_cons_self),
        ih fun m hm => h m (List.mem_cons_of_mem _ hm)]
      rfl

/-- Lines that all end in `\n` are those lines. -/
theorem lines_join {ls : List String} (h : ∀ l ∈ ls, '\n' ∉ l.toList)
    (hr : ∀ l ∈ ls, '\r' ∉ l.toList) :
    lines (String.join (ls.map (· ++ "\n"))) = ls := by
  have hkept : ∀ l ∈ ls, (stripSuffixChar '\r' (String.ofList l.toList)).getD
      (String.ofList l.toList) = l := by
    intro l hl
    have hmem := hr l hl
    rw [← List.mem_reverse] at hmem
    rw [String.ofList_toList]
    unfold stripSuffixChar
    cases hrev : l.toList.reverse with
    | nil => rfl
    | cons d rest =>
        rw [hrev, List.mem_cons, not_or] at hmem
        simp [Ne.symm hmem.1]
  unfold lines
  rw [splitOn_join h]
  dsimp only
  rw [List.dropLast_concat, List.getLast?_concat, List.map_map]
  show ls.map _ ++ [] = ls
  rw [List.append_nil]
  conv_rhs => rw [← List.map_id ls]
  exact List.map_congr_left hkept

end Frust.Kernel.Feed
