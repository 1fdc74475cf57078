import Frust.AppSdk.Tar
import Frust.Lib.Bytes
import Frust.Lib.Prog

/-!
# `Frust.Proofs.AppSdk.Tar`: the archive is read back

`readTar` reads the format from its own rules: blocks of 512 bytes, a header that begins with a name
and has its numbers in octal digits, a checksum over the header with blanks in its place, the content
in whole blocks, two empty blocks at the end. `readTar_writeTar` says that it reads what `writeTar`
wrote, for every list of files that it writes. A path or a size that does not fit is an error
(`tarHeader_error`), so nothing is cut.
-/

set_option autoImplicit false

namespace Frust.AppSdk

open Frust.Lib.Buffer Frust.Lib.Bytes

/-! ### The format -/

/-- A text in a field: up to the first NUL, or all of the field. -/
def fieldName (l : List UInt8) : List UInt8 := l.takeWhile (· ≠ 0)

/-- A digit of base 8. -/
def isOctal (b : UInt8) : Bool := 48 ≤ b && b ≤ 55

/-- The number that digits spell. -/
def ofOctal (l : List UInt8) : Nat := l.foldl (fun n b => 8 * n + (b.toNat - 48)) 0

/-- A number in a field: digits up to the first NUL or blank. -/
def fieldNumber (l : List UInt8) : Option Nat :=
  let digits := l.takeWhile fun b => b ≠ 0 && b ≠ 32
  if digits ≠ [] ∧ digits.all isOctal = true then some (ofOctal digits) else none

/-- A header says the path of a file and its size, where the checksum is right. -/
def readHeader (header : List UInt8) : Option (String × Nat) := do
  let sum ← fieldNumber (slice header 148 8)
  let size ← fieldNumber (slice header 124 12)
  let folder := fieldName (slice header 345 155)
  let name := fieldName (slice header 0 100)
  let path ← String.fromUTF8? ⟨(if folder = [] then name else folder ++ 47 :: name).toArray⟩
  if slice header 257 6 = bytesOf "ustar\x00" ∧ slice header 263 2 = bytesOf "00" ∧
      (slice header 156 1 = [48] ∨ slice header 156 1 = [0]) ∧
      sum = checksum (patch header 148 (List.replicate 8 32)) then
    return (path, size)
  else none

/-- The length of whole blocks. -/
def blocks (size : Nat) : Nat := (size + 511) / 512 * 512

/-- The first file, and what follows it. -/
def readEntry (l : List UInt8) : Option ((String × List UInt8) × List UInt8) := do
  let (header, rest) ← takeExact 512 l
  let (path, size) ← readHeader header
  let (content, rest) ← takeExact (blocks size) rest
  return ((path, content.take size), rest)

/-- The end of an archive: two empty blocks. -/
def atEnd (l : List UInt8) : Bool := l.length == 1024 && l.all (· == 0)

theorem readEntry_inv {l rest : List UInt8} {e : String × List UInt8}
    (h : readEntry l = some (e, rest)) : rest.length < l.length := by
  unfold readEntry at h
  simp only [Option.bind_eq_bind, Option.bind_eq_some_iff, Option.pure_def, Option.some.injEq,
    Prod.mk.injEq] at h
  obtain ⟨⟨header, rest₁⟩, hheader, ⟨path, size⟩, -, ⟨content, rest₂⟩, hcontent, -, rfl⟩ := h
  obtain ⟨rfl, hlen⟩ := takeExact_inv hheader
  obtain ⟨hrest, -⟩ := takeExact_inv hcontent
  replace hrest : rest₁ = content ++ rest₂ := hrest
  show rest₂.length < _
  rw [hrest, List.length_append, List.length_append]
  omega

/-- The files of an archive. -/
def readTar (l : List UInt8) : Option (List (String × List UInt8)) :=
  if atEnd l then some []
  else
    match _hentry : readEntry l with
    | none => none
    | some (e, rest) => (readTar rest).map (e :: ·)
termination_by l.length
decreasing_by exact readEntry_inv _hentry

/-! ### Numbers -/

/-- The digits of a number are digits of its base. -/
theorem exists_digitChar (n : Nat) : ∀ c ∈ Nat.toDigits 8 n, ∃ d < 8, c = d.digitChar := by
  induction n using Nat.strong_induction_on with
  | _ n ih =>
      rw [Nat.toDigits_eq_if (by decide)]
      split
      · rename_i hlt
        intro c hc
        exact ⟨n, hlt, List.mem_singleton.mp hc⟩
      · rename_i hge
        intro c hc
        rw [List.mem_append] at hc
        rcases hc with hc | hc
        · exact ih (n / 8) (by omega) c hc
        · exact ⟨n % 8, by omega, List.mem_singleton.mp hc⟩

theorem toNat_of_digitChar {d : Nat} (hd : d < 8) :
    (UInt8.ofNat d.digitChar.toNat).toNat = d.digitChar.toNat := by
  rw [Nat.toNat_digitChar_of_lt_ten (by omega), UInt8.toNat_ofNat', Nat.mod_eq_of_lt (by omega)]

theorem octal_eq (width value : Nat) :
    octal width value = List.replicate (width - (Nat.toDigits 8 value).length) 48
      ++ (Nat.toDigits 8 value).map fun c => UInt8.ofNat c.toNat := by
  unfold octal List.leftpad
  rw [List.map_append, List.map_replicate]
  rfl

/-- A number that fits has just the width. -/
theorem length_octal {width value : Nat} (hw : 0 < width) :
    (octal width value).length = width ↔ value < 8 ^ width := by
  have hle := Nat.length_toDigits_le_iff (n := value) (b := 8) (by decide) hw
  rw [← hle, octal_eq, List.length_append, List.length_replicate, List.length_map]
  omega

theorem isOctal_octal (width value : Nat) : ∀ b ∈ octal width value, isOctal b = true := by
  intro b hb
  rw [octal_eq, List.mem_append] at hb
  rcases hb with hpad | hdigit
  · rw [List.eq_of_mem_replicate hpad]
    rfl
  · obtain ⟨c, hc, rfl⟩ := List.mem_map.mp hdigit
    obtain ⟨d, hd, rfl⟩ := exists_digitChar value c hc
    have h : ∀ d < 8, isOctal (UInt8.ofNat d.digitChar.toNat) = true := by decide
    exact h d hd

theorem ofOctal_octal (width value : Nat) : ofOctal (octal width value) = value := by
  have hfold (cs : List Char) (hcs : ∀ c ∈ cs, ∃ d < 8, c = Nat.digitChar d) (n : Nat) :
      (cs.map fun c => UInt8.ofNat c.toNat).foldl (fun n b => 8 * n + (b.toNat - 48)) n
        = Nat.ofDigitChars 8 cs n := by
    induction cs generalizing n with
    | nil => rfl
    | cons c cs ih =>
        obtain ⟨d, hd, rfl⟩ := hcs c List.mem_cons_self
        rw [List.map_cons, List.foldl_cons, toNat_of_digitChar hd, Nat.ofDigitChars_cons,
          ih fun c hc => hcs c (List.mem_cons_of_mem _ hc)]
        rfl
  unfold ofOctal octal
  rw [hfold]
  · unfold List.leftpad
    rw [Nat.ofDigitChars_append, Nat.ofDigitChars_replicate_zero, Nat.mul_zero,
      Nat.ofDigitChars_toDigits (by decide) (by decide)]
  · intro c hc
    unfold List.leftpad at hc
    rcases List.mem_append.mp hc with hpad | hdigit
    · exact ⟨0, by decide, List.eq_of_mem_replicate hpad⟩
    · exact exists_digitChar value c hdigit

/-- A written number is read, up to the byte that ends it. -/
theorem fieldNumber_octal {width value : Nat} (hw : 0 < width) (hfit : value < 8 ^ width)
    {b : UInt8} (hb : b = 0 ∨ b = 32) (rest : List UInt8) :
    fieldNumber (octal width value ++ b :: rest) = some value := by
  have hdigits : (octal width value ++ b :: rest).takeWhile (fun b => b ≠ 0 && b ≠ 32)
      = octal width value := by
    rw [List.takeWhile_append_of_pos]
    · rcases hb with rfl | rfl <;> simp
    · intro c hc
      have hc := isOctal_octal width value c hc
      have h : ∀ c : UInt8, isOctal c = true → (c ≠ 0 && c ≠ 32) = true := by
        intro c hc
        by_contra hno
        simp only [Bool.and_eq_true, decide_eq_true_eq, not_and_or, not_not] at hno
        rcases hno with rfl | rfl <;> cases hc
      exact h c hc
  have hne : octal width value ≠ [] := by
    intro h
    have hlen := (length_octal hw).mpr hfit
    rw [h] at hlen
    exact absurd hlen (by simp; omega)
  unfold fieldNumber
  simp only [hdigits]
  rw [if_pos ⟨hne, List.all_eq_true.mpr (isOctal_octal width value)⟩, ofOctal_octal]

/-! ### A header -/

/-- A file that the format has room for. -/
structure Fits (path : String) (size : Nat) : Prop where
  ascii : (bytesOf path).all (· < 128) = true
  name : (bytesOf path).length ≤ 100
  size : size < 8 ^ 11

/-- A number as it is in a field of `len` bytes. -/
def number (len value : Nat) : List UInt8 := octal (len - 1) value ++ [0]

/-- What a header has at which places, before its checksum. -/
def pieces (path : String) (size : Nat) : List (Nat × List UInt8) :=
  [(0, bytesOf path), (100, number 8 0o644), (108, number 8 0), (116, number 8 0)]
    ++ (124, number 12 size)
      :: [(136, number 12 0), (148, List.replicate 8 32), (156, [48]),
        (257, bytesOf "ustar\x00"), (263, bytesOf "00")]

theorem length_number {len value : Nat} (hlen : 1 < len) (hfit : value < 8 ^ (len - 1)) :
    (number len value).length = len := by
  unfold number
  rw [List.length_append, (length_octal (by omega)).mpr hfit, List.length_singleton]
  omega

theorem writeOctal_eq {len : Nat} (header : List UInt8) (i value : Nat) (hlen : 1 < len) :
    writeOctal header i len value =
      if value < 8 ^ (len - 1) then .ok (patch header i (number len value))
      else .error (.invalidInput "bundle entry is too large for a USTAR header") := by
  have hoctal : (octal (len - 1) value).length = len - 1 ↔ value < 8 ^ (len - 1) :=
    length_octal (by omega)
  unfold writeOctal
  by_cases hfit : value < 8 ^ (len - 1)
  · have h := length_number hlen hfit
    rw [if_pos hfit]
    exact if_neg (not_not.mpr h)
  · rw [if_neg hfit]
    refine if_pos ?_
    rw [List.length_append, List.length_singleton]
    intro h
    exact hfit (hoctal.mp (by omega))

/-- The header of a file that fits is what its pieces make of an empty one. -/
theorem blankHeader_eq {path : String} {size : Nat} (h : Fits path size) :
    blankHeader path size = .ok (patches (List.replicate 512 0) (pieces path size)) := by
  have hname : (!(bytesOf path).all (· < 128) || decide (100 < (bytesOf path).length)) = false := by
    rw [h.ascii, decide_eq_false (by have := h.name; omega)]
    rfl
  have hsize : size < 8 ^ (12 - 1) := h.size
  unfold blankHeader
  rw [hname]
  simp only [writeOctal_eq _ _ _ (show 1 < 8 by decide), writeOctal_eq _ _ _ (show 1 < 12 by decide),
    if_pos hsize]
  rfl

/-- A path or a size that does not fit is refused. -/
theorem blankHeader_error {path : String} {size : Nat} (h : ¬ Fits path size) :
    ∃ e, blankHeader path size = .error e := by
  unfold blankHeader
  split
  · exact ⟨_, rfl⟩
  · rename_i hname
    have hsize : ¬ size < 8 ^ (12 - 1) := by
      intro hsize
      simp only [Bool.or_eq_true, Bool.not_eq_true', decide_eq_true_eq, not_or, Bool.not_eq_false,
        not_lt] at hname
      exact h ⟨hname.1, hname.2, hsize⟩
    simp only [writeOctal_eq _ _ _ (show 1 < 8 by decide),
      writeOctal_eq _ _ _ (show 1 < 12 by decide), if_neg hsize]
    exact ⟨_, rfl⟩

section

variable {path : String} {size : Nat}

/-- The header before its checksum. -/
def blank (path : String) (size : Nat) : List UInt8 :=
  patches (List.replicate 512 0) (pieces path size)

/-- The places and lengths of the pieces. -/
theorem length_pieces (h : Fits path size) :
    (pieces path size).map (fun p => (p.1, p.2.length))
      = [(0, (bytesOf path).length), (100, 8), (108, 8), (116, 8), (124, 12), (136, 12), (148, 8),
        (156, 1), (257, 6), (263, 2)] := by
  have h₈ : ∀ value < 8 ^ 7, (number 8 value).length = 8 := fun _ hv => length_number (by decide) hv
  have h₁₂ : ∀ value < 8 ^ 11, (number 12 value).length = 12 :=
    fun _ hv => length_number (by decide) hv
  have hustar : (bytesOf "ustar\x00").length = 6 := by decide +kernel
  have hversion : (bytesOf "00").length = 2 := by decide +kernel
  simp [pieces, h₈, h₁₂ size h.size, h₁₂ 0, hustar, hversion]

theorem inside_pieces (h : Fits path size) :
    ∀ p ∈ pieces path size, Inside (List.replicate 512 (0 : UInt8)).length p := by
  intro p hp
  have hmem := List.mem_map_of_mem (f := fun p : Nat × List UInt8 => (p.1, p.2.length)) hp
  rw [length_pieces h] at hmem
  have hname := h.name
  unfold Inside
  rw [List.length_replicate]
  simp only [List.mem_cons, Prod.mk.injEq, List.not_mem_nil, or_false] at hmem
  omega

theorem length_blank (h : Fits path size) : (blank path size).length = 512 := by
  rw [blank, length_patches (inside_pieces h), List.length_replicate]

/-- A piece is read where the later ones are apart from it. -/
theorem slice_blank (h : Fits path size) {k : Nat} {p : Nat × List UInt8}
    (hp : (pieces path size)[k]? = some p)
    (hapart : ∀ q ∈ (pieces path size).drop (k + 1), Apart p.1 p.2.length q) :
    slice (blank path size) p.1 p.2.length = p.2 := by
  obtain ⟨hk, hget⟩ := List.getElem?_eq_some_iff.mp hp
  have hpieces : pieces path size
      = (pieces path size).take k ++ p :: (pieces path size).drop (k + 1) := by
    rw [← hget, ← List.drop_eq_getElem_cons hk, List.take_append_drop]
  have hinside := inside_pieces h
  rw [hpieces] at hinside
  rw [blank, hpieces]
  exact slice_patches hinside hapart

theorem slice_size (h : Fits path size) : slice (blank path size) 124 12 = number 12 size := by
  have hlen : (number 12 size).length = 12 := length_number (by decide) h.size
  have hp : (pieces path size)[4]? = some (124, number 12 size) := rfl
  have hslice := slice_blank h hp (by simp [pieces, Apart, hlen])
  rwa [hlen] at hslice

/-- Blanks are in the field of the checksum. -/
theorem slice_checksum (h : Fits path size) :
    slice (blank path size) 148 8 = List.replicate 8 32 := by
  have hp : (pieces path size)[6]? = some (148, List.replicate 8 32) := rfl
  have hslice := slice_blank h hp (by simp [pieces, Apart])
  rwa [List.length_replicate] at hslice

theorem slice_type (h : Fits path size) : slice (blank path size) 156 1 = [48] := by
  have hp : (pieces path size)[7]? = some (156, [48]) := rfl
  have hslice := slice_blank h hp (by simp [pieces, Apart])
  rwa [List.length_singleton] at hslice

theorem slice_magic (h : Fits path size) :
    slice (blank path size) 257 6 = bytesOf "ustar\x00" := by
  have hlen : (bytesOf "ustar\x00").length = 6 := by decide +kernel
  have hp : (pieces path size)[8]? = some (257, bytesOf "ustar\x00") := rfl
  have hslice := slice_blank h hp (by simp [pieces, Apart, hlen])
  rwa [hlen] at hslice

theorem slice_version (h : Fits path size) : slice (blank path size) 263 2 = bytesOf "00" := by
  have hlen : (bytesOf "00").length = 2 := by decide +kernel
  have hp : (pieces path size)[9]? = some (263, bytesOf "00") := rfl
  have hslice := slice_blank h hp (by simp [pieces])
  rwa [hlen] at hslice

/-- Nothing is in the field of a folder. -/
theorem slice_folder (h : Fits path size) :
    slice (blank path size) 345 155 = List.replicate 155 0 := by
  have hname := h.name
  have hapart : ∀ p ∈ pieces path size, Apart 345 155 p := by
    intro p hp
    have hmem := List.mem_map_of_mem (f := fun p : Nat × List UInt8 => (p.1, p.2.length)) hp
    rw [length_pieces h] at hmem
    unfold Apart
    simp only [List.mem_cons, Prod.mk.injEq, List.not_mem_nil, or_false] at hmem
    omega
  rw [blank, slice_patches_of_apart (inside_pieces h) hapart, slice, List.drop_replicate,
    List.take_replicate, show min 155 (512 - 345) = 155 by decide]

/-- The path is in its field, with zeros up to its end. -/
theorem slice_name (h : Fits path size) :
    slice (blank path size) 0 100
      = bytesOf path ++ List.replicate (100 - (bytesOf path).length) 0 := by
  have hname := h.name
  have hapart : ∀ p ∈ (pieces path size).tail, Apart 0 100 p := by
    intro p hp
    have hmem := List.mem_map_of_mem (f := fun p : Nat × List UInt8 => (p.1, p.2.length)) hp
    rw [List.map_tail, length_pieces h] at hmem
    unfold Apart
    simp only [List.tail_cons, List.mem_cons, Prod.mk.injEq, List.not_mem_nil, or_false] at hmem
    omega
  have hinside : ∀ p ∈ (pieces path size).tail,
      Inside (patch (List.replicate 512 (0 : UInt8)) 0 (bytesOf path)).length p := by
    intro p hp
    rw [length_patch (by rw [List.length_replicate]; omega)]
    exact inside_pieces h p (List.mem_of_mem_tail hp)
  have hpieces : pieces path size = (0, bytesOf path) :: (pieces path size).tail := rfl
  rw [blank, hpieces, patches_cons, slice_patches_of_apart hinside hapart]
  unfold slice patch
  rw [List.take_zero, List.nil_append, List.drop_zero, List.drop_replicate, List.take_append,
    List.take_of_length_le (by omega), List.take_replicate]
  congr 2
  omega

/-! ### The checksum -/

/-- A checksum has six digits at most. -/
theorem checksum_lt {header : List UInt8} (h : header.length = 512) :
    checksum header < 8 ^ 6 := by
  have hbound (l : List UInt8) : checksum l ≤ 255 * l.length := by
    induction l with
    | nil => exact Nat.le_refl _
    | cons b l ih =>
        have hb : b.toNat < 256 := b.toNat_lt
        show b.toNat + checksum l ≤ 255 * (l.length + 1)
        omega
  have := hbound header
  omega

/-- The header of a file. -/
def sealed (path : String) (size : Nat) : List UInt8 :=
  patch (blank path size) 148 (octal 6 (checksum (blank path size)) ++ [0, 32])

theorem tarHeader_eq (h : Fits path size) : tarHeader path size = .ok (sealed path size) := by
  unfold tarHeader
  rw [blankHeader_eq h]
  rfl

/-- Nothing is cut: what does not fit is an error. -/
theorem tarHeader_error (h : ¬ Fits path size) : ∃ e, tarHeader path size = .error e := by
  obtain ⟨e, he⟩ := blankHeader_error h
  unfold tarHeader
  rw [he]
  exact ⟨e, rfl⟩

theorem length_sum (h : Fits path size) :
    (octal 6 (checksum (blank path size)) ++ [0, 32]).length = 8 := by
  have hsum := (length_octal (by decide)).mpr (checksum_lt (length_blank h))
  rw [List.length_append, hsum]
  rfl

theorem inside_sum (h : Fits path size) :
    148 + (octal 6 (checksum (blank path size)) ++ [0, 32]).length ≤ (blank path size).length := by
  rw [length_sum h, length_blank h]
  decide

theorem length_sealed (h : Fits path size) : (sealed path size).length = 512 := by
  rw [sealed, length_patch (inside_sum h), length_blank h]

/-- A field apart from the checksum is as it was before. -/
theorem slice_sealed (h : Fits path size) {j n : Nat} (hapart : j + n ≤ 148 ∨ 156 ≤ j) :
    slice (sealed path size) j n = slice (blank path size) j n := by
  refine slice_patch_of_apart (inside_sum h) ?_
  rw [length_sum h]
  exact hapart

/-- With blanks in the place of its checksum the header is what the checksum was taken of. -/
theorem blank_sealed (h : Fits path size) :
    patch (sealed path size) 148 (List.replicate 8 32) = blank path size := by
  unfold sealed
  rw [patch_patch (inside_sum h) (by rw [length_sum h, List.length_replicate]),
    ← slice_checksum h, patch_slice (by rw [length_blank h]; decide)]

/-! ### A header is read -/

theorem fieldNumber_sum (h : Fits path size) :
    fieldNumber (slice (sealed path size) 148 8) = some (checksum (blank path size)) := by
  have hslice := slice_patch_self (inside_sum h)
  rw [length_sum h] at hslice
  unfold sealed
  rw [hslice]
  exact fieldNumber_octal (by decide) (checksum_lt (length_blank h)) (.inl rfl) [32]

theorem fieldNumber_size (h : Fits path size) :
    fieldNumber (slice (sealed path size) 124 12) = some size := by
  rw [slice_sealed h (.inl (by decide)), slice_size h]
  exact fieldNumber_octal (by decide) h.size (.inl rfl) []

theorem fieldName_folder (h : Fits path size) :
    fieldName (slice (sealed path size) 345 155) = [] := by
  rw [slice_sealed h (.inr (by decide)), slice_folder h]
  rfl

theorem fieldName_name (h : Fits path size) (hnul : 0 ∉ bytesOf path) :
    fieldName (slice (sealed path size) 0 100) = bytesOf path := by
  rw [slice_sealed h (.inl (by decide)), slice_name h]
  unfold fieldName
  rw [List.takeWhile_append_of_pos]
  · cases 100 - (bytesOf path).length with
    | zero => exact List.append_nil _
    | succ n => simp [List.replicate_succ]
  · intro b hb
    rw [decide_eq_true_iff]
    rintro rfl
    exact hnul hb

theorem fromUTF8?_bytesOf (path : String) : String.fromUTF8? ⟨(bytesOf path).toArray⟩ = some path := by
  have harray : (⟨(bytesOf path).toArray⟩ : ByteArray) = path.toByteArray := rfl
  rw [harray]
  unfold String.fromUTF8?
  rw [dif_pos path.isValidUTF8]
  rfl

theorem readHeader_sealed (h : Fits path size) (hnul : 0 ∉ bytesOf path) :
    readHeader (sealed path size) = some (path, size) := by
  have hmagic := (slice_sealed h (.inr (by decide))).trans (slice_magic h)
  have hversion := (slice_sealed h (.inr (by decide))).trans (slice_version h)
  have htype := (slice_sealed h (.inr (by decide))).trans (slice_type h)
  unfold readHeader
  rw [fieldNumber_sum h, fieldNumber_size h, fieldName_folder h, fieldName_name h hnul]
  simp only [Option.bind_eq_bind, Option.bind_some, if_true]
  rw [fromUTF8?_bytesOf, hmagic, hversion, htype, blank_sealed h]
  simp

end

/-! ### An archive -/

/-- What is written for a file: its header, its bytes, and zeros up to a whole block. -/
def entryBytes (f : String × List UInt8) : List UInt8 :=
  sealed f.1 f.2.length ++ (f.2 ++ List.replicate (padding f.2.length) 0)

/-- An archive. -/
def archive (files : List (String × List UInt8)) : List UInt8 :=
  files.flatMap entryBytes ++ List.replicate 1024 0

theorem blocks_eq (size : Nat) : blocks size = size + padding size := by
  unfold blocks padding
  omega

/-- A file that was written is read, and what follows it is left. -/
theorem readEntry_entryBytes {f : String × List UInt8} (h : Fits f.1 f.2.length)
    (hnul : 0 ∉ bytesOf f.1) (rest : List UInt8) :
    readEntry (entryBytes f ++ rest) = some (f, rest) := by
  have hlen : (f.2 ++ List.replicate (padding f.2.length) 0).length = blocks f.2.length := by
    rw [List.length_append, List.length_replicate, blocks_eq]
  unfold readEntry entryBytes
  rw [List.append_assoc, takeExact_append (length_sealed h)]
  simp only [Option.bind_eq_bind, Option.bind_some, readHeader_sealed h hnul]
  rw [takeExact_append hlen]
  simp

/-- A header is not empty, so that the end of the archive is not taken for one. -/
theorem atEnd_entryBytes {f : String × List UInt8} (h : Fits f.1 f.2.length) (rest : List UInt8) :
    atEnd (entryBytes f ++ rest) = false := by
  have hmagic := (slice_sealed h (.inr (by decide))).trans (slice_magic h)
  have hmem : (117 : UInt8) ∈ slice (sealed f.1 f.2.length) 257 6 := by
    rw [hmagic]
    decide +kernel
  have hall : (entryBytes f ++ rest).all (· == 0) = false := by
    rw [List.all_eq_false]
    refine ⟨117, ?_, by decide⟩
    exact List.mem_append_left _ (List.mem_append_left _ (mem_slice hmem))
  unfold atEnd
  rw [hall, Bool.and_false]

theorem atEnd_replicate : atEnd (List.replicate 1024 0) = true := by
  unfold atEnd
  rw [List.length_replicate, List.all_replicate]
  rfl

theorem readTar_archive {files : List (String × List UInt8)}
    (h : ∀ f ∈ files, Fits f.1 f.2.length ∧ 0 ∉ bytesOf f.1) :
    readTar (archive files) = some files := by
  induction files with
  | nil =>
      unfold readTar archive
      rw [List.flatMap_nil, List.nil_append, atEnd_replicate]
      rfl
  | cons f files ih =>
      obtain ⟨hfits, hnul⟩ := h f List.mem_cons_self
      have harchive : archive (f :: files) = entryBytes f ++ archive files := by
        unfold archive
        rw [List.flatMap_cons, List.append_assoc]
      rw [harchive, readTar, atEnd_entryBytes hfits, if_neg Bool.false_ne_true]
      split
      · rename_i hnone
        rw [readEntry_entryBytes hfits hnul] at hnone
        cases hnone
      · rename_i e rest hsome
        rw [readEntry_entryBytes hfits hnul] at hsome
        obtain ⟨rfl, rfl⟩ := Prod.mk.inj (Option.some.inj hsome)
        rw [ih fun g hg => h g (List.mem_cons_of_mem _ hg)]
        rfl

/-! ### What is written -/

section

variable {takes : List UInt8 → List UInt8 → Bool} {out out' bytes : List UInt8}

theorem writeAll_ok (h : writeAll takes out bytes = .ok out') : out' = out ++ bytes := by
  unfold writeAll at h
  split at h
  · exact (Except.ok.inj h).symm
  · cases h

/-- Whole blocks need no zeros, and none are written for them. -/
theorem writePadding_ok {size : Nat} (h : writePadding takes out size = .ok out') :
    out' = out ++ List.replicate (padding size) 0 := by
  unfold writePadding at h
  by_cases hzero : padding size = 0
  · rw [if_neg (not_not.mpr hzero)] at h
    rw [hzero, List.replicate_zero, List.append_nil]
    exact (Except.ok.inj h).symm
  · rw [if_pos hzero] at h
    exact writeAll_ok h

/-- One turn of the loop writes one file, which fits. -/
theorem writeTar_cons_ok {f : String × List UInt8} {files : List (String × List UInt8)}
    (h : writeTar takes out (f :: files) = .ok out') :
    Fits f.1 f.2.length ∧ writeTar takes (out ++ entryBytes f) files = .ok out' := by
  have hfits : Fits f.1 f.2.length := by
    by_contra hno
    obtain ⟨e, he⟩ := tarHeader_error hno
    rw [writeTar, he] at h
    cases h
  refine ⟨hfits, ?_⟩
  rw [writeTar, tarHeader_eq hfits] at h
  obtain ⟨header, hheader, hafter⟩ := Frust.Lib.bind_eq_ok h
  obtain ⟨out₁, h₁, hafter₁⟩ := Frust.Lib.bind_eq_ok hafter
  obtain ⟨out₂, h₂, hafter₂⟩ := Frust.Lib.bind_eq_ok hafter₁
  obtain ⟨out₃, h₃, hrest⟩ := Frust.Lib.bind_eq_ok hafter₂
  obtain rfl := Except.ok.inj hheader
  rw [writePadding_ok h₃, writeAll_ok h₂, writeAll_ok h₁] at hrest
  unfold entryBytes
  rw [← List.append_assoc, ← List.append_assoc]
  exact hrest

/-- What is written at the end is the archive of the files. -/
theorem writeTar_ok {files : List (String × List UInt8)}
    (h : writeTar takes out files = .ok out') :
    (∀ f ∈ files, Fits f.1 f.2.length) ∧ out' = out ++ archive files := by
  induction files generalizing out with
  | nil =>
      refine ⟨by simp, ?_⟩
      rw [writeTar] at h
      exact writeAll_ok h
  | cons f files ih =>
      obtain ⟨hfits, hrest⟩ := writeTar_cons_ok h
      obtain ⟨hall, heq⟩ := ih hrest
      refine ⟨List.forall_mem_cons.mpr ⟨hfits, hall⟩, ?_⟩
      rw [heq]
      unfold archive
      rw [List.flatMap_cons, List.append_assoc, List.append_assoc]

/-- A writer that takes everything is given the archive of files that fit. -/
theorem writeTar_of_fits {files : List (String × List UInt8)}
    (h : ∀ f ∈ files, Fits f.1 f.2.length) (out : List UInt8) :
    writeTar (fun _ _ => true) out files = .ok (out ++ archive files) := by
  induction files generalizing out with
  | nil => rfl
  | cons f files ih =>
      have hpad (out : List UInt8) : writePadding (fun _ _ => true) out f.2.length
          = .ok (out ++ List.replicate (padding f.2.length) 0) := by
        unfold writePadding
        split
        · rfl
        · rename_i hzero
          rw [not_not.mp hzero, List.replicate_zero, List.append_nil]
      rw [writeTar, tarHeader_eq (h f List.mem_cons_self)]
      show (writePadding _ (out ++ sealed f.1 f.2.length ++ f.2) f.2.length >>= _) = _
      rw [hpad]
      show writeTar _ (out ++ sealed f.1 f.2.length ++ f.2 ++ _) files = _
      rw [ih fun g hg => h g (List.mem_cons_of_mem _ hg)]
      unfold archive
      rw [List.flatMap_cons, entryBytes]
      simp only [List.append_assoc]

end

/-- An archive that was written is read as the files it was written for, each checksum right. What the
format has no room for is an error, and everything else is written where the writer takes it. -/
theorem readTar_writeTar (takes : List UInt8 → List UInt8 → Bool)
    (files : List (String × List UInt8)) :
    ((∀ f ∈ files, 0 ∉ bytesOf f.1) →
        ∀ out, writeTar takes [] files = .ok out → readTar out = some files) ∧
      ((∃ f ∈ files, ¬ Fits f.1 f.2.length) → ∃ e, writeTar takes [] files = .error e) ∧
      ((∀ f ∈ files, Fits f.1 f.2.length) →
        writeTar (fun _ _ => true) [] files = .ok (archive files)) := by
  refine ⟨fun hnul out h => ?_, fun hno => ?_, fun h => writeTar_of_fits h []⟩
  · obtain ⟨hall, rfl⟩ := writeTar_ok h
    exact readTar_archive fun f hf => ⟨hall f hf, hnul f hf⟩
  · obtain ⟨f, hf, hno⟩ := hno
    cases h : writeTar takes [] files with
    | error e => exact ⟨e, rfl⟩
    | ok out => exact absurd ((writeTar_ok h).1 f hf) hno

/-- An empty file and one of a byte. -/
theorem readTar_writeTar_two :
    writeTar (fun _ _ => true) [] [("manifest.json", []), ("wit/plugin.wit", [10])]
        = .ok (archive [("manifest.json", []), ("wit/plugin.wit", [10])]) ∧
      readTar (archive [("manifest.json", []), ("wit/plugin.wit", [10])])
        = some [("manifest.json", []), ("wit/plugin.wit", [10])] := by
  have hfits : ∀ f ∈ [("manifest.json", []), ("wit/plugin.wit", [(10 : UInt8)])],
      Fits f.1 f.2.length := by
    simp only [List.forall_mem_cons, List.not_mem_nil, false_imp_iff, implies_true, and_true]
    exact ⟨⟨by decide +kernel, by decide +kernel, by decide⟩,
      ⟨by decide +kernel, by decide +kernel, by decide⟩⟩
  have hnul : ∀ f ∈ [("manifest.json", []), ("wit/plugin.wit", [(10 : UInt8)])],
      0 ∉ bytesOf f.1 := by decide +kernel
  obtain ⟨hread, -, hwrite⟩ := readTar_writeTar (fun _ _ => true)
    [("manifest.json", []), ("wit/plugin.wit", [10])]
  exact ⟨hwrite hfits, hread hnul _ (hwrite hfits)⟩

end Frust.AppSdk
