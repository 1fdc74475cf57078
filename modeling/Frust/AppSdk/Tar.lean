import Frust.Lib.Buffer
import Mathlib.Algebra.GroupWithZero.Nat

/-!
# `Frust.AppSdk.Tar`: the archive of a bundle

`writeTar` writes an uncompressed archive in the USTAR format: a header of 512 bytes for each file,
with its size and a checksum of the header in octal digits, the bytes of the file filled up to whole
blocks of 512, and two empty blocks. The writer may fail at any write.
-/

set_option autoImplicit false

namespace Frust.AppSdk

open Frust.Lib.Buffer

/-- `io::Error`: one of the archive, or one of the writer. -/
inductive TarError where
  | invalidInput (text : String)
  | writer
  deriving DecidableEq

/-- The bytes of a text. -/
def bytesOf (s : String) : List UInt8 := s.toUTF8.data.toList

/-- `{:0width$o}`. -/
def octal (width value : Nat) : List UInt8 :=
  (List.leftpad width '0' (Nat.toDigits 8 value)).map fun c => UInt8.ofNat c.toNat

/-- `write_octal` on the `len` bytes of the header from `i` on. -/
def writeOctal (header : List UInt8) (i len value : Nat) : Except TarError (List UInt8) :=
  let rendered := octal (len - 1) value ++ [0]
  if rendered.length ≠ len then
    .error (.invalidInput "bundle entry is too large for a USTAR header")
  else .ok (patch header i rendered)

/-- The sum of the bytes of a header. -/
def checksum (header : List UInt8) : Nat := (header.map UInt8.toNat).sum

/-- The header of a file with `size` bytes, without its checksum: blanks are in its place. -/
def blankHeader (path : String) (size : Nat) : Except TarError (List UInt8) :=
  if !(bytesOf path).all (· < 128) || 100 < (bytesOf path).length then
    .error (.invalidInput ("bundle path is not USTAR-compatible: " ++ path))
  else do
    let header := patch (List.replicate 512 0) 0 (bytesOf path)
    let header ← writeOctal header 100 8 0o644
    let header ← writeOctal header 108 8 0
    let header ← writeOctal header 116 8 0
    let header ← writeOctal header 124 12 size
    let header ← writeOctal header 136 12 0
    let header := patch header 148 (List.replicate 8 32)
    let header := patch header 156 [48]
    let header := patch header 257 (bytesOf "ustar\x00")
    return patch header 263 (bytesOf "00")

/-- The header of a file. A checksum has six digits at most, so that eight bytes are written. -/
def tarHeader (path : String) (size : Nat) : Except TarError (List UInt8) := do
  let header ← blankHeader path size
  return patch header 148 (octal 6 (checksum header) ++ [0, 32])

/-- `write_all`, to a writer that takes some writes and not others. -/
def writeAll (takes : List UInt8 → List UInt8 → Bool) (out bytes : List UInt8) :
    Except TarError (List UInt8) :=
  if takes out bytes then .ok (out ++ bytes) else .error .writer

/-- The bytes that fill up the last block. -/
def padding (size : Nat) : Nat := (512 - size % 512) % 512

/-- The write of these bytes, where there are any. -/
def writePadding (takes : List UInt8 → List UInt8 → Bool) (out : List UInt8) (size : Nat) :
    Except TarError (List UInt8) :=
  if padding size ≠ 0 then writeAll takes out (List.replicate (padding size) 0) else .ok out

/-- `write_tar`, after what was written before: the bytes that the writer has at the end. -/
def writeTar (takes : List UInt8 → List UInt8 → Bool) (out : List UInt8) :
    List (String × List UInt8) → Except TarError (List UInt8)
  | [] => writeAll takes out (List.replicate 1024 0)
  | (path, bytes) :: rest => do
      let header ← tarHeader path bytes.length
      let out ← writeAll takes out header
      let out ← writeAll takes out bytes
      let out ← writePadding takes out bytes.length
      writeTar takes out rest

end Frust.AppSdk
