import Mathlib.Data.List.Basic
import Mathlib.Algebra.GroupWithZero.Nat

/-!
# `Frust.Rust.Str`: the `str` methods the source calls

Rust's string slices, at the granularity the source uses them: a text is a
`String`, and the scanning methods run over its `List Char`. Only the methods
that the modelled functions call are here.

`char::is_whitespace` is the Unicode `White_Space` property, wider than
`Char.isWhitespace`; the ASCII methods (`eq_ignore_ascii_case`,
`to_ascii_uppercase`, `is_ascii_digit`) touch ASCII letters and digits only,
as the core `Char` functions of the same meaning do.

`String::from_utf8_lossy` reads the characters that are there. What begins as a character and does
not end as one is replaced, as far as it could still have become a character. `String::truncate` keeps
a number of bytes.
-/

set_option autoImplicit false

namespace Frust.Rust.Str

/-- `char::is_whitespace`: the Unicode `White_Space` property. -/
def isWhitespace (c : Char) : Bool :=
  let n := c.toNat
  (0x09 ≤ n && n ≤ 0x0d) || n == 0x20 || n == 0x85 || n == 0xa0 || n == 0x1680 ||
    (0x2000 ≤ n && n ≤ 0x200a) || n == 0x2028 || n == 0x2029 || n == 0x202f ||
    n == 0x205f || n == 0x3000

/-- `char::is_ascii_digit`. -/
def isAsciiDigit (c : Char) : Bool := '0' ≤ c && c ≤ '9'

/-- `char::is_ascii_alphanumeric`. -/
def isAsciiAlphanumeric (c : Char) : Bool :=
  isAsciiDigit c || ('a' ≤ c && c ≤ 'z') || ('A' ≤ c && c ≤ 'Z')

/-- Drops the characters `p` accepts from both ends. -/
def trimMatches (p : Char → Bool) (s : List Char) : List Char :=
  ((s.dropWhile p).reverse.dropWhile p).reverse

/-- `str::trim`. -/
def trim (s : String) : String := String.ofList (trimMatches isWhitespace s.toList)

/-- `str::trim_end_matches(c)` for one character. -/
def trimEndMatches (c : Char) (s : String) : String :=
  String.ofList (s.toList.reverse.dropWhile (· == c)).reverse

/-- The pieces between runs of whitespace; `cur` is the piece being read, last
character first. -/
def splitWhitespaceAux : List Char → List Char → List String
  | [], cur => if cur.isEmpty then [] else [String.ofList cur.reverse]
  | c :: cs, cur =>
      if isWhitespace c then
        if cur.isEmpty then splitWhitespaceAux cs []
        else String.ofList cur.reverse :: splitWhitespaceAux cs []
      else splitWhitespaceAux cs (c :: cur)

/-- `str::split_whitespace`, collected. -/
def splitWhitespace (s : String) : List String := splitWhitespaceAux s.toList []

/-- `str::to_ascii_uppercase`. -/
def toAsciiUppercase (s : String) : String := String.ofList (s.toList.map Char.toUpper)

/-- `str::to_ascii_lowercase`. -/
def toAsciiLowercase (s : String) : String := String.ofList (s.toList.map Char.toLower)

/-- `str::eq_ignore_ascii_case`. -/
def eqIgnoreAsciiCase (a b : String) : Bool := toAsciiLowercase a == toAsciiLowercase b

/-- `str::strip_prefix` for a literal prefix. -/
def stripPrefix (pre s : String) : Option String :=
  (s.toList.dropPrefix? pre.toList).map fun r => String.ofList r

/-- `str::strip_suffix` for one character. -/
def stripSuffixChar (c : Char) (s : String) : Option String :=
  match s.toList.reverse with
  | d :: rest => if d = c then some (String.ofList rest.reverse) else none
  | [] => none

/-- `str::starts_with` for a literal prefix. -/
def startsWith (pre s : String) : Bool := pre.toList.isPrefixOf s.toList

/-- `str::ends_with` for a literal suffix. -/
def endsWith (suf s : String) : Bool := suf.toList.isSuffixOf s.toList

/-- `str::contains` for a literal pattern. -/
def contains (pattern s : String) : Bool := s.toList.tails.any (pattern.toList.isPrefixOf ·)

/-- `str::split_once` for one character. -/
def splitOnce (c : Char) (s : String) : Option (String × String) :=
  match s.toList.dropWhile (· ≠ c) with
  | [] => none
  | _ :: rest => some (String.ofList (s.toList.takeWhile (· ≠ c)), String.ofList rest)

/-- `str::split` for one character, collected. -/
def split (c : Char) (s : String) : List String := (s.toList.splitOn c).map String.ofList

/-- One character of a string's `{:?}` rendering. The escapes are those of
`char::escape_debug` for ASCII; every other character stands for itself. -/
def escapeDebugChar (c : Char) : String :=
  if c = '"' then "\\\"" else if c = '\\' then "\\\\" else if c = '\n' then "\\n"
  else if c = '\t' then "\\t" else if c = '\r' then "\\r" else if c = '\x00' then "\\0"
  else String.ofList [c]

/-- `{:?}` of a string. -/
def debugStr (s : String) : String :=
  "\"" ++ String.join (s.toList.map escapeDebugChar) ++ "\""

/-- `{:?}` of a `Vec<String>`. -/
def debugStrs (ss : List String) : String :=
  "[" ++ ", ".intercalate (ss.map debugStr) ++ "]"

end Frust.Rust.Str

namespace Frust.Rust

/-! ### Bytes read as text -/

/-- A byte that continues a character. -/
def isCont (b : UInt8) : Bool := 0x80 ≤ b && b ≤ 0xbf

/-- The bytes that may follow a first byte of three or four. -/
def mayFollow (b₀ b₁ : UInt8) : Bool :=
  if b₀ = 0xe0 then 0xa0 ≤ b₁ && b₁ ≤ 0xbf
  else if b₀ = 0xed then 0x80 ≤ b₁ && b₁ ≤ 0x9f
  else if b₀ = 0xf0 then 0x90 ≤ b₁ && b₁ ≤ 0xbf
  else if b₀ = 0xf4 then 0x80 ≤ b₁ && b₁ ≤ 0x8f
  else 0xe1 ≤ b₀ && b₀ ≤ 0xf3 && isCont b₁

/-- After a first byte of no character: how many bytes are replaced with it. -/
def brokenTail (b₀ : UInt8) : List UInt8 → Nat
  | [] => 0
  | b₁ :: rest =>
      if !mayFollow b₀ b₁ then 0
      else match rest with
        | b₂ :: _ => if 0xf0 ≤ b₀ && isCont b₂ then 2 else 1
        | [] => 1

/-- `String::from_utf8_lossy`. -/
def fromUtf8Lossy : List UInt8 → List Char
  | [] => []
  | b :: rest =>
      match (b :: rest).toByteArray.utf8DecodeChar? 0 with
      | some c => c :: fromUtf8Lossy (rest.drop (c.utf8Size - 1))
      | none => '\uFFFD' :: fromUtf8Lossy (rest.drop (brokenTail b rest))
termination_by bytes => bytes.length
decreasing_by all_goals simp only [List.length_drop, List.length_cons]; omega

/-- `len` of a text: its bytes. -/
def len (l : List Char) : Nat := (l.map Char.utf8Size).sum

/-- `String::truncate`. Inside of a character it panics. -/
def truncate : Nat → List Char → Option (List Char)
  | 0, _ => some []
  | _ + 1, [] => some []
  | n + 1, c :: cs =>
      if c.utf8Size ≤ n + 1 then (truncate (n + 1 - c.utf8Size) cs).map (c :: ·) else none
termination_by structural _ l => l

end Frust.Rust
