import Frust.Orm.Schema

/-!
# `Frust.Orm.Statements`: the bytes of a block of statements

`split_statements` scans bytes, where `splitStatements` goes by characters. `splitBytes` is the scan
of bytes; a piece of it is a slice of the text only if it begins and ends between characters.

`Balanced` says what a text is, without a scanner: strings that are closed, blocks of braces that are
closed, and plain characters between them.
-/

set_option autoImplicit false

namespace Frust.Orm

/-- The loop of `split_statements` over bytes: `\` is 92, `'` is 39, the braces are 123 and 125, and
`;` is 59. `cur` is the piece being read, last byte first. -/
def splitBytesAux : List UInt8 → (depth : Nat) → (inStr : Bool) → (cur : List UInt8) →
    List (List UInt8)
  | [], _, _, cur => if cur.isEmpty then [] else [cur.reverse]
  | [92], _, true, cur => [(92 :: cur).reverse]
  -- the byte behind a backslash is skipped, whatever it is a part of
  | 92 :: b :: rest, depth, true, cur => splitBytesAux rest depth true (b :: 92 :: cur)
  | b :: rest, depth, inStr, cur =>
      if b = 39 then splitBytesAux rest depth (!inStr) (b :: cur)
      else if b = 123 && !inStr then splitBytesAux rest (depth + 1) inStr (b :: cur)
      else if b = 125 && !inStr then splitBytesAux rest (depth - 1) inStr (b :: cur)
      else if b = 59 && !inStr && depth == 0 then
        cur.reverse :: splitBytesAux rest depth inStr []
      else splitBytesAux rest depth inStr (b :: cur)

/-- `split_statements`, on bytes. -/
def splitBytes (bytes : List UInt8) : List (List UInt8) := splitBytesAux bytes 0 false []

/-- `as_bytes`. -/
def bytesOf (s : String) : List UInt8 := s.toUTF8.data.toList

/-! ### Balanced texts -/

/-- What stands behind an opening quote, with the closing one. -/
inductive StringTail : List Char → Prop where
  | close : StringTail ['\'']
  | escaped (c : Char) {rest : List Char} : StringTail rest → StringTail ('\\' :: c :: rest)
  | plain {c : Char} {rest : List Char} : c ≠ '\'' → c ≠ '\\' → StringTail rest →
      StringTail (c :: rest)

/-- Where a text stands. -/
inductive Zone where
  /-- In one statement: no semicolon, and no brace that closes nothing. -/
  | statement
  /-- In a block of braces. -/
  | block
  /-- Anywhere outside of blocks: semicolons, and braces that close nothing. -/
  | top
  deriving DecidableEq

/-- The plain characters of a zone. -/
def Zone.allows : Zone → Char → Prop
  | .statement, c => c ≠ ';' ∧ c ≠ '}'
  | .block, c => c ≠ '}'
  | .top, _ => True

instance : (z : Zone) → (c : Char) → Decidable (z.allows c)
  | .statement, c => inferInstanceAs (Decidable (c ≠ ';' ∧ c ≠ '}'))
  | .block, c => inferInstanceAs (Decidable (c ≠ '}'))
  | .top, _ => inferInstanceAs (Decidable True)

/-- Plain characters, closed strings, and closed blocks. -/
inductive Balanced : Zone → List Char → Prop where
  | nil (z : Zone) : Balanced z []
  | plain {z : Zone} {c : Char} {rest : List Char} : c ≠ '\'' → c ≠ '{' → z.allows c →
      Balanced z rest → Balanced z (c :: rest)
  | string {z : Zone} {body rest : List Char} : StringTail body → Balanced z rest →
      Balanced z ('\'' :: (body ++ rest))
  | block {z : Zone} {inner rest : List Char} : Balanced .block inner → Balanced z rest →
      Balanced z ('{' :: (inner ++ '}' :: rest))

/-- A statement closes its strings, has balanced braces outside strings, and no semicolon outside
strings and braces. -/
def Statement (s : String) : Prop := Balanced .statement s.toList

end Frust.Orm
