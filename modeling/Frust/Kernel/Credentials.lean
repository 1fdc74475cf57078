import Mathlib.Data.List.Basic

/-!
# `Frust.Kernel.Credentials`: the base64 of credentials

The database's HTTP calls send the root user's name and password in a header (`rootBasic`), and a
WebSocket handshake sends a key (`Wsrpc.b64`). Each has its own loop over pieces of three bytes.
-/

set_option autoImplicit false

namespace Frust.Kernel

/-- `AL`. -/
def base64Alphabet : List Char :=
  "ABCDEFGHIJKLMNOPQRSTUVWXYZabcdefghijklmnopqrstuvwxyz0123456789+/".toList

theorem base64Index_lt (i : Nat) : i &&& 63 < base64Alphabet.length := by
  have hlength : base64Alphabet.length = 64 := by decide
  rw [hlength]
  exact Nat.lt_of_le_of_lt Nat.and_le_right (by decide)

/-- `AL[i & 63] as char`. -/
def base64Char (i : Nat) : Char := base64Alphabet.get ⟨i &&& 63, base64Index_lt i⟩

/-- `chunks(3)`. -/
def chunks3 {α : Type} : List α → List (List α)
  | a :: b :: c :: rest => [a, b, c] :: chunks3 rest
  | [] => []
  | short => [short]

/-- The bits of a chunk: `n`. -/
def chunkBits (chunk : List UInt8) : UInt32 :=
  ((chunk.getD 0 0).toUInt32 <<< 16) ||| ((chunk.getD 1 0).toUInt32 <<< 8)
    ||| (chunk.getD 2 0).toUInt32

/-- One turn of the loop of `root_basic`, which formats the first two characters. -/
def rootBasicStep (out : String) (chunk : List UInt8) : String :=
  let n := chunkBits chunk
  let out := out ++ toString (base64Char (n >>> 18).toNat)
  let out := out ++ toString (base64Char (n >>> 12).toNat)
  let out := out.push (if chunk.length > 1 then base64Char (n >>> 6).toNat else '=')
  out.push (if chunk.length > 2 then base64Char n.toNat else '=')

/-- What `root_basic` builds from the bytes of its text. -/
def rootBasicText (b : List UInt8) : String := (chunks3 b).foldl rootBasicStep ""

/-- `root_basic`. -/
def rootBasic (rootUser rootPass : String) : String :=
  "Basic " ++ rootBasicText (rootUser ++ ":" ++ rootPass).toUTF8.data.toList

namespace Wsrpc

/-- One turn of the loop of `b64`. -/
def b64Step (out : String) (chunk : List UInt8) : String :=
  let n := chunkBits chunk
  let out := out.push (base64Char (n >>> 18).toNat)
  let out := out.push (base64Char (n >>> 12).toNat)
  let out := out.push (if chunk.length > 1 then base64Char (n >>> 6).toNat else '=')
  out.push (if chunk.length > 2 then base64Char n.toNat else '=')

/-- `b64`. -/
def b64 (bytes : List UInt8) : String := (chunks3 bytes).foldl b64Step ""

end Wsrpc

end Frust.Kernel
