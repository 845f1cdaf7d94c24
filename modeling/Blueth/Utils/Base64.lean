/-
# Blueth.Utils.Base64 — `base64_encode` (`utils/Base64.hpp`).

The function sizes its result first, `4 * ((len + 2) / 3)` bytes, and then writes through a raw pointer
into it. `encodeBlocks` is what is written; `length_encodeBlocks` says that it fills the result exactly.
-/
import Blueth.Http.ParserCommon

set_option autoImplicit false

namespace Blueth.Base64

open Blueth.Http (ch str)

/-- `base64_table`, less the NUL at its end. -/
def base64Table : List UInt8 := str "ABCDEFGHIJKLMNOPQRSTUVWXYZabcdefghijklmnopqrstuvwxyz0123456789+/"

/-- `base64_table[index]`. -/
def digit (index : UInt8) : UInt8 := base64Table.getD index.toNat 0

/-- The bytes written: four for every three read, the last ones padded. -/
def encodeBlocks : List UInt8 → List UInt8
  | a :: b :: c :: rest =>
    digit (a >>> 2) :: digit (((a &&& 0x03) <<< 4) ||| (b >>> 4)) ::
      digit (((b &&& 0x0f) <<< 2) ||| (c >>> 6)) :: digit (c &&& 0x3f) :: encodeBlocks rest
  | [a, b] =>
    [digit (a >>> 2), digit (((a &&& 0x03) <<< 4) ||| (b >>> 4)), digit ((b &&& 0x0f) <<< 2), ch '=']
  | [a] => [digit (a >>> 2), digit ((a &&& 0x03) <<< 4), ch '=', ch '=']
  | [] => []

/-- `base64_encode`; a size that has wrapped gives the empty string. -/
def base64Encode (src : List UInt8) : List UInt8 :=
  let len := UInt64.ofNat src.length
  let olen := 4 * ((len + 2) / 3)
  if olen < len then [] else encodeBlocks src

/-- The result is filled to its last byte, and not beyond. -/
theorem length_encodeBlocks (src : List UInt8) :
    (encodeBlocks src).length = 4 * ((src.length + 2) / 3) := by
  induction src using encodeBlocks.induct with
  | case1 a b c rest ih =>
      simp only [encodeBlocks, List.length_cons, ih]
      omega
  | case2 a b => simp [encodeBlocks]
  | case3 a => simp [encodeBlocks]
  | case4 => simp [encodeBlocks]

example : base64Encode (str "user:pass") = str "dXNlcjpwYXNz" := by decide

end Blueth.Base64
