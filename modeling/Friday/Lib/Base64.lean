import Mathlib

/-! # Base64

`encoding/base64`'s `StdEncoding.EncodeToString`: each group of three bytes is four characters
of the standard alphabet, and a last group of one or two bytes is padded with `=`.
-/

namespace Base64

/-- The standard alphabet, by value. -/
def alphabet : List Char := "ABCDEFGHIJKLMNOPQRSTUVWXYZabcdefghijklmnopqrstuvwxyz0123456789+/".toList

/-- The character of a 6-bit value. -/
def encodeChar (v : Nat) : Char := alphabet.getD v 'A'

/-- `EncodeToString`, on the bytes as a list. -/
def encode : List UInt8 → List Char
  | a :: b :: c :: rest =>
    let v := a.toNat * 65536 + b.toNat * 256 + c.toNat
    [encodeChar (v / 262144), encodeChar (v / 4096 % 64), encodeChar (v / 64 % 64), encodeChar (v % 64)] ++
      encode rest
  | [a, b] =>
    let v := a.toNat * 65536 + b.toNat * 256
    [encodeChar (v / 262144), encodeChar (v / 4096 % 64), encodeChar (v / 64 % 64), '=']
  | [a] =>
    let v := a.toNat * 65536
    [encodeChar (v / 262144), encodeChar (v / 4096 % 64), '=', '=']
  | [] => []

/-- `StdEncoding.EncodeToString`. -/
def encodeToString (src : List UInt8) : String :=
  String.ofList (encode src)

end Base64
