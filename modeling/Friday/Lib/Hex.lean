import Friday.Lib.Ascii

/-! # Hex

`encoding/hex`: `EncodeToString` writes each byte as two lower case digits, the high half
first, and `DecodeString` reads the bytes of a string back two at a time, failing with
`InvalidByteError` at the first byte that is not a digit of either case and with `ErrLength` after
an odd number of digits. What the encoder writes, the decoder reads back
(`decodeString_encodeToString`).
-/

namespace Hex

/-- `hextable`. -/
def hextable : List Char := "0123456789abcdef".toList

/-- The digit of a value below `16`. -/
def digit (v : UInt8) : Char := hextable.getD v.toNat '0'

/-- `Encode`: two digits a byte, the high half first. -/
def encode (src : List UInt8) : List Char :=
  src.flatMap fun (v : UInt8) => [digit (v >>> 4), digit (v &&& 0x0f)]

/-- `EncodeToString`. -/
def encodeToString (src : List UInt8) : String := String.ofList (encode src)

/-- `fromHexChar`: the value of a digit of either case. -/
def fromHexChar (c : UInt8) : Option UInt8 :=
  if '0'.toUInt8 ≤ c ∧ c ≤ '9'.toUInt8 then some (c - '0'.toUInt8)
  else if 'a'.toUInt8 ≤ c ∧ c ≤ 'f'.toUInt8 then some (c - 'a'.toUInt8 + 10)
  else if 'A'.toUInt8 ≤ c ∧ c ≤ 'F'.toUInt8 then some (c - 'A'.toUInt8 + 10)
  else none

/-- The errors of `Decode`. -/
inductive HexError
  /-- `InvalidByteError`. -/
  | invalidByte (b : UInt8)
  /-- `ErrLength`. -/
  | length
  deriving DecidableEq, Repr

/-- `strconv.IsPrint`, on a rune below `0x100`. -/
def isPrintLatin1 (r : Nat) : Bool :=
  (0x20 ≤ r && r ≤ 0x7E) || (0xA1 ≤ r && r ≤ 0xFF && r != 0xAD)

/-- `fmt`'s `%#U` of a rune below `0x100`: `U+` and four upper case digits, then the
    character in quotes when it is printable. -/
def formatUnicode (b : UInt8) : String :=
  let udigit (v : Nat) : Char := "0123456789ABCDEF".toList.getD v '0'
  let code := "U+00" ++ String.ofList [udigit (b.toNat / 16), udigit (b.toNat % 16)]
  if isPrintLatin1 b.toNat then code ++ " \x27" ++ String.singleton (Char.ofNat b.toNat) ++ "\x27" else code

/-- `err.Error()`. -/
def HexError.error : HexError → String
  | .invalidByte b => "encoding/hex: invalid byte: " ++ formatUnicode b
  | .length => "encoding/hex: odd length hex string"

example : (HexError.invalidByte 0x67).error = "encoding/hex: invalid byte: U+0067 \x27g\x27" := by decide

/-- `Decode`, on the bytes of the source: a byte for each pair of digits, or the error of the
    first byte that is not a digit, and `ErrLength` after an odd number of digits. -/
def decode : List UInt8 → Except HexError (List UInt8)
  | [] => .ok []
  | [a] =>
    match fromHexChar a with
    | some _ => .error .length
    | none => .error (.invalidByte a)
  | a :: b :: src =>
    match fromHexChar a, fromHexChar b with
    | none, _ => .error (.invalidByte a)
    | some _, none => .error (.invalidByte b)
    | some x, some y => (((x <<< 4) ||| y) :: ·) <$> decode src

/-- `DecodeString`, on the string's bytes; the bytes decoded before an error are dropped, as
    no caller reads them. -/
def decodeString (s : String) : Except HexError (List UInt8) := decode s.toUTF8.toList

/-- The two digits of a byte: ASCII, each read back as its half, and the halves give the byte. -/
theorem fromHexChar_digits : ∀ v : UInt8,
    fromHexChar (digit (v >>> 4)).toUInt8 = some (v >>> 4) ∧
      fromHexChar (digit (v &&& 0x0f)).toUInt8 = some (v &&& 0x0f) ∧ (v >>> 4) <<< 4 ||| (v &&& 0x0f) = v ∧
      (digit (v >>> 4)).toNat < 128 ∧ (digit (v &&& 0x0f)).toNat < 128 := by
  decide +kernel

theorem decode_map_encode (src : List UInt8) : decode ((encode src).map Char.toUInt8) = .ok src := by
  induction src with
  | nil => rfl
  | cons v src ih =>
    obtain ⟨hhigh, hlow, hv, -⟩ := fromHexChar_digits v
    simp only [encode, List.flatMap_cons] at ih ⊢
    simp [decode, hhigh, hlow, hv, ih]

theorem isAscii_encodeToString (src : List UInt8) : Ascii.IsAscii (encodeToString src) := by
  intro c hc
  simp only [encodeToString, encode, String.toList_ofList, List.mem_flatMap, List.mem_cons,
    List.not_mem_nil, or_false] at hc
  obtain ⟨v, -, rfl | rfl⟩ := hc
  · exact (fromHexChar_digits v).2.2.2.1
  · exact (fromHexChar_digits v).2.2.2.2

/-- What `EncodeToString` writes, `DecodeString` reads back. -/
theorem decodeString_encodeToString (src : List UInt8) : decodeString (encodeToString src) = .ok src := by
  rw [decodeString, Ascii.toUTF8_toList_of_ascii (isAscii_encodeToString src), encodeToString,
    String.toList_ofList, decode_map_encode]

theorem encodeToString_injective : Function.Injective encodeToString := by
  intro a b h
  have hdec := decodeString_encodeToString a
  rwa [h, decodeString_encodeToString, Except.ok.injEq, eq_comm] at hdec

end Hex
