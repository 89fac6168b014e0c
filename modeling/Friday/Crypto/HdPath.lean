import Friday.Lib.Except
import Friday.Lib.Strconv

/-! # BIP 44 paths

`crypto/keys/hd/hdpath.go`. A path `44'/coinType'/account'/change/addressIndex` is split
at `/`, and every field goes through `hardenedInt`: the suffix `'` is trimmed, the rest
read by `strconv.Atoi`, and the value cast to `uint32`.

`String()` of parameters with purpose 44 reads back as the same parameters
(`newParamsFromPath_toString`). The parser accepts more than that text: a field with a
sign `+`, and a field past `2^32`, which the cast reduces modulo `2^32`.
-/

namespace Friday.Crypto

open Strconv

/-- `BIP44Params`. -/
structure BIP44Params where
  purpose : UInt32
  coinType : UInt32
  account : UInt32
  change : Bool
  addressIndex : UInt32
  deriving DecidableEq, Repr

/-- The hardening mark `'`. -/
def hardenedMark : Char := Char.ofNat 39

/-- `strings.TrimSuffix(field, "'")`. -/
def trimHardened (field : List Char) : List Char :=
  if field.getLast? = some hardenedMark then field.dropLast else field

def isHardened (field : List Char) : Bool := field.getLast? == some hardenedMark

/-- `hardenedInt`: the cast `uint32(i)` keeps the value modulo `2^32`. -/
def hardenedInt (field : List Char) : Except String UInt32 := do
  let i ← atoi (String.ofList (trimHardened field))
  if i < 0 then throw ("fields must not be negative. got " ++ toString i)
  pure (UInt32.ofNat i.toNat)

/-- `NewParamsFromPath`: every field is parsed before any is checked. -/
def newParamsFromPath (path : String) : Except String BIP44Params := do
  let spl := path.toList.splitOn '/'
  match spl with
  | [f0, f1, f2, f3, f4] =>
    let purpose ← hardenedInt f0
    let coinType ← hardenedInt f1
    let account ← hardenedInt f2
    let change ← hardenedInt f3
    let addressIdx ← hardenedInt f4
    if f0 ≠ "44'".toList then
      throw ("first field in path must be 44', got " ++ String.ofList f0)
    if !isHardened f1 || !isHardened f2 then
      throw ("second and third field in path must be hardened (ie. contain the suffix ', got " ++
        String.ofList f1 ++ " and " ++ String.ofList f2)
    if isHardened f3 || isHardened f4 then
      throw ("fourth and fifth field in path must not be hardened (ie. not contain the suffix ', got " ++
        String.ofList f3 ++ " and " ++ String.ofList f4)
    if !(change = 0 ∨ change = 1) then throw "change field can only be 0 or 1"
    pure { purpose, coinType, account, change := decide (change > 0), addressIndex := addressIdx }
  | _ => throw ("path length is wrong. Expected 5, got " ++ toString spl.length)

/-- `String()`: `%d'/%d'/%d'/%s/%d`. -/
def BIP44Params.toString (p : BIP44Params) : String :=
  ToString.toString p.purpose ++ "'/" ++ ToString.toString p.coinType ++ "'/" ++
    ToString.toString p.account ++ "'/" ++ (if p.change then "1" else "0") ++ "/" ++
    ToString.toString p.addressIndex

/-- A coin type of `2^32 + 1`, or written with a sign, is read as the coin type `1`. -/
theorem newParamsFromPath_accepts_wrapped :
    newParamsFromPath "44'/4294967297'/0'/0/0" = .ok ⟨44, 1, 0, false, 0⟩ ∧
      newParamsFromPath "44'/+1'/0'/0/0" = .ok ⟨44, 1, 0, false, 0⟩ := by
  decide

/-! ## The text of the parameters reads back -/

section RoundTrip

/-- The decimal digits of a `uint32` value. -/
def digits (x : UInt32) : List Char := Nat.toDigits 10 x.toNat

theorem isDigit_of_mem_digits {x : UInt32} {c : Char} (h : c ∈ digits x) : c.isDigit :=
  Nat.isDigit_of_mem_toDigits (by decide) (by decide) h

theorem toString_toList_eq_digits (x : UInt32) : (ToString.toString x).toList = digits x := by
  show (ToString.toString x.toNat).toList = _
  rw [Nat.toString_eq_repr, Nat.toList_repr]
  rfl

theorem hardenedMark_not_mem_digits (x : UInt32) : hardenedMark ∉ digits x :=
  fun h => Decimal.ne_of_isDigit (isDigit_of_mem_digits h) (by decide) rfl

theorem getLast?_digits_ne (x : UInt32) : (digits x).getLast? ≠ some hardenedMark := by
  have hne : digits x ≠ [] := Nat.toDigits_ne_nil
  rw [List.getLast?_eq_some_getLast hne]
  intro heq
  exact hardenedMark_not_mem_digits x (Option.some.inj heq ▸ List.getLast_mem hne)

theorem isHardened_digits (x : UInt32) : isHardened (digits x) = false := by
  simpa [isHardened] using getLast?_digits_ne x

theorem isHardened_append_mark (l : List Char) : isHardened (l ++ [hardenedMark]) = true := by
  simp [isHardened]

/-- A field of the digits of a value reads as the value, hardened or not. -/
theorem hardenedInt_digits (x : UInt32) (l : List Char) (hl : l = digits x ∨ l = digits x ++ [hardenedMark]) :
    hardenedInt l = .ok x := by
  have htrim : trimHardened l = digits x := by
    rcases hl with rfl | rfl
    · simp [trimHardened, getLast?_digits_ne]
    · simp [trimHardened]
  have hvalue : Nat.ofDigitChars 10 (digits x) 0 = x.toNat := Nat.ofDigitChars_ten_toDigits
  have hlt := UInt32.toNat_lt x
  have hatoi : atoi (String.ofList (digits x)) = .ok x.toNat := by
    have h := atoi_digits (s := String.ofList (digits x)) (by rw [String.toList_ofList]; exact Nat.toDigits_ne_nil)
      (by rw [String.toList_ofList]; exact fun c hc => isDigit_of_mem_digits hc)
      (by rw [String.toList_ofList, hvalue]; omega)
    rwa [String.toList_ofList, hvalue] at h
  have hnonneg : ¬(x.toNat : Int) < 0 := by omega
  simp only [hardenedInt, htrim, hatoi, Except.ok_bind, hnonneg, if_false, Int.toNat_natCast, UInt32.ofNat_toNat]
  rfl

theorem toString_toList (p : BIP44Params) :
    p.toString.toList = ['/'].intercalate
      [digits p.purpose ++ [hardenedMark], digits p.coinType ++ [hardenedMark], digits p.account ++ [hardenedMark],
        digits (if p.change then 1 else 0), digits p.addressIndex] := by
  have hchange : (if p.change then "1" else "0").toList = digits (if p.change then 1 else 0) := by
    cases p.change <;> rfl
  have hsep : "'/".toList = [hardenedMark, '/'] := rfl
  have hslash : "/".toList = ['/'] := rfl
  simp only [BIP44Params.toString, String.toList_append, toString_toList_eq_digits, hchange, hsep, hslash]
  simp

/-- `NewParamsFromPath(p.String()) = p` for every `p` with purpose 44. -/
theorem newParamsFromPath_toString (p : BIP44Params) (h : p.purpose = 44) : newParamsFromPath p.toString = .ok p := by
  have hnoslash : ∀ l ∈ [digits p.purpose ++ [hardenedMark], digits p.coinType ++ [hardenedMark],
      digits p.account ++ [hardenedMark], digits (if p.change then 1 else 0), digits p.addressIndex], '/' ∉ l := by
    intro l hl hmem
    have hdigit : ∀ x : UInt32, '/' ∉ digits x := fun x hx =>
      Decimal.ne_of_isDigit (isDigit_of_mem_digits hx) (by decide) rfl
    simp only [List.mem_cons, List.not_mem_nil, or_false] at hl
    rcases hl with rfl | rfl | rfl | rfl | rfl <;> simp_all [hardenedMark]
  have hsplit := List.splitOn_intercalate '/' hnoslash (by simp)
  have hpurpose : digits p.purpose ++ [hardenedMark] = "44'".toList := by rw [h]; rfl
  have hchange : hardenedInt (digits (if p.change then 1 else 0)) = .ok (if p.change then 1 else 0) :=
    hardenedInt_digits _ _ (.inl rfl)
  simp only [newParamsFromPath, toString_toList, hsplit]
  rw [hardenedInt_digits p.purpose _ (.inr rfl), hardenedInt_digits p.coinType _ (.inr rfl),
    hardenedInt_digits p.account _ (.inr rfl), hchange, hardenedInt_digits p.addressIndex _ (.inl rfl)]
  simp only [Except.ok_bind, hpurpose, ne_eq, not_true_eq_false, if_false, isHardened_append_mark,
    isHardened_digits, Bool.not_true, Bool.or_false, Bool.false_eq_true]
  cases p with
  | mk purpose coinType account change addressIndex =>
    cases change <;> simp

end RoundTrip

end Friday.Crypto
