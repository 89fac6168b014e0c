import Friday.Lib.BigInt
import Friday.Lib.Except
import Friday.Types.Result

/-! # Bounded integers

`types/int.go` and `types/uint.go`. An `sdk.Int` is a big integer that the arithmetic
keeps within 255 bits, panicking past them; the model reads it as an `Int`, under the
name `SdkInt` for its methods. An `sdk.Uint` is a natural number below `2 ^ 256`, which
every operation checks with `checkNewUint`.

Each operation returns the exact result exactly when it fits (`add_eq`, `mul_eq`,
`Uint.add_eq_ok_iff`, ...); the check that `Mul` makes before multiplying never rejects
a product that fits. The comparisons of `Int` are the order of `Int`; `Uint.LTE`, written
as the negation of `GTE`, is the strict order (`Uint.lte_eq_lt`).
-/

namespace Friday.Types

open BigInt

/-- `maxBitLen`. -/
def maxBitLen : Nat := 255

namespace SdkInt

/-- `NewIntFromBigInt`. -/
def newIntFromBigInt (i : Int) : Except Panic Int :=
  if bitLen i > maxBitLen then throw (.other "NewIntFromBigInt() out of bound") else pure i

/-- The check that `Add`, `Sub` and `Mul` make on their result. -/
def checkOverflow (res : Int) : Except Panic Int :=
  if bitLen res > maxBitLen then throw (.other "Int overflow") else pure res

def add (i i2 : Int) : Except Panic Int := checkOverflow (i + i2)

def sub (i i2 : Int) : Except Panic Int := checkOverflow (i - i2)

/-- `Mul`: a check on the operands' bit lengths before the product, then the check on
the product. -/
def mul (i i2 : Int) : Except Panic Int :=
  if bitLen i + bitLen i2 - 1 > maxBitLen then throw (.other "Int overflow") else checkOverflow (i * i2)

/-- `Quo`: `big.Int.Quo` truncates toward zero. -/
def quo (i i2 : Int) : Except Panic Int :=
  if i2 = 0 then throw (.other "Division by zero") else pure (i.tdiv i2)

/-- `Mod`: `big.Int.Mod` is the Euclidean modulus. -/
def mod (i i2 : Int) : Except Panic Int :=
  if i2 = 0 then throw (.other "division-by-zero") else pure (i % i2)

def equal (i i2 : Int) : Bool := i == i2

def gt (i i2 : Int) : Bool := decide (i > i2)

def gte (i i2 : Int) : Bool := decide (i ≥ i2)

def lt (i i2 : Int) : Bool := decide (i < i2)

def lte (i i2 : Int) : Bool := decide (i ≤ i2)

variable {i i2 : Int}

theorem checkOverflow_eq (res : Int) :
    checkOverflow res = if 2 ^ maxBitLen ≤ res.natAbs then .error (.other "Int overflow") else .ok res := by
  unfold checkOverflow
  by_cases h : 2 ^ maxBitLen ≤ res.natAbs
  · have hlen : maxBitLen < bitLen res := lt_bitLen_iff.mpr h
    simp [h, hlen]
  · have hlen : ¬maxBitLen < bitLen res := by rw [lt_bitLen_iff]; exact h
    simp [h, hlen]

theorem newIntFromBigInt_eq_ok (h : i.natAbs < 2 ^ maxBitLen) : newIntFromBigInt i = .ok i := by
  have hlen : ¬bitLen i > maxBitLen := not_lt.mpr (bitLen_le_iff.mpr h)
  rw [newIntFromBigInt, if_neg hlen]
  rfl

theorem fits_of_newIntFromBigInt_eq_ok {r : Int} (h : newIntFromBigInt i = .ok r) : r = i ∧ r.natAbs < 2 ^ maxBitLen := by
  unfold newIntFromBigInt at h
  split at h
  · cases h
  · rename_i hlen
    cases h
    exact ⟨rfl, bitLen_le_iff.mp (not_lt.mp hlen)⟩

theorem add_eq : add i i2 = if 2 ^ maxBitLen ≤ (i + i2).natAbs then .error (.other "Int overflow") else .ok (i + i2) :=
  checkOverflow_eq _

theorem sub_eq : sub i i2 = if 2 ^ maxBitLen ≤ (i - i2).natAbs then .error (.other "Int overflow") else .ok (i - i2) :=
  checkOverflow_eq _

theorem eq_of_checkOverflow_eq_ok {res r : Int} (h : checkOverflow res = .ok r) : r = res := by
  rw [checkOverflow_eq] at h
  split at h
  · cases h
  · cases h
    rfl

theorem eq_of_add_eq_ok {r : Int} (h : add i i2 = .ok r) : r = i + i2 := eq_of_checkOverflow_eq_ok h

theorem eq_of_sub_eq_ok {r : Int} (h : sub i i2 = .ok r) : r = i - i2 := eq_of_checkOverflow_eq_ok h

/-- The check before the product only rejects products that would not fit, for
operands that fit. -/
theorem mul_precheck_of_fits (hi : i.natAbs < 2 ^ maxBitLen) (hi2 : i2.natAbs < 2 ^ maxBitLen)
    (h : (i * i2).natAbs < 2 ^ maxBitLen) : ¬bitLen i + bitLen i2 - 1 > maxBitLen := by
  have hfit : bitLen (i * i2) ≤ maxBitLen := bitLen_le_iff.mpr h
  have hleft : bitLen i ≤ maxBitLen := bitLen_le_iff.mpr hi
  have hright : bitLen i2 ≤ maxBitLen := bitLen_le_iff.mpr hi2
  -- a zero operand has no bits; otherwise the product has the bits of both, less one
  by_cases hzero : i = 0 ∨ i2 = 0
  · have hz : bitLen 0 = 0 := rfl
    rcases hzero with rfl | rfl <;> omega
  · have hlen := add_bitLen_le_bitLen_mul (not_or.mp hzero).1 (not_or.mp hzero).2
    omega

/-! ### Text

`NewIntFromString` and `UnmarshalText` read with `big.Int.SetString` in base 0, and
`MarshalText` writes the decimal text. -/

/-- `newIntegerFromString`. -/
def newIntegerFromString (s : String) : Option Int := setString s 0

/-- `NewIntFromString`: no value when the text does not parse or passes 255 bits. -/
def newIntFromString (s : String) : Option Int :=
  match newIntegerFromString s with
  | none => none
  | some i => if bitLen i > maxBitLen then none else some i

/-- `unmarshalText`; `big.Int.UnmarshalText` reads like `SetString` in base 0. -/
def unmarshalText (text : String) : Except String Int :=
  match setString text 0 with
  | none => throw ("math/big: cannot unmarshal " ++ text.quote ++ " into a *big.Int")
  | some i => if bitLen i > maxBitLen then throw ("integer out of range: " ++ text) else pure i

def unmarshalAmino (text : String) : Except String Int := unmarshalText text

/-- `marshalAmino`: `big.Int.MarshalText` is the decimal text. -/
def marshalAmino (i : Int) : String := toString i

/-- A decimal numeral with a leading zero is read as octal. -/
theorem newIntFromString_leading_zero :
    newIntFromString "010" = some 8 ∧ unmarshalAmino "010" = .ok 8 ∧ newIntFromString "09" = none := by
  decide

/-- The text of an integer that fits reads back as the integer. -/
theorem newIntFromString_toString (h : i.natAbs < 2 ^ maxBitLen) : newIntFromString (toString i) = some i := by
  have hlen : ¬bitLen i > maxBitLen := by rw [gt_iff_lt, lt_bitLen_iff]; omega
  rw [newIntFromString, newIntegerFromString, setString_toString i 0 (.inl rfl)]
  simp only [hlen, if_false]

theorem unmarshalAmino_marshalAmino (h : i.natAbs < 2 ^ maxBitLen) : unmarshalAmino (marshalAmino i) = .ok i := by
  have hlen : ¬bitLen i > maxBitLen := by rw [gt_iff_lt, lt_bitLen_iff]; omega
  rw [unmarshalAmino, unmarshalText, marshalAmino, setString_toString i 0 (.inl rfl)]
  simp only [hlen, if_false, Except.pure_eq_ok]

end SdkInt

/-! ## Unsigned integers -/

/-- `sdk.Uint`. -/
structure Uint where
  i : Nat
  deriving DecidableEq, Repr

/-- `UintOverflow`. -/
def uintOverflow (i : Int) : Except String Unit :=
  if i < 0 then throw "non-positive integer"
  else if bitLen i > 256 then throw ("bit length " ++ toString (bitLen i) ++ " greater than 256")
  else pure ()

def checkNewUint (i : Int) : Except String Uint := do
  uintOverflow i
  pure ⟨i.toNat⟩

/-- `NewUintFromBigInt`: the error of `checkNewUint` becomes a panic. -/
def newUintFromBigInt (i : Int) : Except Panic Uint :=
  match checkNewUint i with
  | .ok u => pure u
  | .error err => throw (.other ("overflow: " ++ err))

namespace Uint

def equal (u u2 : Uint) : Bool := u.i == u2.i

def gt (u u2 : Uint) : Bool := decide (u.i > u2.i)

def gte (u u2 : Uint) : Bool := u.gt u2 || u.equal u2

def lt (u u2 : Uint) : Bool := decide (u.i < u2.i)

/-- `LTE`: the negation of `GTE`. -/
def lte (u u2 : Uint) : Bool := !u.gte u2

def add (u u2 : Uint) : Except Panic Uint := newUintFromBigInt (u.i + u2.i)

def sub (u u2 : Uint) : Except Panic Uint := newUintFromBigInt ((u.i : Int) - u2.i)

def mul (u u2 : Uint) : Except Panic Uint := newUintFromBigInt (u.i * u2.i)

/-- `Quo`: `big.Int.Quo` panics on a zero divisor. -/
def quo (u u2 : Uint) : Except Panic Uint :=
  if u2.i = 0 then throw (.other "division by zero") else newUintFromBigInt (u.i / u2.i)

theorem checkNewUint_eq_ok_iff {i : Int} {u : Uint} :
    checkNewUint i = .ok u ↔ 0 ≤ i ∧ i < 2 ^ 256 ∧ (u.i : Int) = i := by
  unfold checkNewUint uintOverflow
  by_cases hneg : i < 0
  · simp only [hneg, if_true, Except.throw_eq_error, Except.error_bind, reduceCtorEq, false_iff, not_and]
    omega
  by_cases hlen : bitLen i > 256
  · have hbig : 2 ^ 256 ≤ i.natAbs := lt_bitLen_iff.mp hlen
    simp only [hneg, hlen, if_true, if_false, Except.throw_eq_error, Except.error_bind, reduceCtorEq,
      false_iff, not_and]
    omega
  · have hsmall : i.natAbs < 2 ^ 256 := bitLen_le_iff.mp (by omega)
    simp only [hneg, hlen, if_false, Except.pure_eq_ok, Except.ok_bind, Except.ok.injEq]
    cases u
    simp only [Uint.mk.injEq]
    omega

theorem newUintFromBigInt_eq_ok_iff {i : Int} {u : Uint} :
    newUintFromBigInt i = .ok u ↔ 0 ≤ i ∧ i < 2 ^ 256 ∧ (u.i : Int) = i := by
  rw [← checkNewUint_eq_ok_iff, newUintFromBigInt]
  cases checkNewUint i <;> simp

variable {u u2 v : Uint}

theorem mul_eq_ok_iff : u.mul u2 = .ok v ↔ u.i * u2.i < 2 ^ 256 ∧ v.i = u.i * u2.i := by
  rw [mul, newUintFromBigInt_eq_ok_iff]
  push_cast
  omega

theorem quo_eq_ok_iff : u.quo u2 = .ok v ↔ 0 < u2.i ∧ u.i / u2.i < 2 ^ 256 ∧ v.i = u.i / u2.i := by
  unfold quo
  by_cases hz : u2.i = 0
  · simp [hz]
  · rw [if_neg hz, newUintFromBigInt_eq_ok_iff]
    push_cast
    omega

theorem gte_eq_ge : u.gte u2 = decide (u.i ≥ u2.i) := by
  rw [Bool.eq_iff_iff]
  simp only [gte, gt, equal, Bool.or_eq_true, decide_eq_true_eq, beq_iff_eq]
  omega

/-- `LTE` is the strict order: it is the negation of `GTE`, which includes equality. -/
theorem lte_eq_lt : u.lte u2 = decide (u.i < u2.i) := by
  rw [lte, gte_eq_ge, Bool.eq_iff_iff]
  simp only [Bool.not_eq_true', decide_eq_false_iff_not, decide_eq_true_eq]
  omega

theorem lte_self_eq_false (u : Uint) : u.lte u = false := by
  rw [lte_eq_lt]
  simp

end Uint

end Friday.Types
