import Friday.Lib.Rounding
import Friday.Types.Int

/-! # Decimals

`types/decimal.go`. An `sdk.Dec` is a big integer scaled by `10^Precision`, with
`Precision = 18`. A product or a quotient carries the scale twice, and
`chopPrecisionAndRound` divides one of them out, rounding half to even for either sign
(`chopPrecisionAndRound_halfEven`). Every operation panics when its result passes
`255 + DecimalPrecisionBits` bits.

`Mul`, `MulTruncate` and `QuoTruncate` return the exact result rounded as named.
`Quo` and `QuoRoundUp` first truncate the quotient to 36 decimals and round that to 18:
the two roundings together differ from rounding the exact quotient, for a quotient just
above a tie, or a positive one below `10^-36`.
-/

namespace Friday.Types

open BigInt Rounding

/-- `sdk.Dec`. -/
structure Dec where
  int : Int
  deriving DecidableEq, Repr

/-- `precisionReuse`, `10^Precision`. -/
def precisionReuse : Nat := 10 ^ 18

/-- `fivePrecision`, half of `precisionReuse`. -/
def fivePrecision : Nat := precisionReuse / 2

/-- `DecimalPrecisionBits`. -/
def decimalPrecisionBits : Nat := 60

/-- The bit length past which an operation panics, `255 + DecimalPrecisionBits`. -/
def maxDecBitLen : Nat := maxBitLen + decimalPrecisionBits

/-- `chopPrecisionAndRound` of a value that is not negative. -/
def chopPrecisionAndRoundNat (d : Nat) : Nat :=
  let quo := d / precisionReuse
  let rem := d % precisionReuse
  if rem = 0 then quo
  else
    match compare rem fivePrecision with
    | .lt => quo
    | .gt => quo + 1
    -- bankers rounding: a tie goes to the even quotient
    | .eq => if quo % 2 = 0 then quo else quo + 1

/-- `chopPrecisionAndRound`: a negative value is rounded through its negation. -/
def chopPrecisionAndRound (d : Int) : Int :=
  if d < 0 then -(chopPrecisionAndRoundNat d.natAbs : Int) else chopPrecisionAndRoundNat d.toNat

/-- `chopPrecisionAndTruncate`: `big.Int.Quo` truncates toward zero. -/
def chopPrecisionAndTruncate (d : Int) : Int := d.tdiv precisionReuse

/-- `chopPrecisionAndRoundUp`: a negative value is truncated through its negation. -/
def chopPrecisionAndRoundUp (d : Int) : Int :=
  if d < 0 then -chopPrecisionAndTruncate (-d)
  else
    let quo := d.toNat / precisionReuse
    let rem := d.toNat % precisionReuse
    if rem = 0 then quo else quo + 1

/-- `NewDec`. -/
def newDec (i : Int64) : Dec := ⟨i.toInt * precisionReuse⟩

/-- `NewDecFromInt`, which `Int.ToDec` calls. -/
def newDecFromInt (i : Int) : Dec := ⟨i * precisionReuse⟩

/-- `ZeroDec`. -/
def zeroDec : Dec := ⟨0⟩

/-- `OneDec`. -/
def oneDec : Dec := ⟨precisionReuse⟩

namespace Dec

/-- The check every operation makes on its result. -/
def ofChecked (res : Int) : Except Panic Dec :=
  if bitLen res > maxDecBitLen then throw (.other "Int overflow") else pure ⟨res⟩

def add (d d2 : Dec) : Except Panic Dec := ofChecked (d.int + d2.int)

def sub (d d2 : Dec) : Except Panic Dec := ofChecked (d.int - d2.int)

def mul (d d2 : Dec) : Except Panic Dec := ofChecked (chopPrecisionAndRound (d.int * d2.int))

def mulTruncate (d d2 : Dec) : Except Panic Dec := ofChecked (chopPrecisionAndTruncate (d.int * d2.int))

def mulInt (d : Dec) (i : Int) : Except Panic Dec := ofChecked (d.int * i)

/-- The quotient with the scale taken twice, truncated toward zero: the exact quotient
truncated to 36 decimals. `big.Int.Quo` panics on a zero divisor. -/
def quoPrecise (d d2 : Dec) : Except Panic Int :=
  if d2.int = 0 then throw (.other "division by zero")
  else pure ((d.int * precisionReuse * precisionReuse).tdiv d2.int)

def quo (d d2 : Dec) : Except Panic Dec := do ofChecked (chopPrecisionAndRound (← d.quoPrecise d2))

def quoTruncate (d d2 : Dec) : Except Panic Dec := do ofChecked (chopPrecisionAndTruncate (← d.quoPrecise d2))

def quoRoundUp (d d2 : Dec) : Except Panic Dec := do ofChecked (chopPrecisionAndRoundUp (← d.quoPrecise d2))

/-- `QuoInt`: no check on the result. -/
def quoInt (d : Dec) (i : Int) : Except Panic Dec :=
  if i = 0 then throw (.other "division by zero") else pure ⟨d.int.tdiv i⟩

/-- `RoundInt`: `NewIntFromBigInt` of the rounded value. -/
def roundInt (d : Dec) : Except Panic Int := SdkInt.newIntFromBigInt (chopPrecisionAndRound d.int)

/-- `TruncateInt`: `NewIntFromBigInt` of the truncated value. -/
def truncateInt (d : Dec) : Except Panic Int := SdkInt.newIntFromBigInt (chopPrecisionAndTruncate d.int)

def gt (d d2 : Dec) : Bool := decide (d.int > d2.int)

def lt (d d2 : Dec) : Bool := decide (d.int < d2.int)

end Dec

/-! ## Rounding -/

section Rounding

theorem precisionReuse_pos : (0 : Int) < precisionReuse := by decide

/-- `chopPrecisionAndRound` of a natural number is its quotient by `10^18`, rounded half
to even: one case for each branch of the source. -/
theorem chopPrecisionAndRoundNat_halfEven (d : Nat) :
    HalfEven d precisionReuse (chopPrecisionAndRoundNat d) := by
  have hP := precisionReuse_pos
  have hfive : 2 * fivePrecision = precisionReuse := by decide
  have hquo : ((d / precisionReuse : Nat) : Int) = (d : Int) / precisionReuse := Int.natCast_div _ _
  have hrem : ((d % precisionReuse : Nat) : Int) = (d : Int) % precisionReuse := Int.natCast_mod _ _
  unfold chopPrecisionAndRoundNat
  dsimp only
  split
  · rename_i hzero
    have h := halfEven_of_lt (n := d) hP (by omega)
    rwa [← hquo] at h
  · split
    · rename_i hlt
      have h := halfEven_of_lt (n := d) hP (by rw [Nat.compare_eq_lt] at hlt; omega)
      rwa [← hquo] at h
    · rename_i hgt
      have h := halfEven_of_gt (n := d) hP (by rw [Nat.compare_eq_gt] at hgt; omega)
      rwa [← hquo] at h
    · rename_i heq
      have h := halfEven_of_eq (n := d) hP (by rw [Nat.compare_eq_eq] at heq; omega)
      rw [← hquo] at h
      split
      · rename_i heven
        rwa [if_pos (by omega)] at h
      · rename_i hodd
        rw [if_neg (by omega)] at h
        exact_mod_cast h

theorem chopPrecisionAndRound_halfEven (d : Int) : HalfEven d precisionReuse (chopPrecisionAndRound d) := by
  unfold chopPrecisionAndRound
  split
  · rename_i hneg
    have h := chopPrecisionAndRoundNat_halfEven d.natAbs
    have habs : ((d.natAbs : Nat) : Int) = -d := by omega
    rw [habs] at h
    rw [← neg_neg d, halfEven_neg]
    simpa using h
  · rename_i hnonneg
    have h := chopPrecisionAndRoundNat_halfEven d.toNat
    rwa [Int.toNat_of_nonneg (by omega)] at h

theorem chopPrecisionAndRoundUp_up (d : Int) : Up d precisionReuse (chopPrecisionAndRoundUp d) := by
  have hP := precisionReuse_pos
  unfold chopPrecisionAndRoundUp chopPrecisionAndTruncate
  split
  · rename_i hneg
    have h := up_neg_of_ediv (n := -d) hP
    rwa [neg_neg, ← Int.tdiv_eq_ediv_of_nonneg (by omega)] at h
  · rename_i hnonneg
    have h := up_of_ediv (n := d) hP
    have hquo : ((d.toNat / precisionReuse : Nat) : Int) = d / precisionReuse := by
      rw [Int.natCast_div, Int.toNat_of_nonneg (by omega)]
    have hrem : ((d.toNat % precisionReuse : Nat) : Int) = d % precisionReuse := by
      rw [Int.natCast_mod, Int.toNat_of_nonneg (by omega)]
    dsimp only
    split
    · rename_i hzero
      rwa [if_pos (by omega), ← hquo] at h
    · rename_i hzero
      rw [if_neg (by omega), ← hquo] at h
      exact_mod_cast h

end Rounding

/-! ## Operations -/

namespace Dec

variable {d d2 c : Dec} {res : Int}

theorem ofChecked_eq_ok_iff : ofChecked res = .ok c ↔ c.int = res ∧ bitLen res ≤ maxDecBitLen := by
  unfold ofChecked
  by_cases h : bitLen res > maxDecBitLen
  · simp only [h, if_true, Except.throw_eq_error, reduceCtorEq, false_iff, not_and]
    omega
  · simp only [h, if_false, Except.pure_eq_ok, Except.ok.injEq]
    cases c
    simp only [mk.injEq]
    constructor
    · rintro rfl
      exact ⟨rfl, by omega⟩
    · rintro ⟨rfl, -⟩
      rfl

/-- A checked result that is a rounding: the operation returns exactly the value that
satisfies the rounding, when it fits. -/
theorem ofChecked_eq_ok_iff_of_unique {P : Int → Prop} (hres : P res) (hunique : ∀ r, P r → r = res) :
    ofChecked res = .ok c ↔ P c.int ∧ bitLen c.int ≤ maxDecBitLen := by
  rw [ofChecked_eq_ok_iff]
  constructor
  · rintro ⟨hc, hlen⟩
    rw [hc]
    exact ⟨hres, hlen⟩
  · rintro ⟨hc, hlen⟩
    have heq := hunique _ hc
    rw [heq] at hlen ⊢
    exact ⟨rfl, hlen⟩

theorem quoPrecise_eq_ok (h : d2.int ≠ 0) :
    d.quoPrecise d2 = .ok ((d.int * precisionReuse * precisionReuse).tdiv d2.int) := by
  simp [quoPrecise, h]

/-- `Mul` is the product rounded half to even, when it fits. -/
theorem mul_eq_ok_iff :
    d.mul d2 = .ok c ↔ HalfEven (d.int * d2.int) precisionReuse c.int ∧ bitLen c.int ≤ maxDecBitLen :=
  ofChecked_eq_ok_iff_of_unique (chopPrecisionAndRound_halfEven _)
    fun _ hr => halfEven_unique (ne_of_gt precisionReuse_pos) hr (chopPrecisionAndRound_halfEven _)

/-- `MulTruncate` is the product truncated toward zero, when it fits. -/
theorem mulTruncate_eq_ok_iff :
    d.mulTruncate d2 = .ok c ↔ c.int = (d.int * d2.int).tdiv precisionReuse ∧ bitLen c.int ≤ maxDecBitLen :=
  ofChecked_eq_ok_iff_of_unique (P := fun r => r = (d.int * d2.int).tdiv precisionReuse) rfl fun _ hr => hr

/-- `QuoTruncate` is the quotient truncated toward zero, when it fits: truncating to 36
decimals and then to 18 truncates to 18. -/
theorem quoTruncate_eq_ok_iff (h : d2.int ≠ 0) :
    d.quoTruncate d2 = .ok c ↔ c.int = (d.int * precisionReuse).tdiv d2.int ∧ bitLen c.int ≤ maxDecBitLen := by
  have htrunc : chopPrecisionAndTruncate ((d.int * precisionReuse * precisionReuse).tdiv d2.int) =
      (d.int * precisionReuse).tdiv d2.int := tdiv_tdiv_mul precisionReuse_pos
  rw [quoTruncate, quoPrecise_eq_ok h, Except.ok_bind, htrunc]
  exact ofChecked_eq_ok_iff_of_unique (P := fun r => r = (d.int * precisionReuse).tdiv d2.int) rfl fun _ hr => hr

/-- `Quo` rounds half to even the quotient truncated to 36 decimals, when it fits. -/
theorem quo_eq_ok_iff (h : d2.int ≠ 0) :
    d.quo d2 = .ok c ↔
      HalfEven ((d.int * precisionReuse * precisionReuse).tdiv d2.int) precisionReuse c.int ∧
        bitLen c.int ≤ maxDecBitLen := by
  rw [quo, quoPrecise_eq_ok h, Except.ok_bind]
  exact ofChecked_eq_ok_iff_of_unique (chopPrecisionAndRound_halfEven _)
    fun _ hr => halfEven_unique (ne_of_gt precisionReuse_pos) hr (chopPrecisionAndRound_halfEven _)

/-- `QuoRoundUp` rounds up the quotient truncated to 36 decimals, when it fits. -/
theorem quoRoundUp_eq_ok_iff (h : d2.int ≠ 0) :
    d.quoRoundUp d2 = .ok c ↔
      Up ((d.int * precisionReuse * precisionReuse).tdiv d2.int) precisionReuse c.int ∧
        bitLen c.int ≤ maxDecBitLen := by
  rw [quoRoundUp, quoPrecise_eq_ok h, Except.ok_bind]
  exact ofChecked_eq_ok_iff_of_unique (chopPrecisionAndRoundUp_up _)
    fun _ hr => up_unique precisionReuse_pos hr (chopPrecisionAndRoundUp_up _)

/-- Two roundings are not one. `1 / (2 - 10^-18)` lies just above half of `10^-18`; its
truncation to 36 decimals is the tie itself, which `Quo` rounds to the even `0`. And
`10^-18 / 10^22` truncates to `0` at 36 decimals, which `QuoRoundUp` keeps. -/
theorem quo_rounds_twice :
    (⟨10 ^ 18⟩ : Dec).quo ⟨2 * 10 ^ 36 - 1⟩ = .ok ⟨0⟩ ∧
      HalfEven (10 ^ 18 * precisionReuse) (2 * 10 ^ 36 - 1) 1 ∧
      (⟨1⟩ : Dec).quoRoundUp ⟨10 ^ 40⟩ = .ok ⟨0⟩ ∧ Up (1 * precisionReuse) (10 ^ 40) 1 := by
  decide

/-- The operations against exact rounding: `Mul`, `MulTruncate` and `QuoTruncate` round
the exact result as named, `Quo` and `QuoRoundUp` round its truncation to 36 decimals, and
each returns its value exactly when that has at most `255 + DecimalPrecisionBits` bits. -/
theorem arithmetic_rounded (d d2 c : Dec) :
    HalfEven d.int precisionReuse (chopPrecisionAndRound d.int) ∧
      (d.mul d2 = .ok c ↔ HalfEven (d.int * d2.int) precisionReuse c.int ∧ bitLen c.int ≤ maxDecBitLen) ∧
      (d.mulTruncate d2 = .ok c ↔
        c.int = (d.int * d2.int).tdiv precisionReuse ∧ bitLen c.int ≤ maxDecBitLen) ∧
      (d2.int ≠ 0 →
        (d.quoTruncate d2 = .ok c ↔
          c.int = (d.int * precisionReuse).tdiv d2.int ∧ bitLen c.int ≤ maxDecBitLen) ∧
        (d.quo d2 = .ok c ↔
          HalfEven ((d.int * precisionReuse * precisionReuse).tdiv d2.int) precisionReuse c.int ∧
            bitLen c.int ≤ maxDecBitLen) ∧
        (d.quoRoundUp d2 = .ok c ↔
          Up ((d.int * precisionReuse * precisionReuse).tdiv d2.int) precisionReuse c.int ∧
            bitLen c.int ≤ maxDecBitLen)) :=
  ⟨chopPrecisionAndRound_halfEven d.int, mul_eq_ok_iff, mulTruncate_eq_ok_iff,
    fun h => ⟨quoTruncate_eq_ok_iff h, quo_eq_ok_iff h, quoRoundUp_eq_ok_iff h⟩⟩

end Dec

end Friday.Types
