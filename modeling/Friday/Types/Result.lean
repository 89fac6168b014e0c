import Mathlib.Data.List.Basic

/-! # Errors, results and panics

`types/errors.go` and `types/result.go`. An `sdk.Error` is a codespace, a code and
a message. `Result()` turns it into the `Result` that a handler, the ante handler
and `runTx` return. `Error()` is the text that `EndBlocker` sends on a deploy's log
channel. A `Result` is OK when its code is `CodeOK`; the model keeps a result's
code, codespace and log, the fields that the modelled code reads.

A Go `panic` carries a value that a deferred `recover` inspects: `runTx` tells an
`sdk.ErrorOutOfGas` from any other value. `Panic` is that value.
-/

namespace Friday.Types

/-- `sdk.CodeType`. -/
abbrev CodeType := Nat

def codeOK : CodeType := 0
def codeInternal : CodeType := 1
def codeTxDecode : CodeType := 2
def codeUnknownRequest : CodeType := 6
def codeInvalidAddress : CodeType := 7
def codeUnknownAddress : CodeType := 9
def codeInsufficientCoins : CodeType := 10
def codeInvalidCoins : CodeType := 11
def codeOutOfGas : CodeType := 12

/-- `CodespaceRoot`. -/
def codespaceRoot : String := "sdk"

/-- `sdkError`; its message is the formatted text of its `cmnError`. -/
structure SdkError where
  codespace : String
  code : CodeType
  message : String
  deriving DecidableEq, Repr

/-- `newErrorWithRootCodespace`, for a message with no format arguments. -/
def newErrorWithRootCodespace (code : CodeType) (msg : String) : SdkError :=
  { codespace := codespaceRoot, code, message := msg }

def errInternal (msg : String) : SdkError := newErrorWithRootCodespace codeInternal msg
def errTxDecode (msg : String) : SdkError := newErrorWithRootCodespace codeTxDecode msg
def errUnknownRequest (msg : String) : SdkError := newErrorWithRootCodespace codeUnknownRequest msg
def errInvalidAddress (msg : String) : SdkError := newErrorWithRootCodespace codeInvalidAddress msg
def errUnknownAddress (msg : String) : SdkError := newErrorWithRootCodespace codeUnknownAddress msg
def errInsufficientCoins (msg : String) : SdkError := newErrorWithRootCodespace codeInsufficientCoins msg
def errInvalidCoins (msg : String) : SdkError := newErrorWithRootCodespace codeInvalidCoins msg
def errOutOfGas (msg : String) : SdkError := newErrorWithRootCodespace codeOutOfGas msg

/-- `Error()`; `%#v` quotes the message. -/
def SdkError.error (err : SdkError) : String :=
  "ERROR:\nCodespace: " ++ err.codespace ++ "\nCode: " ++ toString err.code ++ "\nMessage: " ++
    err.message.quote ++ "\n"

/-- `ABCILog()`: the error as one line of JSON. -/
def SdkError.abciLog (err : SdkError) : String :=
  "\x7b\"codespace\":" ++ err.codespace.quote ++ ",\"code\":" ++ toString err.code ++ ",\"message\":" ++
    err.message.quote ++ "\x7d"

/-- `sdk.Result`, with the fields the modelled code reads. -/
structure Result where
  code : CodeType
  codespace : String
  log : String
  gasWanted : UInt64 := 0
  deriving DecidableEq, Repr

/-- `Result{}`. -/
def Result.zero : Result := { code := codeOK, codespace := "", log := "" }

def Result.isOK (res : Result) : Bool := res.code == codeOK

/-- `Result()`. -/
def SdkError.result (err : SdkError) : Result :=
  { code := err.code, codespace := err.codespace, log := err.abciLog }

/-- A value a `panic` carries, as `recover` sees it. -/
inductive Panic
  /-- `sdk.ErrorOutOfGas{Descriptor}`. -/
  | outOfGas (descriptor : String)
  /-- `sdk.ErrorGasOverflow{Descriptor}`. -/
  | gasOverflow (descriptor : String)
  /-- Any other value, by its `%v` text. -/
  | other (text : String)
  deriving DecidableEq, Repr

/-- The `%v` text of a panic value. -/
def Panic.text : Panic → String
  | .outOfGas descriptor => "\x7b" ++ descriptor ++ "\x7d"
  | .gasOverflow descriptor => "\x7b" ++ descriptor ++ "\x7d"
  | .other text => text

/-- A panic of a gas meter, out of gas or on overflow. -/
def Panic.isGas : Panic → Bool
  | .outOfGas _ => true
  | .gasOverflow _ => true
  | .other _ => false

/-- The runtime panic of a `nil` pointer dereference. -/
def Panic.nilDereference : Panic :=
  .other "runtime error: invalid memory address or nil pointer dereference"

/-- The runtime panic of an index out of a slice's range. -/
def Panic.indexOutOfRange (index length : Nat) : Panic :=
  .other ("runtime error: index out of range [" ++ toString index ++ "] with length " ++ toString length)

/-- The runtime panic of a negative index. -/
def Panic.negativeIndex (index : Int) : Panic :=
  .other ("runtime error: index out of range [" ++ toString index ++ "]")

/-- The runtime panic of a slice `[:high]` past the length. -/
def Panic.sliceBoundsOutOfRange (high length : Nat) : Panic :=
  .other ("runtime error: slice bounds out of range [:" ++ toString high ++ "] with length " ++ toString length)

/-! ## Gas meters

`store/types/gas.go`: a `basicGasMeter` has a limit, an `infiniteGasMeter` has
none. Gas is `uint64`, and `ConsumeGas` checks the addition for overflow. -/

structure GasMeter where
  limit : Option UInt64
  consumed : UInt64
  deriving DecidableEq, Repr

/-- `ConsumeGas`: the meter it leaves and the panic it raises, if any. On overflow
    `consumed` is left at `0`, the value `addUint64Overflow` returns. -/
def GasMeter.consumeGas (g : GasMeter) (amount : UInt64) (descriptor : String) :
    GasMeter × Option Panic :=
  if (0xFFFFFFFFFFFFFFFF : UInt64) - g.consumed < amount then
    ({ g with consumed := 0 }, some (.gasOverflow descriptor))
  else
    let g' := { g with consumed := g.consumed + amount }
    match g.limit with
    | some limit => (g', if g'.consumed > limit then some (.outOfGas descriptor) else none)
    | none => (g', none)

def GasMeter.isOutOfGas (g : GasMeter) : Bool :=
  match g.limit with
  | some limit => g.consumed ≥ limit
  | none => false

def GasMeter.gasConsumedToLimit (g : GasMeter) : UInt64 :=
  match g.limit with
  | some limit => if g.consumed > limit then limit else g.consumed
  | none => g.consumed

/-- The amount a meter may reach: its limit, or the largest `uint64` for a meter with none. -/
def GasMeter.bound (g : GasMeter) : Nat :=
  match g.limit with
  | some limit => limit.toNat
  | none => 18446744073709551615

theorem GasMeter.bound_lt (g : GasMeter) : g.bound < 18446744073709551616 := by
  unfold bound
  split
  · exact UInt64.toNat_lt _
  · decide

/-- A charge that keeps the meter within its bound is added, with no panic. -/
theorem GasMeter.consumeGas_of_le {g : GasMeter} {amount : UInt64} (descriptor : String)
    (h : g.consumed.toNat + amount.toNat ≤ g.bound) :
    g.consumeGas amount descriptor = ({ g with consumed := g.consumed + amount }, none) := by
  have hbound := g.bound_lt
  obtain ⟨limit, consumed⟩ := g
  dsimp only at h
  have hc := consumed.toNat_lt
  have hsum : (consumed + amount).toNat = consumed.toNat + amount.toNat := by
    rw [UInt64.toNat_add]
    omega
  have hroom : ¬(0xFFFFFFFFFFFFFFFF : UInt64) - consumed < amount := by
    rw [UInt64.lt_iff_toNat_lt,
      UInt64.toNat_sub_of_le _ _ (UInt64.le_iff_toNat_le.mpr (by simp only [UInt64.reduceToNat]; omega))]
    simp only [UInt64.reduceToNat]
    omega
  cases limit with
  | none => simp [consumeGas, hroom]
  | some limit =>
    have hle : ¬(consumed + amount) > limit := by
      rw [gt_iff_lt, UInt64.lt_iff_toNat_lt, hsum]
      simp only [bound] at h
      omega
    simp [consumeGas, hroom, hle]

/-- A charge past the bound panics, out of gas or on overflow, and keeps the meter's limit. -/
theorem GasMeter.consumeGas_of_lt {g : GasMeter} {amount : UInt64} (descriptor : String)
    (h : g.bound < g.consumed.toNat + amount.toNat) :
    (g.consumeGas amount descriptor).1.limit = g.limit ∧
      ((g.consumeGas amount descriptor).2 = some (.outOfGas descriptor) ∨
        (g.consumeGas amount descriptor).2 = some (.gasOverflow descriptor)) := by
  obtain ⟨limit, consumed⟩ := g
  dsimp only at h
  have hc := consumed.toNat_lt
  have ha := amount.toNat_lt
  by_cases hroom : (0xFFFFFFFFFFFFFFFF : UInt64) - consumed < amount
  · simp [consumeGas, hroom]
  · -- no overflow: the sum is past a limit, so there is one
    have hfit : consumed.toNat + amount.toNat ≤ 18446744073709551615 := by
      rw [UInt64.lt_iff_toNat_lt,
        UInt64.toNat_sub_of_le _ _ (UInt64.le_iff_toNat_le.mpr (by simp only [UInt64.reduceToNat]; omega))] at hroom
      simp only [UInt64.reduceToNat] at hroom
      omega
    have hsum : (consumed + amount).toNat = consumed.toNat + amount.toNat := by
      rw [UInt64.toNat_add]
      omega
    cases limit with
    | none =>
      simp only [bound] at h
      omega
    | some limit =>
      have hgt : (consumed + amount) > limit := by
        rw [gt_iff_lt, UInt64.lt_iff_toNat_lt, hsum]
        simpa [bound] using h
      simp [consumeGas, hroom, hgt]

end Friday.Types
