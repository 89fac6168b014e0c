import Friday.ExecutionLayer.VotingPower
import Friday.Lib.Strconv

/-! # Validator power at genesis

`x/executionlayer/genesis.go`. `InitGenesis` stores each genesis validator with an empty
stake and returns a `ValidatorUpdate` for it; `WriteValidators` exports the stored validators
as `GenesisValidator`s. Both compute a validator's power from its stake's decimal string as
`EndBlocker` does, with the length test written the other way round (`>` where `EndBlocker`
has `<=`) and with `0` for a text that does not parse, where `EndBlocker` skips the validator.
The two tests cut the same text (`powerOf_eq_genesisPowerStr`), and on a decimal digit string
whose power fits in an `int64` all three copies give the stake divided by `10 ^ 18`, rounded
down (`stake_power_agreement`).

The rest of `InitGenesis` (the engine's `RunGenesis`, the bonds it hands to the candidate
block, the proxy contract lookup) is not modelled.
-/

namespace Friday.ExecutionLayer

open Friday.Types App Store SortedKV

/-- `powerStr` of `InitGenesis` and `WriteValidators`: the stake without its last
    `DECIMAL_POINT_POS` characters, `"0"` for a stake no longer than that. -/
def genesisPowerStr (stake : String) : String :=
  if stake.length > decimalPointPos then (stake.take (stake.length - decimalPointPos)).toString else "0"

/-- The power of `InitGenesis` and `WriteValidators`: `strconv.ParseInt` of `powerStr`, and
    `0` when it fails. -/
def genesisPower (stake : String) : Int :=
  match Strconv.parseInt64 (genesisPowerStr stake) with
  | .ok power => power
  | .error _ => 0

/-- `tmtypes.GenesisValidator`, without the address that `WriteValidators` leaves unset. -/
structure GenesisValidator where
  pubKey : PubKey
  power : Int
  name : String
  deriving DecidableEq, Repr

variable (env : Env)

/-- The validator loop of `InitGenesis`: each validator's update, and the validator stored
    with an empty stake, by operator and by consensus address. -/
def initGenesisValidators (ctx : Context) : List Validator → Go (List ValidatorUpdate)
  | [] => pure []
  | validator :: validators => do
    let power := genesisPower validator.stake
    let stored := { validator with stake := "" }
    setValidator ctx stored.operatorAddress stored
    setValidatorByConsAddr env ctx stored
    let updates ← initGenesisValidators ctx validators
    return { pubKey := validator.consPubKey, power } :: updates

/-- `WriteValidators`. -/
def writeValidators (ctx : Context) : Go (List GenesisValidator) := do
  let validators ← getAllValidators ctx.root
  return validators.map fun validator =>
    { pubKey := validator.consPubKey, power := genesisPower validator.stake,
      name := validator.description.moniker }

/-! ## The power of a stake -/

/-- `len(power) <= 18` in `EndBlocker` and `len(powerStr) > 18` at genesis are the two sides of
    one test: both cut the same text. -/
theorem powerOf_eq_genesisPowerStr (stake : String) : powerOf stake = genesisPowerStr stake := by
  unfold powerOf genesisPowerStr
  by_cases hlen : stake.length ≤ decimalPointPos
  · rw [if_pos hlen, if_neg (Nat.not_lt.mpr hlen)]
  · rw [if_neg hlen, if_pos (Nat.lt_of_not_le hlen)]

/-- On a decimal digit string whose power fits in an `int64`, `EndBlocker`'s power text and the
    genesis one are the same text, `strconv.ParseInt` reads it as the stake divided by `10 ^ 18`,
    rounded down, and the genesis power, whose fallback is then not taken, is that number. -/
theorem stake_power_agreement (stake : String) (hdigits : ∀ c ∈ stake.toList, c.isDigit)
    (hbound : Decimal.value stake.toList / 10 ^ decimalPointPos < 2 ^ 63) :
    Strconv.parseInt64 (powerOf stake) = .ok ((Decimal.value stake.toList / 10 ^ decimalPointPos : Nat) : Int) ∧
      powerOf stake = genesisPowerStr stake ∧
      Strconv.parseInt64 (genesisPowerStr stake) =
        .ok ((Decimal.value stake.toList / 10 ^ decimalPointPos : Nat) : Int) ∧
      genesisPower stake = ((Decimal.value stake.toList / 10 ^ decimalPointPos : Nat) : Int) := by
  have hparse : Strconv.parseInt64 (powerOf stake) = .ok (votingPower stake) :=
    parseInt64_powerOf ⟨hdigits, hbound⟩
  have htext := powerOf_eq_genesisPowerStr stake
  refine ⟨hparse, htext, htext ▸ hparse, ?_⟩
  rw [htext] at hparse
  simp only [genesisPower, hparse, votingPower]

/-- A stake of 19 digits: the first one is its power. -/
theorem stake_power_agreement_nineteen :
    (∀ c ∈ "1000000000000000000".toList, c.isDigit) ∧
      Decimal.value "1000000000000000000".toList / 10 ^ decimalPointPos < 2 ^ 63 ∧
      Strconv.parseInt64 (powerOf "1000000000000000000") =
        .ok ((Decimal.value "1000000000000000000".toList / 10 ^ decimalPointPos : Nat) : Int) ∧
      powerOf "1000000000000000000" = genesisPowerStr "1000000000000000000" ∧
      Strconv.parseInt64 (genesisPowerStr "1000000000000000000") =
        .ok ((Decimal.value "1000000000000000000".toList / 10 ^ decimalPointPos : Nat) : Int) ∧
      genesisPower "1000000000000000000" =
        ((Decimal.value "1000000000000000000".toList / 10 ^ decimalPointPos : Nat) : Int) :=
  have hdigits : ∀ c ∈ "1000000000000000000".toList, c.isDigit := List.all_eq_true.mp (by decide)
  have hbound : Decimal.value "1000000000000000000".toList / 10 ^ decimalPointPos < 2 ^ 63 := by decide
  ⟨hdigits, hbound, stake_power_agreement _ hdigits hbound⟩

end Friday.ExecutionLayer
