import Friday.Types.DecString
import Friday.Types.Coin

/-! # The minter and the mint parameters

`x/mint/internal/types/minter.go` and `params.go`, with the genesis state of `genesis.go`. Each
block recomputes the annual inflation rate from the bonded ratio, moving it toward the goal by
at most `InflationRateChange` a year, and caps it to `[InflationMin, InflationMax]`
(`nextInflationRate_bounds`, for parameters `ValidateParams` accepts); the block's provision is
the annual provisions over `BlocksPerYear`.
-/

namespace Friday.Mint

open Friday.Types

/-- `ModuleName`. -/
def moduleName : String := "mint"

/-- `types.Minter`. -/
structure Minter where
  inflation : Dec
  annualProvisions : Dec
  deriving DecidableEq, Repr

/-- `types.Params`. -/
structure Params where
  mintDenom : String
  inflationRateChange : Dec
  inflationMax : Dec
  inflationMin : Dec
  goalBonded : Dec
  blocksPerYear : UInt64
  deriving DecidableEq, Repr

/-- `InitialMinter`. -/
def initialMinter (inflation : Dec) : Minter := ⟨inflation, newDec 0⟩

/-- `DefaultInitialMinter`: `NewDecWithPrec(13, 2)`. -/
def defaultInitialMinter : Minter := initialMinter ⟨13 * 10 ^ 16⟩

/-- `ValidateMinter`. -/
def validateMinter (minter : Minter) : Except String Unit :=
  if minter.inflation.lt zeroDec then
    throw ("mint parameter Inflation should be positive, is " ++ minter.inflation.toString)
  else pure ()

/-- `DefaultParams`, each `NewDecWithPrec(i, 2)` as `i * 10^16`. -/
def defaultParams : Params where
  mintDenom := "stake"
  inflationRateChange := ⟨13 * 10 ^ 16⟩
  inflationMax := ⟨20 * 10 ^ 16⟩
  inflationMin := ⟨7 * 10 ^ 16⟩
  goalBonded := ⟨67 * 10 ^ 16⟩
  blocksPerYear := 60 * 60 * 8766 / 5

/-- `ValidateParams`. `BlocksPerYear` is not checked. -/
def validateParams (params : Params) : Except String Unit := do
  if params.goalBonded.lt zeroDec then
    throw ("mint parameter GoalBonded should be positive, is " ++ params.goalBonded.toString ++ " ")
  if params.goalBonded.gt oneDec then
    throw ("mint parameter GoalBonded must be <= 1, is " ++ params.goalBonded.toString)
  if params.inflationMax.lt params.inflationMin then
    throw "mint parameter Max inflation must be greater than or equal to min inflation"
  if params.mintDenom = "" then
    throw "mint parameter MintDenom can't be an empty string"

/-- `GenesisState`. -/
structure GenesisState where
  minter : Minter
  params : Params
  deriving DecidableEq, Repr

def defaultGenesisState : GenesisState := ⟨defaultInitialMinter, defaultParams⟩

/-- `ValidateGenesis`. -/
def validateGenesis (data : GenesisState) : Except String Unit := do
  validateParams data.params
  validateMinter data.minter

namespace Minter

/-- `NextInflationRate`. `int64(params.BlocksPerYear)` wraps a count of `2^63` or more to a
negative one. -/
def nextInflationRate (m : Minter) (params : Params) (bondedRatio : Dec) : Except Panic Dec := do
  -- (1 - bondedRatio/GoalBonded) * InflationRateChange
  let inflationRateChangePerYear ← (← oneDec.sub (← bondedRatio.quo params.goalBonded)).mul params.inflationRateChange
  let inflationRateChange ← inflationRateChangePerYear.quo (newDec params.blocksPerYear.toInt64)
  -- adjust the new annual inflation for this next cycle
  let inflation ← m.inflation.add inflationRateChange
  let inflation := if inflation.gt params.inflationMax then params.inflationMax else inflation
  let inflation := if inflation.lt params.inflationMin then params.inflationMin else inflation
  return inflation

/-- `NextAnnualProvisions`. -/
def nextAnnualProvisions (m : Minter) (_ : Params) (totalSupply : Int) : Except Panic Dec :=
  m.inflation.mulInt totalSupply

/-- `BlockProvision`. -/
def blockProvision (m : Minter) (params : Params) : Except Panic Coin := do
  let provisionAmt ← m.annualProvisions.quoInt params.blocksPerYear.toInt64.toInt
  newCoin params.mintDenom (← provisionAmt.truncateInt)

end Minter

/-! ## What the checks accept -/

section Validate

variable {params : Params}

/-- `ValidateParams` accepts exactly the parameters with a goal in `[0, 1]`, a minimum inflation
no greater than the maximum and a denomination that is not empty. -/
theorem validateParams_eq_ok_iff :
    validateParams params = .ok () ↔
      0 ≤ params.goalBonded.int ∧ params.goalBonded.int ≤ precisionReuse ∧
        params.inflationMin.int ≤ params.inflationMax.int ∧ params.mintDenom ≠ "" := by
  simp only [validateParams, Dec.lt, Dec.gt, zeroDec, oneDec]
  by_cases h1 : params.goalBonded.int < 0
  · simp [h1]
  by_cases h2 : params.goalBonded.int > precisionReuse
  · simp [h1, h2]
  by_cases h3 : params.inflationMax.int < params.inflationMin.int
  · simp [h1, h2, h3]
  by_cases h4 : params.mintDenom = ""
  · simp [h1, h2, h3, h4]
  simp [h1, h2, h3, h4]
  omega

example : validateGenesis defaultGenesisState = .ok () := by decide

end Validate

/-! ## The inflation rate -/

section Inflation

variable {m : Minter} {params : Params} {bondedRatio i : Dec}

/-- The two caps of `NextInflationRate` keep the rate in `[InflationMin, InflationMax]` whenever
the minimum is no greater than the maximum. -/
theorem clamp_bounds (params : Params) (inflation : Dec) (hle : params.inflationMin.int ≤ params.inflationMax.int) :
    let capped := if inflation.gt params.inflationMax then params.inflationMax else inflation
    let i := if capped.lt params.inflationMin then params.inflationMin else capped
    params.inflationMin.int ≤ i.int ∧ i.int ≤ params.inflationMax.int := by
  intro capped i
  -- each cap compares the integers of the two decimals
  simp only [i, capped, Dec.gt, Dec.lt, gt_iff_lt, decide_eq_true_eq]
  split_ifs <;> omega

/-- Every inflation rate `NextInflationRate` computes, for parameters `ValidateParams` accepts,
lies in `[InflationMin, InflationMax]`, whatever the bonded ratio and the rate before. -/
theorem nextInflationRate_bounds (hvalid : validateParams params = .ok ())
    (h : m.nextInflationRate params bondedRatio = .ok i) :
    params.inflationMin.int ≤ i.int ∧ i.int ≤ params.inflationMax.int := by
  have hle := (validateParams_eq_ok_iff.mp hvalid).2.2.1
  simp only [Minter.nextInflationRate, bind, Except.bind, pure, Except.pure] at h
  split at h
  · cases h
  split at h
  · cases h
  split at h
  · cases h
  split at h
  · cases h
  split at h
  · cases h
  rename_i inflation _
  cases h
  exact clamp_bounds params inflation hle

end Inflation

/-- The block's provision is a coin an `sdk.Int` holds: `TruncateInt` panics past 255 bits. -/
theorem fits_of_blockProvision_eq_ok {m : Minter} {params : Params} {coin : Coin}
    (h : m.blockProvision params = .ok coin) : coin.Fits := by
  obtain ⟨provisionAmt, -, h⟩ := Except.bind_eq_ok.mp h
  obtain ⟨n, hn, h⟩ := Except.bind_eq_ok.mp h
  unfold newCoin at h
  split at h
  · cases h
    exact (SdkInt.fits_of_newIntFromBigInt_eq_ok hn).2
  · cases h

end Friday.Mint
