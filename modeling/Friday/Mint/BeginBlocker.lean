import Friday.Mint.Minter
import Friday.Supply.Keeper
import Friday.Types.CoinArithmetic

/-! # The mint module's `BeginBlocker`

`x/mint/abci.go` with the mint keeper of `x/mint/internal/keeper/keeper.go`, and the staking
keeper's `StakingTokenSupply` and `BondedRatio` of `x/staking/keeper/pool.go`, over the supply
keeper's state. A block recomputes the minter, mints the block's provision into the mint module's
account, and sends it to the fee collector; an error of either call is a panic.

A `BeginBlocker` that returns keeps the supply keeper's invariant, grows the total supply by
the block's provision, and leaves every account's coins as they were except the fee collector's,
which gains the provision (`beginBlocker_mints`). `ValidateParams` accepts a `GoalBonded` of zero
and does not check `BlocksPerYear`; with either at zero every `BeginBlocker` panics
(`beginBlocker_panics`).
-/

namespace Friday.Mint

open Friday.Types Supply

/-- `BondedPoolName` of the staking module. -/
def bondedPoolName : String := "bonded_tokens_pool"

/-- A computation of the model that may panic, run inside a keeper call. -/
def liftPanic {α : Type} (x : Except Panic α) : KeeperM α := ExceptT.lift (StateT.lift x)

/-- A call whose `sdk.Error` the caller panics on: `if err != nil { panic(err) }`. -/
def mustSucceed {α : Type} (x : KeeperM α) : KeeperM α := do
  match ← (ExceptT.lift x.run : KeeperM (Except SdkError α)) with
  | .ok a => pure a
  | .error err => throwPanic (.other err.error)

/-- The staking keeper's `StakingTokenSupply`: the total supply of the bond denomination. -/
def stakingTokenSupply (bondDenom : String) : KeeperM Int := do
  liftPanic ((← getSupply).total.amountOf bondDenom)

/-- The staking keeper's `BondedRatio`. `GetBondedPool` is `GetModuleAccount`, which stores a new
pool account where there is none; a pool the supply keeper does not know is nil, and reading its
coins panics. -/
def bondedRatio (sk : Supply.Keeper) (bondDenom : String) : KeeperM Dec := do
  let bondedPool ← sk.getModuleAccount bondedPoolName
  let stakeSupply ← stakingTokenSupply bondDenom
  if 0 < stakeSupply then
    let some bondedPool := bondedPool | throwPanic .nilDereference
    liftPanic ((newDecFromInt (← liftPanic (bondedPool.coins.amountOf bondDenom))).quoInt stakeSupply)
  else
    return zeroDec

/-- The mint `Keeper`: the supply keeper and the fee collector's module name. The minter and the
parameters, which the keeper reads from its store and its parameter space, are arguments of
`BeginBlocker`, and so is the staking keeper's `BondDenom`. -/
structure Keeper where
  supplyKeeper : Supply.Keeper
  feeCollectorName : String

namespace Keeper

variable (k : Keeper)

/-- `MintCoins`: an empty set is skipped. -/
def mintCoins (newCoins : Coins) : KeeperM Unit :=
  -- skip as no coins need to be minted
  if newCoins.isEmpty then pure () else k.supplyKeeper.mintCoins moduleName newCoins

/-- `AddCollectedFees`. -/
def addCollectedFees (blockTime : Int64) (fees : Coins) : KeeperM Unit :=
  k.supplyKeeper.sendCoinsFromModuleToModule blockTime moduleName k.feeCollectorName fees

/-- `BeginBlocker`, from the stored minter and parameters; it returns the minter it stores with
`SetMinter`. -/
def beginBlocker (blockTime : Int64) (bondDenom : String) (minter : Minter) (params : Params) : KeeperM Minter := do
  -- recalculate inflation rate
  let totalStakingSupply ← stakingTokenSupply bondDenom
  let bondedRatio ← bondedRatio k.supplyKeeper bondDenom
  let minter := { minter with inflation := ← liftPanic (minter.nextInflationRate params bondedRatio) }
  let minter := { minter with annualProvisions := ← liftPanic (minter.nextAnnualProvisions params totalStakingSupply) }
  -- mint coins, update supply
  let mintedCoin ← liftPanic (minter.blockProvision params)
  let mintedCoins ← liftPanic (newCoins [mintedCoin])
  mustSucceed (k.mintCoins mintedCoins)
  -- send the minted coins to the fee collector account
  mustSucceed (k.addCollectedFees blockTime mintedCoins)
  return minter

end Keeper

/-! ## Running the calls -/

section Run

variable {α β : Type} {st st' : State}

@[simp] theorem run_liftPanic (x : Except Panic α) (st : State) :
    (liftPanic x).run.run st = x.map fun a => (.ok a, st) := by
  cases x <;> rfl

/-- A sequence that starts with a computation that may panic and returned. -/
theorem run_liftPanic_bind_eq_ok {x : Except Panic α} {f : α → KeeperM β} {r : Except SdkError β}
    (h : (liftPanic x >>= f).run.run st = .ok (r, st')) : ∃ a, x = .ok a ∧ (f a).run.run st = .ok (r, st') := by
  rw [KeeperM.run_bind, run_liftPanic] at h
  cases x with
  | error p => cases h
  | ok a => exact ⟨a, rfl, h⟩

/-- A call the caller panics on returns its value, which the call returned. -/
theorem run_mustSucceed_eq_ok {x : KeeperM α} {r : Except SdkError α}
    (h : (mustSucceed x).run.run st = .ok (r, st')) : ∃ a, r = .ok a ∧ x.run.run st = .ok (.ok a, st') := by
  unfold mustSucceed at h
  rw [KeeperM.run_bind] at h
  cases hx : x.run.run st with
  | error p =>
    rw [show (ExceptT.lift x.run : KeeperM (Except SdkError α)).run.run st = .error p by
      show (x.run.run st).map _ = _
      rw [hx]
      rfl] at h
    cases h
  | ok p =>
    obtain ⟨res, st₁⟩ := p
    rw [show (ExceptT.lift x.run : KeeperM (Except SdkError α)).run.run st = .ok (.ok res, st₁) by
      show (x.run.run st).map _ = _
      rw [hx]
      rfl] at h
    cases res with
    | error err => cases h
    | ok a =>
      cases h
      exact ⟨a, rfl, rfl⟩

theorem run_stakingTokenSupply (bondDenom : String) (st : State) :
    (stakingTokenSupply bondDenom).run.run st = (st.supply.total.amountOf bondDenom).map fun n => (.ok n, st) := by
  unfold stakingTokenSupply
  rw [KeeperM.run_bind, KeeperM.run_getSupply]
  exact run_liftPanic _ _

/-- `StakingTokenSupply` that returned gave an amount and changed nothing. -/
theorem run_stakingTokenSupply_eq_ok {bondDenom : String} {r : Except SdkError Int}
    (h : (stakingTokenSupply bondDenom).run.run st = .ok (r, st')) : st' = st ∧ ∃ n, r = .ok n := by
  rw [run_stakingTokenSupply] at h
  cases hn : st.supply.total.amountOf bondDenom with
  | error p =>
    rw [hn] at h
    cases h
  | ok n =>
    rw [hn] at h
    cases h
    exact ⟨rfl, n, rfl⟩

end Run

/-! ## The calls keep the invariant -/

section Calls

variable {k : Keeper} {st st' : State}

/-- `BondedRatio` returns a ratio, keeps the invariant, the supply and every account's coins: the
pool it may store holds no coins. -/
theorem bondedRatio_keeps {sk : Supply.Keeper} {bondDenom : String} {r : Except SdkError Dec} (hinv : st.Inv)
    (h : (Mint.bondedRatio sk bondDenom).run.run st = .ok (r, st')) :
    st'.Inv ∧ st'.supply = st.supply ∧
      (∀ addr, Coins.amountAt (st'.accounts.coinsOf addr) = Coins.amountAt (st.accounts.coinsOf addr)) ∧
      ∃ ratio, r = .ok ratio := by
  unfold Mint.bondedRatio at h
  obtain ⟨o, st₁, hinv₁, hsupply, hamounts, -, h₁⟩ := hinv.getModuleAccount_bind h
  rcases KeeperM.run_bind_eq_ok h₁ with ⟨e, hx, -⟩ | ⟨n, st₂, hx, h₂⟩
  · obtain ⟨-, n, hn⟩ := run_stakingTokenSupply_eq_ok hx
    cases hn
  obtain ⟨hst₂, -⟩ := run_stakingTokenSupply_eq_ok hx
  rw [hst₂] at h₂
  have hrest : st' = st₁ ∧ ∃ ratio, r = .ok ratio := by
    by_cases hpos : 0 < n
    · rw [if_pos hpos] at h₂
      cases o with
      | none => cases h₂
      | some pool =>
        obtain ⟨a, -, h₃⟩ := run_liftPanic_bind_eq_ok h₂
        rw [run_liftPanic] at h₃
        cases hq : (newDecFromInt a).quoInt n with
        | error p =>
          rw [hq] at h₃
          cases h₃
        | ok ratio =>
          rw [hq] at h₃
          cases h₃
          exact ⟨rfl, ratio, rfl⟩
    · rw [if_neg hpos, KeeperM.run_pure] at h₂
      cases h₂
      exact ⟨rfl, zeroDec, rfl⟩
  obtain ⟨rfl, hr⟩ := hrest
  exact ⟨hinv₁, hsupply, hamounts, hr⟩

/-- The mint keeper's `MintCoins` of a sound set that returns no error keeps the invariant and
adds the set to the total supply and to the mint module's account. -/
theorem mintCoins_keeps {cs : Coins} (hinv : st.Inv) (hcs : Coins.Sound cs)
    (h : (k.mintCoins cs).run.run st = .ok (.ok (), st')) :
    st'.Inv ∧ (∀ denom, Coins.amountAt st'.supply.total denom = Coins.amountAt st.supply.total denom + Coins.amountAt cs denom) ∧
      ∀ addr denom, Coins.amountAt (st'.accounts.coinsOf addr) denom = Coins.amountAt (st.accounts.coinsOf addr) denom +
        if addr = k.supplyKeeper.newModuleAddress moduleName then Coins.amountAt cs denom else 0 := by
  unfold Keeper.mintCoins at h
  cases cs with
  | nil =>
    simp only [List.isEmpty_nil, if_true, KeeperM.run_pure] at h
    cases h
    exact ⟨hinv, fun _ => by simp, fun _ _ => by simp⟩
  | cons c cs =>
    simp only [List.isEmpty_cons, Bool.false_eq_true, if_false] at h
    obtain ⟨hinv', hminted⟩ := hinv.mintCoins hcs h
    exact ⟨hinv', hminted rfl⟩

end Calls

/-! ## A block -/

section Block

variable {k : Keeper} {st st' : State} {blockTime : Int64} {bondDenom : String} {minter : Minter} {params : Params}
  {r : Except SdkError Minter}

/-- What a `BeginBlocker` that returns has done: from a state that keeps the invariant,
`BondedRatio` reached one that keeps it, with the same supply and coins; the minter's rate, its
block's coin and the set of it were computed, and both calls returned no error. -/
theorem run_beginBlocker_eq_ok (hinv : st.Inv)
    (h : (k.beginBlocker blockTime bondDenom minter params).run.run st = .ok (r, st')) :
    ∃ ratio minter' coin cs st₂ st₃, r = .ok minter' ∧ st₂.Inv ∧ st₂.supply = st.supply ∧
      (∀ addr, Coins.amountAt (st₂.accounts.coinsOf addr) = Coins.amountAt (st.accounts.coinsOf addr)) ∧
      minter.nextInflationRate params ratio = .ok minter'.inflation ∧ minter'.blockProvision params = .ok coin ∧
      newCoins [coin] = .ok cs ∧ (k.mintCoins cs).run.run st₂ = .ok (.ok (), st₃) ∧
      (k.addCollectedFees blockTime cs).run.run st₃ = .ok (.ok (), st') := by
  unfold Keeper.beginBlocker at h
  rcases KeeperM.run_bind_eq_ok h with ⟨e, hx, -⟩ | ⟨n, st₁, hx, h₁⟩
  · obtain ⟨-, n, hn⟩ := run_stakingTokenSupply_eq_ok hx
    cases hn
  obtain ⟨rfl, -⟩ := run_stakingTokenSupply_eq_ok hx
  rcases KeeperM.run_bind_eq_ok h₁ with ⟨e, hx, -⟩ | ⟨ratio, st₂, hx, h₂⟩
  · obtain ⟨-, -, -, _, he⟩ := bondedRatio_keeps hinv hx
    cases he
  obtain ⟨hinv₂, hsupply₂, hamounts₂, -⟩ := bondedRatio_keeps hinv hx
  obtain ⟨inflation, hinflation, h₃⟩ := run_liftPanic_bind_eq_ok h₂
  obtain ⟨provisions, -, h₄⟩ := run_liftPanic_bind_eq_ok h₃
  obtain ⟨coin, hcoin, h₅⟩ := run_liftPanic_bind_eq_ok h₄
  obtain ⟨cs, hcs, h₆⟩ := run_liftPanic_bind_eq_ok h₅
  rcases KeeperM.run_bind_eq_ok h₆ with ⟨e, hx, -⟩ | ⟨u, st₃, hx, h₇⟩
  · obtain ⟨a, he, -⟩ := run_mustSucceed_eq_ok hx
    cases he
  obtain ⟨_, -, hmint⟩ := run_mustSucceed_eq_ok hx
  rcases KeeperM.run_bind_eq_ok h₇ with ⟨e, hx, -⟩ | ⟨u, st₄, hx, h₈⟩
  · obtain ⟨a, he, -⟩ := run_mustSucceed_eq_ok hx
    cases he
  obtain ⟨_, -, hsend⟩ := run_mustSucceed_eq_ok hx
  rw [KeeperM.run_pure] at h₈
  cases h₈
  exact ⟨ratio, _, coin, cs, st₂, st₃, rfl, hinv₂, hsupply₂, hamounts₂, hinflation, hcoin, hcs, hmint, hsend⟩

/-- A `BeginBlocker` that returns keeps the supply keeper's invariant and returns the minter it
stores, whose inflation rate lies in `[InflationMin, InflationMax]` for parameters
`ValidateParams` accepts. The block's provision is added to the total supply and to the fee
collector's account; every other account keeps its coins. -/
theorem beginBlocker_mints (hinv : st.Inv) (h : (k.beginBlocker blockTime bondDenom minter params).run.run st = .ok (r, st')) :
    st'.Inv ∧ ∃ minter' coin, r = .ok minter' ∧ minter'.blockProvision params = .ok coin ∧
      (validateParams params = .ok () →
        params.inflationMin.int ≤ minter'.inflation.int ∧ minter'.inflation.int ≤ params.inflationMax.int) ∧
      (∀ denom, Coins.amountAt st'.supply.total denom = Coins.amountAt st.supply.total denom +
        if coin.denom = denom then coin.amount else 0) ∧
      ∀ addr denom, Coins.amountAt (st'.accounts.coinsOf addr) denom = Coins.amountAt (st.accounts.coinsOf addr) denom +
        if addr = k.supplyKeeper.newModuleAddress k.feeCollectorName then (if coin.denom = denom then coin.amount else 0)
        else 0 := by
  obtain ⟨ratio, minter', coin, cs, st₂, st₃, rfl, hinv₂, hsupply₂, hamounts₂, hinflation, hcoin, hcs, hmint, hsend⟩ :=
    run_beginBlocker_eq_ok hinv h
  obtain ⟨hsound, hamount⟩ := Coins.newCoins_singleton (fits_of_blockProvision_eq_ok hcoin) hcs
  -- minted into the mint module's account, then sent on to the fee collector
  obtain ⟨hinv₃, hsupply₃, hamounts₃⟩ := mintCoins_keeps hinv₂ hsound hmint
  obtain ⟨hinv', hsupply', hmoved⟩ := hinv₃.sendCoinsFromModuleToModule hsend
  refine ⟨hinv', minter', coin, rfl, hcoin, fun hvalid => nextInflationRate_bounds hvalid hinflation, fun denom => ?_,
    fun addr denom => ?_⟩
  · rw [hsupply', hsupply₃, hsupply₂, hamount]
  · rw [hmoved rfl, hamounts₃, congrFun (hamounts₂ addr) denom, hamount]
    split_ifs <;> omega

/-- A supply keeper with the mint module at `[7]`, the fee collector at `[8]` and the bonded pool
at `[9]`. -/
def sampleKeeper : Keeper :=
  ⟨newKeeper (fun name => if name = "mint" then [7] else if name = "fee_collector" then [8] else [9]) (fun _ => "")
    [("mint", [Supply.minter]), ("fee_collector", []), ("bonded_tokens_pool", [Supply.burner, Supply.staking])], "fee_collector"⟩

/-- One account holding `10^15stake`. -/
def stakeStore : Bank.AccountStore := .single (.base ⟨[1], 0, 0, [⟨"stake", 10 ^ 15⟩]⟩) 1

theorem stakeStore_sound : stakeStore.Sound :=
  Bank.AccountStore.sound_single ⟨(Coins.isValid_iff _).mp (by decide), by decide, by decide⟩

theorem initGenesis_stakeStore : initGenesis stakeStore [] = .ok ⟨[⟨"stake", 10 ^ 15⟩]⟩ := by
  decide

/-- The first block after genesis, with the default minter and parameters: the fee collector,
which held nothing, holds what the supply grew by. -/
theorem beginBlocker_mints_genesis :
    initGenesis stakeStore [] = .ok ⟨[⟨"stake", 10 ^ 15⟩]⟩ ∧
      ∃ minter' st', (sampleKeeper.beginBlocker 0 "stake" defaultInitialMinter defaultParams).run.run
          ⟨stakeStore, ⟨[⟨"stake", 10 ^ 15⟩]⟩⟩ = .ok (.ok minter', st') ∧ st'.Inv ∧
        Coins.amountAt (st'.accounts.coinsOf [8]) "stake" = Coins.amountAt st'.supply.total "stake" - 10 ^ 15 := by
  have hok : (((sampleKeeper.beginBlocker 0 "stake" defaultInitialMinter defaultParams).run.run
      ⟨stakeStore, ⟨[⟨"stake", 10 ^ 15⟩]⟩⟩).toOption.bind fun p => p.1.toOption).isSome = true := by
    decide +kernel
  refine ⟨initGenesis_stakeStore, ?_⟩
  cases hrun : (sampleKeeper.beginBlocker 0 "stake" defaultInitialMinter defaultParams).run.run
      ⟨stakeStore, ⟨[⟨"stake", 10 ^ 15⟩]⟩⟩ with
  | error p =>
    rw [hrun] at hok
    simp [Except.toOption] at hok
  | ok res =>
    obtain ⟨r, st'⟩ := res
    cases r with
    | error e =>
      rw [hrun] at hok
      simp [Except.toOption] at hok
    | ok m =>
      obtain ⟨hinv', -, coin, -, -, -, hsupply, hamounts⟩ :=
        beginBlocker_mints (inv_initGenesis stakeStore_sound initGenesis_stakeStore) hrun
      refine ⟨m, st', rfl, hinv', ?_⟩
      have hfee : ([8] : Address) = sampleKeeper.supplyKeeper.newModuleAddress sampleKeeper.feeCollectorName := by decide
      have hnone : Coins.amountAt (stakeStore.coinsOf [8]) "stake" = 0 := by decide
      rw [hamounts, hsupply, if_pos hfee]
      show Coins.amountAt (stakeStore.coinsOf [8]) "stake" + _ = Coins.amountAt [⟨"stake", 10 ^ 15⟩] "stake" + _ - _
      rw [hnone, show Coins.amountAt [⟨"stake", 10 ^ 15⟩] "stake" = 10 ^ 15 by decide]
      omega

/-- A `GoalBonded` or a `BlocksPerYear` of zero is a divisor of zero in `NextInflationRate`. -/
theorem nextInflationRate_eq_error (hzero : params.goalBonded.int = 0 ∨ params.blocksPerYear = 0) (ratio : Dec) :
    ∃ p, minter.nextInflationRate params ratio = .error p := by
  unfold Minter.nextInflationRate
  rcases hzero with hgoal | hblocks
  · -- `bondedRatio.Quo(params.GoalBonded)`
    have hquo : ratio.quo params.goalBonded = .error (.other "division by zero") := by
      simp [Dec.quo, Dec.quoPrecise, hgoal, bind, Except.bind, throw, throwThe, MonadExceptOf.throw]
    exact ⟨.other "division by zero", by simp [hquo, bind, Except.bind]⟩
  · -- `inflationRateChangePerYear.Quo(sdk.NewDec(int64(params.BlocksPerYear)))`
    have hquo : ∀ d : Dec, d.quo (newDec params.blocksPerYear.toInt64) = .error (.other "division by zero") := by
      intro d
      simp [Dec.quo, Dec.quoPrecise, newDec, hblocks, bind, Except.bind, throw, throwThe, MonadExceptOf.throw]
    simp only [bind, Except.bind]
    split
    · exact ⟨_, rfl⟩
    split
    · exact ⟨_, rfl⟩
    split
    · exact ⟨_, rfl⟩
    rw [hquo]
    exact ⟨_, rfl⟩

/-- `ValidateParams` accepts a `GoalBonded` of zero and does not check `BlocksPerYear`; with
either at zero, `NextInflationRate` divides by zero, and every `BeginBlocker` panics, from every
state that keeps the invariant and with every minter. -/
theorem beginBlocker_panics (hinv : st.Inv) (hzero : params.goalBonded.int = 0 ∨ params.blocksPerYear = 0) :
    ∃ p, (k.beginBlocker blockTime bondDenom minter params).run.run st = .error p := by
  cases hrun : (k.beginBlocker blockTime bondDenom minter params).run.run st with
  | error p => exact ⟨p, rfl⟩
  | ok res =>
    obtain ⟨ratio, minter', -, -, -, -, -, -, -, -, hinflation, -⟩ := run_beginBlocker_eq_ok hinv hrun
    obtain ⟨p, hp⟩ : ∃ p, minter.nextInflationRate params ratio = .error p := nextInflationRate_eq_error hzero ratio
    rw [hp] at hinflation
    cases hinflation

/-- The default parameters with a `GoalBonded` of zero pass `ValidateParams`, and the first block
after genesis panics. -/
theorem beginBlocker_panics_goalBonded :
    validateParams { defaultParams with goalBonded := zeroDec } = .ok () ∧ initGenesis stakeStore [] = .ok ⟨[⟨"stake", 10 ^ 15⟩]⟩ ∧
      ∃ p, (sampleKeeper.beginBlocker 0 "stake" defaultInitialMinter { defaultParams with goalBonded := zeroDec }).run.run
        ⟨stakeStore, ⟨[⟨"stake", 10 ^ 15⟩]⟩⟩ = .error p :=
  ⟨by decide, initGenesis_stakeStore,
    beginBlocker_panics (inv_initGenesis stakeStore_sound initGenesis_stakeStore) (.inl rfl)⟩

end Block

end Friday.Mint
