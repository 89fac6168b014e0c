import Friday.App.Store
import Friday.Types.CoinArithmetic
import Friday.Types.Dec

/-! # Accounts and vesting

`x/auth/types/account.go`, and the module account of `x/supply`. An account is a
`BaseAccount`, a continuous or a delayed vesting account over a `BaseVestingAccount`,
or a module account. A vesting account keeps the coins it was created with
(`OriginalVesting`) locked on a schedule and tracks what it delegated out of its locked
coins (`DelegatedVesting`) and out of its unlocked ones (`DelegatedFree`). What it may
spend at a block time is, per denomination of its coins `BC`, `min(BC + DV - V, BC)`,
where `DV` is its delegated vesting amount and `V` the amount still vesting. The amounts are
added and subtracted with `Int.Add` and `Int.Sub`, which panic past 255 bits.

A block time is `time.Time.Unix()`, an `int64`, and the continuous schedule subtracts
times in `int64`, so that the differences wrap around as the source's do.
-/

namespace Friday.Auth

open Friday.Types

/-- `BaseVestingAccount`. -/
structure BaseVestingAccount extends BaseAccount where
  originalVesting : Coins
  delegatedFree : Coins
  delegatedVesting : Coins
  endTime : Int64
  deriving DecidableEq, Repr

structure ContinuousVestingAccount extends BaseVestingAccount where
  startTime : Int64
  deriving DecidableEq, Repr

structure DelayedVestingAccount extends BaseVestingAccount where
  deriving DecidableEq, Repr

/-- `supply.ModuleAccount`. -/
structure ModuleAccount extends BaseAccount where
  name : String
  permissions : List String
  deriving DecidableEq, Repr

/-- The accounts of `exported.Account` that the modelled code builds. -/
inductive Account
  | base (acc : BaseAccount)
  | continuousVesting (acc : ContinuousVestingAccount)
  | delayedVesting (acc : DelayedVestingAccount)
  | module (acc : ModuleAccount)
  deriving DecidableEq, Repr

/-! ## Module accounts -/

/-- `unicode.IsSpace`. -/
def isSpace (c : Char) : Bool :=
  match c.toNat with
  | 0x09 | 0x0A | 0x0B | 0x0C | 0x0D | 0x20 | 0x85 | 0xA0 | 0x1680 | 0x2028 | 0x2029 | 0x202F | 0x205F
  | 0x3000 => true
  | n => decide (0x2000 ≤ n ∧ n ≤ 0x200A)

/-- `strings.TrimSpace(s) == ""`: the string is white space only. -/
def isBlank (s : String) : Bool := s.toList.all isSpace

def validatePermissions (permissions : List String) : Except String Unit :=
  if permissions.any isBlank then throw "module permission is empty" else pure ()

/-- `NewModuleAccount`. -/
def newModuleAccount (ba : BaseAccount) (name : String) (permissions : List String) :
    Except Panic ModuleAccount :=
  match validatePermissions permissions with
  | .ok () => pure { toBaseAccount := ba, name, permissions }
  | .error err => throw (.other err)

/-! ## Vesting -/

namespace BaseVestingAccount

/-- `spendableCoins`, given the coins still vesting. -/
def spendableCoins (bva : BaseVestingAccount) (vestingCoins : Coins) : Except Panic Coins :=
  bva.coins.foldlM (fun spendableCoins coin => do
    let baseAmt := coin.amount
    let vestingAmt ← vestingCoins.amountOf coin.denom
    let delVestingAmt ← bva.delegatedVesting.amountOf coin.denom
    -- min((BC + DV) - V, BC)
    let min := min (← SdkInt.sub (← SdkInt.add baseAmt delVestingAmt) vestingAmt) baseAmt
    let spendableCoin ← newCoin coin.denom min
    if !spendableCoin.isZero then spendableCoins.add [spendableCoin] else return spendableCoins) []

/-- The spendable coins of the account's coins done, on ascending coins: ascending, positive,
each of a denomination done, and in each denomination no more than the coins done. -/
def SpendableInv (pre acc : Coins) : Prop :=
  Merge.Sorted Coin.denom acc ∧ (∀ c ∈ acc, 0 < c.amount) ∧ (∀ c ∈ acc, ∃ c₀ ∈ pre, c.denom = c₀.denom) ∧
    ∀ denom, Coins.amountAt acc denom ≤ Coins.amountAt pre denom

/-- One coin of `spendableCoins`' loop: its spendable coin, `min(BC + DV - V, BC)`, comes after
every coin done, so adding it appends it when it is not zero. -/
theorem SpendableInv.snoc {pre rest acc : Coins} {coin : Coin} (hsorted : Merge.Sorted Coin.denom (pre ++ coin :: rest))
    (h : SpendableInv pre acc) (amt : Int) (h0 : 0 ≤ amt) (hle : amt ≤ coin.amount) :
    (if !(⟨coin.denom, amt⟩ : Coin).isZero then acc.add [⟨coin.denom, amt⟩] else pure acc) =
        .ok (acc ++ if (⟨coin.denom, amt⟩ : Coin).isZero then [] else [⟨coin.denom, amt⟩]) ∧
      SpendableInv (pre ++ [coin]) (acc ++ if (⟨coin.denom, amt⟩ : Coin).isZero then [] else [⟨coin.denom, amt⟩]) := by
  obtain ⟨hs, hpos, hden, hle'⟩ := h
  have hz : ∀ c ∈ acc, c.isZero = false := fun c hc => Coins.isZero_eq_false_of_pos (hpos c hc)
  have hlt : ∀ c ∈ acc, c.denom < coin.denom := by
    intro c hc
    obtain ⟨c₀, hc₀, hcd⟩ := hden c hc
    unfold Merge.Sorted at hsorted
    rw [List.map_append, List.pairwise_append] at hsorted
    exact hcd ▸ hsorted.2.2 _ (List.mem_map_of_mem hc₀) _ (List.mem_map_of_mem List.mem_cons_self)
  refine ⟨?_, Merge.sorted_append_of_lt hs (Merge.sorted_kept _) fun c hc c' hc' => (Merge.mem_kept hc').1 ▸ hlt c hc,
    fun c hc => ?_, fun c hc => ?_, fun denom => ?_⟩
  · cases hzero : (⟨coin.denom, amt⟩ : Coin).isZero
    · have hlt' : ∀ c ∈ acc, c.denom < (⟨coin.denom, amt⟩ : Coin).denom := hlt
      simp only [Bool.not_false, if_true]
      rw [Coins.add_singleton_of_lt hlt' hz, hzero]
    · simp
  · rcases List.mem_append.mp hc with hc | hc
    · exact hpos c hc
    · obtain ⟨rfl, hnz⟩ := Merge.mem_kept hc
      exact lt_of_le_of_ne h0 (Ne.symm (Coins.amount_ne_zero hnz))
  · rcases List.mem_append.mp hc with hc | hc
    · obtain ⟨c₀, hc₀, hcd⟩ := hden c hc
      exact ⟨c₀, List.mem_append_left _ hc₀, hcd⟩
    · obtain ⟨rfl, -⟩ := Merge.mem_kept hc
      exact ⟨coin, by simp, rfl⟩
  · -- the spendable coin is no more than the coin, and zero when it is dropped
    have hkept : Coins.amountAt (if (⟨coin.denom, amt⟩ : Coin).isZero then [] else [⟨coin.denom, amt⟩]) denom ≤
        Coins.amountAt [coin] denom := by
      by_cases hzero : (⟨coin.denom, amt⟩ : Coin).isZero
      · have hsc0 : amt = 0 := by simpa [Coin.isZero] using hzero
        rw [if_pos hzero]
        simp only [Coins.amountAt_nil, Coins.amountAt_cons]
        split <;> omega
      · rw [if_neg hzero]
        simp only [Coins.amountAt_nil, Coins.amountAt_cons]
        split <;> omega
    have hpre := hle' denom
    rw [Coins.amountAt_append, Coins.amountAt_append]
    omega

/-- What `spendableCoins` returns is ascending, positive and, in each denomination, no more than
the account's coins: each spendable coin is `min(BC + DV - V, BC)` of a coin of the account. -/
theorem spendableCoins_le {bva : BaseVestingAccount} {vestingCoins sp : Coins}
    (hsorted : Merge.Sorted Coin.denom bva.coins) (h : bva.spendableCoins vestingCoins = .ok sp) :
    Merge.Sorted Coin.denom sp ∧ (∀ c ∈ sp, 0 < c.amount) ∧
      ∀ denom, Coins.amountAt sp denom ≤ Coins.amountAt bva.coins denom := by
  unfold spendableCoins at h
  have hinit : SpendableInv [] [] := ⟨by simp [Merge.Sorted], by simp, by simp, by simp⟩
  have hfold := Except.foldlM_ok_inv SpendableInv (l := bva.coins) ?_ [] bva.coins [] sp rfl hinit h
  · exact ⟨hfold.1, hfold.2.1, hfold.2.2.2⟩
  intro pre coin rest acc acc' hl hinv hstep
  obtain ⟨vestingAmt, -, hstep⟩ := Except.bind_eq_ok.mp hstep
  obtain ⟨delVestingAmt, -, hstep⟩ := Except.bind_eq_ok.mp hstep
  obtain ⟨sum, -, hstep⟩ := Except.bind_eq_ok.mp hstep
  obtain ⟨diff, -, hstep⟩ := Except.bind_eq_ok.mp hstep
  obtain ⟨sc, hsc, hstep⟩ := Except.bind_eq_ok.mp hstep
  have h0 := nonneg_of_newCoin_eq_ok hsc
  rw [eq_of_newCoin_eq_ok hsc] at hstep
  obtain ⟨hok, hinv'⟩ := hinv.snoc (hl ▸ hsorted) _ h0 (min_le_right diff coin.amount)
  rw [hok] at hstep
  cases hstep
  exact hinv'

/-- `trackDelegation`, given the coins still vesting. The base amounts are read from the
coins the account had before the loop. -/
def trackDelegation (bva : BaseVestingAccount) (vestingCoins amount : Coins) :
    Except Panic BaseVestingAccount :=
  let bc := bva.coins
  amount.foldlM (fun bva coin => do
    let baseAmt ← bc.amountOf coin.denom
    let vestingAmt ← vestingCoins.amountOf coin.denom
    let delVestingAmt ← bva.delegatedVesting.amountOf coin.denom
    if coin.isZero || decide (baseAmt < coin.amount) then
      throw (.other "delegation attempt with zero coins or insufficient funds")
    -- X := min(max(V - DV, 0), D) and Y := D - X
    let x := min (max (← SdkInt.sub vestingAmt delVestingAmt) 0) coin.amount
    let y ← SdkInt.sub coin.amount x
    let bva ← if x ≠ 0 then do
        let xCoin ← newCoin coin.denom x
        let delegatedVesting ← bva.delegatedVesting.add [xCoin]
        pure { bva with delegatedVesting }
      else pure bva
    let bva ← if y ≠ 0 then do
        let yCoin ← newCoin coin.denom y
        let delegatedFree ← bva.delegatedFree.add [yCoin]
        pure { bva with delegatedFree }
      else pure bva
    let coins ← bva.coins.sub [coin]
    pure { bva with coins }) bva

/-- `TrackUndelegation`. -/
def trackUndelegation (bva : BaseVestingAccount) (amount : Coins) : Except Panic BaseVestingAccount :=
  amount.foldlM (fun bva coin => do
    if coin.isZero then throw (.other "undelegation attempt with zero coins")
    let delegatedFree ← bva.delegatedFree.amountOf coin.denom
    let delegatedVesting ← bva.delegatedVesting.amountOf coin.denom
    -- X := min(DF, D) and Y := min(DV, D - X)
    let x := min delegatedFree coin.amount
    let y := min delegatedVesting (← SdkInt.sub coin.amount x)
    let bva ← if x ≠ 0 then do
        let xCoin ← newCoin coin.denom x
        let delegatedFree ← bva.delegatedFree.sub [xCoin]
        pure { bva with delegatedFree }
      else pure bva
    let bva ← if y ≠ 0 then do
        let yCoin ← newCoin coin.denom y
        let delegatedVesting ← bva.delegatedVesting.sub [yCoin]
        pure { bva with delegatedVesting }
      else pure bva
    let coins ← bva.coins.add [coin]
    pure { bva with coins }) bva

end BaseVestingAccount

/-- `NewContinuousVestingAccount`: the account's coins are its original vesting. -/
def newContinuousVestingAccount (baseAcc : BaseAccount) (startTime endTime : Int64) : ContinuousVestingAccount :=
  { toBaseAccount := baseAcc, originalVesting := baseAcc.coins, delegatedFree := [], delegatedVesting := [],
    endTime, startTime }

/-- `NewDelayedVestingAccount`. -/
def newDelayedVestingAccount (baseAcc : BaseAccount) (endTime : Int64) : DelayedVestingAccount :=
  { toBaseAccount := baseAcc, originalVesting := baseAcc.coins, delegatedFree := [], delegatedVesting := [],
    endTime }

namespace ContinuousVestingAccount

/-- `GetVestedCoins`: the original vesting coins scaled by the elapsed part of the
schedule, rounded half to even. -/
def getVestedCoins (cva : ContinuousVestingAccount) (blockTime : Int64) : Except Panic Coins := do
  if blockTime ≤ cva.startTime then return []
  else if blockTime ≥ cva.endTime then return cva.originalVesting
  -- the vesting scalar, from differences taken in `int64`
  let x := blockTime - cva.startTime
  let y := cva.endTime - cva.startTime
  let s ← (newDec x).quo (newDec y)
  cva.originalVesting.mapM fun ovc => do
    let vestedAmt ← (← (newDecFromInt ovc.amount).mul s).roundInt
    newCoin ovc.denom vestedAmt

def getVestingCoins (cva : ContinuousVestingAccount) (blockTime : Int64) : Except Panic Coins := do
  cva.originalVesting.sub (← cva.getVestedCoins blockTime)

def spendableCoins (cva : ContinuousVestingAccount) (blockTime : Int64) : Except Panic Coins := do
  cva.toBaseVestingAccount.spendableCoins (← cva.getVestingCoins blockTime)

def trackDelegation (cva : ContinuousVestingAccount) (blockTime : Int64) (amount : Coins) :
    Except Panic ContinuousVestingAccount := do
  let bva ← cva.toBaseVestingAccount.trackDelegation (← cva.getVestingCoins blockTime) amount
  return { cva with toBaseVestingAccount := bva }

end ContinuousVestingAccount

/-- A schedule of at least `2^63` seconds: the span `EndTime - StartTime` wraps around to a
negative `int64`, the vesting scalar and the vested amount with it, and `NewCoin` panics on
the negative amount. -/
theorem spendableCoins_of_wrapped_schedule :
    let cva : ContinuousVestingAccount := newContinuousVestingAccount
      { address := [1], accountNumber := 0, sequence := 0, coins := [⟨"foo", 10⟩] } (-1) 9223372036854775807
    cva.startTime < cva.endTime ∧ (cva.endTime - cva.startTime).toInt = -2 ^ 63 ∧
      cva.getVestedCoins (2 ^ 62) = .error (.other "negative coin amount: -5") ∧
      cva.spendableCoins (2 ^ 62) = .error (.other "negative coin amount: -5") := by
  refine ⟨by decide, by decide, by decide +kernel, by decide +kernel⟩

namespace DelayedVestingAccount

/-- `GetVestedCoins`: nothing before the end time, everything from it on. -/
def getVestedCoins (dva : DelayedVestingAccount) (blockTime : Int64) : Coins :=
  if blockTime ≥ dva.endTime then dva.originalVesting else []

def getVestingCoins (dva : DelayedVestingAccount) (blockTime : Int64) : Except Panic Coins :=
  dva.originalVesting.sub (dva.getVestedCoins blockTime)

def spendableCoins (dva : DelayedVestingAccount) (blockTime : Int64) : Except Panic Coins := do
  dva.toBaseVestingAccount.spendableCoins (← dva.getVestingCoins blockTime)

def trackDelegation (dva : DelayedVestingAccount) (blockTime : Int64) (amount : Coins) :
    Except Panic DelayedVestingAccount := do
  let bva ← dva.toBaseVestingAccount.trackDelegation (← dva.getVestingCoins blockTime) amount
  return { toBaseVestingAccount := bva }

end DelayedVestingAccount

/-! ## The account interface -/

namespace Account

def getCoins : Account → Coins
  | .base acc => acc.coins
  | .continuousVesting acc => acc.coins
  | .delayedVesting acc => acc.coins
  | .module acc => acc.coins

def setCoins (acc : Account) (coins : Coins) : Account :=
  match acc with
  | .base acc => .base { acc with coins }
  | .continuousVesting acc => .continuousVesting { acc with coins }
  | .delayedVesting acc => .delayedVesting { acc with coins }
  | .module acc => .module { acc with coins }

def getAddress : Account → Address
  | .base acc => acc.address
  | .continuousVesting acc => acc.address
  | .delayedVesting acc => acc.address
  | .module acc => acc.address

@[simp] theorem getCoins_setCoins (acc : Account) (coins : Coins) : (acc.setCoins coins).getCoins = coins := by
  cases acc <;> rfl

@[simp] theorem getAddress_setCoins (acc : Account) (coins : Coins) :
    (acc.setCoins coins).getAddress = acc.getAddress := by
  cases acc <;> rfl

/-- `SpendableCoins`: a base or a module account may spend all its coins. -/
def spendableCoins (acc : Account) (blockTime : Int64) : Except Panic Coins :=
  match acc with
  | .base acc => pure acc.coins
  | .continuousVesting acc => acc.spendableCoins blockTime
  | .delayedVesting acc => acc.spendableCoins blockTime
  | .module acc => pure acc.coins

/-- What an account with positive coins may spend is ascending, positive and, in each
denomination, no more than its coins. -/
theorem spendableCoins_le {acc : Account} {blockTime : Int64} {sp : Coins}
    (hsorted : Merge.Sorted Coin.denom acc.getCoins) (hpos : ∀ c ∈ acc.getCoins, 0 < c.amount)
    (h : acc.spendableCoins blockTime = .ok sp) :
    Merge.Sorted Coin.denom sp ∧ (∀ c ∈ sp, 0 < c.amount) ∧
      ∀ denom, Coins.amountAt sp denom ≤ Coins.amountAt acc.getCoins denom := by
  cases acc with
  | base acc =>
    cases h
    exact ⟨hsorted, hpos, fun _ => le_refl _⟩
  | continuousVesting acc =>
    obtain ⟨vestingCoins, -, h⟩ := Except.bind_eq_ok.mp h
    exact BaseVestingAccount.spendableCoins_le hsorted h
  | delayedVesting acc =>
    obtain ⟨vestingCoins, -, h⟩ := Except.bind_eq_ok.mp h
    exact BaseVestingAccount.spendableCoins_le hsorted h
  | module acc =>
    cases h
    exact ⟨hsorted, hpos, fun _ => le_refl _⟩

end Account

end Friday.Auth
