import Friday.App.Env
import Friday.Auth.Account

/-! # Genesis accounts

`x/genaccounts/internal/types`: the accounts of the genesis file, which `Validate` and
`ValidateGenesis` check and `ToAccount` turns into accounts. A genesis account with
original vesting coins becomes a continuous vesting account when it has both a start and
an end time, and a delayed one when it has only an end time.

`Validate` compares the vesting coins with the coins by `IsAnyGT`, which only looks at
the denominations that the coins hold.
-/

namespace Friday.GenAccounts

open Friday.Types Auth

/-- `GenesisAccount`. -/
structure GenesisAccount where
  address : Address
  coins : Coins
  sequence : Nat
  accountNumber : Nat
  originalVesting : Coins
  delegatedFree : Coins
  delegatedVesting : Coins
  startTime : Int64
  endTime : Int64
  moduleName : String
  modulePermissions : List String
  deriving DecidableEq, Repr

namespace GenesisAccount

/-- `Validate`: an error, or a panic of `AmountOf` on a denomination it rejects. -/
def validate (ga : GenesisAccount) : ExceptT String (Except Panic) Unit := do
  if !ga.originalVesting.isZero then
    if ← ga.originalVesting.isAnyGT ga.coins then
      throw "vesting amount cannot be greater than total amount"
    if ga.startTime ≥ ga.endTime then
      throw "vesting start-time cannot be before end-time"
  -- don't allow blank (i.e just whitespaces) on the module name
  if ga.moduleName != "" && isBlank ga.moduleName then
    throw "module account name cannot be blank"

/-- `ToAccount`. `plusV` is the `%+v` text of a genesis account, which its panic prints. -/
def toAccount (plusV : GenesisAccount → String) (ga : GenesisAccount) : Except Panic Account := do
  let bacc : BaseAccount :=
    { address := ga.address, accountNumber := ga.accountNumber, sequence := ga.sequence, coins := ga.coins.sort }
  if !ga.originalVesting.isZero then
    let baseVestingAcc : BaseVestingAccount :=
      { toBaseAccount := bacc, originalVesting := ga.originalVesting, delegatedFree := ga.delegatedFree,
        delegatedVesting := ga.delegatedVesting, endTime := ga.endTime }
    if ga.startTime ≠ 0 && ga.endTime ≠ 0 then
      return .continuousVesting { toBaseVestingAccount := baseVestingAcc, startTime := ga.startTime }
    else if ga.endTime ≠ 0 then
      return .delayedVesting { toBaseVestingAccount := baseVestingAcc }
    else throw (.other ("invalid genesis vesting account: " ++ plusV ga))
  if ga.moduleName != "" then
    return .module (← newModuleAccount bacc ga.moduleName ga.modulePermissions)
  return .base bacc

/-- What `Validate` accepts, for vesting coins of valid denominations and coins whose
denominations ascend: the vesting coins are compared with the coins only in the
denominations that the coins hold. -/
theorem validate_eq_ok_iff {ga : GenesisAccount} (hd : ∀ coin ∈ ga.originalVesting, isDenom coin.denom = true)
    (hsorted : (ga.coins.map Coin.denom).Pairwise (· < ·)) :
    ga.validate.run = .ok (.ok ()) ↔
      (ga.originalVesting.isZero = false →
        (∀ coin ∈ ga.originalVesting, Coins.amountAt ga.coins coin.denom = 0 ∨
          coin.amount ≤ Coins.amountAt ga.coins coin.denom) ∧ ga.startTime < ga.endTime) ∧
      (ga.moduleName ≠ "" → isBlank ga.moduleName = false) := by
  have hany : (ga.coins.length != 0 && ga.originalVesting.any fun coin =>
      decide (Coins.amountAt ga.coins coin.denom < coin.amount) && Coins.amountAt ga.coins coin.denom != 0) = true ↔
      ∃ coin ∈ ga.originalVesting, Coins.amountAt ga.coins coin.denom < coin.amount ∧
        Coins.amountAt ga.coins coin.denom ≠ 0 := by
    constructor
    · intro h
      simp only [Bool.and_eq_true, List.any_eq_true, decide_eq_true_eq, bne_iff_ne] at h
      exact h.2
    · rintro ⟨coin, hcoin, hlt, hne⟩
      have hcoins : ga.coins ≠ [] := fun hnil => hne (by rw [hnil]; rfl)
      simp only [Bool.and_eq_true, List.any_eq_true, decide_eq_true_eq, bne_iff_ne]
      exact ⟨by simpa using hcoins, coin, hcoin, hlt, hne⟩
  have hmodule : ((if (ga.moduleName != "" && isBlank ga.moduleName) = true then
      throw "module account name cannot be blank" else pure ()) : ExceptT String (Except Panic) Unit).run =
      .ok (.ok ()) ↔ (ga.moduleName ≠ "" → isBlank ga.moduleName = false) := by
    by_cases hmod : (ga.moduleName != "" && isBlank ga.moduleName) = true
    · simp only [hmod, ↓reduceIte, ExceptT.run_throw]
      simp only [Bool.and_eq_true, bne_iff_ne] at hmod
      simp [hmod]
    · simp only [hmod, ↓reduceIte, Bool.false_eq_true]
      simp only [Bool.and_eq_true, bne_iff_ne, not_and, Bool.not_eq_true] at hmod
      simpa using hmod
  unfold GenesisAccount.validate
  by_cases hzero : ga.originalVesting.isZero = false
  · simp only [hzero, Coins.isAnyGT_eq_ok hd hsorted, Bool.not_false, ↓reduceIte, gt_iff_lt, liftM, monadLift,
      MonadLift.monadLift, ExceptT.run_bind_lift, Except.ok_bind, forall_const]
    by_cases hgt : (ga.coins.length != 0 && ga.originalVesting.any fun coin =>
        decide (Coins.amountAt ga.coins coin.denom < coin.amount) && Coins.amountAt ga.coins coin.denom != 0) = true
    · -- a vesting coin above a nonzero amount of the coins is rejected
      obtain ⟨coin, hcoin, hlt, hne⟩ := hany.mp hgt
      simp only [hgt, ↓reduceIte, ExceptT.bind_throw, ExceptT.run_throw, Except.pure_eq_ok, reduceCtorEq,
        Except.ok.injEq, false_iff]
      rintro ⟨⟨hall, -⟩, -⟩
      rcases hall coin hcoin with h | h
      · exact hne h
      · omega
    · -- the other vesting coins pass, whatever their amount
      have hall : ∀ coin ∈ ga.originalVesting, Coins.amountAt ga.coins coin.denom = 0 ∨
          coin.amount ≤ Coins.amountAt ga.coins coin.denom := by
        intro coin hcoin
        by_cases hz : Coins.amountAt ga.coins coin.denom = 0
        · exact .inl hz
        · exact .inr (Int.not_lt.mp fun hlt => hgt (hany.mpr ⟨coin, hcoin, hlt, hz⟩))
      simp only [hgt, ↓reduceIte, Bool.false_eq_true]
      by_cases hle : ga.startTime ≥ ga.endTime
      · simp only [hle, ↓reduceIte, ExceptT.bind_throw, ExceptT.run_throw, Except.pure_eq_ok, reduceCtorEq,
          Except.ok.injEq, false_iff]
        rintro ⟨⟨-, hlt⟩, -⟩
        exact Int64.not_le.mpr hlt hle
      · simp only [hle, ↓reduceIte]
        rw [hmodule]
        exact ⟨fun hmod => ⟨⟨hall, Int64.not_le.mp hle⟩, hmod⟩, fun h => h.2⟩
  · simp only [hzero, Bool.not_true, Bool.false_eq_true, ↓reduceIte, Bool.true_eq_false, false_implies, true_and]
    exact hmodule

end GenesisAccount

/-- `ValidateGenesis`, with the addresses seen so far. `formatTime` is the RFC 3339 text
of a Unix time in UTC. -/
def validateGenesis (env : App.Env) (formatTime : Int64 → String) (genesisState : List GenesisAccount) :
    Except String Unit :=
  go [] genesisState
where
  go (addrMap : List String) : List GenesisAccount → Except String Unit
    | [] => pure ()
    | acc :: accs => do
      let addrStr := env.accAddressString acc.address
      if addrStr ∈ addrMap then
        throw ("duplicate account found in genesis state; address: " ++ addrStr)
      if !acc.originalVesting.isZero then
        if acc.endTime = 0 then
          throw ("missing end time for vesting account; address: " ++ addrStr)
        if acc.startTime ≥ acc.endTime then
          throw ("vesting start time must before end time; address: " ++ addrStr ++ ", start: " ++
            formatTime acc.startTime ++ ", end: " ++ formatTime acc.endTime)
      go (addrStr :: addrMap) accs

section ValidateGenesis

variable {env : App.Env} {formatTime : Int64 → String}

/-- One account of `ValidateGenesis`' loop: its address is new, a vesting account has an
end time after its start time, and the loop goes on with the address seen. -/
theorem go_cons_eq_ok {addrMap : List String} {acc : GenesisAccount} {accs : List GenesisAccount}
    (h : validateGenesis.go env formatTime addrMap (acc :: accs) = .ok ()) :
    env.accAddressString acc.address ∉ addrMap ∧
      (acc.originalVesting.isZero = false → acc.endTime ≠ 0 ∧ acc.startTime < acc.endTime) ∧
      validateGenesis.go env formatTime (env.accAddressString acc.address :: addrMap) accs = .ok () := by
  simp only [validateGenesis.go] at h
  by_cases hnew : env.accAddressString acc.address ∈ addrMap
  · simp [hnew] at h
  · rw [if_neg hnew] at h
    by_cases hzero : acc.originalVesting.isZero = false
    · by_cases hend : acc.endTime = 0
      · simp [hzero, hend] at h
      · by_cases hlt : acc.startTime ≥ acc.endTime
        · simp [hzero, hend, hlt] at h
        · simp [hzero, hend, hlt] at h
          exact ⟨hnew, fun _ => ⟨hend, Int64.not_le.mp hlt⟩, h⟩
    · simp [hzero] at h
      exact ⟨hnew, fun h' => absurd h' hzero, h⟩

/-- Every vesting account that `ValidateGenesis` accepts has an end time after its start
time, and no two accepted accounts have the same address. -/
theorem vesting_times_of_validateGenesis {genesisState : List GenesisAccount}
    (h : validateGenesis env formatTime genesisState = .ok ()) :
    (∀ ga ∈ genesisState, ga.originalVesting.isZero = false → ga.endTime ≠ 0 ∧ ga.startTime < ga.endTime) ∧
      (genesisState.map fun ga => env.accAddressString ga.address).Nodup := by
  -- the loop from any set of addresses seen, which the accepted ones stay out of
  suffices hgo : ∀ addrMap, validateGenesis.go env formatTime addrMap genesisState = .ok () →
      (∀ ga ∈ genesisState, ga.originalVesting.isZero = false → ga.endTime ≠ 0 ∧ ga.startTime < ga.endTime) ∧
      (genesisState.map fun ga => env.accAddressString ga.address).Nodup ∧
      ∀ ga ∈ genesisState, env.accAddressString ga.address ∉ addrMap from
    ⟨(hgo [] h).1, (hgo [] h).2.1⟩
  clear h
  induction genesisState with
  | nil => simp
  | cons acc accs ih =>
    intro addrMap hrun
    obtain ⟨hnew, htimes, hrest⟩ := go_cons_eq_ok hrun
    obtain ⟨htimes', hnodup, hout⟩ := ih _ hrest
    refine ⟨?_, ?_, ?_⟩
    · intro ga hga
      rcases List.mem_cons.mp hga with rfl | hga
      · exact htimes
      · exact htimes' ga hga
    · refine List.nodup_cons.mpr ⟨?_, hnodup⟩
      intro hmem
      obtain ⟨ga, hga, heq⟩ := List.mem_map.mp hmem
      exact hout ga hga (heq ▸ List.mem_cons_self)
    · intro ga hga
      rcases List.mem_cons.mp hga with rfl | hga
      · exact hnew
      · exact fun hmem => hout ga hga (List.mem_cons_of_mem _ hmem)

end ValidateGenesis

/-- A vesting account with an end time becomes a continuous vesting account when it has a
start time, and a delayed one when it does not; `ToAccount` does not panic on it. -/
theorem toAccount_of_vesting {plusV : GenesisAccount → String} {ga : GenesisAccount}
    (hzero : ga.originalVesting.isZero = false) (hend : ga.endTime ≠ 0) :
    let bva : BaseVestingAccount :=
      { address := ga.address, accountNumber := ga.accountNumber, sequence := ga.sequence, coins := ga.coins.sort,
        originalVesting := ga.originalVesting, delegatedFree := ga.delegatedFree,
        delegatedVesting := ga.delegatedVesting, endTime := ga.endTime }
    ga.toAccount plusV = .ok (if ga.startTime ≠ 0 then .continuousVesting { toBaseVestingAccount := bva, startTime := ga.startTime }
      else .delayedVesting { toBaseVestingAccount := bva }) := by
  intro bva
  by_cases hstart : ga.startTime = 0
  · simp [GenesisAccount.toAccount, hzero, hend, hstart]
    rfl
  · simp [GenesisAccount.toAccount, hzero, hend, hstart]
    rfl

/-- A vesting denomination that the coins do not hold passes `IsAnyGT`. The account that
`ToAccount` builds has more original vesting of it than coins and delegated vesting
together, and once it is credited one coin of that denomination, `SpendableCoins`
builds a negative coin and panics. -/
theorem vesting_denom_outside_coins (env : App.Env) (formatTime : Int64 → String)
    (plusV : GenesisAccount → String) :
    let ga : GenesisAccount :=
      { address := [1], coins := [⟨"bar", 10⟩], sequence := 0, accountNumber := 0,
        originalVesting := [⟨"foo", 5⟩], delegatedFree := [], delegatedVesting := [], startTime := 0,
        endTime := 100, moduleName := "", modulePermissions := [] }
    ga.validate.run = .ok (.ok ()) ∧ validateGenesis env formatTime [ga] = .ok () ∧
      ∃ dva, ga.toAccount plusV = .ok (.delayedVesting dva) ∧
        dva.originalVesting.amountOf "foo" = .ok 5 ∧ dva.coins.amountOf "foo" = .ok 0 ∧
        dva.delegatedVesting.amountOf "foo" = .ok 0 ∧
        ∃ coins, dva.coins.add [⟨"foo", 1⟩] = .ok coins ∧
          ((Account.delayedVesting dva).setCoins coins).spendableCoins 50 = .error (.other "negative coin amount: -4") := by
  intro ga
  refine ⟨by decide +kernel, ?_, ?_⟩
  · simp [validateGenesis, validateGenesis.go, ga]
  · -- no start time and an end time: a delayed vesting account
    let bva : BaseVestingAccount :=
      { address := [1], accountNumber := 0, sequence := 0, coins := [⟨"bar", 10⟩],
        originalVesting := [⟨"foo", 5⟩], delegatedFree := [], delegatedVesting := [], endTime := 100 }
    refine ⟨{ toBaseVestingAccount := bva }, ?_, by decide +kernel, by decide +kernel, by decide +kernel,
      [⟨"bar", 10⟩, ⟨"foo", 1⟩], by decide +kernel, by decide +kernel⟩
    simp [GenesisAccount.toAccount, ga, Coins.isZero, Coin.isZero, Coins.sort, bva]

end Friday.GenAccounts
