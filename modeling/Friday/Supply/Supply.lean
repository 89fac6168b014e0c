import Friday.Bank.Keeper

/-! # The total supply

`x/supply/genesis.go` and `x/supply/internal/keeper/invariants.go`. `InitGenesis` with an
empty supply sets the total to the sum of all accounts' coins, in the order
`IterateAccounts` visits them, and the `TotalSupply` invariant compares that sum with the
total again. Both sum with `Add`, which panics where a denomination's sum passes 255 bits.

The bank keeper does not undo its own writes on an error: `InputOutputCoins` that fails on
its second input keeps the first input's subtraction, and the invariant breaks
(`inputOutputCoins_breaks_totalSupply`).
-/

namespace Friday.Supply

open Friday.Types Bank

set_option linter.dupNamespace false in
/-- `types.Supply`. -/
structure Supply where
  total : Coins
  deriving DecidableEq, Repr

/-- The sum of all accounts' coins, account after account. -/
def sumOfAccountsCoins (s : AccountStore) : Except Panic Coins :=
  s.accounts.foldlM (fun total p => Coins.add total p.2.getCoins) []

/-- `InitGenesis`: an empty supply is the sum of all accounts' coins. -/
def initGenesis (s : AccountStore) (supply : Coins) : Except Panic Supply :=
  if supply.length = 0 then return ⟨← sumOfAccountsCoins s⟩ else pure ⟨supply⟩

/-- `TotalSupply`: whether the invariant is broken, the sum of all accounts' coins not
equal to the total. -/
def totalSupply (s : AccountStore) (supply : Supply) : Except Panic Bool := do
  return !(← Coins.isEqual (← sumOfAccountsCoins s) supply.total)

/-- The store of one account holding `10foo`, from which `InitGenesis` takes the total. -/
def oneAccountStore : AccountStore :=
  .single (.base { address := [1], accountNumber := 0, sequence := 0, coins := [⟨"foo", 10⟩] }) 1

/-- Inputs of `5foo` from the account and from an address without an account, and one
output of `10foo`: the inputs match the outputs, the first subtraction is written, the
second fails, and the invariant that held after `InitGenesis` is broken. -/
theorem inputOutputCoins_breaks_totalSupply :
    initGenesis oneAccountStore [] = .ok ⟨[⟨"foo", 10⟩]⟩ ∧ totalSupply oneAccountStore ⟨[⟨"foo", 10⟩]⟩ = .ok false ∧
      ((inputOutputCoins 0 [⟨[1], [⟨"foo", 5⟩]⟩, ⟨[2], [⟨"foo", 5⟩]⟩] [⟨[3], [⟨"foo", 10⟩]⟩]).run.run oneAccountStore).map
          (fun r => (r.1, r.2.accounts, totalSupply r.2 ⟨[⟨"foo", 10⟩]⟩)) =
        .ok (.error (errInsufficientCoins "insufficient account funds;  < 5foo"),
          [([1], .base { address := [1], accountNumber := 0, sequence := 0, coins := [⟨"foo", 5⟩] })], .ok true) := by
  decide +kernel

end Friday.Supply
