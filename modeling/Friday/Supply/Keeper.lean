import Friday.Supply.Supply
import Friday.Bank.Delegate

/-! # The supply keeper

`x/supply/internal/keeper/bank.go`, with the module accounts of `account.go` and the
`Keeper` of `keeper.go` and `types/permissions.go`. A call of the supply keeper runs over the
accounts and the supply together, and reaches the accounts through the bank keeper.

The `TotalSupply` invariant holds from `InitGenesis` on, along every run of the supply keeper's
calls and of `SendCoins` (`reachable_totalSupply`), whether a call returns an error or not: a
`GetModuleAccount` that creates an account gives it no coins, the sends and the delegation move
coins and keep every total, and `MintCoins` and `BurnCoins` change the accounts and the supply by
the same amount. The runs mint sound amounts only, and never undelegate to the module's own
address: `UndelegateCoinsFromModuleToAccount` to that address writes back the module account as it
read it before taking the amount, with the amount added, and breaks the invariant
(`undelegateCoinsFromModuleToAccount_self`).
-/

namespace Friday.Supply

open Friday.Types Auth Bank

/-- `types.Minter`, `types.Burner` and `types.Staking`. -/
def minter : String := "minter"
def burner : String := "burner"
def staking : String := "staking"

/-- `types.PermissionsForAddress`. -/
structure PermissionsForAddress where
  permissions : List String
  address : Address
  deriving DecidableEq, Repr

/-- `NewPermissionsForAddress`, with `NewModuleAddress`. -/
def newPermissionsForAddress (newModuleAddress : String → Address) (name : String) (permissions : List String) :
    PermissionsForAddress :=
  ⟨permissions, newModuleAddress name⟩

/-- `ModuleAccount.HasPermission`. -/
def hasPermission (ma : ModuleAccount) (permission : String) : Bool := ma.permissions.any (· == permission)

/-- The supply `Keeper`: the `permAddrs` map by module name, each entry at the address
`NewModuleAddress` gives its name. `NewModuleAddress` hashes the name, and the bank keeper's
errors print an address in bech32; neither is modelled, both are parameters. -/
structure Keeper where
  newModuleAddress : String → Address
  accAddressString : Address → String
  permAddrs : List (String × PermissionsForAddress)
  addresses : ∀ p ∈ permAddrs, p.2.address = newModuleAddress p.1

/-- `NewKeeper`. -/
def newKeeper (newModuleAddress : String → Address) (accAddressString : Address → String)
    (maccPerms : List (String × List String)) : Keeper where
  newModuleAddress := newModuleAddress
  accAddressString := accAddressString
  permAddrs := maccPerms.map fun p => (p.1, newPermissionsForAddress newModuleAddress p.1 p.2)
  addresses p hp := by
    obtain ⟨q, -, rfl⟩ := List.mem_map.mp hp
    rfl

/-- What the supply keeper's calls read and write: the accounts, and the supply under
`SupplyKey`, which `InitGenesis` has set. -/
structure State where
  accounts : AccountStore
  supply : Supply

/-- A call of the supply keeper: an `sdk.Error` keeps the state as it is at that point, a panic
ends the call. -/
abbrev KeeperM := ExceptT SdkError (StateT State (Except Panic))

/-- A call of the bank keeper, its error returned as a value. -/
def runBank {α : Type} (x : Bank.Keeper α) : KeeperM (Except SdkError α) :=
  ExceptT.lift fun st => (x.run.run st.accounts).map fun p => (p.1, { st with accounts := p.2 })

/-- A call of the bank keeper whose error the supply keeper returns. -/
def liftBank {α : Type} (x : Bank.Keeper α) : KeeperM α := do
  match ← runBank x with
  | .ok a => pure a
  | .error err => throw err

def throwPanic {α : Type} (p : Panic) : KeeperM α := ExceptT.lift (StateT.lift (.error p))

def getSupply : KeeperM Supply := return (← get).supply

def setSupply (supply : Supply) : KeeperM Unit := modify fun st => { st with supply }

namespace Supply

set_option linter.dupNamespace false in
/-- `Inflate`: `Add` panics where the total of a denomination passes 255 bits. -/
def inflate (supply : Supply) (amount : Coins) : Except Panic Supply := return ⟨← supply.total.add amount⟩

set_option linter.dupNamespace false in
/-- `Deflate`: `Sub` panics where the total does not cover the amount. -/
def deflate (supply : Supply) (amount : Coins) : Except Panic Supply := return ⟨← supply.total.sub amount⟩

end Supply

/-- `AccountKeeper.NewAccount` of a module account: it takes the next account number. -/
def newAccount (macc : ModuleAccount) : Bank.Keeper ModuleAccount := do
  let s ← get
  set { s with globalAccountNumber := s.globalAccountNumber + 1 }
  return { macc with accountNumber := s.globalAccountNumber }

@[simp] theorem run_newAccount (macc : ModuleAccount) (s : AccountStore) :
    (newAccount macc).run.run s =
      .ok (.ok { macc with accountNumber := s.globalAccountNumber }, { s with globalAccountNumber := s.globalAccountNumber + 1 }) :=
  rfl


/-! ## Running a call -/

namespace KeeperM

variable {α β : Type} {st : State}

theorem run_bind (x : KeeperM α) (f : α → KeeperM β) (st : State) :
    (x >>= f).run.run st = match x.run.run st with
      | .error e => .error e
      | .ok (.error e, st') => .ok (.error e, st')
      | .ok (.ok a, st') => (f a).run.run st' := by
  show (StateT.bind (ExceptT.run x) _).run st = _
  simp only [StateT.run, StateT.bind]
  show Except.bind (x.run st) _ = _
  cases x.run st with
  | error e => rfl
  | ok p =>
    obtain ⟨r, st'⟩ := p
    cases r <;> rfl

/-- A sequence that returned: its first part returned an error, or returned a value from
which the rest returned. -/
theorem run_bind_eq_ok {x : KeeperM α} {f : α → KeeperM β} {r : Except SdkError β} {st'' : State}
    (h : (x >>= f).run.run st = .ok (r, st'')) :
    (∃ e, x.run.run st = .ok (.error e, st'') ∧ r = .error e) ∨
      ∃ a st', x.run.run st = .ok (.ok a, st') ∧ (f a).run.run st' = .ok (r, st'') := by
  rw [run_bind] at h
  cases hx : x.run.run st with
  | error e =>
    rw [hx] at h
    cases h
  | ok p =>
    obtain ⟨r', st'⟩ := p
    rw [hx] at h
    cases r' with
    | error e =>
      cases h
      exact .inl ⟨e, rfl, rfl⟩
    | ok a => exact .inr ⟨a, st', rfl, h⟩

@[simp] theorem run_pure (a : α) (st : State) : (pure a : KeeperM α).run.run st = .ok (.ok a, st) := rfl

@[simp] theorem run_throw (e : SdkError) (st : State) : (throw e : KeeperM α).run.run st = .ok (.error e, st) := rfl

@[simp] theorem run_throwPanic (p : Panic) (st : State) : (throwPanic p : KeeperM α).run.run st = .error p := rfl

@[simp] theorem run_getSupply (st : State) : getSupply.run.run st = .ok (.ok st.supply, st) := rfl

@[simp] theorem run_setSupply (supply : Supply) (st : State) :
    (setSupply supply).run.run st = .ok (.ok (), { st with supply }) := rfl

theorem run_map (f : α → β) (x : KeeperM α) (st : State) :
    (f <$> x).run.run st = (x.run.run st).map fun p => (p.1.map f, p.2) := by
  rw [ExceptT.run_map, StateT.run_map]
  cases x.run.run st <;> rfl

@[simp] theorem run_runBank (x : Bank.Keeper α) (st : State) :
    (runBank x).run.run st = (x.run.run st.accounts).map fun p => (.ok p.1, { st with accounts := p.2 }) := by
  show ((x.run.run st.accounts).map fun p => (p.1, { st with accounts := p.2 })).bind _ = _
  cases x.run.run st.accounts <;> rfl

theorem run_runBank_eq_ok {x : Bank.Keeper α} {r : Except SdkError (Except SdkError α)} {st' : State}
    (h : (runBank x).run.run st = .ok (r, st')) :
    ∃ res s', x.run.run st.accounts = .ok (res, s') ∧ r = .ok res ∧ st' = { st with accounts := s' } := by
  rw [run_runBank] at h
  cases hx : x.run.run st.accounts with
  | error e =>
    rw [hx] at h
    cases h
  | ok p =>
    rw [hx] at h
    cases h
    exact ⟨p.1, p.2, rfl, rfl, rfl⟩

@[simp] theorem run_liftBank (x : Bank.Keeper α) (st : State) :
    (liftBank x).run.run st = (x.run.run st.accounts).map fun p => (p.1, { st with accounts := p.2 }) := by
  unfold liftBank
  rw [run_bind, run_runBank]
  cases h : x.run.run st.accounts with
  | error e => rfl
  | ok p =>
    obtain ⟨r, s'⟩ := p
    cases r <;> rfl

theorem run_liftBank_eq_ok {x : Bank.Keeper α} {r : Except SdkError α} {st' : State}
    (h : (liftBank x).run.run st = .ok (r, st')) :
    ∃ s', x.run.run st.accounts = .ok (r, s') ∧ st' = { st with accounts := s' } := by
  rw [run_liftBank] at h
  cases hx : x.run.run st.accounts with
  | error e =>
    rw [hx] at h
    cases h
  | ok p =>
    rw [hx] at h
    cases h
    exact ⟨p.2, rfl, rfl⟩

end KeeperM

namespace Keeper

variable (k : Keeper)

def getModuleAddress (moduleName : String) : Option Address :=
  (k.permAddrs.lookup moduleName).map PermissionsForAddress.address

def getModuleAddressAndPermissions (moduleName : String) : Option Address × List String :=
  match k.permAddrs.lookup moduleName with
  | none => (none, [])
  | some permAddr => (some permAddr.address, permAddr.permissions)

/-- `NewEmptyModuleAccount`: `NewModuleAccount` of a new base account at the module's address. -/
def newEmptyModuleAccount (name : String) (permissions : List String) : Except Panic ModuleAccount :=
  newModuleAccount { address := k.newModuleAddress name, accountNumber := 0, sequence := 0 } name permissions

/-- `GetModuleAccountAndPermissions`: the stored module account, or a new one stored. -/
def getModuleAccountAndPermissions (moduleName : String) : KeeperM (Option ModuleAccount × List String) := do
  let (some addr, perms) := k.getModuleAddressAndPermissions moduleName | return (none, [])
  match ← liftBank (Bank.getAccount addr) with
  | some (.module macc) => return (some macc, perms)
  | some _ => throwPanic (.other "account is not a module account")
  | none =>
    let macc ← liftBank (liftPanic (k.newEmptyModuleAccount moduleName perms))
    let maccI ← liftBank (newAccount macc)
    liftBank (Bank.setAccount (.module maccI))
    return (some maccI, perms)

def getModuleAccount (moduleName : String) : KeeperM (Option ModuleAccount) := do
  return (← k.getModuleAccountAndPermissions moduleName).1

def sendCoinsFromModuleToAccount (blockTime : Int64) (senderModule : String) (recipientAddr : Address)
    (amt : Coins) : KeeperM Unit := do
  let some senderAddr := k.getModuleAddress senderModule
    | throw (errUnknownAddress ("module account " ++ senderModule ++ " does not exist"))
  liftBank (sendCoins blockTime senderAddr recipientAddr amt)

def sendCoinsFromModuleToModule (blockTime : Int64) (senderModule recipientModule : String) (amt : Coins) :
    KeeperM Unit := do
  let some senderAddr := k.getModuleAddress senderModule
    | throw (errUnknownAddress ("module account " ++ senderModule ++ " does not exist"))
  let some recipientAcc ← k.getModuleAccount recipientModule
    | throwPanic (.other ("module account " ++ recipientModule ++ " isn't able to be created"))
  liftBank (sendCoins blockTime senderAddr recipientAcc.address amt)

def sendCoinsFromAccountToModule (blockTime : Int64) (senderAddr : Address) (recipientModule : String)
    (amt : Coins) : KeeperM Unit := do
  let some recipientAcc ← k.getModuleAccount recipientModule
    | throwPanic (.other ("module account " ++ recipientModule ++ " isn't able to be created"))
  liftBank (sendCoins blockTime senderAddr recipientAcc.address amt)

def delegateCoinsFromAccountToModule (blockTime : Int64) (senderAddr : Address) (recipientModule : String)
    (amt : Coins) : KeeperM Unit := do
  let some recipientAcc ← k.getModuleAccount recipientModule
    | throwPanic (.other ("module account " ++ recipientModule ++ " isn't able to be created"))
  if !hasPermission recipientAcc staking then
    throwPanic (.other ("module account " ++ recipientModule ++ " does not have permissions to receive delegated coins"))
  liftBank (delegateCoins k.accAddressString blockTime senderAddr recipientAcc.address amt)

def undelegateCoinsFromModuleToAccount (senderModule : String) (recipientAddr : Address) (amt : Coins) :
    KeeperM Unit := do
  let some acc ← k.getModuleAccount senderModule
    | throw (errUnknownAddress ("module account " ++ senderModule ++ " does not exist"))
  if !hasPermission acc staking then
    throwPanic (.other ("module account " ++ senderModule ++ " does not have permissions to undelegate coins"))
  liftBank (undelegateCoins k.accAddressString acc.address recipientAddr amt)

/-- `MintCoins`: an error of `AddCoins` is a panic, and so is a total that does not fit. -/
def mintCoins (moduleName : String) (amt : Coins) : KeeperM Unit := do
  let some acc ← k.getModuleAccount moduleName
    | throw (errUnknownAddress ("module account " ++ moduleName ++ " does not exist"))
  if !hasPermission acc minter then
    throwPanic (.other ("module account " ++ moduleName ++ " does not have permissions to mint tokens"))
  if let .error err ← runBank (addCoins acc.address amt) then throwPanic (.other err.error)
  let supply ← getSupply
  match supply.inflate amt with
  | .ok supply => setSupply supply
  | .error p => throwPanic p

/-- `BurnCoins`: an error of `SubtractCoins` is a panic, and so is a total that does not cover
the amount. -/
def burnCoins (blockTime : Int64) (moduleName : String) (amt : Coins) : KeeperM Unit := do
  let some acc ← k.getModuleAccount moduleName
    | throw (errUnknownAddress ("module account " ++ moduleName ++ " does not exist"))
  if !hasPermission acc burner then
    throwPanic (.other ("module account " ++ moduleName ++ " does not have permissions to burn tokens"))
  if let .error err ← runBank (subtractCoins blockTime acc.address amt) then throwPanic (.other err.error)
  let supply ← getSupply
  match supply.deflate amt with
  | .ok supply => setSupply supply
  | .error p => throwPanic p

end Keeper

/-! ## Module accounts -/

section ModuleAccount

variable {k : Keeper} {name : String} {st st' : State}

theorem address_of_lookup {pa : PermissionsForAddress} (h : k.permAddrs.lookup name = some pa) :
    pa.address = k.newModuleAddress name := by
  have hmem := SortedKV.mem_of_lookup_eq_some h
  exact k.addresses _ hmem

/-- What `GetModuleAccount` can do: find no module of the name, find the module account stored
at the module's address, or store a new one there, with no coins, where no account was. -/
theorem getModuleAccount_cases {r : Except SdkError (Option ModuleAccount)}
    (h : (k.getModuleAccount name).run.run st = .ok (r, st')) :
    (r = .ok none ∧ st' = st) ∨
      ∃ macc, r = .ok (some macc) ∧ macc.address = k.newModuleAddress name ∧
        ((st.accounts.getAccount macc.address = some (.module macc) ∧ st' = st) ∨
          (st.accounts.getAccount macc.address = none ∧ macc.coins = [] ∧
            st' = { st with accounts := ({ st.accounts with globalAccountNumber := st.accounts.globalAccountNumber + 1 }
              : AccountStore).setAccount (.module macc) })) := by
  unfold Keeper.getModuleAccount Keeper.getModuleAccountAndPermissions Keeper.getModuleAddressAndPermissions at h
  cases hl : k.permAddrs.lookup name with
  | none =>
    simp only [hl] at h
    cases h
    exact .inl ⟨rfl, rfl⟩
  | some pa =>
    simp only [hl, KeeperM.run_bind, KeeperM.run_liftBank, Bank.run_getAccount, Except.map] at h
    cases ha : st.accounts.getAccount pa.address with
    | none =>
      cases hm : k.newEmptyModuleAccount name pa.permissions with
      | error e =>
        simp only [ha, hm, KeeperM.run_bind, KeeperM.run_liftBank, Bank.run_liftPanic_error, Except.map] at h
        cases h
      | ok macc =>
        simp only [ha, hm, KeeperM.run_bind, KeeperM.run_liftBank, Bank.run_liftPanic_ok, run_newAccount,
          Bank.run_setAccount, KeeperM.run_pure, Except.map] at h
        cases h
        have hbase : macc.toBaseAccount = { address := k.newModuleAddress name, accountNumber := 0, sequence := 0 } := by
          unfold Keeper.newEmptyModuleAccount newModuleAccount at hm
          split at hm
          · cases hm
            rfl
          · cases hm
        have haddr : macc.address = k.newModuleAddress name := congrArg BaseAccount.address hbase
        refine .inr ⟨_, rfl, haddr, .inr ⟨?_, congrArg BaseAccount.coins hbase, rfl⟩⟩
        show st.accounts.getAccount macc.address = none
        rw [haddr, ← address_of_lookup hl, ha]
    | some acc =>
      cases acc with
      | module macc =>
        simp [ha] at h
        obtain ⟨rfl, rfl⟩ := h
        have haddr : macc.address = pa.address := AccountStore.getAddress_of_getAccount ha
        exact .inr ⟨macc, rfl, haddr.trans (address_of_lookup hl), .inl ⟨haddr ▸ ha, rfl⟩⟩
      | base => simp [ha] at h
      | continuousVesting => simp [ha] at h
      | delayedVesting => simp [ha] at h

/-- `GetModuleAccount` leaves the supply and every account's coins as they were. -/
theorem getModuleAccount_keeps {r : Except SdkError (Option ModuleAccount)}
    (h : (k.getModuleAccount name).run.run st = .ok (r, st')) :
    st'.supply = st.supply ∧ ∀ addr, Coins.amountAt (st'.accounts.coinsOf addr) = Coins.amountAt (st.accounts.coinsOf addr) := by
  rcases getModuleAccount_cases h with ⟨-, rfl⟩ | ⟨macc, -, -, ⟨-, rfl⟩ | ⟨hnone, hcoins, rfl⟩⟩
  · exact ⟨rfl, fun _ => rfl⟩
  · exact ⟨rfl, fun _ => rfl⟩
  refine ⟨rfl, fun addr => ?_⟩
  show Coins.amountAt ((AccountStore.setAccount _ (.module macc)).coinsOf addr) = _
  rw [AccountStore.coinsOf_setAccount]
  split_ifs with heq
  · -- the new account holds no coins, where there was no account
    have hold : st.accounts.coinsOf addr = [] := by
      rw [AccountStore.coinsOf, heq, show (Account.module macc).getAddress = macc.address from rfl, hnone]
    show Coins.amountAt macc.coins = _
    rw [hcoins, hold]
  · rfl

end ModuleAccount

/-! ## The total supply invariant -/

/-- Every denomination's coins in all accounts add up to the total supply of it. -/
def Balanced (accounts : AccountStore) (supply : Supply) : Prop :=
  ∀ denom, accounts.totalAt denom = Coins.amountAt supply.total denom

/-- What the supply keeper keeps: sound accounts, a sound total, and the two balanced. -/
structure State.Inv (st : State) : Prop where
  accounts : st.accounts.Sound
  supply : Coins.Sound st.supply.total
  balanced : Balanced st.accounts st.supply

section Invariant

variable {s : AccountStore} {supply : Supply}

/-- A sum of sound coins that does not panic is sound and holds the sum of every denomination. -/
theorem foldlM_getCoins_eq_ok (l : List (Address × Account)) (hl : ∀ p ∈ l, Coins.Sound p.2.getCoins)
    {init c : Coins} (hinit : Coins.Sound init) (h : l.foldlM (fun total p => Coins.add total p.2.getCoins) init = .ok c) :
    Coins.Sound c ∧ ∀ denom, Coins.amountAt c denom =
      Coins.amountAt init denom + (l.map fun p => Coins.amountAt p.2.getCoins denom).sum := by
  induction l generalizing init with
  | nil =>
    cases h
    exact ⟨hinit, fun _ => by simp⟩
  | cons p l ih =>
    obtain ⟨t, ht, h⟩ := Except.bind_eq_ok.mp h
    obtain ⟨rfl, hsound⟩ := hinit.of_add_eq_ok (hl p List.mem_cons_self) ht
    obtain ⟨hc, hamounts⟩ := ih (fun q hq => hl q (List.mem_cons_of_mem _ hq)) hsound h
    refine ⟨hc, fun denom => ?_⟩
    rw [hamounts, Coins.amountAt_plus, List.map_cons, List.sum_cons]
    ring

/-- A sum of sound coins does not panic where the whole sum of every denomination fits: the
amounts are positive, so every running sum is no more than the whole. -/
theorem exists_foldlM_getCoins_eq_ok (l : List (Address × Account)) (hl : ∀ p ∈ l, Coins.Sound p.2.getCoins)
    {init : Coins} (hinit : Coins.Sound init)
    (hfit : ∀ denom, (Coins.amountAt init denom + (l.map fun p => Coins.amountAt p.2.getCoins denom).sum).natAbs <
      2 ^ maxBitLen) :
    ∃ c, l.foldlM (fun total p => Coins.add total p.2.getCoins) init = .ok c := by
  induction l generalizing init with
  | nil => exact ⟨init, rfl⟩
  | cons p l ih =>
    have hp := hl p List.mem_cons_self
    have hrest : ∀ denom, 0 ≤ (l.map fun q => Coins.amountAt q.2.getCoins denom).sum := fun denom =>
      List.sum_nonneg fun x hx => by
        obtain ⟨q, hq, rfl⟩ := List.mem_map.mp hx
        exact (hl q (List.mem_cons_of_mem _ hq)).nonneg denom
    have hfit₁ : ∀ denom, (Coins.amountAt init denom + Coins.amountAt p.2.getCoins denom).natAbs < 2 ^ maxBitLen := by
      intro denom
      have hwhole := hfit denom
      rw [List.map_cons, List.sum_cons] at hwhole
      have := hrest denom
      have := hinit.nonneg denom
      have := hp.nonneg denom
      omega
    obtain ⟨hadd, hsound⟩ := hinit.add_eq_plus hp hfit₁
    refine ih (fun q hq => hl q (List.mem_cons_of_mem _ hq)) hsound (fun denom => ?_) |>.imp fun c hc => ?_
    · have hwhole := hfit denom
      rw [List.map_cons, List.sum_cons, ← add_assoc] at hwhole
      rwa [Coins.amountAt_plus]
    · rw [List.foldlM_cons, hadd]
      exact hc

/-- The sum `TotalSupply` takes, where it does not panic, is sound and holds the total of every
denomination. -/
theorem sumOfAccountsCoins_eq_ok {c : Coins} (hs : s.Sound) (h : sumOfAccountsCoins s = .ok c) :
    Coins.Sound c ∧ ∀ denom, Coins.amountAt c denom = s.totalAt denom := by
  obtain ⟨hc, hamounts⟩ := foldlM_getCoins_eq_ok s.accounts hs Coins.sound_nil h
  exact ⟨hc, fun denom => by rw [hamounts, Coins.amountAt_nil, zero_add]; rfl⟩

/-- The sum does not panic where every denomination's total fits. -/
theorem exists_sumOfAccountsCoins (hs : s.Sound) (hfit : ∀ denom, (s.totalAt denom).natAbs < 2 ^ maxBitLen) :
    ∃ c, sumOfAccountsCoins s = .ok c :=
  exists_foldlM_getCoins_eq_ok s.accounts hs Coins.sound_nil fun denom => by
    rw [Coins.amountAt_nil, zero_add]
    exact hfit denom

/-- `TotalSupply` reports the invariant unbroken, and does not panic, exactly where the
accounts and the total are balanced. -/
theorem totalSupply_eq_ok_false_iff (hs : s.Sound) (hsupply : Coins.Sound supply.total) :
    totalSupply s supply = .ok false ↔ Balanced s supply := by
  constructor
  · intro h denom
    obtain ⟨c, hc, h⟩ := Except.bind_eq_ok.mp h
    obtain ⟨-, hamounts⟩ := sumOfAccountsCoins_eq_ok hs hc
    cases heq : Coins.isEqual c supply.total with
    | error e => simp [heq] at h
    | ok b =>
      simp only [heq] at h
      have hb : b = true := by simpa using h
      rw [← hamounts, Coins.amountAt_of_isEqual (hb ▸ heq)]
  · intro hbal
    obtain ⟨c, hc⟩ := exists_sumOfAccountsCoins hs fun denom => by
      rw [hbal denom]
      exact hsupply.amountAt_fits denom
    obtain ⟨hsum, hamounts⟩ := sumOfAccountsCoins_eq_ok hs hc
    have heq : c = supply.total :=
      Coins.eq_of_amountAt_eq hsum.valid.sorted hsupply.valid.sorted hsum.valid.isZero_eq_false
        hsupply.valid.isZero_eq_false fun denom => (hamounts denom).trans (hbal denom)
    rw [totalSupply, hc]
    show (do let b ← Coins.isEqual c supply.total; pure !b) = _
    rw [heq, Coins.isEqual_self]
    rfl

/-- `InitGenesis` with no supply given, where it does not panic, balances the supply with sound
accounts. -/
theorem inv_initGenesis {supply : Supply} (hs : s.Sound) (h : initGenesis s [] = .ok supply) : State.Inv ⟨s, supply⟩ := by
  rw [initGenesis, if_pos List.length_nil] at h
  obtain ⟨c, hc, h⟩ := Except.bind_eq_ok.mp h
  cases h
  obtain ⟨hsum, hamounts⟩ := sumOfAccountsCoins_eq_ok hs hc
  exact ⟨hs, hsum, fun denom => (hamounts denom).symm⟩

end Invariant

/-! ## Bank calls on a sound store -/

section Bank

variable {s s' : AccountStore} {blockTime : Int64} {fromAddr toAddr addr : Address} {amt nc : Coins}

/-- `SendCoins` that returns, with an error or not, keeps a sound store sound and every total. -/
theorem run_sendCoins_keeps {r : Except SdkError Unit} (hs : s.Sound)
    (h : (sendCoins blockTime fromAddr toAddr amt).run.run s = .ok (r, s')) :
    s'.Sound ∧ ∀ denom, s'.totalAt denom = s.totalAt denom := by
  rcases run_sendCoins_cases hs h with ⟨-, hmoved⟩ | ⟨-, rfl⟩
  · exact ⟨hmoved.sound, hmoved.total⟩
  · exact ⟨hs, fun _ => rfl⟩

theorem run_delegateCoins_keeps {accAddressString : Address → String} {r : Except SdkError Unit} (hs : s.Sound)
    (h : (delegateCoins accAddressString blockTime fromAddr toAddr amt).run.run s = .ok (r, s')) :
    s'.Sound ∧ ∀ denom, s'.totalAt denom = s.totalAt denom := by
  have hcases : (∃ e, (delegateCoins accAddressString blockTime fromAddr toAddr amt).run.run s = .ok (.error e, s) ∧ _) ∨
      _ := run_delegateCoins_cases hs
  rcases hcases with ⟨e, hrun, -⟩ | ⟨p, hrun, -⟩ | ⟨s'', hrun, -, hmoved⟩ <;> rw [hrun] at h
  · cases h
    exact ⟨hs, fun _ => rfl⟩
  · cases h
  · cases h
    exact ⟨hmoved.sound, hmoved.total⟩

/-- `UndelegateCoins` that returns keeps a sound store sound; it keeps every total where the
delegator is not the module account, and otherwise adds the amount. -/
theorem run_undelegateCoins_keeps {accAddressString : Address → String} {r : Except SdkError Unit} (hs : s.Sound)
    (h : (undelegateCoins accAddressString fromAddr toAddr amt).run.run s = .ok (r, s')) :
    s'.Sound ∧ ∀ denom, s'.totalAt denom = s.totalAt denom +
      if r = .ok () ∧ toAddr = fromAddr then Coins.amountAt amt denom else 0 := by
  have hcases : (∃ e, (undelegateCoins accAddressString fromAddr toAddr amt).run.run s = .ok (.error e, s) ∧ _) ∨
      _ := run_undelegateCoins_cases hs
  rcases hcases with ⟨e, hrun, -⟩ | ⟨p, hrun, -⟩ | ⟨s'', hrun, -, hs', -, -, htotal⟩ <;> rw [hrun] at h
  · cases h
    exact ⟨hs, fun _ => by simp⟩
  · cases h
  · cases h
    exact ⟨hs', fun denom => by simpa using htotal denom⟩

theorem run_addCoins_keeps (hs : s.Sound) (hamt : Coins.Sound amt) (h : (addCoins addr amt).run.run s = .ok (.ok nc, s')) :
    nc = (s.coinsOf addr).plus amt ∧ s'.Sound ∧ ∀ denom, s'.totalAt denom = s.totalAt denom + Coins.amountAt amt denom := by
  obtain ⟨hadd, rfl⟩ := run_addCoins_ok_inv h
  obtain ⟨rfl, hsum⟩ := (hs.coinsOf addr).of_add_eq_ok hamt hadd
  refine ⟨rfl, hs.setCoins hsum, fun denom => ?_⟩
  rw [AccountStore.totalAt_setCoins, Coins.amountAt_plus]
  ring

/-- A `SubtractCoins` that succeeds took a sound amount that the coins covered. -/
theorem run_subtractCoins_keeps (hs : s.Sound) (h : (subtractCoins blockTime addr amt).run.run s = .ok (.ok nc, s')) :
    Coins.Sound amt ∧ (∀ denom, Coins.amountAt amt denom ≤ Coins.amountAt (s.coinsOf addr) denom) ∧ s'.Sound ∧
      ∀ denom, s'.totalAt denom = s.totalAt denom - Coins.amountAt amt denom := by
  have hv : amt.isValid = true := by
    cases hv : amt.isValid
    · rw [run_subtractCoins_invalid hv] at h
      cases h
    · rfl
  obtain ⟨hsub, rfl⟩ := run_subtractCoins_ok_inv h
  obtain ⟨hcover, hamt, rfl, hnc⟩ := sound_of_safeSub (hs.coinsOf addr) hv (Coins.safeSub_of_sub_eq_ok hsub)
  refine ⟨hamt, hcover, hs.setCoins hnc, fun denom => ?_⟩
  rw [AccountStore.totalAt_setCoins, Coins.amountAt_plus_negative]
  ring

end Bank

/-! ## The supply keeper's calls keep the invariant -/

section Calls

variable {k : Keeper} {st st' : State} {blockTime : Int64} {amt : Coins} {r : Except SdkError Unit}

/-- A bank call that keeps a sound store sound and every total keeps the invariant. -/
theorem State.Inv.liftBank {α : Type} {x : Bank.Keeper α} {r : Except SdkError α} (hinv : st.Inv)
    (hkeep : ∀ r s', x.run.run st.accounts = .ok (r, s') → s'.Sound ∧ ∀ denom, s'.totalAt denom = st.accounts.totalAt denom)
    (h : (liftBank x).run.run st = .ok (r, st')) : st'.Inv := by
  obtain ⟨s', hx, rfl⟩ := KeeperM.run_liftBank_eq_ok h
  obtain ⟨hs', htotal⟩ := hkeep r s' hx
  exact ⟨hs', hinv.supply, fun denom => (htotal denom).trans (hinv.balanced denom)⟩

/-- Finding or storing a module account keeps the invariant: a new one holds no coins. -/
theorem State.Inv.getModuleAccount {name : String} {r : Except SdkError (Option ModuleAccount)} (hinv : st.Inv)
    (h : (k.getModuleAccount name).run.run st = .ok (r, st')) : st'.Inv := by
  rcases getModuleAccount_cases h with ⟨-, rfl⟩ | ⟨macc, -, -, ⟨-, rfl⟩ | ⟨hnone, hcoins, rfl⟩⟩
  · exact hinv
  · exact hinv
  have hempty : Coins.amountAt (Account.module macc).getCoins = fun _ => 0 := by
    funext denom
    show Coins.amountAt macc.coins denom = 0
    rw [hcoins, Coins.amountAt_nil]
  have hold : ∀ denom, Coins.amountAt (st.accounts.coinsOf macc.address) denom = 0 := by
    intro denom
    simp [AccountStore.coinsOf, hnone]
  refine ⟨?_, hinv.supply, fun denom => ?_⟩
  · refine AccountStore.Sound.setAccount hinv.accounts ?_
    show Coins.Sound macc.coins
    rw [hcoins]
    exact Coins.sound_nil
  · rw [AccountStore.totalAt_setAccount, congrFun hempty denom]
    show st.accounts.totalAt denom - Coins.amountAt (st.accounts.coinsOf macc.address) denom + 0 = _
    rw [hold denom, sub_zero, add_zero]
    exact hinv.balanced denom

theorem State.Inv.sendCoinsFromModuleToAccount {senderModule : String} {recipientAddr : Address} (hinv : st.Inv)
    (h : (k.sendCoinsFromModuleToAccount blockTime senderModule recipientAddr amt).run.run st = .ok (r, st')) :
    st'.Inv := by
  unfold Keeper.sendCoinsFromModuleToAccount at h
  cases hm : k.getModuleAddress senderModule with
  | none =>
    simp only [hm, KeeperM.run_throw] at h
    cases h
    exact hinv
  | some senderAddr =>
    simp only [hm] at h
    exact hinv.liftBank (fun _ _ hx => run_sendCoins_keeps hinv.accounts hx) h

/-- A call that starts with `GetModuleAccount` goes on from a state that keeps the invariant,
with a module account at the module's address if it found one. -/
theorem State.Inv.getModuleAccount_bind {β : Type} {name : String} {f : Option ModuleAccount → KeeperM β}
    {r : Except SdkError β} (hinv : st.Inv) (h : (k.getModuleAccount name >>= f).run.run st = .ok (r, st')) :
    ∃ o st₁, st₁.Inv ∧ st₁.supply = st.supply ∧
      (∀ addr, Coins.amountAt (st₁.accounts.coinsOf addr) = Coins.amountAt (st.accounts.coinsOf addr)) ∧
      (∀ macc, o = some macc → macc.address = k.newModuleAddress name) ∧ (f o).run.run st₁ = .ok (r, st') := by
  rcases KeeperM.run_bind_eq_ok h with ⟨e, hx, -⟩ | ⟨o, st₁, hx, h⟩
  · -- `GetModuleAccount` returns no error
    rcases getModuleAccount_cases hx with ⟨he, -⟩ | ⟨macc, he, -⟩ <;> cases he
  obtain ⟨hsupply, hamounts⟩ := getModuleAccount_keeps hx
  refine ⟨o, st₁, hinv.getModuleAccount hx, hsupply, hamounts, fun macc ho => ?_, h⟩
  rcases getModuleAccount_cases hx with ⟨he, -⟩ | ⟨macc', he, haddr, -⟩
  · cases he
    cases ho
  · cases he
    cases ho
    exact haddr

/-- `SendCoinsFromModuleToModule` keeps the invariant and the supply; one that returns no error
has moved the amount from the sender module's address to the recipient module's. -/
theorem State.Inv.sendCoinsFromModuleToModule {senderModule recipientModule : String} (hinv : st.Inv)
    (h : (k.sendCoinsFromModuleToModule blockTime senderModule recipientModule amt).run.run st = .ok (r, st')) :
    st'.Inv ∧ st'.supply = st.supply ∧
      (r = .ok () → ∀ addr denom, Coins.amountAt (st'.accounts.coinsOf addr) denom =
        Coins.amountAt (st.accounts.coinsOf addr) denom -
          (if addr = k.newModuleAddress senderModule then Coins.amountAt amt denom else 0) +
          (if addr = k.newModuleAddress recipientModule then Coins.amountAt amt denom else 0)) := by
  unfold Keeper.sendCoinsFromModuleToModule at h
  cases hm : k.getModuleAddress senderModule with
  | none =>
    simp only [hm, KeeperM.run_throw] at h
    cases h
    exact ⟨hinv, rfl, fun he => by cases he⟩
  | some senderAddr =>
    simp only [hm] at h
    have hsender : senderAddr = k.newModuleAddress senderModule := by
      obtain ⟨pa, hl, rfl⟩ := Option.map_eq_some_iff.mp hm
      exact address_of_lookup hl
    obtain ⟨o, st₁, hinv₁, hsupply, hamounts, haddr, h⟩ := hinv.getModuleAccount_bind h
    cases o with
    | none => simp at h
    | some acc =>
      have hinv' := hinv₁.liftBank (fun _ _ hx => run_sendCoins_keeps hinv₁.accounts hx) h
      obtain ⟨s', hx, rfl⟩ := KeeperM.run_liftBank_eq_ok h
      refine ⟨hinv', hsupply, fun hr addr denom => ?_⟩
      rcases run_sendCoins_cases hinv₁.accounts hx with ⟨-, hmoved⟩ | ⟨⟨e, rfl⟩, -⟩
      · show Coins.amountAt (s'.coinsOf addr) denom = _
        rw [hmoved.amounts, congrFun (hamounts addr) denom, hsender, haddr acc rfl]
      · cases hr

theorem State.Inv.sendCoinsFromAccountToModule {senderAddr : Address} {recipientModule : String} (hinv : st.Inv)
    (h : (k.sendCoinsFromAccountToModule blockTime senderAddr recipientModule amt).run.run st = .ok (r, st')) :
    st'.Inv := by
  unfold Keeper.sendCoinsFromAccountToModule at h
  obtain ⟨o, st₁, hinv₁, -, -, -, h⟩ := hinv.getModuleAccount_bind h
  cases o with
  | none => simp at h
  | some acc => exact hinv₁.liftBank (fun _ _ hx => run_sendCoins_keeps hinv₁.accounts hx) h

theorem State.Inv.delegateCoinsFromAccountToModule {senderAddr : Address} {recipientModule : String} (hinv : st.Inv)
    (h : (k.delegateCoinsFromAccountToModule blockTime senderAddr recipientModule amt).run.run st = .ok (r, st')) :
    st'.Inv := by
  unfold Keeper.delegateCoinsFromAccountToModule at h
  obtain ⟨o, st₁, hinv₁, -, -, -, h⟩ := hinv.getModuleAccount_bind h
  cases o with
  | none => simp at h
  | some acc =>
    cases hp : hasPermission acc staking
    · simp [hp] at h
    simp only [hp, Bool.not_true, Bool.false_eq_true, if_false] at h
    exact hinv₁.liftBank (fun _ _ hx => run_delegateCoins_keeps hinv₁.accounts hx) h

/-- `UndelegateCoinsFromModuleToAccount` to an account other than the module's keeps the
invariant. -/
theorem State.Inv.undelegateCoinsFromModuleToAccount {senderModule : String} {recipientAddr : Address}
    (hinv : st.Inv) (hrecipient : recipientAddr ≠ k.newModuleAddress senderModule)
    (h : (k.undelegateCoinsFromModuleToAccount senderModule recipientAddr amt).run.run st = .ok (r, st')) :
    st'.Inv := by
  unfold Keeper.undelegateCoinsFromModuleToAccount at h
  obtain ⟨o, st₁, hinv₁, -, -, haddr, h⟩ := hinv.getModuleAccount_bind h
  cases o with
  | none =>
    simp only [KeeperM.run_throw] at h
    cases h
    exact hinv₁
  | some acc =>
    cases hp : hasPermission acc staking
    · simp [hp] at h
    simp only [hp, Bool.not_true, Bool.false_eq_true, if_false] at h
    refine hinv₁.liftBank (fun r s' hx => ?_) h
    obtain ⟨hs', htotal⟩ := run_undelegateCoins_keeps hinv₁.accounts hx
    refine ⟨hs', fun denom => ?_⟩
    rw [htotal, if_neg (fun hself => hrecipient (hself.2.trans (haddr acc rfl)))]
    ring

/-- `MintCoins` of a sound amount keeps the invariant; one that returns no error has added the
amount to the total supply and to the module's account. -/
theorem State.Inv.mintCoins {moduleName : String} (hinv : st.Inv) (hamt : Coins.Sound amt)
    (h : (k.mintCoins moduleName amt).run.run st = .ok (r, st')) :
    st'.Inv ∧ (r = .ok () →
      (∀ denom, Coins.amountAt st'.supply.total denom = Coins.amountAt st.supply.total denom + Coins.amountAt amt denom) ∧
      ∀ addr denom, Coins.amountAt (st'.accounts.coinsOf addr) denom = Coins.amountAt (st.accounts.coinsOf addr) denom +
        if addr = k.newModuleAddress moduleName then Coins.amountAt amt denom else 0) := by
  unfold Keeper.mintCoins at h
  obtain ⟨o, st₁, hinv₁, hsupply, hamounts, haddr, h⟩ := hinv.getModuleAccount_bind h
  cases o with
  | none =>
    simp only [KeeperM.run_throw] at h
    cases h
    exact ⟨hinv₁, fun he => by cases he⟩
  | some acc =>
    cases hp : hasPermission acc minter
    · simp [hp] at h
    simp only [hp, Bool.not_true, Bool.false_eq_true, if_false] at h
    rcases KeeperM.run_bind_eq_ok h with ⟨e, hx, -⟩ | ⟨res, st₂, hx, h⟩
    · obtain ⟨_, _, -, he, -⟩ := KeeperM.run_runBank_eq_ok hx
      cases he
    obtain ⟨res', s₂, hadd, hres, rfl⟩ := KeeperM.run_runBank_eq_ok hx
    cases hres
    cases res with
    | error err => simp at h
    | ok nc =>
      obtain ⟨rfl, hs₂, htotal⟩ := run_addCoins_keeps hinv₁.accounts hamt hadd
      obtain ⟨-, rfl⟩ := run_addCoins_ok_inv hadd
      simp only [KeeperM.run_bind, KeeperM.run_getSupply] at h
      cases hi : st₁.supply.inflate amt with
      | error p =>
        simp [hi] at h
      | ok supply =>
        simp only [hi, KeeperM.run_setSupply] at h
        cases h
        obtain ⟨c, hc, hsupply'⟩ := Except.bind_eq_ok.mp hi
        cases hsupply'
        obtain ⟨rfl, hsound⟩ := hinv₁.supply.of_add_eq_ok hamt hc
        refine ⟨⟨hs₂, hsound, fun denom => ?_⟩, fun _ => ⟨fun denom => ?_, fun addr denom => ?_⟩⟩
        · show _ = Coins.amountAt (st₁.supply.total.plus amt) denom
          rw [htotal, hinv₁.balanced, Coins.amountAt_plus]
        · show Coins.amountAt (st₁.supply.total.plus amt) denom = _
          rw [Coins.amountAt_plus, hsupply]
        · -- the coins are added at the module account's address
          show Coins.amountAt ((st₁.accounts.setCoins acc.address _).coinsOf addr) denom = _
          rw [AccountStore.coinsOf_setCoins, haddr acc rfl, ← congrFun (hamounts addr) denom]
          by_cases heq : addr = k.newModuleAddress moduleName
          · rw [if_pos heq, if_pos heq, heq, Coins.amountAt_plus]
          · rw [if_neg heq, if_neg heq, add_zero]

/-- `BurnCoins` keeps the invariant: the module account and the total lose the amount. -/
theorem State.Inv.burnCoins {moduleName : String} (hinv : st.Inv)
    (h : (k.burnCoins blockTime moduleName amt).run.run st = .ok (r, st')) : st'.Inv := by
  unfold Keeper.burnCoins at h
  obtain ⟨o, st₁, hinv₁, -, -, -, h⟩ := hinv.getModuleAccount_bind h
  cases o with
  | none =>
    simp only [KeeperM.run_throw] at h
    cases h
    exact hinv₁
  | some acc =>
    cases hp : hasPermission acc burner
    · simp [hp] at h
    simp only [hp, Bool.not_true, Bool.false_eq_true, if_false] at h
    rcases KeeperM.run_bind_eq_ok h with ⟨e, hx, -⟩ | ⟨res, st₂, hx, h⟩
    · obtain ⟨_, _, -, he, -⟩ := KeeperM.run_runBank_eq_ok hx
      cases he
    obtain ⟨res', s₂, hsub, hres, rfl⟩ := KeeperM.run_runBank_eq_ok hx
    cases hres
    cases res with
    | error err => simp at h
    | ok nc =>
      obtain ⟨hamt, -, hs₂, htotal⟩ := run_subtractCoins_keeps hinv₁.accounts hsub
      simp only [KeeperM.run_bind, KeeperM.run_getSupply] at h
      cases hd : st₁.supply.deflate amt with
      | error p =>
        simp [hd] at h
      | ok supply =>
        simp only [hd, KeeperM.run_setSupply] at h
        cases h
        obtain ⟨c, hc, hsupply⟩ := Except.bind_eq_ok.mp hd
        cases hsupply
        obtain ⟨hsound, hamounts⟩ := hinv₁.supply.of_sub_eq_ok hamt hc
        refine ⟨hs₂, hsound, fun denom => ?_⟩
        show s₂.totalAt denom = Coins.amountAt c denom
        rw [htotal, hinv₁.balanced, hamounts]

end Calls

/-! ## Runs of the supply keeper -/

/-- The calls that move coins between accounts, create or destroy them: the bank keeper's
`SendCoins`, which `MsgSend` reaches, and the supply keeper's calls. -/
inductive Call
  | sendCoins (blockTime : Int64) (fromAddr toAddr : Address) (amt : Coins)
  | sendCoinsFromModuleToAccount (blockTime : Int64) (senderModule : String) (recipientAddr : Address) (amt : Coins)
  | sendCoinsFromModuleToModule (blockTime : Int64) (senderModule recipientModule : String) (amt : Coins)
  | sendCoinsFromAccountToModule (blockTime : Int64) (senderAddr : Address) (recipientModule : String) (amt : Coins)
  | delegateCoinsFromAccountToModule (blockTime : Int64) (senderAddr : Address) (recipientModule : String)
      (amt : Coins)
  | undelegateCoinsFromModuleToAccount (senderModule : String) (recipientAddr : Address) (amt : Coins)
  | mintCoins (moduleName : String) (amt : Coins)
  | burnCoins (blockTime : Int64) (moduleName : String) (amt : Coins)
  deriving DecidableEq, Repr

def Call.exec (k : Keeper) : Call → KeeperM Unit
  | .sendCoins blockTime fromAddr toAddr amt => liftBank (Bank.sendCoins blockTime fromAddr toAddr amt)
  | .sendCoinsFromModuleToAccount blockTime senderModule recipientAddr amt =>
    k.sendCoinsFromModuleToAccount blockTime senderModule recipientAddr amt
  | .sendCoinsFromModuleToModule blockTime senderModule recipientModule amt =>
    k.sendCoinsFromModuleToModule blockTime senderModule recipientModule amt
  | .sendCoinsFromAccountToModule blockTime senderAddr recipientModule amt =>
    k.sendCoinsFromAccountToModule blockTime senderAddr recipientModule amt
  | .delegateCoinsFromAccountToModule blockTime senderAddr recipientModule amt =>
    k.delegateCoinsFromAccountToModule blockTime senderAddr recipientModule amt
  | .undelegateCoinsFromModuleToAccount senderModule recipientAddr amt =>
    k.undelegateCoinsFromModuleToAccount senderModule recipientAddr amt
  | .mintCoins moduleName amt => k.mintCoins moduleName amt
  | .burnCoins blockTime moduleName amt => k.burnCoins blockTime moduleName amt

/-- The calls the invariant is kept through: mints of sound amounts, as the mint module's one
coin of the bond denomination is, and undelegations to an account that is not the module's own. -/
def Call.Allowed (k : Keeper) : Call → Prop
  | .undelegateCoinsFromModuleToAccount senderModule recipientAddr _ => recipientAddr ≠ k.newModuleAddress senderModule
  | .mintCoins _ amt => Coins.Sound amt
  | _ => True

/-- The states the supply keeper reaches from `InitGenesis` with no supply given, through calls
that return, with an error or not. -/
inductive Reachable (k : Keeper) : State → Prop
  | initGenesis {s : AccountStore} {supply : Supply} (hs : s.Sound) (h : initGenesis s [] = .ok supply) :
      Reachable k ⟨s, supply⟩
  | call {st st' : State} {c : Call} {r : Except SdkError Unit} (h : Reachable k st) (hc : c.Allowed k)
      (hrun : (c.exec k).run.run st = .ok (r, st')) : Reachable k st'

section Runs

variable {k : Keeper} {st st' : State} {c : Call} {r : Except SdkError Unit}

theorem State.Inv.exec (hinv : st.Inv) (hc : c.Allowed k) (h : (c.exec k).run.run st = .ok (r, st')) : st'.Inv := by
  cases c with
  | sendCoins => exact hinv.liftBank (fun _ _ hx => run_sendCoins_keeps hinv.accounts hx) h
  | sendCoinsFromModuleToAccount => exact hinv.sendCoinsFromModuleToAccount h
  | sendCoinsFromModuleToModule => exact (hinv.sendCoinsFromModuleToModule h).1
  | sendCoinsFromAccountToModule => exact hinv.sendCoinsFromAccountToModule h
  | delegateCoinsFromAccountToModule => exact hinv.delegateCoinsFromAccountToModule h
  | undelegateCoinsFromModuleToAccount => exact hinv.undelegateCoinsFromModuleToAccount hc h
  | mintCoins => exact (hinv.mintCoins hc h).1
  | burnCoins => exact hinv.burnCoins h

theorem reachable_inv (h : Reachable k st) : st.Inv := by
  induction h with
  | initGenesis hs h => exact inv_initGenesis hs h
  | call _ hc hrun ih => exact ih.exec hc hrun

/-- Along every run of the supply keeper from `InitGenesis`, the accounts stay sound, the total
supply sound, and `TotalSupply` finds the invariant unbroken, without a panic. -/
theorem reachable_totalSupply (h : Reachable k st) : st.Inv ∧ totalSupply st.accounts st.supply = .ok false := by
  have hinv := reachable_inv h
  exact ⟨hinv, (totalSupply_eq_ok_false_iff hinv.accounts hinv.supply).mpr hinv.balanced⟩

theorem reachable_totalSupply_mint :
    initGenesis oneAccountStore [] = .ok ⟨[⟨"foo", 10⟩]⟩ ∧
      ∃ st', (Call.exec (newKeeper (fun _ => [9]) (fun _ => "") [("mint", [minter])]) (.mintCoins "mint" [⟨"foo", 5⟩])).run.run
          ⟨oneAccountStore, ⟨[⟨"foo", 10⟩]⟩⟩ = .ok (.ok (), st') ∧
        st'.Inv ∧ totalSupply st'.accounts st'.supply = .ok false := by
  have hs : oneAccountStore.Sound :=
    AccountStore.sound_single ⟨(Coins.isValid_iff _).mp (by decide), by decide, by decide⟩
  have hgenesis : initGenesis oneAccountStore [] = .ok ⟨[⟨"foo", 10⟩]⟩ := by decide
  obtain ⟨st', hrun⟩ : ∃ st', (Call.exec (newKeeper (fun _ => [9]) (fun _ => "") [("mint", [minter])])
      (.mintCoins "mint" [⟨"foo", 5⟩])).run.run ⟨oneAccountStore, ⟨[⟨"foo", 10⟩]⟩⟩ = .ok (.ok (), st') :=
    ⟨_, rfl⟩
  exact ⟨hgenesis, st', hrun, reachable_totalSupply
    (.call (.initGenesis hs hgenesis) (by exact ⟨(Coins.isValid_iff _).mp (by decide), by decide, by decide⟩) hrun)⟩

/-- `UndelegateCoinsFromModuleToAccount` with the module's own address as the recipient: the
module account is read before its coins are reduced and written back with the amount added, so
every denomination's coins in the accounts exceed the total supply by the amount, and
`TotalSupply` no longer finds the invariant unbroken. -/
theorem undelegateCoinsFromModuleToAccount_self {senderModule : String} {amt : Coins} (hinv : st.Inv)
    (h : (k.undelegateCoinsFromModuleToAccount senderModule (k.newModuleAddress senderModule) amt).run.run st =
      .ok (.ok (), st')) :
    st'.accounts.Sound ∧ st'.supply = st.supply ∧
      (∀ denom, st'.accounts.totalAt denom = Coins.amountAt st'.supply.total denom + Coins.amountAt amt denom) ∧
      (amt ≠ [] → totalSupply st'.accounts st'.supply ≠ .ok false) := by
  unfold Keeper.undelegateCoinsFromModuleToAccount at h
  obtain ⟨o, st₁, hinv₁, hsupply, -, haddr, h⟩ := hinv.getModuleAccount_bind h
  cases o with
  | none =>
    simp only [KeeperM.run_throw] at h
    cases h
  | some acc =>
    cases hp : hasPermission acc staking
    · simp [hp] at h
    simp only [hp, Bool.not_true, Bool.false_eq_true, if_false, KeeperM.run_liftBank] at h
    have hcases : (∃ e, (undelegateCoins k.accAddressString acc.address (k.newModuleAddress senderModule) amt).run.run
        st₁.accounts = .ok (.error e, st₁.accounts) ∧ _) ∨ _ := run_undelegateCoins_cases hinv₁.accounts
    rcases hcases with ⟨e, hrun, -⟩ | ⟨p, hrun, -⟩ | ⟨s', hrun, hnot, hs', -, -, htotal⟩ <;>
      simp only [hrun, Except.map, Except.ok.injEq, Prod.mk.injEq, reduceCtorEq, false_and] at h
    obtain ⟨-, rfl⟩ := h
    have hself : k.newModuleAddress senderModule = acc.address := (haddr acc rfl).symm
    have htotal' : ∀ denom, s'.totalAt denom = Coins.amountAt st₁.supply.total denom + Coins.amountAt amt denom := by
      intro denom
      rw [htotal, if_pos hself, hinv₁.balanced]
    refine ⟨hs', hsupply, htotal', fun hne hbroken => hne ?_⟩
    have hbal := (totalSupply_eq_ok_false_iff hs' hinv₁.supply).mp hbroken
    have hv : amt.isValid = true := by
      cases hv : amt.isValid
      · exact absurd (.inr (.inr (.inl hv))) hnot
      · rfl
    have hvalid := (Coins.isValid_iff amt).mp hv
    refine Coins.eq_of_amountAt_eq hvalid.sorted (by simp [Merge.Sorted]) hvalid.isZero_eq_false (by simp) fun denom => ?_
    have := htotal' denom
    rw [hbal denom] at this
    rw [Coins.amountAt_nil]
    omega

/-- The bonded pool's module account, holding `10foo`, undelegating `3foo` to its own address:
the accounts then hold `13foo` against a total supply of `10foo`. -/
theorem undelegateCoinsFromModuleToAccount_self_pool :
    initGenesis (.single (.module ⟨⟨[9], 0, 0, [⟨"foo", 10⟩]⟩, "bonded_tokens_pool", [staking]⟩) 1) [] =
        .ok ⟨[⟨"foo", 10⟩]⟩ ∧
      ∃ st', ((newKeeper (fun _ => [9]) (fun _ => "") [("bonded_tokens_pool", [staking])]).undelegateCoinsFromModuleToAccount
          "bonded_tokens_pool" [9] [⟨"foo", 3⟩]).run.run
            ⟨.single (.module ⟨⟨[9], 0, 0, [⟨"foo", 10⟩]⟩, "bonded_tokens_pool", [staking]⟩) 1, ⟨[⟨"foo", 10⟩]⟩⟩ =
          .ok (.ok (), st') ∧
        st'.accounts.totalAt "foo" = 13 ∧ st'.supply.total = [⟨"foo", 10⟩] ∧
        totalSupply st'.accounts st'.supply ≠ .ok false := by
  have hs : (AccountStore.single (.module ⟨⟨[9], 0, 0, [⟨"foo", 10⟩]⟩, "bonded_tokens_pool", [staking]⟩) 1).Sound :=
    AccountStore.sound_single ⟨(Coins.isValid_iff _).mp (by decide), by decide, by decide⟩
  have hgenesis : initGenesis (.single (.module ⟨⟨[9], 0, 0, [⟨"foo", 10⟩]⟩, "bonded_tokens_pool", [staking]⟩) 1) [] =
      .ok ⟨[⟨"foo", 10⟩]⟩ := by
    decide
  obtain ⟨st', hrun⟩ : ∃ st', ((newKeeper (fun _ => [9]) (fun _ => "") [("bonded_tokens_pool", [staking])]).undelegateCoinsFromModuleToAccount
      "bonded_tokens_pool" [9] [⟨"foo", 3⟩]).run.run
        ⟨.single (.module ⟨⟨[9], 0, 0, [⟨"foo", 10⟩]⟩, "bonded_tokens_pool", [staking]⟩) 1, ⟨[⟨"foo", 10⟩]⟩⟩ =
      .ok (.ok (), st') := ⟨_, rfl⟩
  obtain ⟨-, hsupply, htotal, hbroken⟩ := undelegateCoinsFromModuleToAccount_self (inv_initGenesis hs hgenesis) hrun
  have htotal_supply : st'.supply.total = [⟨"foo", 10⟩] := by
    rw [hsupply]
  exact ⟨hgenesis, st', hrun, by rw [htotal, htotal_supply]; decide, htotal_supply, hbroken (by decide)⟩

end Runs

end Friday.Supply
