import Friday.Auth.Account
import Friday.Lib.SortedKV
import Friday.Types.CoinArithmetic

/-! # The bank keeper

`x/bank/internal/keeper/keeper.go`. The bank keeper reaches accounts through the
`AccountKeeper` of `x/bank/internal/types/expected_keepers.go`: `GetAccount`, `SetAccount`,
`NewAccountWithAddress` and `IterateAccounts`. An `AccountStore` is what that interface
serves: every account by address, ascending as `IterateAccounts` visits them, and the global
account number that `NewAccountWithAddress` takes and increments.

A keeper call threads the store. An `sdk.Error` keeps every write made before it, as the
keeper does: only the cache of the transaction discards them. A panic ends the call.
-/

namespace Friday.Bank

open Friday.Types Auth

/-- The accounts of the `acc` store, each under its own address, and the global account
number. -/
structure AccountStore where
  accounts : List (Address × Account)
  ascending : SortedKV.Ascending compare accounts
  keyed : ∀ p ∈ accounts, p.2.getAddress = p.1
  globalAccountNumber : Nat

namespace AccountStore

def getAccount (s : AccountStore) (addr : Address) : Option Account := s.accounts.lookup addr

/-- `SetAccount`: the account is stored under its address. -/
def setAccount (s : AccountStore) (acc : Account) : AccountStore where
  accounts := SortedKV.setEntry compare acc.getAddress acc s.accounts
  ascending := s.ascending.setEntry _ _
  keyed p hp := by
    rcases SortedKV.mem_setEntry hp with rfl | hp
    · rfl
    · exact s.keyed p hp
  globalAccountNumber := s.globalAccountNumber

/-- A store of one account. -/
def single (acc : Account) (globalAccountNumber : Nat) : AccountStore where
  accounts := [(acc.getAddress, acc)]
  ascending := by simp [SortedKV.Ascending]
  keyed := by simp
  globalAccountNumber := globalAccountNumber

end AccountStore

/-- A call of a keeper: an `sdk.Error` keeps the store as it is at that point, a panic
ends the call. -/
abbrev Keeper := ExceptT SdkError (StateT AccountStore (Except Panic))

def liftPanic {α : Type} (x : Except Panic α) : Keeper α := ExceptT.lift (StateT.lift x)

def getAccount (addr : Address) : Keeper (Option Account) := do
  return (← get).getAccount addr

def setAccount (acc : Account) : Keeper Unit := modify fun s => s.setAccount acc

/-- `NewAccountWithAddress`: a `ProtoBaseAccount` with the address and the next account
number. -/
def newAccountWithAddress (addr : Address) : Keeper Account := do
  let s ← get
  set { s with globalAccountNumber := s.globalAccountNumber + 1 }
  return .base { address := addr, accountNumber := s.globalAccountNumber, sequence := 0 }

/-- `GetCoins`. -/
def getCoins (addr : Address) : Keeper Coins := do
  match ← getAccount addr with
  | none => return []
  | some acc => return acc.getCoins

/-- `SetCoins`: creates the account if it is absent; `SetCoins` of an account cannot fail. -/
def setCoins (addr : Address) (amt : Coins) : Keeper Unit := do
  if !amt.isValid then throw (errInvalidCoins amt.toString)
  let acc ← match ← getAccount addr with
    | some acc => pure acc
    | none => newAccountWithAddress addr
  setAccount (acc.setCoins amt)

/-- `SubtractCoins`: checks the spendable coins at the block time, then subtracts from the
coins. -/
def subtractCoins (blockTime : Int64) (addr : Address) (amt : Coins) : Keeper Coins := do
  if !amt.isValid then throw (errInvalidCoins amt.toString)
  let (oldCoins, spendableCoins) ← match ← getAccount addr with
    | some acc => do pure (acc.getCoins, ← liftPanic (acc.spendableCoins blockTime))
    | none => pure ([], [])
  let (_, hasNeg) ← liftPanic (spendableCoins.safeSub amt)
  if hasNeg then
    throw (errInsufficientCoins ("insufficient account funds; " ++ spendableCoins.toString ++ " < " ++ amt.toString))
  let newCoins ← liftPanic (oldCoins.sub amt)
  setCoins addr newCoins
  return newCoins

/-- `AddCoins`. -/
def addCoins (addr : Address) (amt : Coins) : Keeper Coins := do
  if !amt.isValid then throw (errInvalidCoins amt.toString)
  let oldCoins ← getCoins addr
  let newCoins ← liftPanic (oldCoins.add amt)
  if newCoins.isAnyNegative then
    throw (errInsufficientCoins ("insufficient account funds; " ++ oldCoins.toString ++ " < " ++ amt.toString))
  setCoins addr newCoins
  return newCoins

/-- `SendCoins`. -/
def sendCoins (blockTime : Int64) (fromAddr toAddr : Address) (amt : Coins) : Keeper Unit := do
  let _ ← subtractCoins blockTime fromAddr amt
  let _ ← addCoins toAddr amt

/-- `trackDelegation` of the keeper: a vesting account tracks the delegation at the block time;
the coins of any other account lose the amount, and `Sub` panics where they do not cover it.
`SetCoins` of an account returns no error, so neither does this. -/
def trackDelegation (acc : Account) (blockTime : Int64) (amt : Coins) : Except Panic Account :=
  match acc with
  | .continuousVesting cva => return .continuousVesting (← cva.trackDelegation blockTime amt)
  | .delayedVesting dva => return .delayedVesting (← dva.trackDelegation blockTime amt)
  | acc => return acc.setCoins (← acc.getCoins.sub amt)

/-- `trackUndelegation` of the keeper: a vesting account tracks the undelegation; the coins of any
other account gain the amount. -/
def trackUndelegation (acc : Account) (amt : Coins) : Except Panic Account :=
  match acc with
  | .continuousVesting cva =>
    return .continuousVesting { cva with toBaseVestingAccount := ← cva.toBaseVestingAccount.trackUndelegation amt }
  | .delayedVesting dva =>
    return .delayedVesting { toBaseVestingAccount := ← dva.toBaseVestingAccount.trackUndelegation amt }
  | acc => return acc.setCoins (← acc.getCoins.add amt)

/-- `DelegateCoins`, with `accAddressString` the bech32 text of an address. The delegator's
account is checked against its coins, not its spendable coins, and written before the module
account is credited. -/
def delegateCoins (accAddressString : Address → String) (blockTime : Int64) (delegatorAddr moduleAccAddr : Address)
    (amt : Coins) : Keeper Unit := do
  let some delegatorAcc ← getAccount delegatorAddr
    | throw (errUnknownAddress ("account " ++ accAddressString delegatorAddr ++ " does not exist"))
  let some _ ← getAccount moduleAccAddr
    | throw (errUnknownAddress ("module account " ++ accAddressString moduleAccAddr ++ " does not exist"))
  if !amt.isValid then throw (errInvalidCoins amt.toString)
  let oldCoins := delegatorAcc.getCoins
  let (_, hasNeg) ← liftPanic (oldCoins.safeSub amt)
  if hasNeg then
    throw (errInsufficientCoins ("insufficient account funds; " ++ oldCoins.toString ++ " < " ++ amt.toString))
  let delegatorAcc ← liftPanic (trackDelegation delegatorAcc blockTime amt)
  setAccount delegatorAcc
  let _ ← addCoins moduleAccAddr amt

/-- `UndelegateCoins`. The delegator's account is read before the module account's coins are
written, and written back after them. -/
def undelegateCoins (accAddressString : Address → String) (moduleAccAddr delegatorAddr : Address) (amt : Coins) :
    Keeper Unit := do
  let some delegatorAcc ← getAccount delegatorAddr
    | throw (errUnknownAddress ("account " ++ accAddressString delegatorAddr ++ " does not exist"))
  let some moduleAcc ← getAccount moduleAccAddr
    | throw (errUnknownAddress ("module account " ++ accAddressString moduleAccAddr ++ " does not exist"))
  if !amt.isValid then throw (errInvalidCoins amt.toString)
  let oldCoins := moduleAcc.getCoins
  let (newCoins, hasNeg) ← liftPanic (oldCoins.safeSub amt)
  if hasNeg then
    throw (errInsufficientCoins ("insufficient account funds; " ++ oldCoins.toString ++ " < " ++ amt.toString))
  setCoins moduleAccAddr newCoins
  let delegatorAcc ← liftPanic (trackUndelegation delegatorAcc amt)
  setAccount delegatorAcc

/-- `types.Input` and `types.Output`. -/
structure Input where
  address : Address
  coins : Coins
  deriving DecidableEq, Repr

abbrev Output := Input

/-- `DefaultCodespace` of the bank module. -/
def defaultCodespace : String := "bank"

def codeInvalidInputsOutputs : CodeType := 102

def errInputOutputMismatch : SdkError :=
  { codespace := defaultCodespace, code := codeInvalidInputsOutputs, message := "sum inputs != sum outputs" }

/-- `ValidateBasic` of an input or an output; the text of an empty address is empty.
`TraceSDK` leaves the error's code and message as they are. -/
def Input.validateBasic (input : Input) : Except SdkError Unit := do
  if input.address.length = 0 then throw (errInvalidAddress "")
  if !input.coins.isValid then throw (errInvalidCoins input.coins.toString)
  if !input.coins.isAllPositive then throw (errInvalidCoins input.coins.toString)

/-- The loop of `ValidateInputsOutputs` over the inputs, or the outputs: each one validated, then
added to the total, the first error returned as it comes. -/
def sumValidated (total : Coins) : List Input → Except Panic (Except SdkError Coins)
  | [] => pure (.ok total)
  | input :: inputs =>
    match input.validateBasic with
    | .error err => pure (.error err)
    | .ok () => do sumValidated (← total.add input.coins) inputs

/-- `ValidateInputsOutputs`: each input and output valid, and the sums equal. -/
def validateInputsOutputs (inputs : List Input) (outputs : List Output) : Except Panic (Except SdkError Unit) := do
  match ← sumValidated [] inputs with
  | .error err => return .error err
  | .ok totalIn =>
    match ← sumValidated [] outputs with
    | .error err => return .error err
    | .ok totalOut =>
      if !(← Coins.isEqual totalIn totalOut) then return .error errInputOutputMismatch
      return .ok ()

/-- `InputOutputCoins`: every input subtracted, then every output added, the first error
returned as it comes. -/
def inputOutputCoins (blockTime : Int64) (inputs : List Input) (outputs : List Output) : Keeper Unit := do
  match ← liftPanic (validateInputsOutputs inputs outputs) with
  | .error err => throw err
  | .ok () =>
    inputs.forM fun input => do let _ ← subtractCoins blockTime input.address input.coins
    outputs.forM fun output => do let _ ← addCoins output.address output.coins

/-! ## The store after a write -/

namespace AccountStore

/-- The coins that `GetCoins` returns. -/
def coinsOf (s : AccountStore) (addr : Address) : Coins :=
  match s.getAccount addr with
  | none => []
  | some acc => acc.getCoins

/-- The coins that `SubtractCoins` may spend: none for an absent account. -/
def spendableOf (s : AccountStore) (addr : Address) (blockTime : Int64) : Except Panic Coins :=
  match s.getAccount addr with
  | none => pure []
  | some acc => acc.spendableCoins blockTime

/-- What `SetCoins` of valid coins writes. -/
def setCoins (s : AccountStore) (addr : Address) (amt : Coins) : AccountStore :=
  match s.getAccount addr with
  | some acc => s.setAccount (acc.setCoins amt)
  | none => { s with globalAccountNumber := s.globalAccountNumber + 1 }.setAccount
      (.base { address := addr, accountNumber := s.globalAccountNumber, sequence := 0, coins := amt })

/-- All accounts' coins of one denomination. -/
def totalAt (s : AccountStore) (denom : String) : Int := (s.accounts.map fun p => Coins.amountAt p.2.getCoins denom).sum

/-- Every account holds a valid set whose every denomination matches `reDnm`. -/
def Sound (s : AccountStore) : Prop := ∀ p ∈ s.accounts, Coins.Sound p.2.getCoins

variable {s : AccountStore} {addr addr' : Address} {acc : Account} {amt : Coins}

theorem sound_single {n : Nat} (h : Coins.Sound acc.getCoins) : (single acc n).Sound := by
  intro p hp
  simp only [single, List.mem_singleton] at hp
  subst hp
  exact h

theorem getAccount_setAccount (s : AccountStore) (acc : Account) (addr : Address) :
    (s.setAccount acc).getAccount addr = if addr == acc.getAddress then some acc else s.getAccount addr :=
  SortedKV.lookup_setEntry _ _ _ _

theorem getAddress_of_getAccount (h : s.getAccount addr = some acc) : acc.getAddress = addr :=
  s.keyed (addr, acc) (SortedKV.mem_of_lookup_eq_some h)

theorem setCoins_eq_setAccount (s : AccountStore) (addr : Address) (amt : Coins) :
    ∃ acc : Account, acc.getAddress = addr ∧ acc.getCoins = amt ∧
      (s.setCoins addr amt).accounts = SortedKV.setEntry compare addr acc s.accounts := by
  unfold setCoins
  cases h : s.getAccount addr with
  | none => exact ⟨_, rfl, rfl, rfl⟩
  | some acc =>
    refine ⟨acc.setCoins amt, by rw [Account.getAddress_setCoins, getAddress_of_getAccount h], by simp, ?_⟩
    show SortedKV.setEntry compare (acc.setCoins amt).getAddress _ _ = _
    rw [Account.getAddress_setCoins, getAddress_of_getAccount h]

theorem coinsOf_setCoins (s : AccountStore) (addr addr' : Address) (amt : Coins) :
    (s.setCoins addr amt).coinsOf addr' = if addr' = addr then amt else s.coinsOf addr' := by
  obtain ⟨acc, -, hcoins, hset⟩ := setCoins_eq_setAccount s addr amt
  unfold coinsOf getAccount
  rw [hset, SortedKV.lookup_setEntry]
  by_cases h : addr' = addr
  · simp [h, hcoins]
  · simp [h]

theorem getAccount_setCoins_isSome (s : AccountStore) (addr : Address) (amt : Coins) :
    ((s.setCoins addr amt).getAccount addr).isSome := by
  obtain ⟨acc, -, -, hset⟩ := setCoins_eq_setAccount s addr amt
  unfold getAccount
  rw [hset, SortedKV.lookup_setEntry]
  simp

/-- A write changes the total of a denomination by the new coins less the old. -/
theorem totalAt_setCoins (s : AccountStore) (addr : Address) (amt : Coins) (denom : String) :
    (s.setCoins addr amt).totalAt denom = s.totalAt denom - Coins.amountAt (s.coinsOf addr) denom + Coins.amountAt amt denom := by
  obtain ⟨acc, -, hcoins, hset⟩ := setCoins_eq_setAccount s addr amt
  have hsum := SortedKV.sum_setEntry (fun acc : Account => Coins.amountAt acc.getCoins denom) addr acc s.ascending
  have hold : ((s.accounts.lookup addr).map fun acc : Account => Coins.amountAt acc.getCoins denom).getD 0 =
      Coins.amountAt (s.coinsOf addr) denom := by
    unfold coinsOf getAccount
    cases s.accounts.lookup addr <;> rfl
  unfold totalAt
  rw [hset]
  rw [hold, hcoins] at hsum
  omega

theorem Sound.setCoins (hs : s.Sound) (hamt : Coins.Sound amt) : (s.setCoins addr amt).Sound := by
  obtain ⟨acc, -, hcoins, hset⟩ := setCoins_eq_setAccount s addr amt
  intro p hp
  rw [hset] at hp
  rcases SortedKV.mem_setEntry hp with rfl | hp
  · exact hcoins ▸ hamt
  · exact hs p hp

theorem Sound.coinsOf (hs : s.Sound) (addr : Address) : Coins.Sound (s.coinsOf addr) := by
  unfold AccountStore.coinsOf
  cases h : s.getAccount addr with
  | none => exact Coins.sound_nil
  | some acc => exact hs (addr, acc) (SortedKV.mem_of_lookup_eq_some h)

end AccountStore

/-! ## Running a call -/

section Run

variable {α β : Type} {s : AccountStore}

theorem run_bind (x : Keeper α) (f : α → Keeper β) (s : AccountStore) :
    (x >>= f).run.run s = match x.run.run s with
      | .error e => .error e
      | .ok (.error e, s') => .ok (.error e, s')
      | .ok (.ok a, s') => (f a).run.run s' := by
  show (StateT.bind (ExceptT.run x) _).run s = _
  simp only [StateT.run, StateT.bind]
  show Except.bind (x.run s) _ = _
  cases x.run s with
  | error e => rfl
  | ok p =>
    obtain ⟨r, s'⟩ := p
    cases r <;> rfl

theorem run_bind_eq_ok {x : Keeper α} {f : α → Keeper β} {b : β} {s'' : AccountStore}
    (h : (x >>= f).run.run s = .ok (.ok b, s'')) : ∃ a s', x.run.run s = .ok (.ok a, s') ∧ (f a).run.run s' = .ok (.ok b, s'') := by
  rw [run_bind] at h
  cases hx : x.run.run s with
  | error e => rw [hx] at h; cases h
  | ok p =>
    obtain ⟨r, s'⟩ := p
    cases r with
    | error e => rw [hx] at h; cases h
    | ok a => rw [hx] at h; exact ⟨a, s', rfl, h⟩

@[simp] theorem run_pure (a : α) (s : AccountStore) : (pure a : Keeper α).run.run s = .ok (.ok a, s) := rfl

@[simp] theorem run_throw (e : SdkError) (s : AccountStore) : (throw e : Keeper α).run.run s = .ok (.error e, s) := rfl

@[simp] theorem run_getAccount (addr : Address) (s : AccountStore) :
    (getAccount addr).run.run s = .ok (.ok (s.getAccount addr), s) := rfl

@[simp] theorem run_setAccount (acc : Account) (s : AccountStore) :
    (setAccount acc).run.run s = .ok (.ok (), s.setAccount acc) := rfl

@[simp] theorem run_liftPanic_ok (a : α) (s : AccountStore) :
    (liftPanic (.ok a : Except Panic α)).run.run s = .ok (.ok a, s) := rfl

@[simp] theorem run_liftPanic_error (e : Panic) (s : AccountStore) :
    (liftPanic (.error e : Except Panic α)).run.run s = .error e := rfl

theorem run_getCoins (addr : Address) (s : AccountStore) : (getCoins addr).run.run s = .ok (.ok (s.coinsOf addr), s) := by
  unfold getCoins AccountStore.coinsOf
  cases h : s.getAccount addr <;> simp [h]

@[simp] theorem run_newAccountWithAddress (addr : Address) (s : AccountStore) :
    (newAccountWithAddress addr).run.run s =
      .ok (.ok (.base { address := addr, accountNumber := s.globalAccountNumber, sequence := 0 }),
        { s with globalAccountNumber := s.globalAccountNumber + 1 }) := rfl

theorem run_setCoins {addr : Address} {amt : Coins} (h : amt.isValid = true) :
    (setCoins addr amt).run.run s = .ok (.ok (), s.setCoins addr amt) := by
  unfold setCoins AccountStore.setCoins
  cases hacc : s.getAccount addr <;> simp [h, hacc]; rfl

theorem run_setCoins_invalid {addr : Address} {amt : Coins} (h : amt.isValid = false) :
    (setCoins addr amt).run.run s = .ok (.error (errInvalidCoins amt.toString), s) := by
  simp [setCoins, h]

variable {blockTime : Int64} {addr : Address} {amt sp nc : Coins}

theorem run_subtractCoins_invalid (h : amt.isValid = false) :
    (subtractCoins blockTime addr amt).run.run s = .ok (.error (errInvalidCoins amt.toString), s) := by
  simp [subtractCoins, h]

/-- The spendable coins at the block time once the amount is valid, and the check that they
cover it: the account's coins, or none for an absent account. -/
theorem run_subtractCoins_eq {diff : Coins} {hasNeg : Bool} (h : amt.isValid = true)
    (hsp : s.spendableOf addr blockTime = .ok sp) (hsafe : sp.safeSub amt = .ok (diff, hasNeg)) :
    (subtractCoins blockTime addr amt).run.run s =
      if hasNeg then
        .ok (.error (errInsufficientCoins ("insufficient account funds; " ++ sp.toString ++ " < " ++ amt.toString)), s)
      else (do let newCoins ← liftPanic ((s.coinsOf addr).sub amt); setCoins addr newCoins; pure newCoins).run.run s := by
  unfold subtractCoins AccountStore.coinsOf
  unfold AccountStore.spendableOf at hsp
  cases hacc : s.getAccount addr with
  | none =>
    rw [hacc] at hsp
    cases hsp
    cases hasNeg <;> simp [h, hacc, hsafe]
  | some acc =>
    rw [hacc] at hsp
    cases hasNeg <;> simp [h, hacc, hsp, hsafe]

theorem run_subtractCoins {diff : Coins} (h : amt.isValid = true) (hsp : s.spendableOf addr blockTime = .ok sp)
    (hsafe : sp.safeSub amt = .ok (diff, false)) (hsub : (s.coinsOf addr).sub amt = .ok nc) (hnc : nc.isValid = true) :
    (subtractCoins blockTime addr amt).run.run s = .ok (.ok nc, s.setCoins addr nc) := by
  rw [run_subtractCoins_eq h hsp hsafe, if_neg (by simp)]
  simp [hsub, run_setCoins hnc]
  rfl

theorem run_addCoins (h : amt.isValid = true) (hadd : (s.coinsOf addr).add amt = .ok nc)
    (hneg : nc.isAnyNegative = false) (hnc : nc.isValid = true) :
    (addCoins addr amt).run.run s = .ok (.ok nc, s.setCoins addr nc) := by
  simp [addCoins, h, run_getCoins, hadd, hneg, run_setCoins hnc]
  rfl

theorem run_addCoins_panic {e : Panic} (h : amt.isValid = true) (hadd : (s.coinsOf addr).add amt = .error e) :
    (addCoins addr amt).run.run s = .error e := by
  simp [addCoins, h, run_getCoins, hadd]

theorem run_subtractCoins_panic {e : Panic} (h : amt.isValid = true) (hsp : s.spendableOf addr blockTime = .error e) :
    (subtractCoins blockTime addr amt).run.run s = .error e := by
  unfold subtractCoins
  unfold AccountStore.spendableOf at hsp
  cases hacc : s.getAccount addr with
  | none => rw [hacc] at hsp; cases hsp
  | some acc =>
    rw [hacc] at hsp
    simp [h, hacc, hsp]

theorem run_subtractCoins_safeSub_panic {e : Panic} (h : amt.isValid = true)
    (hsp : s.spendableOf addr blockTime = .ok sp) (hsafe : sp.safeSub amt = .error e) :
    (subtractCoins blockTime addr amt).run.run s = .error e := by
  unfold subtractCoins
  unfold AccountStore.spendableOf at hsp
  cases hacc : s.getAccount addr with
  | none =>
    rw [hacc] at hsp
    cases hsp
    simp [h, hacc, hsafe]
  | some acc =>
    rw [hacc] at hsp
    simp [h, hacc, hsp, hsafe]

theorem run_subtractCoins_ok_inv {s' : AccountStore}
    (h : (subtractCoins blockTime addr amt).run.run s = .ok (.ok nc, s')) :
    (s.coinsOf addr).sub amt = .ok nc ∧ s' = s.setCoins addr nc := by
  cases hv : amt.isValid
  · rw [run_subtractCoins_invalid hv] at h
    simp at h
  cases hsp : s.spendableOf addr blockTime with
  | error e =>
    rw [run_subtractCoins_panic hv hsp] at h
    cases h
  | ok sp =>
    cases hsafe : sp.safeSub amt with
    | error e =>
      rw [run_subtractCoins_safeSub_panic hv hsp hsafe] at h
      cases h
    | ok r =>
    obtain ⟨diff, hasNeg⟩ := r
    rw [run_subtractCoins_eq hv hsp hsafe] at h
    split at h
    · simp at h
    cases hsub : (s.coinsOf addr).sub amt with
    | error e => simp [hsub] at h
    | ok diff =>
      cases hdiff : diff.isValid
      · simp [hsub, run_setCoins_invalid hdiff, Except.map] at h
      · simp only [run_bind, hsub, run_liftPanic_ok, run_setCoins hdiff, run_pure, Except.ok.injEq, Prod.mk.injEq] at h
        obtain ⟨rfl, rfl⟩ := h
        exact ⟨rfl, rfl⟩

theorem run_addCoins_ok_inv {s' : AccountStore} (h : (addCoins addr amt).run.run s = .ok (.ok nc, s')) :
    (s.coinsOf addr).add amt = .ok nc ∧ s' = s.setCoins addr nc := by
  cases hv : amt.isValid
  · simp [addCoins, hv] at h
  cases hadd : (s.coinsOf addr).add amt with
  | error e => simp [addCoins, hv, run_getCoins, hadd] at h
  | ok sum =>
  cases hneg : sum.isAnyNegative
  · cases hsum : sum.isValid
    · simp [addCoins, hv, run_getCoins, hadd, hneg, run_setCoins_invalid hsum, Except.map] at h
    · rw [run_addCoins hv hadd hneg hsum] at h
      simp only [Except.ok.injEq, Prod.mk.injEq] at h
      obtain ⟨rfl, rfl⟩ := h
      exact ⟨rfl, rfl⟩
  · simp [addCoins, hv, run_getCoins, hadd, hneg] at h

end Run

end Friday.Bank
