import Friday.App.Runtime

/-! # The account keeper

`x/auth/keeper.go` and `x/auth/types/keys.go`. Accounts live in the `acc` store
under `AddressStoreKey(addr)`; the next account number lives under
`GlobalAccountNumberKey`. `GetNextAccountNumber` reads the counter and writes it
back incremented, through whatever multistore the context holds.
-/

namespace Friday.Auth

open Friday.Types App

/-- `AddressStoreKeyPrefix`. -/
def addressStoreKeyPrefix : List UInt8 := [0x01]

/-- `AddressStoreKey`. -/
def addressStoreKey (addr : Address) : List UInt8 := addressStoreKeyPrefix ++ addr

/-- `GlobalAccountNumberKey`: `[]byte("globalAccountNumber")`. -/
def globalAccountNumberKey : List UInt8 := "globalAccountNumber".toUTF8.data.toList

/-- The panic of a value the codec cannot decode. -/
def decodePanic : Panic := .other "amino: cannot decode"

/-- `ProtoBaseAccount()`. -/
def protoBaseAccount : BaseAccount := { address := [], accountNumber := 0, sequence := 0 }

/-- `GetAccount`. -/
def getAccount (ctx : Context) (addr : Address) : Go (Option BaseAccount) := do
  match ← kvGet ctx .acc (addressStoreKey addr) with
  | none => return none
  | some (.account acc) => return some acc
  | some _ => throw decodePanic

/-- `SetAccount`. -/
def setAccount (ctx : Context) (acc : BaseAccount) : Go Unit :=
  kvSet ctx .acc (addressStoreKey acc.address) (.account acc)

/-- `GetNextAccountNumber`: returns the counter and increments it. -/
def getNextAccountNumber (ctx : Context) : Go Nat := do
  let accNumber ← match ← kvGet ctx .acc globalAccountNumberKey with
    | none => pure 0
    | some (.accountNumber n) => pure n
    | some _ => throw decodePanic
  kvSet ctx .acc globalAccountNumberKey (.accountNumber (accNumber + 1))
  return accNumber

/-- `NewAccountWithAddress`; `SetAddress` on a fresh prototype cannot fail. -/
def newAccountWithAddress (ctx : Context) (addr : Address) : Go BaseAccount := do
  let accNumber ← getNextAccountNumber ctx
  return { protoBaseAccount with address := addr, accountNumber := accNumber }

end Friday.Auth
