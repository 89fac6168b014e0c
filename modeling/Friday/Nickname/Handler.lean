import Friday.App.Env
import Friday.Auth.Keeper
import Friday.Nickname.Name

/-! # The nickname module

`x/nickname`: a readable name bound to an account address, in the `nickname`
store under the name's bytes. `ChangeKey` rebinds a name and creates the new
address's account at once, through the context's multistore, with a fresh
account number. Both handlers do their work under the message lock of `runMsgs`
and end with `processDone`, the `WaitGroup.Done` that the execution layer's
handlers leave to `execute`; a simulated message does nothing at all.
-/

namespace Friday.Nickname

open Friday.Types App

/-- `ModuleName`, also its `RouterKey` and `StoreKey`. -/
def moduleName : String := "nickname"

structure MsgSetNickname where
  nickname : Name
  address : Address
  deriving DecidableEq, Repr

structure MsgChangeKey where
  nickname : String
  oldAddress : Address
  newAddress : Address
  deriving DecidableEq, Repr

/-- The messages `NewHandler` switches on. -/
inductive Msg
  | setNickname (msg : MsgSetNickname)
  | changeKey (msg : MsgChangeKey)
  deriving DecidableEq, Repr

/-- `UnitAccount{}`. -/
def UnitAccount.zero : UnitAccount := { nickname := { h := 0, l := 0 }, address := [] }

/-- `[]byte(name)`. -/
def nameKey (name : String) : List UInt8 := name.toUTF8.data.toList

variable (env : Env)

/-- `ValidateBasic`. -/
def Msg.validateBasic : Msg → Option SdkError
  | .setNickname msg =>
      if env.accAddressString msg.address = "" then some (errUnknownRequest "Address cannot be empty")
      else if newName env.unicodeToLower "" = .ok msg.nickname then some (errUnknownRequest "ID cannot be empty")
      else none
  | .changeKey msg =>
      if msg.oldAddress.length = 0 ∨ msg.newAddress.length = 0 then
        some (errUnknownRequest "Address cannot be empty")
      else if msg.nickname.isEmpty then some (errUnknownRequest "ID cannot be empty")
      else none

/-- `GetUnitAccount`: `Has`, then `Get`. -/
def getUnitAccount (ctx : Context) (name : String) : Go UnitAccount := do
  if (← kvGet ctx .nickname (nameKey name)).isNone then return .zero
  match ← kvGet ctx .nickname (nameKey name) with
  | some (.unitAccount acc) => return acc
  | _ => throw Auth.decodePanic

/-- `SetNickname`: `false` when the name is taken. -/
def setNickname (ctx : Context) (name : String) (address : Address) : Go Bool := do
  let acc ← getUnitAccount ctx name
  if (← liftExcept acc.nickname.mustToString) ≠ "" then return false
  let nickname ← liftExcept (newName env.unicodeToLower name)
  kvSet ctx .nickname (nameKey name) (.unitAccount { nickname, address })
  return true

/-- `SetAccountIfNotExists`: unlike the execution layer's, it creates the account
    here, with the next account number. -/
def setAccountIfNotExists (ctx : Context) (addr : Address) : Go Unit := do
  if (← Auth.getAccount ctx addr).isNone then
    let acc ← Auth.newAccountWithAddress ctx addr
    Auth.setAccount ctx acc

/-- `ChangeKey`: `false` unless the name is bound to `oldAddr`. -/
def changeKey (ctx : Context) (name : String) (oldAddr newAddr : Address) : Go Bool := do
  let acc ← getUnitAccount ctx name
  if env.accAddressString acc.address ≠ env.accAddressString oldAddr then return false
  setAccountIfNotExists ctx newAddr
  let nickname ← liftExcept (newName env.unicodeToLower name)
  kvSet ctx .nickname (nameKey name) (.unitAccount { nickname, address := newAddr })
  return true

/-- `getResult`, without the events it attaches. -/
def getResult (ok : Bool) : Result :=
  { code := if ok then codeOK else codeUnknownRequest, codespace := "", log := "" }

/-- `processDone`. -/
def processDone (ctx : Context) (simulate : Bool) : Go Unit := do
  if !simulate then waitGroupDone ctx

def handleMsgSetAccount (ctx : Context) (msg : MsgSetNickname) (simulate : Bool) : Go Result := do
  let res ← setNickname env ctx (← liftExcept msg.nickname.mustToString) msg.address
  processDone ctx simulate
  return getResult res

def handleMsgChangeKey (ctx : Context) (msg : MsgChangeKey) (simulate : Bool) : Go Result := do
  let res ← changeKey env ctx msg.nickname msg.oldAddress msg.newAddress
  processDone ctx simulate
  return getResult res

/-- `NewHandler`. The `default` branch of its type switch has no counterpart: `Msg`
    has no other constructor. -/
def newHandler (ctx : Context) (msg : Msg) (simulate : Bool) : Go Result :=
  if simulate then pure .zero
  else
    match msg with
    | .setNickname msg => handleMsgSetAccount env ctx msg simulate
    | .changeKey msg => handleMsgChangeKey env ctx msg simulate

end Friday.Nickname
