import Friday.App.Env
import Friday.Auth.Keeper
import Friday.Lib.LittleEndian
import Friday.Store.Types

/-! # The execution-layer keeper

`x/executionlayer/keeper.go` and `types/key.go`. The keeper keeps, in the
`contract_hashmap` store, the engine's state after each block under
`GetEEStateKey(height)`, the validators under `GetValidatorKey(operator)`, an index
from consensus address to operator under `GetValidatorByConsAddrKey`, and the
proxy contract hash and protocol version under fixed string keys.
`SetAccountIfNotExists` does not create the account: it queues the address on the
`CandidateBlock`'s `NewAccounts` for `EndBlocker`.

The getters keep Go's behaviour on a missing or undecodable value: the `Unmarshal`
getters ignore the error and return the zero value, the `MustUnmarshal` ones
panic.
-/

namespace Friday.ExecutionLayer

open Friday.Types App LittleEndian

def eeStateKey : List UInt8 := [0x11]
def validatorKey : List UInt8 := [0x21]
def validatorsByConsAddrKey : List UInt8 := [0x22]

/-- `[]byte(GenesisConfigKey)`. -/
def genesisConfigKey : List UInt8 := "genesisconf".toUTF8.data.toList

/-- `[]byte(GenesisAccountKey)`. -/
def genesisAccountKey : List UInt8 := "genesisaccount".toUTF8.data.toList

/-- `[]byte("chainname")`, the key `GetChainName` and `SetChainName` spell out. -/
def chainNameKey : List UInt8 := "chainname".toUTF8.data.toList

/-- `[]byte(ProxyContractHashKey)`. -/
def proxyContractHashKey : List UInt8 := "proxycontractkey".toUTF8.data.toList

/-- `[]byte(ProtoclVersionKey)`. -/
def protoclVersionKey : List UInt8 := "protocolversion".toUTF8.data.toList

/-- `GetEEStateKey`: the prefix, then the eight bytes `binary.Write` emits for the
    `int64` height in little-endian order (two's complement). -/
def getEEStateKey (height : Int64) : List UInt8 := eeStateKey ++ leBytes 8 height.toUInt64.toNat

def getValidatorKey (operatorAddr : Address) : List UInt8 := validatorKey ++ operatorAddr

def getValidatorByConsAddrKey (addr : List UInt8) : List UInt8 := validatorsByConsAddrKey ++ addr

theorem getEEStateKey_inj {h₁ h₂ : Int64} (h : getEEStateKey h₁ = getEEStateKey h₂) : h₁ = h₂ := by
  have hbytes := List.append_cancel_left h
  have hnat := leBytes_inj (UInt64.toNat_lt_size _) (UInt64.toNat_lt_size _) hbytes
  have hbits := congrArg UInt64.toBitVec (UInt64.toNat_inj.mp hnat)
  simp only [Int64.toBitVec_toUInt64] at hbits
  exact Int64.toBitVec_inj.mp hbits

variable (env : Env)

/-- `SetUnitHashMap`: stores at the context's height, and only a 32-byte state. -/
def setUnitHashMap (ctx : Context) (unitHash : UnitHashMap) : Go Bool := do
  if unitHash.eeState.length = 0 ∨ unitHash.eeState.length ≠ 32 then return false
  kvSet ctx .contractHashmap (getEEStateKey ctx.blockHeight) (.unitHashMap unitHash)
  return true

/-- `GetUnitHashMap`. -/
def getUnitHashMap (ctx : Context) (height : Int64) : Go UnitHashMap := do
  match ← kvGet ctx .contractHashmap (getEEStateKey height) with
  | some (.unitHashMap unit) => return unit
  | _ => return { eeState := [] }

/-- `GetGenesisConf`. -/
def getGenesisConf (ctx : Context) : Go GenesisConf := do
  match ← kvGet ctx .contractHashmap genesisConfigKey with
  | some (.genesisConf genesisConf) => return genesisConf
  | _ => return .zero

/-- `SetGenesisConf`. -/
def setGenesisConf (ctx : Context) (genesisConf : GenesisConf) : Go Unit :=
  kvSet ctx .contractHashmap genesisConfigKey (.genesisConf genesisConf)

/-- `GetGenesisAccounts`; `nil` when there are none. -/
def getGenesisAccounts (ctx : Context) : Go (List Account) := do
  match ← kvGet ctx .contractHashmap genesisAccountKey with
  | some (.genesisAccounts genesisAccounts) => return genesisAccounts
  | _ => return []

/-- `SetGenesisAccounts`: a `nil` slice, here the empty list, panics. -/
def setGenesisAccounts (ctx : Context) (accounts : List Account) : Go Unit := do
  if accounts = [] then throw (.other "Nil is not allowed for GenesisAccounts")
  kvSet ctx .contractHashmap genesisAccountKey (.genesisAccounts accounts)

/-- `GetChainName`: `string(chainNameBytes)`, which is `""` for a missing key. A Lean
    string is valid UTF-8, so bytes that are not read as `""`; the key only ever
    holds the bytes of a string. -/
def getChainName (ctx : Context) : Go String := do
  match ← kvGet ctx .contractHashmap chainNameKey with
  | some (.bytes chainNameBytes) => return (String.fromUTF8? ⟨chainNameBytes.toArray⟩).getD ""
  | _ => return ""

/-- `SetChainName`. -/
def setChainName (ctx : Context) (chainName : String) : Go Unit := do
  if chainName = "" then throw (.other "Empty string is not allowed for ChainName")
  kvSet ctx .contractHashmap chainNameKey (.bytes chainName.toUTF8.data.toList)

/-- `GetProtocolVersion`. -/
def getProtocolVersion (ctx : Context) : Go ProtocolVersion := do
  match ← kvGet ctx .contractHashmap protoclVersionKey with
  | some (.protocolVersion protocolVersion) => return protocolVersion
  | _ => return { major := 0, minor := 0, patch := 0 }

/-- `GetProxyContractHash`; `nil` when it was never set. -/
def getProxyContractHash (ctx : Context) : Go (Option (List UInt8)) := do
  match ← kvGet ctx .contractHashmap proxyContractHashKey with
  | some (.bytes proxyContractHash) => return some proxyContractHash
  | _ => return none

/-- `SetProxyContractHash`. -/
def setProxyContractHash (ctx : Context) (contractHash : List UInt8) : Go Unit :=
  kvSet ctx .contractHashmap proxyContractHashKey (.bytes contractHash)

/-- `SetProtocolVersion`. -/
def setProtocolVersion (ctx : Context) (protocolVersion : ProtocolVersion) : Go Unit :=
  kvSet ctx .contractHashmap protoclVersionKey (.protocolVersion protocolVersion)

/-- `SetAccountIfNotExists`: a missing account is queued for `EndBlocker`. -/
def setAccountIfNotExists (ctx : Context) (addr : Address) : Go Unit := do
  if (← Auth.getAccount ctx addr).isNone then
    Go.callE (.newAccountsPut ctx.root (env.accAddressString addr)) rfl

/-- `GetValidator`. -/
def getValidator (ctx : Context) (accAddress : Address) : Go (Validator × Bool) := do
  match ← kvGet ctx .contractHashmap (getValidatorKey accAddress) with
  | none => return (.zero, false)
  | some (.validator validator) => return (validator, true)
  | some _ => throw Auth.decodePanic

/-- `SetValidator`. -/
def setValidator (ctx : Context) (accAddress : Address) (validator : Validator) : Go Unit :=
  kvSet ctx .contractHashmap (getValidatorKey accAddress) (.validator validator)

/-- `GetValidatorByConsAddr`: the index gives the operator, whose validator is read. -/
def getValidatorByConsAddr (ctx : Context) (consAddr : List UInt8) : Go (Validator × Bool) := do
  match ← kvGet ctx .contractHashmap (getValidatorByConsAddrKey consAddr) with
  | some (.bytes opAddr) => getValidator ctx opAddr
  | _ => return (.zero, false)

/-- `SetValidatorByConsAddr`. -/
def setValidatorByConsAddr (ctx : Context) (validator : Validator) : Go Unit :=
  kvSet ctx .contractHashmap (getValidatorByConsAddrKey (env.pubKeyAddress validator.consPubKey))
    (.bytes validator.operatorAddress)

/-- `GetAllValidators`, over the state's own store (the only store it is called
    on in the modelled code): a prefix iterator over `ValidatorKey`. -/
def getAllValidators (root : Root) : Go (List Validator) := do
  let entries ← Go.call (.iterator root .contractHashmap (some validatorKey)
    (Store.prefixEndBytes validatorKey))
  entries.mapM fun entry =>
    match entry.2 with
    | .validator validator => pure validator
    | _ => throw Auth.decodePanic

end Friday.ExecutionLayer
