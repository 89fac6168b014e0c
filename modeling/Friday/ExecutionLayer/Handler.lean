import Friday.ExecutionLayer.Bech32Args
import Friday.ExecutionLayer.Keeper

/-! # The execution-layer handlers

`x/executionlayer/handler.go`. Every handler ends in `execute`, which builds the
message's deploy. A simulated deploy runs at once against the engine. A delivered
one is put on the `CandidateBlock`'s deploy queue, the block's wait group is told
this message is done, and the handler waits for the log that `EndBlocker` sends
once the whole block has run. So a delivered handler reads the store before the
block ends and writes it after.

Seven handlers do nothing but run one deploy of the proxy contract with their own
session arguments (`executeProxy`); the Go code drops the error of encoding those
arguments, calling `getResult` and discarding its value. `Transfer`, `Claim`,
`CreateValidator`, `EditValidator` and `Execute` do more and keep their own
bodies.
-/

namespace Friday.ExecutionLayer

open Friday.Types App

variable (env : Env)

/-! ## Stateless checks -/

/-- The check most `ValidateBasic`s make. -/
def validateFromAddress (addr : Address) : Option SdkError :=
  if addr = [] then some (errUnknownRequest "Address cannot be empty") else none

/-- The target of a vote, decoded by its prefix. -/
def voteTarget (target : String) : Except SdkError CLKey :=
  if target.startsWith bech32PrefixContractURef then
    match contractUrefAddressFromBech32 env.decodeAndConvert target with
    | .ok addr => .ok (.uref addr)
    | .error err => .error (errUnknownAddress err.error)
  else if target.startsWith bech32PrefixContractHash then
    match contractHashAddressFromBech32 env.decodeAndConvert target with
    | .ok addr => .ok (.hash addr)
    | .error err => .error (errUnknownAddress err.error)
  else .error (errUnknownAddress (errUnknownRequest "Contract address is not valid").error)

/-- `ValidateBasic` of `MsgVote` and `MsgUnvote`. -/
def validateVote (msg : MsgVote) : Option SdkError :=
  (validateFromAddress msg.fromAddress).or <|
    match voteTarget env msg.targetContractAddress with
    | .error err => some err
    | .ok (.uref addr) | .ok (.hash addr) =>
        if addr.length ≠ 32 then some (errUnknownRequest "Hash must be 32 bytes") else none

/-- `ValidateBasic`. -/
def Msg.validateBasic : Msg → Option SdkError
  | .execute msg => validateFromAddress msg.execAddress
  | .transfer msg => (validateFromAddress msg.fromAddress).or (validateFromAddress msg.toAddress)
  | .createValidator msg =>
      if msg.validatorAddress = [] then some errNilValidatorAddr
      else if msg.description = .zero then
        some { codespace := defaultCodespace, code := codeInvalidInput,
               message := "description must be included" }
      else none
  | .editValidator msg =>
      if msg.validatorAddress = [] then
        some { codespace := defaultCodespace, code := codeInvalidInput, message := "nil validator address" }
      else if msg.description = .zero then
        some { codespace := defaultCodespace, code := codeInvalidInput,
               message := "transaction must include some information to modify" }
      else none
  | .bond msg | .unBond msg => validateFromAddress msg.fromAddress
  | .delegate msg | .undelegate msg => validateFromAddress msg.fromAddress
  | .redelegate msg => validateFromAddress msg.fromAddress
  | .vote msg | .unvote msg => validateVote env msg
  | .claim msg => validateFromAddress msg.fromAddress

/-! ## `execute` -/

/-- `getResult`. -/
def getResult (ok : Bool) (log : String) : Result :=
  { code := if ok then codeOK else codeUnknownRequest, codespace := "", log }

/-- The payment arguments of `execute`; `getPayAmountSessionArgsStr` encodes the
    same two arguments. -/
def paymentArgs (amount : String) : List DeployArg :=
  [.mk' .string (.strValue paymentMethodName), .mk' .u512 (.u512 amount)]

/-- The error `execute` and `EndBlocker` make of a deploy's result. -/
def deployResultError (res : DeployResult) : Option SdkError :=
  match res.error with
  | some .gasError => some errGRpcExecuteDeployGasError
  | some (.execError message) => some (errGRpcExecuteDeployExecError message)
  | _ => none

/-- What `execute` makes of the engine's answer to a simulated deploy. The log of a
    deploy error is `fmt.Sprintf(log, err.Error())` with `log` still empty. -/
def simulateResult (response : Except String ExecuteResponse) : Except Panic (Bool × String) :=
  match response with
  | .error err => .ok (false, err)
  | .ok (.success []) => .error (.indexOutOfRange 0 0)
  | .ok (.success (res :: _)) =>
      let log := match deployResultError res with
        | some err => sprintfExtra "" err.error
        | none => ""
      .ok (log == "", log)
  | .ok (.missingParent hash) =>
      let log := (errGRpcExecuteMissingParent (env.encodeToHexString hash)).error
      .ok (log == "", log)
  | .ok (.unknown text) =>
      let log := "Unknown result : " ++ text
      .ok (log == "", log)

/-- `execute`. -/
def execute (ctx : Context) (msg : MsgExecute) (simulate : Bool) (txIndex msgIndex : Nat) :
    Go (Bool × String) := do
  let proxyContractHash ← getProxyContractHash ctx
  let (stateHash, protocolVersion) ← if simulate then do
      let unitHash ← getUnitHashMap ctx ctx.blockHeight
      let protocolVersion ← getProtocolVersion ctx
      pure (unitHash.eeState, protocolVersion)
    else do
      let block ← candidateBlock ctx
      -- `*ctx.CandidateBlock().ProtocolVersion`
      match block.protocolVersion with
      | some protocolVersion => pure (block.state, protocolVersion)
      | none => throw .nilDereference
  match env.abiDeployArgsToBytes (paymentArgs msg.fee) with
  | .error err => return (false, err)
  | .ok paymentAbi =>
  match Hex.decodeString msg.sessionArgs with
  | .error err => return (false, err.error)
  | .ok sessionAbi =>
  let deploy : DeployItem :=
    { address := msg.execAddress, sessionType := msg.sessionType, sessionCode := msg.sessionCode,
      sessionArgs := sessionAbi, paymentCode := proxyContractHash.getD [], paymentArgs := paymentAbi,
      deployHash := env.blake2b256 (env.msgExecuteSignBytes msg) }
  if simulate then
    liftExcept <| simulateResult env <| env.execute
      { parentStateHash := stateHash, blockTime := ctx.uBlockTime, deploys := [deploy],
        protocolVersion := some protocolVersion }
  else
    Go.callE (.deployPut ctx.root { txIndex, msgIndex, deploy }) rfl
    waitGroupDone ctx
    let log : String ← Go.call (.logRecv txIndex msgIndex)
    return (log == "", log)

/-! ## Handlers -/

/-- A handler that runs one deploy of the proxy contract with the given session
    arguments; `nil` bytes stand for arguments that failed to encode. -/
def executeProxy (ctx : Context) (contractAddress : String) (fromAddress : Address) (fee : String)
    (sessionArgs : List DeployArg) (simulate : Bool) (txIndex msgIndex : Nat) : Go Result := do
  let proxyContractHash ← getProxyContractHash ctx
  let sessionAbi := (env.abiDeployArgsToBytes sessionArgs).toOption.getD []
  let msgExecute := newMsgExecute contractAddress fromAddress .hash (proxyContractHash.getD [])
    (Hex.encodeToString sessionAbi) fee
  let (result, log) ← execute env ctx msgExecute simulate txIndex msgIndex
  return getResult result log

def handlerMsgBond (ctx : Context) (msg : MsgBond) (simulate : Bool) (txIndex msgIndex : Nat) :
    Go Result :=
  executeProxy env ctx msg.contractAddress msg.fromAddress msg.fee
    [.mk' .string (.strValue bondMethodName), .mk' .u512 (.u512 msg.amount)] simulate txIndex msgIndex

def handlerMsgUnBond (ctx : Context) (msg : MsgBond) (simulate : Bool) (txIndex msgIndex : Nat) :
    Go Result :=
  executeProxy env ctx msg.contractAddress msg.fromAddress msg.fee
    [{ name := "method", clType := .string, value := .strValue unbondMethodName },
     { name := "amount", clType := .optionU512, value := .optionU512 msg.amount }]
    simulate txIndex msgIndex

def handlerMsgDelegate (ctx : Context) (msg : MsgDelegate) (simulate : Bool) (txIndex msgIndex : Nat) :
    Go Result :=
  executeProxy env ctx msg.contractAddress msg.fromAddress msg.fee
    [.mk' .string (.strValue delegateMethodName), .mk' .listU8 (.bytesValue msg.valAddress),
     .mk' .u512 (.u512 msg.amount)]
    simulate txIndex msgIndex

def handlerMsgUndelgate (ctx : Context) (msg : MsgDelegate) (simulate : Bool) (txIndex msgIndex : Nat) :
    Go Result :=
  executeProxy env ctx msg.contractAddress msg.fromAddress msg.fee
    [.mk' .string (.strValue undelegateMethodName), .mk' .listU8 (.bytesValue msg.valAddress),
     .mk' .optionU512 (.optionU512 msg.amount)]
    simulate txIndex msgIndex

/-- The amount is declared `U512` and given as an option value, as the source has it. -/
def handlerMsgRedelegate (ctx : Context) (msg : MsgRedelegate) (simulate : Bool)
    (txIndex msgIndex : Nat) : Go Result :=
  executeProxy env ctx msg.contractAddress msg.fromAddress msg.fee
    [.mk' .string (.strValue redelegateMethodName), .mk' .listU8 (.bytesValue msg.srcValAddress),
     .mk' .listU8 (.bytesValue msg.destValAddress), .mk' .u512 (.optionU512 msg.amount)]
    simulate txIndex msgIndex

/-- The session arguments of a vote: none for a target of neither prefix, and the
    `nil` address of a target that fails to decode. -/
def voteSessionArgs (methodName : String) (amount : DeployArg) (target : String) : List DeployArg :=
  if target.startsWith bech32PrefixContractURef then
    [.mk' .string (.strValue methodName),
     .mk' .key (.key (.uref ((contractUrefAddressFromBech32 env.decodeAndConvert target).toOption.getD []))), amount]
  else if target.startsWith bech32PrefixContractHash then
    [.mk' .string (.strValue methodName),
     .mk' .key (.key (.hash ((contractHashAddressFromBech32 env.decodeAndConvert target).toOption.getD []))), amount]
  else []

def handlerMsgVote (ctx : Context) (msg : MsgVote) (simulate : Bool) (txIndex msgIndex : Nat) :
    Go Result :=
  executeProxy env ctx msg.contractAddress msg.fromAddress msg.fee
    (voteSessionArgs env voteMethodName (.mk' .u512 (.u512 msg.amount)) msg.targetContractAddress)
    simulate txIndex msgIndex

def handlerMsgUnvote (ctx : Context) (msg : MsgVote) (simulate : Bool) (txIndex msgIndex : Nat) :
    Go Result :=
  executeProxy env ctx msg.contractAddress msg.fromAddress msg.fee
    (voteSessionArgs env unvoteMethodName (.mk' .optionU512 (.optionU512 msg.amount))
      msg.targetContractAddress)
    simulate txIndex msgIndex

/-- `handlerMsgClaim`: unlike the others it returns on an encoding error. Its
    `default` branch has no counterpart, as the flag is a `bool`. -/
def handlerMsgClaim (ctx : Context) (msg : MsgClaim) (simulate : Bool) (txIndex msgIndex : Nat) :
    Go Result := do
  let proxyContractHash ← getProxyContractHash ctx
  let methodName := if msg.rewardOrCommission then claimRewardMethodName else claimCommissionMethodName
  match env.abiDeployArgsToBytes [.mk' .string (.strValue methodName)] with
  | .error err => return getResult false err
  | .ok sessionAbi =>
  let msgExecute := newMsgExecute msg.contractAddress msg.fromAddress .hash (proxyContractHash.getD [])
    (Hex.encodeToString sessionAbi) msg.fee
  let (result, log) ← execute env ctx msgExecute simulate txIndex msgIndex
  return getResult result log

/-- `handlerMsgTransfer`: the recipient is queued for an account after the deploy
    has run. -/
def handlerMsgTransfer (ctx : Context) (msg : MsgTransfer) (simulate : Bool) (txIndex msgIndex : Nat) :
    Go Result := do
  let proxyContractHash ← getProxyContractHash ctx
  let sessionArgs := [.mk' .string (.strValue transferMethodName), .mk' .listU8 (.bytesValue msg.toAddress),
    .mk' .u512 (.u512 msg.amount)]
  let sessionAbi := (env.abiDeployArgsToBytes sessionArgs).toOption.getD []
  let msgExecute := newMsgExecute msg.contractAddress msg.fromAddress .hash (proxyContractHash.getD [])
    (Hex.encodeToString sessionAbi) msg.fee
  let (result, log) ← execute env ctx msgExecute simulate txIndex msgIndex
  if !simulate && result then setAccountIfNotExists env ctx msg.toAddress
  return getResult result log

/-- `handlerMsgExecute`: the addresses in the session arguments are queued for
    accounts before the deploy, whatever `simulate` is, and again after a delivered
    deploy that succeeds. -/
def handlerMsgExecute (ctx : Context) (msg : MsgExecute) (simulate : Bool) (txIndex msgIndex : Nat) :
    Go Result := do
  match replaceFromBech32ToHex env.decodeAndConvert msg.sessionArgs with
  | (_, _, some err) => return getResult false err.error
  | (replacedSessionArgs, addrList, none) =>
  addrList.forM (setAccountIfNotExists env ctx)
  match env.jsonStringToDeployArgs replacedSessionArgs with
  | .error err => return getResult false err
  | .ok deployArgs =>
  match env.abiDeployArgsToBytes deployArgs with
  | .error err => return getResult false err
  | .ok deployAbi =>
  let (result, log) ← execute env ctx { msg with sessionArgs := env.encodeToHexString deployAbi }
    simulate txIndex msgIndex
  if !simulate && result then addrList.forM (setAccountIfNotExists env ctx)
  return getResult result log

/-- `handlerMsgCreateValidator`: both uniqueness checks read the store before the
    deploy, and the validator is written after it. -/
def handlerMsgCreateValidator (ctx : Context) (msg : MsgCreateValidator) (simulate : Bool)
    (txIndex msgIndex : Nat) : Go Result := do
  let (_, found) ← getValidator ctx msg.validatorAddress
  if found then return errValidatorOwnerExists.result
  let (_, found) ← getValidatorByConsAddr ctx (env.pubKeyAddress msg.consPubKey)
  if found then return errValidatorPubKeyExists.result
  if let .error err := msg.description.ensureLength then return err.result
  if let some params := ctx.consensusParams then
    if msg.consPubKey.keyType ∉ params.pubKeyTypes then
      return (errValidatorPubKeyTypeNotSupported msg.consPubKey.keyType params.pubKeyTypes).result
  let proxyContractHash ← getProxyContractHash ctx
  let validator := newValidator msg.validatorAddress msg.consPubKey msg.description ""
  if let some proxyContractHash := proxyContractHash then
    let sessionAbi := env.abiDeployArgsToBytes (paymentArgs basicPayAmount)
    let msgExecute := newMsgExecute msg.contractAddress msg.validatorAddress .hash proxyContractHash
      (Hex.encodeToString (sessionAbi.toOption.getD [])) msg.fee
    let (result, log) ← execute env ctx msgExecute simulate txIndex msgIndex
    if let .error parseError := sessionAbi then return getResult false parseError
    if log ≠ "" ∨ !result then return getResult false log
  setValidator ctx msg.validatorAddress validator
  setValidatorByConsAddr env ctx validator
  return getResult true ""

/-- `handlerMsgEditValidator`: the deploy runs, with a payment of `0` when the edit
    is refused, before the refusal is reported. -/
def handlerMsgEditValidator (ctx : Context) (msg : MsgEditValidator) (simulate : Bool)
    (txIndex msgIndex : Nat) : Go Result := do
  let proxyContractHash ← getProxyContractHash ctx
  let (validator, found) ← getValidator ctx msg.validatorAddress
  let description := validator.description.updateDescription msg.description
  let paymentAmount := if found ∧ description.isOk then basicPayAmount else "0"
  let sessionAbi := env.abiDeployArgsToBytes (paymentArgs paymentAmount)
  let msgExecute := newMsgExecute msg.contractAddress msg.validatorAddress .hash (proxyContractHash.getD [])
    (Hex.encodeToString (sessionAbi.toOption.getD [])) msg.fee
  let (result, log) ← execute env ctx msgExecute simulate txIndex msgIndex
  if !found then return getResult false "validator does not exist for that address"
  match description with
  | .error err => return getResult false err.error
  | .ok description =>
  if let .error parseError := sessionAbi then return getResult false parseError
  if log ≠ "" ∨ !result then return getResult false log
  setValidator ctx msg.validatorAddress { validator with description }
  return getResult true ""

/-- `NewHandler`. The `default` branch of its type switch has no counterpart: `Msg`
    has no other constructor. -/
def newHandler (ctx : Context) (msg : Msg) (simulate : Bool) (txIndex msgIndex : Nat) : Go Result :=
  match msg with
  | .execute msg => handlerMsgExecute env ctx msg simulate txIndex msgIndex
  | .transfer msg => handlerMsgTransfer env ctx msg simulate txIndex msgIndex
  | .createValidator msg => handlerMsgCreateValidator env ctx msg simulate txIndex msgIndex
  | .editValidator msg => handlerMsgEditValidator env ctx msg simulate txIndex msgIndex
  | .bond msg => handlerMsgBond env ctx msg simulate txIndex msgIndex
  | .unBond msg => handlerMsgUnBond env ctx msg simulate txIndex msgIndex
  | .delegate msg => handlerMsgDelegate env ctx msg simulate txIndex msgIndex
  | .undelegate msg => handlerMsgUndelgate env ctx msg simulate txIndex msgIndex
  | .redelegate msg => handlerMsgRedelegate env ctx msg simulate txIndex msgIndex
  | .vote msg => handlerMsgVote env ctx msg simulate txIndex msgIndex
  | .unvote msg => handlerMsgUnvote env ctx msg simulate txIndex msgIndex
  | .claim msg => handlerMsgClaim env ctx msg simulate txIndex msgIndex

end Friday.ExecutionLayer
