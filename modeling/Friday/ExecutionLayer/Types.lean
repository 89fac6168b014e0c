import Friday.App.Runtime

/-! # Execution-layer messages, errors and engine requests

`x/executionlayer/types`: the twelve messages the module routes (`msgs.go`), the
errors its handlers and `EndBlocker` report (`errors.go`), a validator's
description (`validator.go`), and the requests and responses of the execution
engine's gRPC service, which is not part of the repository.

A message keeps the fields its handler and `ValidateBasic` read. The session and
payment arguments a handler builds for a deploy are `DeployArg`s, the
`consensus.Deploy_Arg`s of the casperlabs protobuf, with the type and the value
each handler writes.
-/

namespace Friday.ExecutionLayer

open Friday.Types App

/-- `DefaultCodespace`. -/
def defaultCodespace : String := "contract"

def codeInvalidValidator : CodeType := 201
def codeInvalidInput : CodeType := 203
def codeGRpcExecuteMissingParent : CodeType := 301
def codeGRpcExecuteDeployGasError : CodeType := 302
def codeGRpcExecuteDeployExecError : CodeType := 303

/-- What `fmt.Sprintf` makes of a format with no verb and one string argument. -/
def sprintfExtra (format arg : String) : String := format ++ "%!(EXTRA string=" ++ arg ++ ")"

def errNilValidatorAddr : SdkError :=
  { codespace := defaultCodespace, code := codeInvalidInput, message := "validator address is nil" }

def errDescriptionLength (descriptor : String) (got max : Nat) : SdkError :=
  { codespace := defaultCodespace, code := codeInvalidValidator,
    message := "bad description length for " ++ descriptor ++ ", got length " ++ toString got ++
      ", max is " ++ toString max }

def errGRpcExecuteMissingParent (hash : String) : SdkError :=
  { codespace := defaultCodespace, code := codeGRpcExecuteMissingParent,
    message := "execution engine - missing parent state " ++ hash }

def errGRpcExecuteDeployGasError : SdkError :=
  { codespace := defaultCodespace, code := codeGRpcExecuteDeployGasError,
    message := "execution engine - deploy error - gas" }

def errGRpcExecuteDeployExecError (msg : String) : SdkError :=
  { codespace := defaultCodespace, code := codeGRpcExecuteDeployExecError,
    message := sprintfExtra "execution engine - deploy error - execute : " msg }

def errValidatorOwnerExists : SdkError :=
  { codespace := defaultCodespace, code := codeInvalidValidator,
    message := "validator already exist for this operator address, must use new validator operator address" }

def errValidatorPubKeyExists : SdkError :=
  { codespace := defaultCodespace, code := codeInvalidValidator,
    message := "validator already exist for this pubkey, must use new validator pubkey" }

def errValidatorPubKeyTypeNotSupported (keyType : String) (supportedTypes : List String) : SdkError :=
  { codespace := defaultCodespace, code := codeInvalidValidator,
    message := "validator pubkey type " ++ keyType ++ " is not supported, must use " ++
      ",".intercalate supportedTypes }

/-! ## Descriptions -/

def maxMonikerLength : Nat := 70
def maxIdentityLength : Nat := 3000
def maxWebsiteLength : Nat := 140
def maxDetailsLength : Nat := 280
def doNotModifyDesc : String := "[do-not-modify]"

/-- `EnsureLength`: the first field over its bound is reported. -/
def Description.ensureLength (d : Description) : Except SdkError Description :=
  if d.moniker.utf8ByteSize > maxMonikerLength then
    .error (errDescriptionLength "moniker" d.moniker.utf8ByteSize maxMonikerLength)
  else if d.identity.utf8ByteSize > maxIdentityLength then
    .error (errDescriptionLength "identity" d.identity.utf8ByteSize maxIdentityLength)
  else if d.website.utf8ByteSize > maxWebsiteLength then
    .error (errDescriptionLength "website" d.website.utf8ByteSize maxWebsiteLength)
  else if d.details.utf8ByteSize > maxDetailsLength then
    .error (errDescriptionLength "details" d.details.utf8ByteSize maxDetailsLength)
  else .ok d

/-- `UpdateDescription`: a field of `[do-not-modify]` keeps the old value. -/
def Description.updateDescription (d d2 : Description) : Except SdkError Description :=
  let keep (new old : String) := if new = doNotModifyDesc then old else new
  Description.ensureLength
    { moniker := keep d2.moniker d.moniker, identity := keep d2.identity d.identity,
      website := keep d2.website d.website, details := keep d2.details d.details }

/-- `Description{}`. -/
def Description.zero : Description := { moniker := "", identity := "", website := "", details := "" }

/-- The zero `Validator`, what `GetValidator` returns for a missing operator. -/
def Validator.zero : Validator :=
  { operatorAddress := [], consPubKey := { keyType := "", bytes := [] }, description := .zero, stake := "" }

/-- `NewValidator`. -/
def newValidator (operator : Address) (pubKey : PubKey) (description : Description) (stake : String) :
    Validator :=
  { operatorAddress := operator, consPubKey := pubKey, description, stake }

/-! ## Deploy arguments -/

/-- `state.CLType`, for the types the handlers use. -/
inductive CLType
  | string
  | u512
  | key
  | listU8
  | optionU512
  deriving DecidableEq, Repr

/-- `state.Key`. -/
inductive CLKey
  | uref (uref : List UInt8)
  | hash (hash : List UInt8)
  deriving DecidableEq, Repr

/-- `state.CLValueInstance_Value`. -/
inductive CLValue
  | strValue (s : String)
  | u512 (value : String)
  | bytesValue (bytes : List UInt8)
  | key (key : CLKey)
  | optionU512 (value : String)
  deriving DecidableEq, Repr

/-- `consensus.Deploy_Arg`. -/
structure DeployArg where
  name : String
  clType : CLType
  value : CLValue
  deriving DecidableEq, Repr

/-- An unnamed argument. -/
def DeployArg.mk' (clType : CLType) (value : CLValue) : DeployArg := { name := "", clType, value }

/-! ## Messages -/

/-- `types.ModuleName`, the route of every message of the module. -/
def moduleName : String := "contract"

def transferMethodName : String := "transfer_to_account"
def paymentMethodName : String := "standard_payment"
def bondMethodName : String := "bond"
def unbondMethodName : String := "unbond"
def delegateMethodName : String := "delegate"
def undelegateMethodName : String := "undelegate"
def redelegateMethodName : String := "redelegate"
def voteMethodName : String := "vote"
def unvoteMethodName : String := "unvote"
def claimRewardMethodName : String := "claim_reward"
def claimCommissionMethodName : String := "claim_commission"

/-- `BASIC_PAY_AMOUNT`. -/
def basicPayAmount : String := "1000000000000000000000"

structure MsgExecute where
  contractAddress : String
  execAddress : Address
  sessionType : ContractType
  sessionCode : List UInt8
  sessionArgs : String
  fee : String
  deriving DecidableEq, Repr

/-- `NewMsgExecute`. -/
def newMsgExecute (contractAddress : String) (execAddress : Address) (sessionType : ContractType)
    (sessionCode : List UInt8) (sessionArgs fee : String) : MsgExecute :=
  { contractAddress, execAddress, sessionType, sessionCode, sessionArgs, fee }

structure MsgTransfer where
  contractAddress : String
  fromAddress : Address
  toAddress : Address
  amount : String
  fee : String
  deriving DecidableEq, Repr

structure MsgCreateValidator where
  contractAddress : String
  validatorAddress : Address
  consPubKey : PubKey
  description : Description
  fee : String
  deriving DecidableEq, Repr

structure MsgEditValidator where
  contractAddress : String
  validatorAddress : Address
  description : Description
  fee : String
  deriving DecidableEq, Repr

/-- `MsgBond` and `MsgUnBond`. -/
structure MsgBond where
  contractAddress : String
  fromAddress : Address
  amount : String
  fee : String
  deriving DecidableEq, Repr

/-- `MsgDelegate` and `MsgUndelegate`. -/
structure MsgDelegate where
  contractAddress : String
  fromAddress : Address
  valAddress : Address
  amount : String
  fee : String
  deriving DecidableEq, Repr

structure MsgRedelegate where
  contractAddress : String
  fromAddress : Address
  srcValAddress : Address
  destValAddress : Address
  amount : String
  fee : String
  deriving DecidableEq, Repr

/-- `MsgVote` and `MsgUnvote`. -/
structure MsgVote where
  contractAddress : String
  fromAddress : Address
  targetContractAddress : String
  amount : String
  fee : String
  deriving DecidableEq, Repr

structure MsgClaim where
  contractAddress : String
  fromAddress : Address
  rewardOrCommission : Bool
  fee : String
  deriving DecidableEq, Repr

/-- The messages `NewHandler` switches on. -/
inductive Msg
  | execute (msg : MsgExecute)
  | transfer (msg : MsgTransfer)
  | createValidator (msg : MsgCreateValidator)
  | editValidator (msg : MsgEditValidator)
  | bond (msg : MsgBond)
  | unBond (msg : MsgBond)
  | delegate (msg : MsgDelegate)
  | undelegate (msg : MsgDelegate)
  | redelegate (msg : MsgRedelegate)
  | vote (msg : MsgVote)
  | unvote (msg : MsgVote)
  | claim (msg : MsgClaim)
  deriving DecidableEq, Repr

/-! ## The execution engine -/

/-- `transforms.TransformEntry`, kept as the engine encodes it. -/
abbrev TransformEntry := List UInt8

/-- `ipc.ExecuteRequest`. -/
structure ExecuteRequest where
  parentStateHash : Hash
  blockTime : Nat
  deploys : List DeployItem
  protocolVersion : Option ProtocolVersion
  deriving DecidableEq, Repr

/-- `ipc.DeployError`, by the cases the code tells apart. -/
inductive DeployError
  | gasError
  | execError (message : String)
  | other
  deriving DecidableEq, Repr

/-- `ipc.DeployResult`: its error, if any, and its effects. -/
structure DeployResult where
  error : Option DeployError
  effects : List TransformEntry
  deriving DecidableEq, Repr

/-- `ipc.ExecuteResponse`. -/
inductive ExecuteResponse
  | success (deployResults : List DeployResult)
  | missingParent (hash : List UInt8)
  /-- Any other result, by its `String()`. -/
  | unknown (text : String)
  deriving DecidableEq, Repr

/-- `ipc.StepRequest`. -/
structure StepRequest where
  parentStateHash : Hash
  blockTime : Nat
  blockHeight : Nat
  protocolVersion : Option ProtocolVersion
  deriving DecidableEq, Repr

/-- `ipc.StepResponse`. -/
inductive StepResponse
  | success (postStateHash : Hash)
  | missingParent (hash : List UInt8)
  | error (message : String)
  | unknown (text : String)
  deriving DecidableEq, Repr

end Friday.ExecutionLayer
