import Friday.ExecutionLayer.Handler
import Friday.Lib.Strconv

/-! # `BeginBlocker` and `EndBlocker` of the execution layer

`x/executionlayer/abci.go`. `BeginBlocker` starts the block's `CandidateBlock`
from the engine state stored for the previous height: fresh queues, and for a
block with transactions a wait group counting one unit per transaction, a turn
counter at `0` and the ante condition. `EndBlocker` waits for the wait group, runs
every queued deploy in one `Execute` call, sends each deploy's log back to the
handler waiting on it, commits the effects, creates the queued accounts, steps the
engine, updates the validators' stakes and stores the state it reached under the
block's height.
-/

namespace Friday.ExecutionLayer

open Friday.Types App

/-- `DECIMAL_POINT_POS`. -/
def decimalPointPos : Nat := 18

/-- The fields `BeginBlocker` writes to the `CandidateBlock`. -/
def CandidateBlock.begin (block : CandidateBlock) (hash : List UInt8) (state : Hash)
    (protocolVersion : ProtocolVersion) (txsCount : Int) : CandidateBlock :=
  let block := { block with hash, state, protocolVersion := some protocolVersion, txsCount,
                            deployPQueue := some [], newAccounts := some [] }
  if txsCount > 0 then
    { block with waitGroup := txsCount, currentTxIndex := 0, anteCond := some { locked := false } }
  else block

/-- `abci.ValidatorUpdate`. -/
structure ValidatorUpdate where
  pubKey : PubKey
  power : Int
  deriving DecidableEq, Repr

variable (env : Env)

def beginBlocker (ctx : Context) (hash : List UInt8) (height numTxs : Int64) : Go Unit := do
  let unitHash ← getUnitHashMap ctx (height - 1)
  let protocolVersion ← getProtocolVersion ctx
  Go.call (.beginCandidateBlock ctx.root hash unitHash.eeState protocolVersion numTxs.toInt)

/-! ## The deploys of the block -/

/-- The logs `EndBlocker` sends after a successful `Execute`, one per deploy result.
    `err` is one variable for the whole loop: a failed deploy sets it, and nothing
    resets it. -/
def successLogs : Option SdkError → List DeployResult → List String
  | _, [] => []
  | err, res :: results =>
      let err := (deployResultError res).or err
      (match err with
        | some err => err.error
        | none => "") :: successLogs err results

/-- The error `err` holds once the loop has seen `results`: the last deploy error, or
    the one it started with. -/
def lastDeployError (err : Option SdkError) (results : List DeployResult) : Option SdkError :=
  results.foldl (fun err res => (deployResultError res).or err) err

@[simp] theorem length_successLogs (err : Option SdkError) (results : List DeployResult) :
    (successLogs err results).length = results.length := by
  induction results generalizing err with
  | nil => rfl
  | cons res results ih => simp [successLogs, ih]

example : successLogs none [{ error := some .gasError, effects := [] }, { error := none, effects := [] }] =
    [errGRpcExecuteDeployGasError.error, errGRpcExecuteDeployGasError.error] := rfl

/-- Send the `index`-th log and the next ones on the log channels of the deploys at
    the same indices; a log with no deploy at its index panics. -/
def sendLogs (items : List ItemDeploy) : Nat → List String → Go Unit
  | _, [] => pure ()
  | index, log :: logs => do
      match items[index]? with
      | some item => Go.call (.logSend item.txIndex item.msgIndex log)
      | none => throw (.indexOutOfRange index items.length)
      sendLogs items (index + 1) logs

/-- `EndBlocker`'s run of the queued deploys: the engine state it commits to. -/
def executeDeploys (ctx : Context) (stateHash : Hash) : Go Hash := do
  waitGroupWait ctx
  let len ← Go.callE (.deployLen ctx.root) rfl
  let itemDeploysList ← Go.callE (.deployGet ctx.root len) rfl
  let block ← candidateBlock ctx
  let reqExecute : ExecuteRequest :=
    { parentStateHash := stateHash, blockTime := ctx.uBlockTime,
      deploys := itemDeploysList.map (·.deploy), protocolVersion := block.protocolVersion }
  let effects ← match env.execute reqExecute with
    | .error err => throw (.other err)
    | .ok (.success results) => do
        sendLogs itemDeploysList 0 (successLogs none results)
        pure (results.flatMap (·.effects))
    | .ok (.missingParent hash) => do
        let err := errGRpcExecuteMissingParent (Hex.encodeToString hash)
        itemDeploysList.forM fun item => Go.call (.logSend item.txIndex item.msgIndex err.error)
        pure []
    | .ok (.unknown text) => do
        itemDeploysList.forM fun item =>
          Go.call (.logSend item.txIndex item.msgIndex ("Unknown result : " ++ text))
        pure []
  let (stateHash, errGrpc) := env.commit block.state effects block.protocolVersion
  if errGrpc ≠ "" then throw (.other errGrpc)
  return stateHash

/-- The accounts queued during the block are created; an address that does not
    decode becomes the empty one. -/
def createNewAccounts (ctx : Context) : Go Unit := do
  let len ← Go.callE (.newAccountsLen ctx.root) rfl
  let newAccounts ← Go.callE (.newAccountsGet ctx.root len) rfl
  newAccounts.forM fun addr => do
    let toAddressAccountObject ←
      Auth.newAccountWithAddress ctx ((accAddressFromBech32 env.decodeAndConvert addr).toOption.getD [])
    Auth.setAccount ctx toAddressAccountObject

/-- The engine's `Step` from the committed state; the state it reaches becomes the
    `CandidateBlock`'s. -/
def step (ctx : Context) (stateHash : Hash) : Go Unit := do
  let block ← candidateBlock ctx
  let stepRequest : StepRequest :=
    { parentStateHash := stateHash, blockTime := ctx.uBlockTime, blockHeight := ctx.uBlockHeight,
      protocolVersion := block.protocolVersion }
  match env.step stepRequest with
  | .error err => throw (.other err)
  | .ok (.success postStateHash) => Go.call (.setCandidateState ctx.root postStateHash)
  | .ok (.missingParent hash) => throw (.other ("Missing parent : " ++ Hex.encodeToString hash))
  | .ok (.error message) => throw (.other message)
  | .ok (.unknown text) => throw (.other ("Unknown result : " ++ text))

/-! ## Validator stakes -/

/-- A validator's new stake and the power it reports, or `none` when the loop
    `continue`s. -/
def nextStake (nextStakeInfos : List (String × String)) (validator : Validator) :
    Option (String × Validator) :=
  match nextStakeInfos.lookup (Hex.encodeToString validator.operatorAddress) with
  | some stake => if validator.stake = stake then none else some (stake, { validator with stake })
  | none => if validator.stake ≠ "" then some ("0", { validator with stake := "" }) else none

/-- The power of a stake: its digits above the 18 decimal places. -/
def powerOf (power : String) : String :=
  if power.length ≤ decimalPointPos then "0" else (power.take (power.length - decimalPointPos)).toString

/-- The voting power loop over the stored validators. -/
def updateValidators (ctx : Context) (nextStakeInfos : List (String × String)) :
    List Validator → Go (List ValidatorUpdate)
  | [] => pure []
  | validator :: validators => do
      match nextStake nextStakeInfos validator with
      | none => updateValidators ctx nextStakeInfos validators
      | some (power, validator) =>
          match Strconv.parseInt64 (powerOf power) with
          | .error _ => updateValidators ctx nextStakeInfos validators
          | .ok coin => do
              setValidator ctx validator.operatorAddress validator
              let updates ← updateValidators ctx nextStakeInfos validators
              return { pubKey := validator.consPubKey, power := coin } :: updates

/-- `getQueryResult` of the proof-of-stake contract, decoded: the state stored for
    the context's height, or the `CandidateBlock`'s when there is none. -/
def queryPosStakes (ctx : Context) : Go (List (String × String)) := do
  let protocolVersion ← getProtocolVersion ctx
  let unitHash ← getUnitHashMap ctx ctx.blockHeight
  let block ← candidateBlock ctx
  let stateHash := if unitHash.eeState.length = 0 then block.state else unitHash.eeState
  match env.queryPosStakes stateHash protocolVersion with
  | .error err => throw (.other err)
  | .ok stakes => return stakes

def endBlocker (ctx : Context) : Go (List ValidatorUpdate) := do
  let block ← candidateBlock ctx
  let stateHash ← if block.txsCount > 0 then executeDeploys env ctx block.state else pure block.state
  createNewAccounts env ctx
  step env ctx stateHash
  let nextStakeInfos ← queryPosStakes env ctx
  let validators ← getAllValidators ctx.root
  let validatorUpdates ← if nextStakeInfos.length > 0 then
      updateValidators ctx nextStakeInfos validators
    else pure []
  let block ← candidateBlock ctx
  let _ ← setUnitHashMap ctx { eeState := block.state }
  return validatorUpdates

end Friday.ExecutionLayer
