import Friday.ExecutionLayer.Types
import Friday.Lib.Hex

/-! # What the modelled code calls outside the repository

The bech32 codec of tendermint's `libs/bech32` and the crypto encoding of keys, the
casperlabs utilities that encode deploy arguments, the blake2b hash, the amino JSON of
message logs, the case tables of Go's `unicode` package and the execution engine's gRPC
service. The model is stated for every choice of them: theorems that depend on a property
of one of them take it as a hypothesis. What the repository builds on them (the address
decoders of `types/address.go`, `ReplaceFromBech32ToHex`) and the Go library functions it
calls (`encoding/hex`, `strconv.ParseInt`) are modelled as definitions of their own.
-/

namespace Friday.App

open Friday.Types ExecutionLayer

/-- `sdk.ABCIMessageLog`, without its events. -/
structure ABCIMessageLog where
  msgIndex : Nat
  success : Bool
  log : String
  deriving DecidableEq, Repr

structure Env where
  /-- `ConsPubKey.Address()`. -/
  pubKeyAddress : PubKey → List UInt8
  /-- `AccAddress.String()`, the bech32 text. -/
  accAddressString : Address → String
  /-- `bech32.DecodeAndConvert`: the human-readable part and the bytes of a text. -/
  decodeAndConvert : String → Except String (String × List UInt8)
  /-- `util.AbiDeployArgsTobytes`. -/
  abiDeployArgsToBytes : List DeployArg → Except String (List UInt8)
  /-- `util.JsonStringToDeployArgs`. -/
  jsonStringToDeployArgs : String → Except String (List DeployArg)
  /-- `util.EncodeToHexString`. -/
  encodeToHexString : List UInt8 → String
  blake2b256 : List UInt8 → List UInt8
  /-- `MsgExecute.GetSignBytes()`. -/
  msgExecuteSignBytes : MsgExecute → List UInt8
  /-- The engine's `Execute`; an error is a failed gRPC call. -/
  execute : ExecuteRequest → Except String ExecuteResponse
  /-- `grpc.Commit`: the post state and the error text, `""` on success. -/
  commit : Hash → List TransformEntry → Option ProtocolVersion → Hash × String
  step : StepRequest → Except String StepResponse
  /-- `getQueryResult` of the PoS contract, decoded: the validators' stakes by hex
      operator address. -/
  queryPosStakes : Hash → ProtocolVersion → Except String (List (String × String))
  /-- `ABCIMessageLogs.String()`. -/
  msgLogsString : List ABCIMessageLog → String
  /-- `unicode.ToLower`, on a rune outside ASCII: Go's case tables. -/
  unicodeToLower : Char → Char

/-- The bech32 text of the sample environment: the human-readable part, `1` and the hex digits
    of the bytes, with no checksum. -/
def sampleBech32 (hrp : String) (bytes : List UInt8) : String :=
  hrp ++ "1" ++ Hex.encodeToString bytes

/-- An environment in which every external call succeeds: the engine runs every
    deploy with its session code as its effect, except a session code of `[1]`,
    which fails; bech32 texts are `sampleBech32` texts, whose human-readable part ends at the
    first `1`; deploy arguments encode to no bytes, `util.EncodeToHexString` is
    `hex.EncodeToString`, the hash and the sign bytes are the identity, and a rune outside
    ASCII is its own lower case. -/
def sampleEnv : Env where
  pubKeyAddress pubKey := pubKey.bytes
  accAddressString addr := if addr = [] then "" else sampleBech32 "friday" addr
  decodeAndConvert text :=
    match text.toList.dropWhile (· ≠ '1') with
    | [] => .error "invalid separator index"
    | _ :: data =>
      match Hex.decodeString (String.ofList data) with
      | .ok bytes => .ok (String.ofList (text.toList.takeWhile (· ≠ '1')), bytes)
      | .error err => .error err.error
  abiDeployArgsToBytes _ := .ok []
  jsonStringToDeployArgs _ := .ok []
  encodeToHexString := Hex.encodeToString
  blake2b256 bytes := bytes
  msgExecuteSignBytes msg := msg.sessionCode
  execute req := .ok (.success (req.deploys.map fun deploy =>
    if deploy.sessionCode = [1] then { error := some (.execError "fail"), effects := [] }
    else { error := none, effects := [deploy.sessionCode] }))
  commit state effects _ := (state ++ effects.flatten, "")
  step req := .ok (.success req.parentStateHash)
  queryPosStakes _ _ := .ok []
  msgLogsString _ := ""
  unicodeToLower c := c

end Friday.App
