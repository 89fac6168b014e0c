import Friday.ExecutionLayer.HashMap
import Friday.ExecutionLayer.ABCI

/-! # The validator queries

`x/executionlayer/querier.go`. `queryValidator` reads one stored validator and sets its stake
to what the proof-of-stake contract reports for its operator at the request's height.
`queryAllValidator` reads every stored validator and means to do the same for each, but it
writes each stake to the loop's copy of the validator (a Go `range` variable), so it returns
the validators with the stakes they were stored with (`runOn_queryAllValidator`), and the two
queries disagree as soon as the contract reports a stake the store does not hold
(`queryAllValidator_keeps_stored_stakes`).

The queries return values here: the JSON that `MarshalJSONIndent` makes of them, the decoding
of the request's parameters and `storedvalue`'s decoding of the contract are not modelled.
-/

namespace Friday.ExecutionLayer

open Friday.Types App Store SortedKV

/-- `abci.RequestQuery`, by the field the validator queries read. -/
structure RequestQuery where
  height : Int64
  deriving DecidableEq, Repr

/-- `QueryValidatorParams`, decoded. -/
structure QueryValidatorParams where
  validatorAddr : Address
  deriving DecidableEq, Repr

/-- `sdk.NewError(sdk.CodespaceUndefined, sdk.CodeUnknownRequest, "Bad request: {}", text)`:
    the format has no verb, so `Sprintf` appends the text as an extra argument. -/
def badRequest (text : String) : SdkError :=
  { codespace := "", code := codeUnknownRequest,
    message := "Bad request: \x7b\x7d%!(EXTRA string=" ++ text ++ ")" }

/-- `stateHash` of `getQueryResult`: the engine state stored for the context's height, or the
    `CandidateBlock`'s when none is. -/
def queryStateHash (unitHash : UnitHashMap) (block : CandidateBlock) : Hash :=
  if unitHash.eeState.length = 0 then block.state else unitHash.eeState

variable (env : Env)

/-- `getQueryResult` of the proof-of-stake contract, decoded by `FromBytes`: the stakes by hex
    operator address, or the text of the error. -/
def getPosStakes (ctx : Context) : Go (Except String (List (String × String))) := do
  let protocolVersion ← getProtocolVersion ctx
  let unitHash ← getUnitHashMap ctx ctx.blockHeight
  let block ← candidateBlock ctx
  return env.queryPosStakes (queryStateHash unitHash block) protocolVersion

/-- `NamedKeys.GetValidatorStake`: the stake the contract reports for an operator, `""` when it
    reports none. -/
def getValidatorStake (stakes : List (String × String)) (addr : Address) : String :=
  (stakes.lookup (Hex.encodeToString addr)).getD ""

def queryValidator (ctx : Context) (req : RequestQuery) (param : QueryValidatorParams) :
    Go (Except SdkError Validator) := do
  let (validator, found) ← getValidator ctx param.validatorAddr
  -- the error of a missing validator reads the text of `err`, which is `nil` here
  if !found then throw Panic.nilDereference
  match ← getPosStakes env { ctx with blockHeight := req.height } with
  | .error err => return .error (badRequest err)
  | .ok stakes => return .ok { validator with stake := getValidatorStake stakes param.validatorAddr }

def queryAllValidator (ctx : Context) (req : RequestQuery) : Go (Except SdkError (List Validator)) := do
  let validators ← getAllValidators ctx.root
  match ← getPosStakes env { ctx with blockHeight := req.height } with
  | .error err => return .error (badRequest err)
  | .ok eeValidators =>
    -- the loop sets the stake of its copy of each validator; `validators` is returned as read
    let _copies := validators.map fun validator =>
      { validator with stake := (eeValidators.lookup (Hex.encodeToString validator.operatorAddress)).getD "" }
    return .ok validators

/-- What the proof-of-stake contract answers at a height, over the contents of the state's store
    and its `CandidateBlock`. -/
def Contents.posStakes (c : Contents) (block : CandidateBlock) (height : Int64) :
    Except String (List (String × String)) :=
  env.queryPosStakes (queryStateHash ((c.unitHashMaps height).getD { eeState := [] }) block)
    (c.protocolVersion.getD ⟨0, 0, 0⟩)

section Runs

variable {env} {ctx : Context} (hroot : ctx.multiStore = .root ctx.root) {c : Contents} {w : World}
  (h : Represents c.read (w.stores ctx.root .contractHashmap))
include hroot h

theorem runOn_getPosStakes (height : Int64) :
    runOn w (getPosStakes env { ctx with blockHeight := height }) =
      some (.ok (c.posStakes env (w.blocks ctx.root) height), w) := by
  have hroot' : ({ ctx with blockHeight := height } : Context).multiStore = .root ctx.root := hroot
  simp only [getPosStakes, runOn_bind, runOn_getProtocolVersion hroot' h, runOn_getUnitHashMap hroot' h,
    Option.bind_some, runOn_pure]
  rfl

/-- `queryValidator` of a stored validator: the validator with the stake the contract reports
    for it, or the contract's error. -/
theorem runOn_queryValidator {v : Validator} (req : RequestQuery) (addr : Address)
    (hv : c.validators addr = some v) :
    runOn w (queryValidator env ctx req ⟨addr⟩) =
      some (.ok (((c.posStakes env (w.blocks ctx.root) req.height).mapError badRequest).map fun stakes =>
        { v with stake := getValidatorStake stakes addr }), w) := by
  have hget : runOn w (getValidator ctx addr) = some (.ok (v, true), w) := by
    rw [runOn_getValidator hroot h, hv]
    rfl
  simp only [queryValidator, runOn_bind, hget, Option.bind_some, Bool.not_true, Bool.false_eq_true, if_false,
    runOn_getPosStakes hroot h]
  cases c.posStakes env (w.blocks ctx.root) req.height <;> rfl


/-- `queryAllValidator` lists every stored validator once, by ascending operator address, with
    the stake it was stored with, whatever the contract reports. -/
theorem runOn_queryAllValidator (req : RequestQuery) :
    ∃ l, Lists compare c.validators (fun _ => True) l ∧
      runOn w (queryAllValidator env ctx req) =
        some (.ok (((c.posStakes env (w.blocks ctx.root) req.height).mapError badRequest).map fun _ =>
          l.map Prod.snd), w) := by
  obtain ⟨l, hl, hall⟩ := runOn_getAllValidators h
  refine ⟨l, hl, ?_⟩
  simp only [queryAllValidator, runOn_bind, hall, Option.bind_some, runOn_getPosStakes hroot h]
  cases c.posStakes env (w.blocks ctx.root) req.height <;> rfl

end Runs

/-- A validator stored at genesis, with the empty stake `InitGenesis` stores, and a contract
    that reports a stake of `100` for it: `queryValidator` reports `100`, and `queryAllValidator`
    lists the validator with its empty stake. -/
theorem queryAllValidator_keeps_stored_stakes :
    let validator : Validator := { Validator.zero with operatorAddress := [1] }
    let env : Env := { sampleEnv with queryPosStakes := fun _ _ => .ok [("01", "100")] }
    let ctx : Context := ⟨.root .deliver, .deliver, 1, 0, none⟩
    ∃ w, Runs env ctx (World.init fun _ _ => Listing.empty) [.setValidator [1] validator] w ∧
      runOn w (queryValidator env ctx ⟨1⟩ ⟨[1]⟩) = some (.ok (.ok { validator with stake := "100" }), w) ∧
      runOn w (queryAllValidator env ctx ⟨1⟩) = some (.ok (.ok [validator]), w) := by
  intro validator env ctx
  have hrun : Runs env ctx (World.init fun _ _ => Listing.empty) [.setValidator [1] validator] _ :=
    .cons rfl (.nil _)
  have hc := hrun.represents env rfl (Represents.empty rfl)
  let c := Contents.ofCalls env [.setValidator [1] validator]
  have hv : c.validators [1] = some validator := by
    simp [c, Contents.ofCalls, Call.apply]
  have hlists : Lists compare c.validators (fun _ => True) [([1], validator)] := by
    refine ⟨by simp [Ascending], fun k u => ?_⟩
    by_cases hk : k = [1]
    · subst hk
      simp [hv, eq_comm]
    · simp [c, Contents.ofCalls, Call.apply, Contents.empty, hk]
  obtain ⟨l, hl, hall⟩ := @runOn_queryAllValidator env ctx rfl _ _ hc ⟨1⟩
  refine ⟨_, hrun, ?_, ?_⟩
  · rw [runOn_queryValidator rfl hc ⟨1⟩ [1] hv]
    rfl
  · rw [hall, hl.unique hlists]
    rfl

end Friday.ExecutionLayer
