import Friday.ExecutionLayer.ABCI
import Friday.Nickname.Handler

/-! # `runTx` and `runMsgs`

`baseapp/baseapp.go`. A delivered transaction passes the block gas check and
`validateBasicTxMsgs`, then, in a block with transactions, waits for its turn at
the ante condition (`CurrentTxIndex` equal to its index), runs the ante handler on
a cache of the state, takes the next turn's counter one step on, and writes the
ante cache. `runMsgs` then starts one goroutine per message over a second cache;
each goroutine waits for the message lock at its index, and the execution layer's
messages give the lock up before their handler runs, the others after. `runMsgs`
waits for every goroutine, re-raises a recovered panic, and scans the results in
order up to the first failure; the second cache is written when that scan is OK.
Two deferred functions close `runTx`: the block gas meter is charged with the
transaction's gas, and a panic is recovered into an error result.

The ante handler (`x/auth`) is a parameter, as are the message types of the
modules the model leaves out, which are known by their route, by what their
`ValidateBasic` returns and by the result of their handler.
-/

namespace Friday.Baseapp

open Friday.Types App

/-- A message, by the module that routes it. -/
inductive Msg
  | executionLayer (msg : ExecutionLayer.Msg)
  | nickname (msg : Nickname.Msg)
  /-- A message of a module the model leaves out. -/
  | other (route : String) (validateBasic : Option SdkError) (result : Result)
  deriving DecidableEq, Repr

def Msg.route : Msg → String
  | .executionLayer _ => ExecutionLayer.moduleName
  | .nickname _ => Nickname.moduleName
  | .other route _ _ => route

/-- `auth.StdTx`, by its messages; the fee, the signatures and the memo are read by
    the ante handler only. -/
structure Tx where
  msgs : List Msg
  deriving DecidableEq, Repr

/-- `sdk.AnteHandler`: the result and whether to abort. The context it returns
    differs from its argument only in the gas meter. -/
abbrev AnteHandler := Context → Tx → Bool → Nat → Go (Result × Bool)

/-- The parts of `BaseApp` that `runTx` reads. -/
structure BaseApp where
  txDecoder : List UInt8 → Except SdkError Tx
  anteHandler : Option AnteHandler
  /-- The routes `app.go` registers for the modules the model leaves out. -/
  otherRoutes : List String

variable (env : Env) (app : BaseApp)

def Msg.validateBasic : Msg → Option SdkError
  | .executionLayer msg => msg.validateBasic env
  | .nickname msg => msg.validateBasic env
  | .other _ validateBasic _ => validateBasic

def validateBasicTxMsgs (msgs : List Msg) : Option SdkError :=
  if msgs.isEmpty then some (errUnknownRequest "Tx.GetMsgs() must return at least one message in list")
  else msgs.findSome? (Msg.validateBasic env)

/-- `app.router.Route(msg.Route())`, applied to the message: `none` for a route no
    module registers. -/
def routeHandler (msg : Msg) : Option (Context → Bool → Nat → Nat → Go Result) :=
  match msg with
  | .executionLayer msg => some fun ctx simulate txIndex msgIndex =>
      ExecutionLayer.newHandler env ctx msg simulate txIndex msgIndex
  | .nickname msg => some fun ctx simulate _ _ => Nickname.newHandler env ctx msg simulate
  | .other route _ result => if route ∈ app.otherRoutes then some fun _ _ _ _ => pure result else none

/-! ## `runMsgs` -/

/-- The goroutine `runMsgs` starts for the message at `msgIndex`, with its deferred
    `recover` and `waitRunMsgs.Done()`. -/
def msgGoroutine (ctx : Context) (run : RunRef) (msg : Msg) (msgIndex : Nat) : Go Unit := do
  Go.call (.goroutineStart run msgIndex)
  let body : Go Unit := do
    Go.call (.msgTurn run msgIndex)
    let msgRoute := msg.route
    if msgRoute = ExecutionLayer.moduleName then Go.call (.msgAdvance run)
    let result ← match routeHandler env app msg with
      | none => pure (errUnknownRequest ("unrecognized message type: " ++ msgRoute)).result
      | some handler => handler ctx (run.mode == .check) run.index msgIndex
    Go.call (.storeResult run msgIndex result)
    if msgRoute ≠ ExecutionLayer.moduleName then Go.call (.msgAdvance run)
  tryCatch body fun r => Go.call (.setPanic run r)
  Go.call (.goroutineDone run)

/-- The panic of the type assertion on a result that was never stored. -/
def nilResultPanic : Panic := .other "interface conversion: interface \x7b\x7d is nil, not types.Result"

/-- The scan of `runMsgs` over the stored results: the message logs up to the first
    failed message, with that message's code and codespace. -/
def scanMsgResults (run : RunRef) : List Nat → Go (List ABCIMessageLog × CodeType × String)
  | [] => pure ([], codeOK, "")
  | i :: indices => do
      match (← Go.call (.loadResult run i) : Option Result) with
      | none => throw nilResultPanic
      | some msgResult =>
          if !msgResult.isOK then
            return ([{ msgIndex := i, success := false, log := msgResult.log }], msgResult.code,
              msgResult.codespace)
          let (msgLogs, code, codespace) ← scanMsgResults run indices
          return ({ msgIndex := i, success := true, log := msgResult.log } :: msgLogs, code, codespace)

/-- `runMsgs`: the goroutines are separate threads (`msgGoroutine`); here they are
    started and waited for. -/
def runMsgs (ctx : Context) (msgs : List Msg) (mode : RunTxMode) (txIndex : Nat) : Go Result := do
  let run : RunRef := { mode, index := txIndex }
  if mode ≠ .check ∧ msgs.length > 1 then waitGroupAdd ctx (msgs.length - 1)
  Go.call (.runMsgsStart run msgs.length)
  Go.call (.runMsgsWait run)
  if let some r := (← Go.call (.loadPanic run) : Option Panic) then throw r
  let (msgLogs, code, codespace) ← scanMsgResults run (List.range msgs.length)
  return { code, codespace, log := (env.msgLogsString msgLogs).trimAscii.toString }

/-! ## `runTx` -/

/-- `getContextForTx`, from the context of the state the mode runs on. -/
def getContextForTx (mode : RunTxMode) (stateCtx : Context) : Context :=
  if mode = .simulate then stateCtx.withMultiStore (.cache stateCtx.multiStore .context) else stateCtx

/-- The context `runTx` gives `runMsgs`. -/
def runMsgCtx (mode : RunTxMode) (stateCtx : Context) (index : Nat) : Context :=
  let ctx := getContextForTx mode stateCtx
  ctx.withMultiStore (.cache ctx.multiStore (.msgs index))

/-- The condition under which `runTx` takes its turn at the ante condition. -/
def anteLocked (ctx : Context) (mode : RunTxMode) : Go Bool := do
  if ctx.uBlockHeight ≠ 0 ∧ mode = .deliver then return (← candidateBlock ctx).txsCount > 0
  else return false

/-- How the part of `runTx` up to the messages ends. -/
inductive AnteOutcome
  /-- `runTx` returns this result. -/
  | done (result : Result)
  /-- The messages run; the ante handler wants this gas. -/
  | next (gasWanted : UInt64)

/-- `runTx` from `validateBasicTxMsgs` to the write of the ante cache. -/
def runAnte (ctx : Context) (mode : RunTxMode) (tx : Tx) (index : Nat) : Go AnteOutcome := do
  if let some err := validateBasicTxMsgs env tx.msgs then return .done err.result
  if ← anteLocked ctx mode then Go.callE (.anteTurn ctx.root index) rfl
  match app.anteHandler with
  | none => return .next 0
  | some anteHandler =>
      let anteCtx := ctx.withMultiStore (.cache ctx.multiStore (.ante index))
      let (result, abort) ← anteHandler anteCtx tx (mode == .simulate) index
      if ← anteLocked ctx mode then Go.callE (.anteAdvance ctx.root) rfl
      if abort then return .done result
      Go.call (.write anteCtx.multiStore)
      return .next result.gasWanted

/-- `runTx` from the cache of the messages to its `return`. -/
def runTxMsgs (stateCtx : Context) (mode : RunTxMode) (tx : Tx) (index : Nat) : Go Result := do
  let ctx := runMsgCtx mode stateCtx index
  let result ← runMsgs env ctx tx.msgs mode index
  if mode = .deliver ∧ result.isOK then Go.call (.write ctx.multiStore)
  return result

/-- The first deferred function: a delivered transaction's gas is charged to the
    block. -/
def consumeBlockGas (run : RunRef) (startingGas : UInt64) : Go Unit := do
  let gas : UInt64 ← Go.call (.txGasConsumedToLimit run)
  Go.callE (.blockGasConsume gas "block gas meter") rfl
  let consumed : UInt64 ← Go.call .blockGasConsumed
  if consumed < startingGas then throw (.gasOverflow "tx gas summation")

/-- The second deferred function: the result `recover` makes of a panic. The stack
    trace of the log is left out. -/
def recoverResult (run : RunRef) (gasWanted : UInt64) : Panic → Go Result
  | .outOfGas descriptor => do
      let gasUsed : UInt64 ← Go.call (.txGasConsumed run)
      return (errOutOfGas ("out of gas in location: " ++ descriptor ++ "; gasWanted: " ++
        toString gasWanted ++ ", gasUsed: " ++ toString gasUsed)).result
  | r => return (errInternal ("recovered: " ++ r.text ++ "\nstack:\n")).result

def runTx (stateCtx : Context) (mode : RunTxMode) (tx : Tx) (index : Nat) : Go Result := do
  let ctx := getContextForTx mode stateCtx
  let run : RunRef := { mode, index }
  if mode = .deliver then
    let outOfGas : Bool ← Go.call .blockGasIsOutOfGas
    if outOfGas then return (errOutOfGas "no block gas left to run tx").result
  let startingGas : UInt64 ← if mode = .deliver then Go.call .blockGasConsumed else pure 0
  let (gasWanted, outcome) ← match ← Go.observe (runAnte env app ctx mode tx index) with
    | .error r => pure (0, .error r)
    | .ok (.done result) => pure (result.gasWanted, .ok result)
    | .ok (.next gasWanted) => do
        let outcome ← Go.observe (runTxMsgs env stateCtx mode tx index)
        pure (gasWanted, outcome)
  -- a panic of the first deferred function replaces the one being recovered
  let outcome ← if mode = .deliver then do
      match ← Go.observe (consumeBlockGas run startingGas) with
      | .error r => pure (.error r)
      | .ok () => pure outcome
    else pure outcome
  let result ← match outcome with
    | .ok result => pure result
    | .error r => recoverResult run gasWanted r
  return { result with gasWanted }

def deliverTx (stateCtx : Context) (txBytes : List UInt8) (index : Nat) : Go Result :=
  match app.txDecoder txBytes with
  | .error err => pure err.result
  | .ok tx => runTx env app stateCtx .deliver tx index

def checkTx (stateCtx : Context) (txBytes : List UInt8) : Go Result :=
  match app.txDecoder txBytes with
  | .error err => pure err.result
  | .ok tx => runTx env app stateCtx .check tx 0

/-! ## What the messages of a transaction leave behind

The handlers write through the messages' cache; only `runTxMsgs` writes that cache
back to the state. -/

section Writes

open Script

/-- The events that write a cache back to its parent. -/
def IsWrite (e : Event) : Prop := ∃ s, e = .write s

theorem scanMsgResults_never_writes (run : RunRef) (indices : List Nat) :
    Always (fun _ _ => True) IsWrite (fun _ => True) (scanMsgResults run indices).run := by
  induction indices with
  | nil => exact .pure trivial
  | cons i indices ih =>
    unfold scanMsgResults
    refine (Go.always_call (by simp [IsWrite]) fun _ _ => trivial).exceptT_seq
      fun (result : Option Result) => ?_
    cases result with
    | none => exact .pure trivial
    | some msgResult =>
      dsimp only
      split
      · exact .pure trivial
      · exact ih.exceptT_seq fun _ => .pure trivial

theorem runMsgs_never_writes (ctx : Context) (msgs : List Msg) (mode : RunTxMode) (txIndex : Nat) :
    Always (fun _ _ => True) IsWrite (fun _ => True) (runMsgs env ctx msgs mode txIndex).run := by
  have hscan := scanMsgResults_never_writes { mode, index := txIndex } (List.range msgs.length)
  unfold runMsgs
  dsimp only
  -- the wait group's `Add`, then the statements every mode runs
  refine Always.exceptT_ite_seq (u := ()) (Go.always_callE (by simp [IsWrite])) fun _ => ?_
  refine (Go.always_call (by simp [IsWrite]) fun _ _ => trivial).exceptT_seq fun _ => ?_
  refine (Go.always_call (by simp [IsWrite]) fun _ _ => trivial).exceptT_seq fun _ => ?_
  refine (Go.always_call (by simp [IsWrite]) fun _ _ => trivial).exceptT_seq fun (panic : Option Panic) => ?_
  cases panic with
  | some r => exact .pure trivial
  | none => exact hscan.exceptT_seq fun _ => .pure trivial

/-- In every run of the part of `runTx` that runs the messages, a cache is written
    back only once: the messages' cache, in deliver mode, when `runMsgs` returned an
    OK result. A panic or a failed result leaves none of the messages' writes. -/
theorem runTxMsgs_write_iff_ok {stateCtx : Context} {mode : RunTxMode} {tx : Tx} {index : Nat}
    {tr : List (Σ e, Answer e)} {r : Except Panic Result} {s : StoreRef}
    (h : Runs (runTxMsgs env stateCtx mode tx index).run tr r) :
    Event.write s ∈ tr.map Sigma.fst ↔
      s = (runMsgCtx mode stateCtx index).multiStore ∧ mode = .deliver ∧ ∃ result, r = .ok result ∧ result.isOK := by
  have hframe := runMsgs_never_writes env (runMsgCtx mode stateCtx index) tx.msgs mode index
  have hnone : ∀ {tr₁ r₁}, Runs (runMsgs env (runMsgCtx mode stateCtx index) tx.msgs mode index).run tr₁ r₁ →
      Event.write s ∉ tr₁.map Sigma.fst := fun h₁ hmem => by
    obtain ⟨q, hq, hqs⟩ := List.mem_map.mp hmem
    exact (hframe.runs h₁).1 q hq ⟨s, hqs⟩
  unfold runTxMsgs at h
  rcases h.exceptT_bind_inv with ⟨tr₁, tr₂, result, rfl, h₁, h₂⟩ | ⟨p, h₁, rfl⟩
  · dsimp only at h₂
    split at h₂
    · -- the write, then the result
      rename_i hok
      rcases h₂.exceptT_bind_inv with ⟨tr₃, tr₄, _, rfl, h₃, h₄⟩ | ⟨p, h₃, -⟩
      · obtain ⟨_, rfl, -⟩ := Go.runs_call_inv h₃
        obtain ⟨rfl, rfl⟩ := Runs.pure_inv h₄
        simp [hnone h₁, hok]
      · obtain ⟨_, -, hp⟩ := Go.runs_call_inv h₃
        cases hp
    · rename_i hok
      obtain ⟨rfl, rfl⟩ := Runs.pure_inv h₂
      simp only [List.append_nil, hnone h₁, false_iff]
      rintro ⟨-, hmode, _, ⟨⟩, hres⟩
      exact hok ⟨hmode, hres⟩
  · simp [hnone h₁]

end Writes

end Friday.Baseapp
