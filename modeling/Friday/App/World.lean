import Friday.Baseapp.RunTx
import Friday.Lib.Threads
import Friday.Store.CacheKV.Store

/-! # The shared state of a block, and how it answers each event

The `World` holds what the goroutines of a block share: the state's stores, one
`cachekv` cache per store of every cache-wrapped multistore, the `CandidateBlock`
of the deliver and of the check state, the block gas meter, the gas meter of each
transaction, the log channels, and the locals that `runMsgs` shares with its
goroutines. `World.answer` is the machine of `Threads`: it gives the answer of one
event and the state after it, or `none` while the event blocks.

A state's own multistore is kept flat: its stores are ascending listings with the
operations of `Store.sortedStore`. A cache keeps its `cache` map: a read that misses
asks the parent and caches the answer, clean; a write is dirty; `Write` replays the
dirty entries on the parent and empties the cache. The order in which `Write`
replays them does not change what the parent reads (`CacheKV.Store.get_flush`), so
the replay follows the map's own order.

The goroutines of a block run as threads over the `World`; the last section runs
sample blocks to the deadlocks and the races between transactions that the code has.
-/

namespace Friday.App

open Friday.Types SortedKV Store CacheKV

/-- A store of a state's multistore: an ascending listing. -/
abbrev Listing := {l : List (List UInt8 × Value) // Ascending compare l}

/-- The empty store. -/
def Listing.empty : Listing := ⟨[], ascending_nil⟩

/-- A cache store's `cache` map. -/
abbrev CacheMap := AList fun _ : List UInt8 => CValue Value

/-- The locals of one `runMsgs` that its goroutines share. -/
structure RunState where
  /-- `len(msgs)`: the goroutines started. -/
  count : Nat
  currentMsgIndex : Nat
  /-- Whether `msgCond.L` is held. -/
  locked : Bool
  /-- The counter of `waitRunMsgs`. -/
  pending : Nat
  msgResults : List (Nat × Result)
  errInterface : Option Panic

/-- `runMsgs`'s locals when it starts its goroutines. -/
def RunState.start (count : Nat) : RunState :=
  { count, currentMsgIndex := 0, locked := false, pending := count, msgResults := [],
    errInterface := none }

structure World where
  stores : Root → StoreName → Listing
  caches : StoreRef → StoreName → CacheMap
  blocks : Root → CandidateBlock
  blockGasMeter : GasMeter
  txGasMeters : RunRef → GasMeter
  /-- The logs sent and not yet received, by the indices of their deploy. -/
  logs : List ((Nat × Nat) × String)
  runs : RunRef → Option RunState

def StoreName.all : List StoreName :=
  [.main, .acc, .staking, .supply, .mint, .distr, .slashing, .gov, .params, .nickname, .contractHashmap]

namespace World

variable (w : World)

def setCache (ref : StoreRef) (name : StoreName) (key : List UInt8) (cv : CValue Value) : World :=
  { w with caches := fun r n => if r = ref ∧ n = name then (w.caches r n).insert key cv else w.caches r n }

def clearCache (ref : StoreRef) (name : StoreName) : World :=
  { w with caches := fun r n => if r = ref ∧ n = name then ∅ else w.caches r n }

def setListing (root : Root) (name : StoreName) (l : Listing) : World :=
  { w with stores := fun r n => if r = root ∧ n = name then l else w.stores r n }

/-- `Get` on the store `name` of a multistore. -/
def get : StoreRef → StoreName → List UInt8 → World × Option Value
  | .root root, name, key => (w, sortedStore.get (w.stores root name) key)
  | .cache parent tag, name, key =>
      match (w.caches (.cache parent tag) name).lookup key with
      | some cv => (w, cv.value)
      | none =>
          let (w, value) := get parent name key
          (w.setCache (.cache parent tag) name key { value, deleted := false, dirty := false }, value)

/-- `Set` on the store `name` of a multistore. -/
def set : StoreRef → StoreName → List UInt8 → Value → World
  | .root root, name, key, value => w.setListing root name (sortedStore.set (w.stores root name) key value)
  | ref, name, key, value => w.setCache ref name key { value := some value, deleted := false, dirty := true }

def delete : StoreRef → StoreName → List UInt8 → World
  | .root root, name, key => w.setListing root name (sortedStore.delete (w.stores root name) key)
  | ref, name, key => w.setCache ref name key { value := none, deleted := true, dirty := true }

/-- `writeKey`: one dirty entry replayed on the parent. -/
def writeValue (parent : StoreRef) (name : StoreName) (key : List UInt8) (cv : CValue Value) : World :=
  if cv.deleted then w.delete parent name key
  else match cv.value with
    | some value => w.set parent name key value
    | none => w

/-- `Write` of one store of a cache. -/
def writeStore (parent : StoreRef) (tag : CacheTag) (name : StoreName) : World :=
  let dirty := (w.caches (.cache parent tag) name).entries.filter (·.2.dirty)
  (dirty.foldl (fun w entry => w.writeValue parent name entry.1 entry.2) w).clearCache
    (.cache parent tag) name

/-- `msCache.Write()`. -/
def write : StoreRef → World
  | .root _ => w
  | .cache parent tag => StoreName.all.foldl (fun w name => w.writeStore parent tag name) w

def updateBlock (root : Root) (f : CandidateBlock → CandidateBlock) : World :=
  { w with blocks := fun r => if r = root then f (w.blocks r) else w.blocks r }

def updateRun (run : RunRef) (f : RunState → RunState) : World :=
  { w with runs := fun r => if r = run then (w.runs r).map f else w.runs r }

/-- The answer of a call on a queue of the `CandidateBlock`: a panic leaves the
    state as it is. -/
def queueAnswer {α β : Type} (root : Root) (r : Except Panic (α × β)) (f : CandidateBlock → β → CandidateBlock) :
    Except Panic α × World :=
  match r with
  | .ok (a, b) => (.ok a, w.updateBlock root (f · b))
  | .error p => (.error p, w)

/-- How the shared state answers an event; `none` while it blocks. -/
def answer : (e : Event) → World → Option (Answer e × World)
  | .get store name key, w => let (w, value) := w.get store name key; some (value, w)
  | .set store name key value, w => some ((), w.set store name key value)
  | .iterator root name start endKey, w => some (sortedStore.iterator (w.stores root name) start endKey, w)
  | .write store, w => some ((), w.write store)
  | .candidateBlock root, w => some (w.blocks root, w)
  | .setCandidateState root state, w => some ((), w.updateBlock root fun b => { b with state })
  | .beginCandidateBlock root hash state protocolVersion txsCount, w =>
      some ((), w.updateBlock root (ExecutionLayer.CandidateBlock.begin · hash state protocolVersion txsCount))
  | .waitGroupAdd root delta, w =>
      some (w.queueAnswer root ((Types.waitGroupAdd (w.blocks root).waitGroup delta).map ((), ·))
        fun b counter => { b with waitGroup := counter })
  | .waitGroupWait root, w => if (w.blocks root).waitGroup = 0 then some ((), w) else none
  | .deployPut root item, w =>
      some (w.queueAnswer root ((queuePut (w.blocks root).deployPQueue item).map ((), ·))
        fun b q => { b with deployPQueue := some q })
  | .deployLen root, w => some (queueLen (w.blocks root).deployPQueue, w)
  | .deployGet root number, w =>
      -- `Get` waits while the queue is empty
      if 1 ≤ number ∧ (w.blocks root).deployPQueue = some [] then none
      else some (w.queueAnswer root (queueGet ItemDeploy.compare (w.blocks root).deployPQueue number)
        fun b q => { b with deployPQueue := q })
  | .newAccountsPut root address, w =>
      some (w.queueAnswer root ((queuePut (w.blocks root).newAccounts address).map ((), ·))
        fun b q => { b with newAccounts := some q })
  | .newAccountsLen root, w => some (queueLen (w.blocks root).newAccounts, w)
  | .newAccountsGet root number, w =>
      if 1 ≤ number ∧ (w.blocks root).newAccounts = some [] then none
      else some (w.queueAnswer root (queueGet strAccAddressCompare (w.blocks root).newAccounts number)
        fun b q => { b with newAccounts := q })
  | .anteTurn root index, w =>
      match (w.blocks root).anteCond with
      | none => some (.error .nilDereference, w)
      | some cond =>
          if !cond.locked ∧ (w.blocks root).currentTxIndex = index then
            some (.ok (), w.updateBlock root fun b => { b with anteCond := some { locked := true } })
          else none
  | .anteAdvance root, w =>
      let w' := w.updateBlock root fun b => { b with currentTxIndex := b.currentTxIndex + 1 }
      match (w.blocks root).anteCond with
      -- `CurrentTxIndex` is incremented before `Broadcast` dereferences the condition
      | none => some (.error .nilDereference, w')
      | some _ => some (.ok (), w'.updateBlock root fun b => { b with anteCond := some { locked := false } })
  | .blockGasIsOutOfGas, w => some (w.blockGasMeter.isOutOfGas, w)
  | .blockGasConsumed, w => some (w.blockGasMeter.consumed, w)
  | .blockGasConsume amount descriptor, w =>
      let (meter, p) := w.blockGasMeter.consumeGas amount descriptor
      some ((match p with | some p => .error p | none => .ok ()), { w with blockGasMeter := meter })
  | .txGasConsumed run, w => some ((w.txGasMeters run).consumed, w)
  | .txGasConsumedToLimit run, w => some ((w.txGasMeters run).gasConsumedToLimit, w)
  | .logSend txIndex msgIndex log, w =>
      -- the channel has room for one log
      if (w.logs.lookup (txIndex, msgIndex)).isSome then none
      else some ((), { w with logs := w.logs ++ [((txIndex, msgIndex), log)] })
  | .logRecv txIndex msgIndex, w =>
      match w.logs.lookup (txIndex, msgIndex) with
      | some log => some (log, { w with logs := w.logs.filter (·.1 != (txIndex, msgIndex)) })
      | none => none
  | .runMsgsStart run count, w => some ((), { w with runs := fun r => if r = run then some (.start count) else w.runs r })
  | .goroutineStart run msgIndex, w =>
      match w.runs run with
      | some state => if msgIndex < state.count then some ((), w) else none
      | none => none
  | .msgTurn run msgIndex, w =>
      match w.runs run with
      | some state =>
          if !state.locked ∧ msgIndex ≤ state.currentMsgIndex then
            some ((), w.updateRun run fun s => { s with locked := true })
          else none
      | none => none
  | .msgAdvance run, w =>
      some ((), w.updateRun run fun s => { s with currentMsgIndex := s.currentMsgIndex + 1, locked := false })
  | .storeResult run msgIndex result, w =>
      some ((), w.updateRun run fun s => { s with msgResults := (msgIndex, result) :: s.msgResults })
  | .setPanic run value, w => some ((), w.updateRun run fun s => { s with errInterface := some value })
  | .goroutineDone run, w => some ((), w.updateRun run fun s => { s with pending := s.pending - 1 })
  | .runMsgsWait run, w =>
      match w.runs run with
      | some state => if state.pending = 0 then some ((), w) else none
      | none => none
  | .loadResult run msgIndex, w => some (((w.runs run).bind fun s => s.msgResults.lookup msgIndex), w)
  | .loadPanic run, w => some (((w.runs run).bind (·.errInterface)), w)

end World

/-- The state at the start of a block, over the committed stores: every context is
    fresh (`NewContext`), so both `CandidateBlock`s are zero, no cache holds
    anything, and nothing runs. -/
def World.init (stores : Root → StoreName → Listing) : World :=
  { stores, caches := fun _ _ => ∅, blocks := fun _ => .zero,
    blockGasMeter := { limit := none, consumed := 0 },
    txGasMeters := fun _ => { limit := none, consumed := 0 }, logs := [], runs := fun _ => none }

/-! ## The goroutines of a block -/

/-- A goroutine: a `DeliverTx` (or a `CheckTx` or a simulation), a goroutine of its
    `runMsgs`, or `EndBlocker`. -/
inductive Thread
  | tx (run : RunRef)
  | msg (run : RunRef) (msgIndex : Nat)
  | endBlocker
  deriving DecidableEq, Repr

/-- A goroutine's program, its value dropped. -/
def Go.thread {α : Type} (x : Go α) : Script Event Answer Unit := x.run >>= fun _ => pure ()

/-- The machine of a block: every goroutine is answered by `World.answer`. -/
def machine : Threads.Machine Thread World Event Answer := fun _ => World.answer

variable (env : Env) (app : Baseapp.BaseApp)

/-- The `runTx` call a goroutine of `mode` makes on a transaction: `DeliverTx` at
    its index, `CheckTx`, or `Simulate` of the decoded transaction. -/
def txCall (mode : RunTxMode) (ctx : Context) (txBytes : List UInt8) (index : Nat) : Go Result :=
  match mode with
  | .deliver => Baseapp.deliverTx env app ctx txBytes index
  | .check => Baseapp.checkTx env app ctx txBytes
  | .simulate =>
      match app.txDecoder txBytes with
      | .ok tx => Baseapp.runTx env app ctx .simulate tx 0
      | .error err => pure err.result

/-- The transactions that run in `mode`: a block's in deliver mode; otherwise one,
    as `CheckTx` and `Simulate` run one at a time, at index `0`. -/
def runTxs (mode : RunTxMode) (txs : List (List UInt8)) : List (List UInt8) :=
  if mode = .deliver then txs else txs.take 1

/-- The messages of a transaction, none if it does not decode. -/
def txMsgs (txBytes : List UInt8) : List Baseapp.Msg :=
  match app.txDecoder txBytes with
  | .ok tx => tx.msgs
  | .error _ => []

/-- The messages `runMsgs` of the transaction at `index` starts goroutines for. -/
def runMsgsOf (mode : RunTxMode) (txs : List (List UInt8)) (index : Nat) : List Baseapp.Msg :=
  ((runTxs mode txs)[index]?.map (txMsgs app)).getD []

/-- The goroutines of the `runTx` calls of one mode: every `DeliverTx` of a block
    with `EndBlocker`, or one `CheckTx` or `Simulate`, with the message goroutines
    of their `runMsgs`. -/
def progs (mode : RunTxMode) (ctx : Context) (txs : List (List UInt8)) :
    Thread → Script Event Answer Unit
  | .tx run =>
      if run.mode = mode then
        match (runTxs mode txs)[run.index]? with
        | some txBytes => Go.thread (txCall env app mode ctx txBytes run.index)
        | none => pure ()
      else pure ()
  | .msg run msgIndex =>
      if run.mode = mode then
        match (runMsgsOf app mode txs run.index)[msgIndex]? with
        | some msg =>
            Go.thread (Baseapp.msgGoroutine env app (Baseapp.runMsgCtx mode ctx run.index) run msg msgIndex)
        | none => pure ()
      else pure ()
  | .endBlocker => if mode = .deliver then Go.thread (ExecutionLayer.endBlocker env ctx) else pure ()

/-- The goroutines to which `progs` gives a program. -/
def threads (mode : RunTxMode) (txs : List (List UInt8)) : List Thread :=
  ((List.range (runTxs mode txs).length).flatMap fun i =>
    .tx ⟨mode, i⟩ :: (List.range (runMsgsOf app mode txs i).length).map (.msg ⟨mode, i⟩)) ++
  (if mode = .deliver then [.endBlocker] else [])

theorem progs_of_not_mem {mode : RunTxMode} {ctx : Context} {txs : List (List UInt8)} {t : Thread}
    (ht : t ∉ threads app mode txs) : progs env app mode ctx txs t = pure () := by
  cases t with
  | tx run =>
      obtain ⟨runMode, i⟩ := run
      unfold progs
      by_cases hm : runMode = mode
      · subst hm
        cases hb : (runTxs runMode txs)[i]? with
        | none => simp [hb]
        | some txBytes =>
            have hi : i < (runTxs runMode txs).length := (List.getElem?_eq_some_iff.mp hb).1
            exact absurd (by simp [threads, hi]) ht
      · simp [hm]
  | msg run j =>
      obtain ⟨runMode, i⟩ := run
      unfold progs
      by_cases hm : runMode = mode
      · subst hm
        cases hb : (runMsgsOf app runMode txs i)[j]? with
        | none => simp [hb]
        | some msg =>
            have hj : j < (runMsgsOf app runMode txs i).length := (List.getElem?_eq_some_iff.mp hb).1
            have hi : i < (runTxs runMode txs).length := by
              by_contra hi
              simp [runMsgsOf, List.getElem?_eq_none (not_lt.mp hi)] at hj
            exact absurd (by simp only [threads, List.mem_append, List.mem_flatMap, List.mem_range,
              List.mem_cons, List.mem_map]; exact .inl ⟨i, hi, .inr ⟨j, hj, rfl⟩⟩) ht
      · simp [hm]
  | endBlocker =>
      unfold progs
      split_ifs with h
      · exact absurd (by simp [threads, h]) ht
      · rfl

/-- `BeginBlock`: the block gas meter, with a limit when the consensus parameters
    give a positive maximum, and the execution layer's `BeginBlocker` on the deliver
    state. It runs alone, before any transaction. -/
def beginBlock (ctx : Context) (hash : List UInt8) (numTxs : Int64) (maxGas : UInt64) (w : World) :
    Option World :=
  let w := { w with blockGasMeter := { limit := if maxGas > 0 then some maxGas else none, consumed := 0 } }
  (Script.runWith World.answer (Go.thread (ExecutionLayer.beginBlocker ctx hash ctx.blockHeight numTxs))
    w).map (·.2)

/-- The goroutines of one mode, from the state `w`. -/
def config (mode : RunTxMode) (ctx : Context) (txs : List (List UInt8)) (w : World) :
    Threads.Config Thread World Event Answer :=
  { shared := w, prog := progs env app mode ctx txs }

/-- A goroutine outside `threads` has ended, whatever rounds the others took. -/
theorem finished_rounds_of_not_mem {mode : RunTxMode} {ctx : Context} {txs : List (List UInt8)}
    {w : World} {t : Thread} (ht : t ∉ threads app mode txs) (fuel n : Nat) :
    Threads.Finished (Threads.rounds machine (threads app mode txs) fuel n (config env app mode ctx txs w)) t :=
  ⟨(), by rw [Threads.rounds_prog_of_not_mem machine ht]; exact progs_of_not_mem env app ht⟩

/-- Rounds after which every goroutine of `threads` has ended reach a configuration in
    which every goroutine has ended. -/
theorem finished_of_rounds {mode : RunTxMode} {ctx : Context} {txs : List (List UInt8)} {w : World}
    {fuel n : Nat} (h : Threads.finishedOn (threads app mode txs)
      (Threads.rounds machine (threads app mode txs) fuel n (config env app mode ctx txs w)) = true) :
    let c := Threads.rounds machine (threads app mode txs) fuel n (config env app mode ctx txs w)
    Threads.Reachable machine (config env app mode ctx txs w) c ∧ ∀ t, Threads.Finished c t :=
  ⟨Threads.reachable_rounds machine _ fuel n _,
    Threads.finished_of_finishedOn (fun _ ht => finished_rounds_of_not_mem env app ht fuel n) h⟩

/-- Rounds after which no goroutine of `threads` can move reach a deadlock. -/
theorem stuck_of_rounds {mode : RunTxMode} {ctx : Context} {txs : List (List UInt8)} {w : World}
    {fuel n : Nat} (h : Threads.stuckOn machine (threads app mode txs)
      (Threads.rounds machine (threads app mode txs) fuel n (config env app mode ctx txs w)) = true) :
    let c := Threads.rounds machine (threads app mode txs) fuel n (config env app mode ctx txs w)
    Threads.Reachable machine (config env app mode ctx txs w) c ∧ Threads.Stuck machine c :=
  ⟨Threads.reachable_rounds machine _ fuel n _,
    Threads.stuck_of_stuckOn (fun _ ht => finished_rounds_of_not_mem env app ht fuel n) h⟩

/-! ## Runs of a block

A block is delivered from the state `BeginBlock` leaves: the `DeliverTx` of every
transaction, the goroutines their `runMsgs` start and `EndBlocker` run as threads
over the shared `World`, in any interleaving. A configuration from which no thread
can move is a deadlock: the threads that have not returned by then never will.
-/

section Block

open Threads

/-- An application whose ante handler accepts every transaction, and whose decoder
    reads the message list a transaction's bytes name: `[]` does not decode. -/
def sampleApp (txTable : List Baseapp.Tx) : Baseapp.BaseApp where
  txDecoder bytes :=
    match bytes with
    | [i] => match txTable[i.toNat]? with
      | some tx => .ok tx
      | none => .error (errTxDecode "no such tx")
    | _ => .error (errTxDecode "no such tx")
  anteHandler := some fun _ _ _ _ => pure (.zero, false)
  otherRoutes := []

/-- The deliver state's context at height `1`. -/
def sampleCtx : Context :=
  { multiStore := .root .deliver, root := .deliver, blockHeight := 1, blockTime := 0, consensusParams := none }

/-- A block of the given transactions, from the given committed stores, with no
    block gas limit. -/
def sampleBlock (txTable : List Baseapp.Tx) (txs : List (List UInt8))
    (stores : Root → StoreName → Listing := fun _ _ => Listing.empty) :
    Config Thread World Event Answer :=
  let w := World.init stores
  config sampleEnv (sampleApp txTable) .deliver sampleCtx txs
    ((beginBlock sampleCtx [] txs.length.toInt64 0 w).getD w)

example : ((sampleBlock [] [[]]).shared.blocks .deliver).waitGroup = 1 := by decide +kernel

/-- Two transactions, the first without messages. -/
def emptyFirstTxs : List Baseapp.Tx := [⟨[]⟩, ⟨[.other "bank" none .zero]⟩]

/-! ## Blocks whose transactions race

Each handler reads the deliver state through its transaction's cache before it
waits in `execute`, and writes after `EndBlocker` released it; a transaction's
cache reaches the deliver state only when the transaction returns. -/

/-- What the deliver state holds under a key. -/
def delivered (w : World) (name : StoreName) (key : List UInt8) : Option Value :=
  Store.sortedStore.get (w.stores .deliver name) key

/-- Committed stores that hold the proxy contract's hash. -/
def proxyStores (_ : Root) (name : StoreName) : Listing :=
  if name = .contractHashmap then ⟨[(ExecutionLayer.proxyContractHashKey, .bytes [7])], by decide⟩
  else Listing.empty

def sampleDescription : ExecutionLayer.Description :=
  { moniker := "a", identity := "", website := "", details := "" }

/-- A `MsgCreateValidator` of the operator `op`, always with the same consensus key. -/
def createValidatorMsg (op : Address) : Baseapp.Msg :=
  .executionLayer <| .createValidator
    { contractAddress := "", validatorAddress := op, consPubKey := ⟨"ed25519", [5]⟩,
      description := sampleDescription, fee := "0" }

def createValidatorTxs : List Baseapp.Tx := [⟨[createValidatorMsg [10]]⟩, ⟨[createValidatorMsg [11]]⟩]

def transferTxs : List Baseapp.Tx :=
  [⟨[.executionLayer <| .transfer
      { contractAddress := "", fromAddress := [1], toAddress := [2], amount := "1", fee := "0" }]⟩]

/-- Committed stores in which the nicknames `a` and `b` name the addresses `[1]` and
    `[2]`. -/
def nicknameStores (_ : Root) (name : StoreName) : Listing :=
  if name = .nickname then
    ⟨[(Nickname.nameKey "a", .unitAccount ⟨⟨11, 0⟩, [1]⟩), (Nickname.nameKey "b", .unitAccount ⟨⟨12, 0⟩, [2]⟩)],
      by decide⟩
  else Listing.empty

def changeKeyMsg (name : String) (oldAddress newAddress : Address) : Baseapp.Msg :=
  .nickname (.changeKey { nickname := name, oldAddress, newAddress })

def changeKeyTxs : List Baseapp.Tx := [⟨[changeKeyMsg "a" [1] [3]]⟩, ⟨[changeKeyMsg "b" [2] [4]]⟩]

/-! ## Blocks of deploys -/

/-- A `MsgExecute` from the address `[1]`. -/
def executeMsg (sessionCode : List UInt8) (sessionArgs : String) : Baseapp.Msg :=
  .executionLayer <| .execute
    { contractAddress := "", execAddress := [1], sessionType := .wasm, sessionCode, sessionArgs,
      fee := "0" }

/-- Two transactions of one message each; the first fails in the engine. -/
def failingFirstBlockTxs : List Baseapp.Tx := [⟨[executeMsg [1] ""]⟩, ⟨[executeMsg [2] ""]⟩]

/-- One transaction whose first message fails in the engine. -/
def failingFirstTxs : List Baseapp.Tx := [⟨[executeMsg [1] "", executeMsg [2] ""]⟩]

/-! ## A transaction in check mode -/

mutual

/-- A block whose only transaction does not decode: `BeginBlocker` counted it in the
    wait group, `DeliverTx` returns without a `Done`, and `EndBlocker` waits for
    ever. -/
theorem undecodable_tx_deadlocks_endBlocker :
    ∃ c, Reachable machine (sampleBlock [] [[]]) c ∧ Stuck machine c ∧ ¬ Finished c .endBlocker := by
  let ts := threads (sampleApp []) .deliver [[]]
  let c := rounds machine ts 50 2 (sampleBlock [] [[]])
  have h : stuckOn machine ts c = true ∧ (c.prog .endBlocker).isPure = false := by decide +kernel
  obtain ⟨hreach, hstuck⟩ := stuck_of_rounds sampleEnv (sampleApp []) h.1
  refine ⟨c, hreach, hstuck, ?_⟩
  rw [finished_iff_isPure, h.2]
  decide

/-- The first transaction fails `validateBasicTxMsgs` and returns before its turn at
    the ante condition: its `DeliverTx` ends with `CurrentTxIndex` still `0`, and the
    second transaction, waiting for the turn `1`, never runs. -/
theorem empty_tx_skips_ante_turn :
    ∃ c, Reachable machine (sampleBlock emptyFirstTxs [[0], [1]]) c ∧ Stuck machine c ∧
      Finished c (.tx ⟨.deliver, 0⟩) ∧ (c.shared.blocks .deliver).currentTxIndex = 0 ∧
      ¬ Finished c (.tx ⟨.deliver, 1⟩) := by
  let ts := threads (sampleApp emptyFirstTxs) .deliver [[0], [1]]
  let c := rounds machine ts 60 3 (sampleBlock emptyFirstTxs [[0], [1]])
  have h : stuckOn machine ts c = true ∧ (c.prog (.tx ⟨.deliver, 0⟩)).isPure = true ∧
      (c.shared.blocks .deliver).currentTxIndex = 0 ∧ (c.prog (.tx ⟨.deliver, 1⟩)).isPure = false := by
    decide +kernel
  obtain ⟨hreach, hstuck⟩ := stuck_of_rounds sampleEnv (sampleApp emptyFirstTxs) h.1
  refine ⟨c, hreach, hstuck, finished_iff_isPure.mpr h.2.1, h.2.2.1, ?_⟩
  rw [finished_iff_isPure, h.2.2.2]
  decide

/-- Both creates find the consensus key free before they wait in `execute`, and both
    validators are stored with it. -/
theorem same_consPubKey_validators_stored :
    ∃ c, Reachable machine (sampleBlock createValidatorTxs [[0], [1]] proxyStores) c ∧ (∀ t, Finished c t) ∧
      ∃ v₁ v₂, delivered c.shared .contractHashmap (ExecutionLayer.getValidatorKey [10]) = some (.validator v₁) ∧
        delivered c.shared .contractHashmap (ExecutionLayer.getValidatorKey [11]) = some (.validator v₂) ∧
        v₁.consPubKey = v₂.consPubKey := by
  let ts := threads (sampleApp createValidatorTxs) .deliver [[0], [1]]
  let c := rounds machine ts 80 4 (sampleBlock createValidatorTxs [[0], [1]] proxyStores)
  have h : finishedOn ts c = true ∧
      delivered c.shared .contractHashmap (ExecutionLayer.getValidatorKey [10]) =
        some (.validator ⟨[10], ⟨"ed25519", [5]⟩, sampleDescription, ""⟩) ∧
      delivered c.shared .contractHashmap (ExecutionLayer.getValidatorKey [11]) =
        some (.validator ⟨[11], ⟨"ed25519", [5]⟩, sampleDescription, ""⟩) := by
    decide +kernel
  obtain ⟨hreach, hfinished⟩ := finished_of_rounds sampleEnv (sampleApp createValidatorTxs) h.1
  exact ⟨c, hreach, hfinished, _, _, h.2.1, h.2.2, rfl⟩

/-- The recipient of a transfer is queued on `NewAccounts` after `EndBlocker` has
    drained it: the block ends with the address still queued and no account for it. -/
theorem transfer_recipient_account_lost :
    ∃ c, Reachable machine (sampleBlock transferTxs [[0]] proxyStores) c ∧ (∀ t, Finished c t) ∧
      delivered c.shared .acc (Auth.addressStoreKey [2]) = none ∧
      (c.shared.blocks .deliver).newAccounts = some [sampleEnv.accAddressString [2]] := by
  let ts := threads (sampleApp transferTxs) .deliver [[0]]
  let c := rounds machine ts 80 4 (sampleBlock transferTxs [[0]] proxyStores)
  have h : finishedOn ts c = true ∧ delivered c.shared .acc (Auth.addressStoreKey [2]) = none ∧
      (c.shared.blocks .deliver).newAccounts = some [sampleEnv.accAddressString [2]] := by
    decide +kernel
  obtain ⟨hreach, hfinished⟩ := finished_of_rounds sampleEnv (sampleApp transferTxs) h.1
  exact ⟨c, hreach, hfinished, h.2⟩

/-- Each `ChangeKey` reads the global account number through its own transaction's
    cache: both new accounts get the number `0`. -/
theorem changeKey_accounts_share_number :
    ∃ c, Reachable machine (sampleBlock changeKeyTxs [[0], [1]] nicknameStores) c ∧ (∀ t, Finished c t) ∧
      ∃ a₃ a₄, delivered c.shared .acc (Auth.addressStoreKey [3]) = some (.account a₃) ∧
        delivered c.shared .acc (Auth.addressStoreKey [4]) = some (.account a₄) ∧
        a₃.accountNumber = a₄.accountNumber := by
  let ts := threads (sampleApp changeKeyTxs) .deliver [[0], [1]]
  let c := rounds machine ts 80 4 (sampleBlock changeKeyTxs [[0], [1]] nicknameStores)
  have h : finishedOn ts c = true ∧
      delivered c.shared .acc (Auth.addressStoreKey [3]) = some (.account ⟨[3], 0, 0, []⟩) ∧
      delivered c.shared .acc (Auth.addressStoreKey [4]) = some (.account ⟨[4], 0, 0, []⟩) := by
    decide +kernel
  obtain ⟨hreach, hfinished⟩ := finished_of_rounds sampleEnv (sampleApp changeKeyTxs) h.1
  exact ⟨c, hreach, hfinished, _, _, h.2.1, h.2.2, rfl⟩

/-- The deploy of the second transaction succeeds, its effect `[2]` is committed, and
    still its message fails: `EndBlocker` sent it the first deploy's error. -/
theorem successful_deploy_sent_earlier_error :
    ∃ c, Reachable machine (sampleBlock failingFirstBlockTxs [[0], [1]] proxyStores) c ∧
      (∀ t, Finished c t) ∧ (c.shared.blocks .deliver).state = [2] ∧
      ((c.shared.runs ⟨.deliver, 1⟩).bind fun s => s.msgResults.lookup 0).map Result.isOK = some false := by
  let ts := threads (sampleApp failingFirstBlockTxs) .deliver [[0], [1]]
  let c := rounds machine ts 80 4 (sampleBlock failingFirstBlockTxs [[0], [1]] proxyStores)
  have h : finishedOn ts c = true ∧ (c.shared.blocks .deliver).state = [2] ∧
      ((c.shared.runs ⟨.deliver, 1⟩).bind fun s => s.msgResults.lookup 0).map Result.isOK = some false := by
    decide +kernel
  obtain ⟨hreach, hfinished⟩ := finished_of_rounds sampleEnv (sampleApp failingFirstBlockTxs) h.1
  exact ⟨c, hreach, hfinished, h.2⟩

/-- The second message runs although the first failed: its effect `[2]` is in the
    state `EndBlocker` commits. -/
theorem failed_message_successor_committed :
    ∃ c, Reachable machine (sampleBlock failingFirstTxs [[0]] proxyStores) c ∧ (∀ t, Finished c t) ∧
      ((c.shared.runs ⟨.deliver, 0⟩).bind fun s => s.msgResults.lookup 0).map Result.isOK = some false ∧
      (c.shared.blocks .deliver).state = [2] := by
  let ts := threads (sampleApp failingFirstTxs) .deliver [[0]]
  let c := rounds machine ts 80 4 (sampleBlock failingFirstTxs [[0]] proxyStores)
  have h : finishedOn ts c = true ∧
      ((c.shared.runs ⟨.deliver, 0⟩).bind fun s => s.msgResults.lookup 0).map Result.isOK = some false ∧
      (c.shared.blocks .deliver).state = [2] := by
    decide +kernel
  obtain ⟨hreach, hfinished⟩ := finished_of_rounds sampleEnv (sampleApp failingFirstTxs) h.1
  exact ⟨c, hreach, hfinished, h.2⟩

end

end Block

end Friday.App
