import Friday.App.Store
import Friday.Lib.Script

/-! # The Go runtime of a block

The modelled functions of `baseapp` and of the modules are Go code that runs in
goroutines: every `DeliverTx` of a block, one goroutine per message in `runMsgs`,
and `EndBlocker`. They share the state's multistore through per-transaction cache
stores; the `CandidateBlock` of the context, with its wait group, its deploy and
new-account queues and its ante condition; the block gas meter; each deploy's log
channel; and, within one `runMsgs`, the message condition, the wait group, the
result map and the panic value.

A modelled function is a `Go` program: a `Script` of `Event`s, whose `Answer`s a
machine gives from the shared state (`App.World`), with Go's `panic` as the
exception of `ExceptT`. What a function reads or writes of the shared state is an
event; local computation is Lean code between events. A blocking call is an event
the machine answers only once it can return: `Lock` together with the `Wait` loop
behind it, `WaitGroup.Wait`, a receive on an empty channel.
-/

namespace Friday.App

open Friday.Types

/-- Whose multistore and `CandidateBlock`: the deliver state's or the check
    state's. -/
inductive Root
  | deliver
  | check
  deriving DecidableEq, Repr

/-- Why a multistore was cache-wrapped: for the ante handler or the messages of
    the transaction at an index (`cacheTxContext`), or by `CacheContext`. -/
inductive CacheTag
  | ante (index : Nat)
  | msgs (index : Nat)
  | context
  deriving DecidableEq, Repr

/-- A context's multistore: a state's, or a cache over another one. -/
inductive StoreRef
  | root (root : Root)
  | cache (parent : StoreRef) (tag : CacheTag)
  deriving DecidableEq, Repr

/-- `runTxMode`. -/
inductive RunTxMode
  | check
  | simulate
  | deliver
  deriving DecidableEq, Repr

/-- One call of `runTx`, and of the `runMsgs` it makes, by its mode and its
    transaction index. -/
structure RunRef where
  mode : RunTxMode
  index : Nat
  deriving DecidableEq, Repr

/-- What a goroutine does to the shared state. -/
inductive Event
  /-- `ctx.KVStore(name).Get(key)`. -/
  | get (store : StoreRef) (name : StoreName) (key : List UInt8)
  /-- `ctx.KVStore(name).Set(key, value)`. -/
  | set (store : StoreRef) (name : StoreName) (key : List UInt8) (value : Value)
  /-- The entries of `ctx.KVStore(name)` in `[start, end)`, in key order. -/
  | iterator (root : Root) (name : StoreName) (start endKey : Option (List UInt8))
  /-- `msCache.Write()`. -/
  | write (store : StoreRef)
  /-- A read of the fields of `ctx.CandidateBlock()`. -/
  | candidateBlock (root : Root)
  /-- `ctx.CandidateBlock().State = state`. -/
  | setCandidateState (root : Root) (state : Hash)
  /-- `BeginBlocker`'s writes to the fields of `ctx.CandidateBlock()`. -/
  | beginCandidateBlock (root : Root) (hash : List UInt8) (state : Hash)
      (protocolVersion : ProtocolVersion) (txsCount : Int)
  /-- `WaitGroup.Add(delta)`; `Done` is `Add(-1)`. -/
  | waitGroupAdd (root : Root) (delta : Int)
  /-- `WaitGroup.Wait()`. -/
  | waitGroupWait (root : Root)
  | deployPut (root : Root) (item : ItemDeploy)
  | deployLen (root : Root)
  | deployGet (root : Root) (number : Nat)
  | newAccountsPut (root : Root) (address : String)
  | newAccountsLen (root : Root)
  | newAccountsGet (root : Root) (number : Nat)
  /-- `AnteCond.L.Lock()` and the loop `for index != CurrentTxIndex { AnteCond.Wait() }`. -/
  | anteTurn (root : Root) (index : Nat)
  /-- `CurrentTxIndex++`, `AnteCond.Broadcast()`, `AnteCond.L.Unlock()`. -/
  | anteAdvance (root : Root)
  | blockGasIsOutOfGas
  | blockGasConsumed
  /-- `BlockGasMeter().ConsumeGas(amount, descriptor)`. -/
  | blockGasConsume (amount : UInt64) (descriptor : String)
  /-- `ctx.GasMeter().GasConsumed()` of a transaction's gas meter. -/
  | txGasConsumed (run : RunRef)
  | txGasConsumedToLimit (run : RunRef)
  /-- A send on the log channel of the deploy of a message. -/
  | logSend (txIndex msgIndex : Nat) (log : String)
  /-- A receive on it. -/
  | logRecv (txIndex msgIndex : Nat)
  /-- `waitRunMsgs.Add(len(msgs))` and the `go` statements of `runMsgs`. -/
  | runMsgsStart (run : RunRef) (count : Nat)
  /-- A message goroutine begins to run. -/
  | goroutineStart (run : RunRef) (msgIndex : Nat)
  /-- `msgCond.L.Lock()` and the loop `for currentMsgIndex < msgIndex { msgCond.Wait() }`. -/
  | msgTurn (run : RunRef) (msgIndex : Nat)
  /-- `currentMsgIndex++`, `msgCond.L.Unlock()`, `msgCond.Broadcast()`. -/
  | msgAdvance (run : RunRef)
  | storeResult (run : RunRef) (msgIndex : Nat) (result : Result)
  | setPanic (run : RunRef) (value : Panic)
  /-- `waitRunMsgs.Done()`. -/
  | goroutineDone (run : RunRef)
  /-- `waitRunMsgs.Wait()`. -/
  | runMsgsWait (run : RunRef)
  | loadResult (run : RunRef) (msgIndex : Nat)
  | loadPanic (run : RunRef)

/-- What an event returns; a call on a `nil` pointer returns its panic. -/
def Answer : Event → Type
  | .get .. => Option Value
  | .set .. => Unit
  | .iterator .. => List (List UInt8 × Value)
  | .write _ => Unit
  | .candidateBlock _ => CandidateBlock
  | .setCandidateState .. => Unit
  | .beginCandidateBlock .. => Unit
  | .waitGroupAdd .. => Except Panic Unit
  | .waitGroupWait _ => Unit
  | .deployPut .. => Except Panic Unit
  | .deployLen _ => Except Panic Nat
  | .deployGet .. => Except Panic (List ItemDeploy)
  | .newAccountsPut .. => Except Panic Unit
  | .newAccountsLen _ => Except Panic Nat
  | .newAccountsGet .. => Except Panic (List String)
  | .anteTurn .. => Except Panic Unit
  | .anteAdvance _ => Except Panic Unit
  | .blockGasIsOutOfGas => Bool
  | .blockGasConsumed => UInt64
  | .blockGasConsume .. => Except Panic Unit
  | .txGasConsumed _ => UInt64
  | .txGasConsumedToLimit _ => UInt64
  | .logSend .. => Unit
  | .logRecv .. => String
  | .runMsgsStart .. => Unit
  | .goroutineStart .. => Unit
  | .msgTurn .. => Unit
  | .msgAdvance _ => Unit
  | .storeResult .. => Unit
  | .setPanic .. => Unit
  | .goroutineDone _ => Unit
  | .runMsgsWait _ => Unit
  | .loadResult .. => Option Result
  | .loadPanic _ => Option Panic

/-- A goroutine's code: events, with `panic` as the exception. -/
abbrev Go := ExceptT Panic (Script Event Answer)

namespace Go

/-- Issue one event. -/
def call (e : Event) : Go (Answer e) := ExceptT.lift (Script.call e)

/-- Issue an event that may panic. -/
def callE {α : Type} (e : Event) (h : Answer e = Except Panic α) : Go α := do
  let r ← call e
  liftExcept (cast h r)

/-- Run a program and return its panic as a value, as a deferred `recover` sees it. -/
def observe {α : Type} (x : Go α) : Go (Except Panic α) :=
  tryCatch (Except.ok <$> x) fun r => pure (.error r)

section Logic

open Script

variable {A : (e : Event) → Answer e → Prop} {P : Event → Prop}

theorem always_call {e : Event} {R : Except Panic (Answer e) → Prop} (he : ¬ P e)
    (hR : ∀ x, A e x → R (.ok x)) : Always A P R (call e).run :=
  Always.exceptT_lift (.event he fun x hx => .pure (hR x hx))

theorem always_callE {α : Type} {e : Event} {h : Answer e = Except Panic α} (he : ¬ P e) :
    Always A P (fun _ => True) (callE e h).run :=
  (always_call (R := fun _ => True) he fun _ _ => trivial).exceptT_seq fun _ => by
    generalize cast h _ = r
    cases r <;> exact .pure trivial

theorem runs_call_inv {e : Event} {tr : List (Σ e, Answer e)} {r : Except Panic (Answer e)}
    (h : Runs (call e).run tr r) : ∃ x, tr = [⟨e, x⟩] ∧ r = .ok x := by
  obtain ⟨x, hx, rfl⟩ := Runs.exceptT_lift_inv h
  exact ⟨x, hx.call_inv, rfl⟩

end Logic

end Go

/-- The consensus parameters a context carries. -/
structure ConsensusParams where
  /-- `Validator.PubKeyTypes`. -/
  pubKeyTypes : List String
  deriving DecidableEq, Repr

/-- `sdk.Context`, with the fields the modelled code reads. -/
structure Context where
  multiStore : StoreRef
  /-- The state whose `CandidateBlock` and block gas meter the context holds. -/
  root : Root
  blockHeight : Int64
  /-- `BlockTime().Unix()`. -/
  blockTime : Int64
  consensusParams : Option ConsensusParams
  deriving DecidableEq, Repr

/-- `ctx.UBlockHeight()`. -/
def Context.uBlockHeight (ctx : Context) : Nat :=
  if ctx.blockHeight < 0 then 0 else ctx.blockHeight.toUInt64.toNat

/-- `uint64(ctx.BlockTime().Unix())`. -/
def Context.uBlockTime (ctx : Context) : Nat := ctx.blockTime.toUInt64.toNat

/-- `ctx.WithMultiStore(ms)`. -/
def Context.withMultiStore (ctx : Context) (ms : StoreRef) : Context := { ctx with multiStore := ms }

section Statements

open Go

variable (ctx : Context)

/-- `ctx.KVStore(name).Get(key)`. -/
def kvGet (name : StoreName) (key : List UInt8) : Go (Option Value) := call (.get ctx.multiStore name key)

/-- `ctx.KVStore(name).Set(key, value)`. -/
def kvSet (name : StoreName) (key : List UInt8) (value : Value) : Go Unit :=
  call (.set ctx.multiStore name key value)

def candidateBlock : Go CandidateBlock := call (.candidateBlock ctx.root)

def waitGroupAdd (delta : Int) : Go Unit := callE (.waitGroupAdd ctx.root delta) rfl

/-- `WaitGroup.Done()`. -/
def waitGroupDone : Go Unit := waitGroupAdd ctx (-1)

def waitGroupWait : Go Unit := call (.waitGroupWait ctx.root)

end Statements

end Friday.App
