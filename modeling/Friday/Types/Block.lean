import Friday.Types.Result
import Mathlib.Data.List.Sort

/-! # The candidate block

`types/block.go`: the `CandidateBlock` that `BeginBlocker` fills at the start of a
block and that every transaction of the block shares through its context, and the
`ItemDeploy` that `execute` queues for the execution engine. A fresh context
(`NewContext`) carries a zero `CandidateBlock`, whose queues and condition are
`nil`.

The two queues are Workiva `PriorityQueue`s, which are not part of the
repository: `Put` adds an item (items are pointers, so no two are duplicates),
`Len` counts them, and `Get(n)` takes out the `n` least in ascending `Compare`
order (a heap pops its least item first; the order of two items that compare equal
is not specified, and insertion sort keeps them in arrival order), waiting while
the queue is empty. A `nil` queue panics on `Put`, on `Len` and on a `Get` of at
least one item. A `sync.WaitGroup` is its counter: `Add` panics when the counter
would become negative, and `Wait` returns only at zero.
-/

namespace Friday.Types

/-- `sdk.AccAddress`. -/
abbrev Address := List UInt8

/-- A state hash of the execution engine. -/
abbrev Hash := List UInt8

/-- `state.ProtocolVersion`. -/
structure ProtocolVersion where
  major : Nat
  minor : Nat
  patch : Nat
  deriving DecidableEq, Repr

/-- `util.ContractType`: how a deploy names the code it runs. -/
inductive ContractType where
  | wasm
  | hash
  | uref
  | name
  deriving DecidableEq, Repr

/-- `ipc.DeployItem`, with the fields `execute` fills. -/
structure DeployItem where
  address : Address
  sessionType : ContractType
  sessionCode : List UInt8
  sessionArgs : List UInt8
  paymentCode : Hash
  paymentArgs : List UInt8
  deployHash : List UInt8
  deriving DecidableEq, Repr

/-- `ItemDeploy`; its `LogChannel` is named by its two indices. -/
structure ItemDeploy where
  txIndex : Nat
  msgIndex : Nat
  deploy : DeployItem
  deriving DecidableEq, Repr

/-- `ItemDeploy.Compare`: by transaction index, then by message index. -/
def ItemDeploy.compare (i src : ItemDeploy) : Int :=
  if i.txIndex = src.txIndex then
    if i.msgIndex > src.msgIndex then 1
    else if i.msgIndex < src.msgIndex then -1
    else 0
  else if i.txIndex > src.txIndex then 1
  else if i.txIndex < src.txIndex then -1
  else -1

/-- `StrAccAddress.Compare`: `strings.Compare`, byte by byte. -/
def strAccAddressCompare (aa src : String) : Int :=
  match compare aa.toUTF8.data.toList src.toUTF8.data.toList with
  | .lt => -1
  | .eq => 0
  | .gt => 1

/-- The state of `AnteCond`: whether its lock is held. -/
structure AnteCond where
  locked : Bool
  deriving DecidableEq, Repr

/-- `CandidateBlock`. A queue or condition of `none` is a `nil` pointer. -/
structure CandidateBlock where
  hash : List UInt8
  state : Hash
  protocolVersion : Option ProtocolVersion
  txsCount : Int
  waitGroup : Int
  deployPQueue : Option (List ItemDeploy)
  anteCond : Option AnteCond
  currentTxIndex : Int
  /-- The `StrAccAddress` items: the bech32 text of each address. -/
  newAccounts : Option (List String)
  deriving DecidableEq, Repr

/-- The `CandidateBlock` of `NewContext`: every field at its zero value. -/
def CandidateBlock.zero : CandidateBlock where
  hash := []
  state := []
  protocolVersion := none
  txsCount := 0
  waitGroup := 0
  deployPQueue := none
  anteCond := none
  currentTxIndex := 0
  newAccounts := none

/-- `WaitGroup.Add`: the new counter, or the panic of a negative one. -/
def waitGroupAdd (counter delta : Int) : Except Panic Int :=
  if counter + delta < 0 then .error (.other "sync: negative WaitGroup counter")
  else .ok (counter + delta)

section Queue

variable {α : Type}

/-- `PriorityQueue.Put`: a `nil` queue panics. -/
def queuePut (queue : Option (List α)) (item : α) : Except Panic (List α) :=
  match queue with
  | none => .error .nilDereference
  | some items => .ok (items ++ [item])

/-- `PriorityQueue.Len`. -/
def queueLen (queue : Option (List α)) : Except Panic Nat :=
  match queue with
  | none => .error .nilDereference
  | some items => .ok items.length

/-- `PriorityQueue.Get(number)`: the `number` least items by `Compare`, taken out
    of the queue in ascending order, with the queue that stays. A `number` below one
    returns at once, before the queue is touched. -/
def queueGet (compare : α → α → Int) (queue : Option (List α)) (number : Nat) :
    Except Panic (List α × Option (List α)) :=
  if number < 1 then .ok ([], queue) else
  match queue with
  | none => .error .nilDereference
  | some items =>
      let sorted := items.insertionSort fun a b => decide (compare a b ≤ 0)
      .ok (sorted.take number, some (sorted.drop number))

end Queue

end Friday.Types
