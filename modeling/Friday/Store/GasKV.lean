import Friday.Lib.Metered
import Friday.Store.Prefix
import Friday.Types.Result

/-! # `gaskv.Store`

`store/gaskv/store.go`: the store a context hands to a keeper, which charges the context's gas
meter for every call and then passes the call on to its parent, at the costs of a `GasConfig`
(`store/types/gas.go`). `Get` pays a flat cost and then one for each byte of the value it read;
`Set` a flat cost and one for each byte of the value it writes, before it writes; `Has` and
`Delete` a flat cost. An iterator charges for the entry it is at when it is made, and `Next`
charges for the entry it leaves, so that a loop that reads every entry pays for the first entry
twice and for every other entry once.

A charge that takes the meter past its limit panics, and the panic ends the call: the meter
keeps what `ConsumeGas` set before it panicked, and the parent keeps every write made before.
Every call makes all its charges before it writes to the parent (`pays_exec`), so that over a
parent with the operations of `KVStore` a run of calls is the metered machine whose charges are
the ones above (`run_simulates`): it is the parent's run when the meter covers its cost, and
otherwise stops at the first call it cannot pay for, with the parent as the calls before it
left it (`run_gasStore`).

An iterator is read as the entries it has left, and a call that iterates reads every entry, as
`Op` of the cache store does. `AssertValidValue` is left out: keys and values are never `nil`.
-/

namespace Friday.GasKV

open Friday.Store Friday.Types

/-- `GasConfig`. -/
structure GasConfig where
  hasCost : UInt64
  deleteCost : UInt64
  readCostFlat : UInt64
  readCostPerByte : UInt64
  writeCostFlat : UInt64
  writeCostPerByte : UInt64
  iterNextCostFlat : UInt64
  deriving DecidableEq, Repr

/-- `KVGasConfig`. -/
def kvGasConfig : GasConfig where
  hasCost := 1000
  deleteCost := 1000
  readCostFlat := 1000
  readCostPerByte := 3
  writeCostFlat := 2000
  writeCostPerByte := 30
  iterNextCostFlat := 30

/-- `TransientGasConfig`. -/
def transientGasConfig : GasConfig := kvGasConfig

def gasIterNextCostFlatDesc : String := "IterNextFlat"
def gasValuePerByteDesc : String := "ValuePerByte"
def gasWritePerByteDesc : String := "WritePerByte"
def gasReadPerByteDesc : String := "ReadPerByte"
def gasWriteCostFlatDesc : String := "WriteFlat"
def gasReadCostFlatDesc : String := "ReadFlat"
def gasHasDesc : String := "Has"
def gasDeleteDesc : String := "Delete"

/-- Keys and values. -/
abbrev Bytes := List UInt8

/-- `gaskv.Store`, over a parent in state `P`. -/
structure Store (P : Type) where
  gasMeter : GasMeter
  gasConfig : GasConfig
  parent : P

/-- A call on the store. A panic keeps the store as it is when the panic is raised. -/
abbrev GasM (P α : Type) := ExceptT Panic (StateM (Store P)) α

variable {P : Type} (kv : KVStore P Bytes Bytes)

namespace Store

/-- `gs.gasMeter.ConsumeGas(amount, descriptor)`: the meter is updated, then the panic raised. -/
def consumeGas (amount : UInt64) (descriptor : String) : GasM P Unit := do
  let result := (← getThe (Store P)).gasMeter.consumeGas amount descriptor
  modifyThe (Store P) fun store => { store with gasMeter := result.1 }
  match result.2 with
  | some panic => throw panic
  | none => pure ()

/-- `Get`. The length of a `nil` value is `0`. -/
def get (key : Bytes) : GasM P (Option Bytes) := do
  let gasConfig := (← getThe (Store P)).gasConfig
  consumeGas gasConfig.readCostFlat gasReadCostFlatDesc
  let value := kv.get (← getThe (Store P)).parent key
  consumeGas (gasConfig.readCostPerByte * ((value.getD []).length).toUInt64) gasReadPerByteDesc
  return value

/-- `Set`. -/
def set (key value : Bytes) : GasM P Unit := do
  let gasConfig := (← getThe (Store P)).gasConfig
  consumeGas gasConfig.writeCostFlat gasWriteCostFlatDesc
  consumeGas (gasConfig.writeCostPerByte * value.length.toUInt64) gasWritePerByteDesc
  modifyThe (Store P) fun store => { store with parent := kv.set store.parent key value }

/-- `Has`. -/
def has (key : Bytes) : GasM P Bool := do
  consumeGas (← getThe (Store P)).gasConfig.hasCost gasHasDesc
  return kv.has (← getThe (Store P)).parent key

/-- `Delete`: it is charged although it frees space. -/
def delete (key : Bytes) : GasM P Unit := do
  consumeGas (← getThe (Store P)).gasConfig.deleteCost gasDeleteDesc
  modifyThe (Store P) fun store => { store with parent := kv.delete store.parent key }

/-- `consumeSeekGas`: a charge for each byte of the current value, and a flat one. -/
def consumeSeekGas (value : Bytes) : GasM P Unit := do
  let gasConfig := (← getThe (Store P)).gasConfig
  consumeGas (gasConfig.readCostPerByte * value.length.toUInt64) gasValuePerByteDesc
  consumeGas gasConfig.iterNextCostFlat gasIterNextCostFlatDesc

/-- `iterator`: the parent's iterator in the direction asked, in a `gasIterator` that charges
    for its first entry at once when it is valid. -/
def iterator (start endKey : Option Bytes) (ascending : Bool) : GasM P (List (Bytes × Bytes)) := do
  let store ← getThe (Store P)
  let parent := if ascending then kv.iterator store.parent start endKey
    else kv.reverseIterator store.parent start endKey
  match parent with
  | entry :: _ => consumeSeekGas entry.2
  | [] => pure ()
  return parent

/-- The loop `for ; iter.Valid(); iter.Next()` of a caller that reads every entry: reading the
    key and the value of an entry costs nothing, and `Next` charges for the entry it leaves. -/
def drain : List (Bytes × Bytes) → GasM P (List (Bytes × Bytes))
  | [] => pure []
  | entry :: rest => do
    consumeSeekGas entry.2
    return entry :: (← drain rest)

end Store

/-- A call on the store. -/
inductive Op
  | get (key : Bytes)
  | has (key : Bytes)
  | set (key value : Bytes)
  | delete (key : Bytes)
  | iterator (start endKey : Option Bytes)
  | reverseIterator (start endKey : Option Bytes)

/-- What a call returns; an iterator is returned as the entries it yields. -/
inductive Output
  | value (value : Option Bytes)
  | has (has : Bool)
  | entries (entries : List (Bytes × Bytes))
  | done

namespace Store

/-- One call. -/
def exec : Op → GasM P Output
  | .get key => return .value (← get kv key)
  | .has key => return .has (← has kv key)
  | .set key value => do
    set kv key value
    return .done
  | .delete key => do
    delete kv key
    return .done
  | .iterator start endKey => return .entries (← drain (← iterator kv start endKey true))
  | .reverseIterator start endKey => return .entries (← drain (← iterator kv start endKey false))

/-- A sequence of calls, up to the first panic. -/
def run (ops : List Op) : GasM P (List Output) := ops.mapM (exec kv)

end Store

/-! ## What a call pays

The charges each call makes, in order, as a function of the parent it reads, and the call on the
parent alone. Together they are the parent as a metered machine. -/

/-- What `consumeSeekGas` charges for an entry with this value. -/
def seekCharges (gasConfig : GasConfig) (value : Bytes) : List UInt64 :=
  [gasConfig.readCostPerByte * value.length.toUInt64, gasConfig.iterNextCostFlat]

/-- What a `gasIterator` charges when it is made: the seek charges of its first entry. -/
def iteratorCharges (gasConfig : GasConfig) : List (Bytes × Bytes) → List UInt64
  | entry :: _ => seekCharges gasConfig entry.2
  | [] => []

/-- What reading every entry charges: each `Next` pays for the entry it leaves. -/
def drainCharges (gasConfig : GasConfig) (entries : List (Bytes × Bytes)) : List UInt64 :=
  entries.flatMap fun entry => seekCharges gasConfig entry.2

/-- The charges of a call on a parent in state `p`, in the order the store makes them. -/
def Op.charges (gasConfig : GasConfig) (p : P) : Op → List UInt64
  | .get key =>
    [gasConfig.readCostFlat, gasConfig.readCostPerByte * ((kv.get p key).getD []).length.toUInt64]
  | .has _ => [gasConfig.hasCost]
  | .set _ value => [gasConfig.writeCostFlat, gasConfig.writeCostPerByte * value.length.toUInt64]
  | .delete _ => [gasConfig.deleteCost]
  | .iterator start endKey =>
    iteratorCharges gasConfig (kv.iterator p start endKey) ++
      drainCharges gasConfig (kv.iterator p start endKey)
  | .reverseIterator start endKey =>
    iteratorCharges gasConfig (kv.reverseIterator p start endKey) ++
      drainCharges gasConfig (kv.reverseIterator p start endKey)

/-- A call on the parent alone, with no meter: what it returns and the parent it leaves. -/
def Op.apply (p : P) : Op → Output × P
  | .get key => (.value (kv.get p key), p)
  | .has key => (.has (kv.has p key), p)
  | .set key value => (.done, kv.set p key value)
  | .delete key => (.done, kv.delete p key)
  | .iterator start endKey => (.entries (kv.iterator p start endKey), p)
  | .reverseIterator start endKey => (.entries (kv.reverseIterator p start endKey), p)

/-- The parent as a metered machine: each call pays its charges, then acts on the parent. -/
def machine (gasConfig : GasConfig) : Metered.Machine P Op Output where
  charges op p := (op.charges kv gasConfig p).map UInt64.toNat
  step op p := op.apply kv p

@[simp] theorem machine_charges (gasConfig : GasConfig) (op : Op) (p : P) :
    (machine kv gasConfig).charges op p = (op.charges kv gasConfig p).map UInt64.toNat := rfl

@[simp] theorem machine_step (gasConfig : GasConfig) (op : Op) (p : P) :
    (machine kv gasConfig).step op p = op.apply kv p := rfl

/-! ## Running a call

A call is read through `(x.run.run store)`: what it returns, or the panic it raised, with the
store it leaves. -/

section Run

variable {α β : Type}

theorem run_pure (a : α) (store : Store P) : (pure a : GasM P α).run.run store = (.ok a, store) :=
  rfl

theorem run_bind_of_ok {x : GasM P α} {f : α → GasM P β} {store store' : Store P} {a : α}
    (h : x.run.run store = (.ok a, store')) : (x >>= f).run.run store = (f a).run.run store' := by
  simp only [ExceptT.run_bind, StateT.run_bind, h]
  rfl

theorem run_bind_of_error {x : GasM P α} {f : α → GasM P β} {store store' : Store P} {e : Panic}
    (h : x.run.run store = (.error e, store')) : (x >>= f).run.run store = (.error e, store') := by
  simp only [ExceptT.run_bind, StateT.run_bind, h]
  rfl

theorem run_getThe (store : Store P) :
    (getThe (Store P) : GasM P (Store P)).run.run store = (.ok store, store) :=
  rfl

theorem run_modifyThe (f : Store P → Store P) (store : Store P) :
    (modifyThe (Store P) f : GasM P Unit).run.run store = (.ok (), f store) :=
  rfl

end Run

section ConsumeGas

theorem run_consumeGas_of_le {amount : UInt64} (descriptor : String) {store : Store P}
    (h : store.gasMeter.consumed.toNat + amount.toNat ≤ store.gasMeter.bound) :
    (Store.consumeGas amount descriptor : GasM P Unit).run.run store =
      (.ok (), { store with gasMeter := { store.gasMeter with consumed := store.gasMeter.consumed + amount } }) := by
  unfold Store.consumeGas
  rw [run_bind_of_ok (run_getThe store), run_bind_of_ok (run_modifyThe _ store),
    GasMeter.consumeGas_of_le descriptor h]
  rfl

theorem run_consumeGas_of_lt {amount : UInt64} (descriptor : String) {store : Store P}
    (h : store.gasMeter.bound < store.gasMeter.consumed.toNat + amount.toNat) :
    ∃ e gasMeter, (Store.consumeGas amount descriptor : GasM P Unit).run.run store =
      (.error e, { store with gasMeter }) ∧ gasMeter.limit = store.gasMeter.limit ∧ e.isGas := by
  obtain ⟨hlimit, hpanic⟩ := GasMeter.consumeGas_of_lt (g := store.gasMeter) descriptor h
  unfold Store.consumeGas
  rw [run_bind_of_ok (run_getThe store), run_bind_of_ok (run_modifyThe _ store)]
  rcases hpanic with hpanic | hpanic <;> rw [hpanic]
  · exact ⟨_, _, rfl, hlimit, rfl⟩
  · exact ⟨_, _, rfl, hlimit, rfl⟩

end ConsumeGas

namespace Store

/-- The store after calls that paid `amount` in all and left the parent at `parent`. -/
def paid (store : Store P) (amount : Nat) (parent : P) : Store P :=
  { store with
    gasMeter := { store.gasMeter with
      consumed := UInt64.ofNat (store.gasMeter.consumed.toNat + amount) }
    parent }

section Paid

variable (store : Store P) (amount : Nat) (parent : P)

@[simp] theorem paid_gasConfig : (store.paid amount parent).gasConfig = store.gasConfig := rfl

@[simp] theorem paid_parent : (store.paid amount parent).parent = parent := rfl

@[simp] theorem paid_limit : (store.paid amount parent).gasMeter.limit = store.gasMeter.limit := rfl

@[simp] theorem paid_bound : (store.paid amount parent).gasMeter.bound = store.gasMeter.bound := rfl

@[simp] theorem paid_with_gasMeter (gasMeter : GasMeter) :
    { store.paid amount parent with gasMeter } = { store with parent, gasMeter } := rfl

theorem paid_zero : store.paid 0 parent = { store with parent } := by
  simp only [paid, Nat.add_zero, UInt64.ofNat_toNat]

/-- Within the bound, which is below `2 ^ 64`, the amount is added without wrapping. -/
theorem paid_consumed {amount : Nat} (h : store.gasMeter.consumed.toNat + amount ≤ store.gasMeter.bound) :
    (store.paid amount parent).gasMeter.consumed.toNat = store.gasMeter.consumed.toNat + amount :=
  UInt64.toNat_ofNat_of_lt' (Nat.lt_of_le_of_lt h store.gasMeter.bound_lt)

theorem paid_paid {amount : Nat} (amount' : Nat) (parent' : P)
    (h : store.gasMeter.consumed.toNat + amount ≤ store.gasMeter.bound) :
    (store.paid amount parent).paid amount' parent' = store.paid (amount + amount') parent' := by
  have hlt := Nat.lt_of_le_of_lt h store.gasMeter.bound_lt
  simp only [paid, UInt64.toNat_ofNat_of_lt' hlt, Nat.add_assoc]

end Paid

end Store

/-! ## Paying before writing

Every call of the store makes all its charges before it writes to the parent. `Pays` says what
such a call does from a store, at the amount its charges add up to. -/

section Pays

variable {α β : Type}

/-- `x` run from `store` pays `amount` before it writes: when the meter covers the amount it
    returns `a` and leaves the parent at `parent`; when it does not, it panics for gas with the
    parent as it was and the meter's limit kept. A meter already past its bound is left out:
    the call that took it there panicked. -/
structure Pays (x : GasM P α) (store : Store P) (amount : Nat) (a : α) (parent : P) : Prop where
  ok : store.gasMeter.consumed.toNat + amount ≤ store.gasMeter.bound →
    x.run.run store = (.ok a, store.paid amount parent)
  error : store.gasMeter.consumed.toNat ≤ store.gasMeter.bound →
    store.gasMeter.bound < store.gasMeter.consumed.toNat + amount →
    ∃ e gasMeter, x.run.run store = (.error e, { store with gasMeter }) ∧
      gasMeter.limit = store.gasMeter.limit ∧ e.isGas

variable {store : Store P} {amount amount' : Nat} {a : α} {parent : P}

theorem pays_consumeGas (amount : UInt64) (descriptor : String) (store : Store P) :
    Pays (Store.consumeGas amount descriptor) store amount.toNat () store.parent where
  ok h := by
    rw [run_consumeGas_of_le descriptor h]
    simp only [Store.paid, UInt64.ofNat_add, UInt64.ofNat_toNat]
  error _ h := run_consumeGas_of_lt descriptor h

theorem pays_pure (a : α) (store : Store P) : Pays (pure a : GasM P α) store 0 a store.parent where
  ok _ := by rw [run_pure, Store.paid_zero]
  error hused h := absurd h (by omega)

theorem pays_modifyThe (f : P → P) (store : Store P) :
    Pays (modifyThe (Store P) fun store => { store with parent := f store.parent } : GasM P Unit)
      store 0 () (f store.parent) where
  ok _ := by rw [run_modifyThe, Store.paid_zero]
  error hused h := absurd h (by omega)

theorem Pays.getThe_bind {f : Store P → GasM P α} (h : Pays (f store) store amount a parent) :
    Pays (getThe (Store P) >>= f) store amount a parent where
  ok hle := by rw [run_bind_of_ok (run_getThe store)]; exact h.ok hle
  error hused hlt := by rw [run_bind_of_ok (run_getThe store)]; exact h.error hused hlt

theorem Pays.bind_pure {x : GasM P α} {g : α → β} (hx : Pays x store amount a parent) :
    Pays (x >>= fun a => pure (g a)) store amount (g a) parent where
  ok h := by rw [run_bind_of_ok (hx.ok h), run_pure]
  error hused h := by
    obtain ⟨e, gasMeter, hrun, hlimit, he⟩ := hx.error hused h
    exact ⟨e, gasMeter, run_bind_of_error hrun, hlimit, he⟩

/-- A call that pays without writing, followed by one that pays from where it left the meter,
    pays the sum. -/
theorem Pays.bind {x : GasM P α} {f : α → GasM P β} {b : β}
    (hx : Pays x store amount a store.parent)
    (hf : Pays (f a) (store.paid amount store.parent) amount' b parent) :
    Pays (x >>= f) store (amount + amount') b parent where
  ok h := by
    have hfirst : store.gasMeter.consumed.toNat + amount ≤ store.gasMeter.bound := by omega
    have hrest : (store.paid amount store.parent).gasMeter.consumed.toNat + amount' ≤
        (store.paid amount store.parent).gasMeter.bound := by
      rw [Store.paid_consumed store _ hfirst, Store.paid_bound]
      omega
    rw [run_bind_of_ok (hx.ok hfirst), hf.ok hrest, Store.paid_paid store _ _ _ hfirst]
  error hused h := by
    by_cases hfirst : store.gasMeter.consumed.toNat + amount ≤ store.gasMeter.bound
    · -- `x` is paid for, and `f a` runs out from the meter `x` left
      have hused' : (store.paid amount store.parent).gasMeter.consumed.toNat ≤
          (store.paid amount store.parent).gasMeter.bound := by
        rw [Store.paid_consumed store _ hfirst, Store.paid_bound]
        exact hfirst
      have hrest : (store.paid amount store.parent).gasMeter.bound <
          (store.paid amount store.parent).gasMeter.consumed.toNat + amount' := by
        rw [Store.paid_consumed store _ hfirst, Store.paid_bound]
        omega
      obtain ⟨e, gasMeter, hrun, hlimit, he⟩ := hf.error hused' hrest
      exact ⟨e, gasMeter, by rw [run_bind_of_ok (hx.ok hfirst), hrun]; rfl, hlimit, he⟩
    · obtain ⟨e, gasMeter, hrun, hlimit, he⟩ := hx.error hused (Nat.lt_of_not_le hfirst)
      exact ⟨e, gasMeter, run_bind_of_error hrun, hlimit, he⟩

theorem Pays.of_amount_eq {x : GasM P α} (h : Pays x store amount a parent)
    (hamount : amount = amount') : Pays x store amount' a parent :=
  hamount ▸ h

end Pays


section Calls

variable (store : Store P)

theorem pays_consumeSeekGas (value : Bytes) :
    Pays (Store.consumeSeekGas value : GasM P Unit) store
      ((seekCharges store.gasConfig value).map UInt64.toNat).sum () store.parent := by
  unfold Store.consumeSeekGas
  apply Pays.getThe_bind
  have hperByte := pays_consumeGas (store.gasConfig.readCostPerByte * value.length.toUInt64)
    gasValuePerByteDesc store
  have hflat := pays_consumeGas store.gasConfig.iterNextCostFlat gasIterNextCostFlatDesc
    (store.paid (store.gasConfig.readCostPerByte * value.length.toUInt64).toNat store.parent)
  refine Pays.of_amount_eq (Pays.bind hperByte hflat) ?_
  simp [seekCharges]

theorem pays_get (key : Bytes) :
    Pays (Store.get kv key) store (((Op.get key).charges kv store.gasConfig store.parent).map UInt64.toNat).sum
      (kv.get store.parent key) store.parent := by
  unfold Store.get
  apply Pays.getThe_bind
  have hflat := pays_consumeGas store.gasConfig.readCostFlat gasReadCostFlatDesc store
  -- the value is read from the parent as the first charge left it, which is the same parent
  have hperByte := pays_consumeGas
    (store.gasConfig.readCostPerByte * ((kv.get store.parent key).getD []).length.toUInt64)
    gasReadPerByteDesc (store.paid store.gasConfig.readCostFlat.toNat store.parent)
  refine Pays.of_amount_eq (Pays.bind hflat (Pays.getThe_bind (Pays.bind hperByte (pays_pure _ _)))) ?_
  simp [Op.charges]

theorem pays_has (key : Bytes) :
    Pays (Store.has kv key) store (((Op.has key).charges kv store.gasConfig store.parent).map UInt64.toNat).sum
      (kv.has store.parent key) store.parent := by
  unfold Store.has
  apply Pays.getThe_bind
  have hcost := pays_consumeGas store.gasConfig.hasCost gasHasDesc store
  refine Pays.of_amount_eq (Pays.bind hcost (Pays.getThe_bind (pays_pure _ _))) ?_
  simp [Op.charges]

theorem pays_set (key value : Bytes) :
    Pays (Store.set kv key value) store
      (((Op.set key value).charges kv store.gasConfig store.parent).map UInt64.toNat).sum ()
      (kv.set store.parent key value) := by
  unfold Store.set
  apply Pays.getThe_bind
  have hflat := pays_consumeGas store.gasConfig.writeCostFlat gasWriteCostFlatDesc store
  have hperByte := pays_consumeGas (store.gasConfig.writeCostPerByte * value.length.toUInt64)
    gasWritePerByteDesc (store.paid store.gasConfig.writeCostFlat.toNat store.parent)
  have hwrite := pays_modifyThe (fun p => kv.set p key value)
    ((store.paid store.gasConfig.writeCostFlat.toNat store.parent).paid
      (store.gasConfig.writeCostPerByte * value.length.toUInt64).toNat store.parent)
  refine Pays.of_amount_eq (Pays.bind hflat (Pays.bind hperByte hwrite)) ?_
  simp [Op.charges]

theorem pays_delete (key : Bytes) :
    Pays (Store.delete kv key) store
      (((Op.delete key).charges kv store.gasConfig store.parent).map UInt64.toNat).sum ()
      (kv.delete store.parent key) := by
  unfold Store.delete
  apply Pays.getThe_bind
  have hcost := pays_consumeGas store.gasConfig.deleteCost gasDeleteDesc store
  have hdelete := pays_modifyThe (fun p => kv.delete p key)
    (store.paid store.gasConfig.deleteCost.toNat store.parent)
  refine Pays.of_amount_eq (Pays.bind hcost hdelete) ?_
  simp [Op.charges]

end Calls


section Iterators

/-- Reading every entry pays each entry's seek charges, in order, and writes nothing. -/
theorem pays_drain (entries : List (Bytes × Bytes)) (store : Store P) :
    Pays (Store.drain entries : GasM P _) store
      ((drainCharges store.gasConfig entries).map UInt64.toNat).sum entries store.parent := by
  induction entries generalizing store with
  | nil => exact Pays.of_amount_eq (pays_pure [] store) (by simp [drainCharges])
  | cons entry rest ih =>
    rw [Store.drain]
    have hseek := pays_consumeSeekGas store entry.2
    have hrest := ih (store.paid ((seekCharges store.gasConfig entry.2).map UInt64.toNat).sum store.parent)
    refine Pays.of_amount_eq (Pays.bind hseek (Pays.bind_pure hrest)) ?_
    simp [drainCharges]

/-- Making an iterator pays for the entry it starts at, if any, and returns the parent's
    listing in its direction. -/
theorem pays_iterator (start endKey : Option Bytes) (ascending : Bool) (store : Store P) :
    Pays (Store.iterator kv start endKey ascending) store
      ((iteratorCharges store.gasConfig (if ascending then kv.iterator store.parent start endKey
        else kv.reverseIterator store.parent start endKey)).map UInt64.toNat).sum
      (if ascending then kv.iterator store.parent start endKey
        else kv.reverseIterator store.parent start endKey) store.parent := by
  unfold Store.iterator
  apply Pays.getThe_bind
  generalize (if ascending then kv.iterator store.parent start endKey
    else kv.reverseIterator store.parent start endKey) = entries
  cases entries with
  | nil => exact Pays.of_amount_eq (pays_pure [] store) (by simp [iteratorCharges])
  | cons entry rest =>
    refine Pays.of_amount_eq (Pays.bind (pays_consumeSeekGas store entry.2) (pays_pure _ _)) ?_
    simp [iteratorCharges]

end Iterators

/-- Every call pays its charges before it writes, and then does to the parent what the call on
    the parent alone does. -/
theorem pays_exec (op : Op) (store : Store P) :
    Pays (Store.exec kv op) store ((op.charges kv store.gasConfig store.parent).map UInt64.toNat).sum
      (op.apply kv store.parent).1 (op.apply kv store.parent).2 := by
  cases op with
  | get key => exact Pays.bind_pure (pays_get kv store key)
  | has key => exact Pays.bind_pure (pays_has kv store key)
  | set key value => exact Pays.bind_pure (pays_set kv store key value)
  | delete key => exact Pays.bind_pure (pays_delete kv store key)
  | iterator start endKey =>
    refine Pays.of_amount_eq (Pays.bind (pays_iterator kv start endKey true store)
      (Pays.bind_pure (pays_drain _ _))) ?_
    simp [Op.charges]
  | reverseIterator start endKey =>
    refine Pays.of_amount_eq (Pays.bind (pays_iterator kv start endKey false store)
      (Pays.bind_pure (pays_drain _ _))) ?_
    simp [Op.charges]

theorem run_cons (op : Op) (ops : List Op) :
    (Store.run kv (op :: ops) : GasM P _) =
      Store.exec kv op >>= fun output => Store.run kv ops >>= fun outputs => pure (output :: outputs) :=
  List.mapM_cons


/-! ## Runs

A run of calls on the gas store is the run of `machine` against the meter's bound, from what
the meter has used. -/

/-- The gas store's run from `store`, which ended in `result`, against the machine's run, which
    ended in `r`: the same outputs, the same parent and the same amount used; or both stopped
    with the parent in the same state, the store with a gas panic and its meter's limit kept. -/
def Simulates (store : Store P) (result : Except Panic (List Output) × Store P) :
    Except (P × Nat) (List Output × P × Nat) → Prop
  | .ok (outputs, parent, used) =>
    result = (.ok outputs,
      { store with parent, gasMeter := { store.gasMeter with consumed := UInt64.ofNat used } })
  | .error (parent, _) =>
    ∃ e gasMeter, result = (.error e, { store with parent, gasMeter }) ∧
      gasMeter.limit = store.gasMeter.limit ∧ e.isGas

theorem run_simulates (ops : List Op) (store : Store P)
    (hused : store.gasMeter.consumed.toNat ≤ store.gasMeter.bound) :
    Simulates store ((Store.run kv ops).run.run store)
      ((machine kv store.gasConfig).run store.gasMeter.bound ops store.parent
        store.gasMeter.consumed.toNat) := by
  induction ops generalizing store with
  | nil =>
    show (pure [] : GasM P _).run.run store = _
    rw [run_pure, UInt64.ofNat_toNat]
  | cons op ops ih =>
    have hexec := pays_exec kv op store
    by_cases hop : store.gasMeter.consumed.toNat +
        ((op.charges kv store.gasConfig store.parent).map UInt64.toNat).sum ≤ store.gasMeter.bound
    · -- the call is paid for, and the rest runs from the store it left
      have hrest := ih (store.paid _ (op.apply kv store.parent).2)
        (by rw [Store.paid_consumed store _ hop, Store.paid_bound]; exact hop)
      rw [Store.paid_consumed store _ hop, Store.paid_gasConfig, Store.paid_bound,
        Store.paid_parent] at hrest
      rw [run_cons, run_bind_of_ok (hexec.ok hop)]
      simp only [Metered.Machine.run, machine_charges, machine_step, Metered.pay_of_le _ hop]
      revert hrest
      cases (machine kv store.gasConfig).run store.gasMeter.bound ops (op.apply kv store.parent).2
          (store.gasMeter.consumed.toNat +
            ((op.charges kv store.gasConfig store.parent).map UInt64.toNat).sum) with
      | ok r =>
        obtain ⟨outputs, parent, used⟩ := r
        intro hrest
        rw [Simulates] at hrest
        rw [run_bind_of_ok hrest, run_pure]
        rfl
      | error r =>
        obtain ⟨parent, used⟩ := r
        rintro ⟨e, gasMeter, hrun, hlimit, he⟩
        exact ⟨e, gasMeter, by rw [run_bind_of_error hrun]; rfl, hlimit, he⟩
    · -- the call runs out, before it writes
      obtain ⟨e, gasMeter, hrun, hlimit, he⟩ := hexec.error hused (Nat.lt_of_not_le hop)
      simp only [Metered.Machine.run, machine_charges, Metered.pay_of_lt _ hused (Nat.lt_of_not_le hop)]
      exact ⟨e, gasMeter, by rw [run_cons, run_bind_of_error hrun], hlimit, he⟩

/-- A run of calls on the gas store, from a meter within its bound, is the run of the calls on
    the parent alone when the meter covers the total of their charges, with that total added
    to the meter. Otherwise it stops at the first call whose charges the meter cannot cover:
    it panics for gas, with the parent as the calls before it left it and the meter's limit
    kept. -/
theorem run_gasStore (ops : List Op) (store : Store P)
    (hused : store.gasMeter.consumed.toNat ≤ store.gasMeter.bound) :
    (store.gasMeter.consumed.toNat + (machine kv store.gasConfig).cost ops store.parent ≤
        store.gasMeter.bound →
      (Store.run kv ops).run.run store =
        (.ok ((machine kv store.gasConfig).plain ops store.parent).1,
          store.paid ((machine kv store.gasConfig).cost ops store.parent)
            ((machine kv store.gasConfig).plain ops store.parent).2)) ∧
    (store.gasMeter.bound <
        store.gasMeter.consumed.toNat + (machine kv store.gasConfig).cost ops store.parent →
      ∃ pre op post, ops = pre ++ op :: post ∧
        store.gasMeter.consumed.toNat + (machine kv store.gasConfig).cost pre store.parent ≤
          store.gasMeter.bound ∧
        store.gasMeter.bound <
          store.gasMeter.consumed.toNat + (machine kv store.gasConfig).cost pre store.parent +
            ((op.charges kv store.gasConfig
              ((machine kv store.gasConfig).plain pre store.parent).2).map UInt64.toNat).sum ∧
        ∃ e gasMeter, (Store.run kv ops).run.run store =
            (.error e,
              { store with parent := ((machine kv store.gasConfig).plain pre store.parent).2, gasMeter }) ∧
          gasMeter.limit = store.gasMeter.limit ∧ e.isGas) := by
  have hsim := run_simulates kv ops store hused
  constructor
  · intro hle
    rw [Metered.Machine.run_eq_ok_of_le _ ops store.parent hle] at hsim
    exact hsim
  · intro hlt
    obtain ⟨pre, op, post, hops, hpre, hop, hrun⟩ :=
      Metered.Machine.run_eq_error_of_lt _ ops store.parent hused hlt
    rw [hrun] at hsim
    exact ⟨pre, op, post, hops, hpre, hop, hsim⟩


/-- Three calls on a store of two entries under a limit of `5000`: a `Get`, an iterator over
    the two entries and a `Set`, which cost `1003`, `99` and `2030`. -/
theorem run_gasStore_listing :
    (Store.run listingStore [.get [1], .iterator none none, .set [2] [20]]).run.run
        ({ gasMeter := { limit := some 5000, consumed := 0 }, gasConfig := kvGasConfig,
           parent := ⟨[([1], [10]), ([3], [30])], by decide⟩ } : Store _) =
      (.ok ((machine listingStore kvGasConfig).plain [.get [1], .iterator none none, .set [2] [20]]
          ⟨[([1], [10]), ([3], [30])], by decide⟩).1,
        ({ gasMeter := { limit := some 5000, consumed := 0 }, gasConfig := kvGasConfig,
           parent := ⟨[([1], [10]), ([3], [30])], by decide⟩ } : Store _).paid
          ((machine listingStore kvGasConfig).cost [.get [1], .iterator none none, .set [2] [20]]
            ⟨[([1], [10]), ([3], [30])], by decide⟩)
          ((machine listingStore kvGasConfig).plain [.get [1], .iterator none none, .set [2] [20]]
            ⟨[([1], [10]), ([3], [30])], by decide⟩).2) := by
  refine (run_gasStore listingStore _ _ ?_).1 ?_
  · decide
  · decide

example : (machine listingStore kvGasConfig).cost [.get [1], .iterator none none, .set [2] [20]]
    ⟨[([1], [10]), ([3], [30])], by decide⟩ = 3132 := by decide

end Friday.GasKV
