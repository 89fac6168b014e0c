import Friday.Store.CacheKV.MergeIterator
import Mathlib.Data.List.AList

/-! # `cachekv.Store`

`store/cachekv/store.go`: an in-memory cache wrapped around a parent `KVStore`.
`cache` maps every key read or written through the store to a `cValue`; a read
that misses fills it with the parent's value, clean. `Set` and `Delete` write
dirty entries and record their key in `unsortedCache`. An iterator first moves the
dirty keys of its domain from `unsortedCache` into `sortedCache`, the ascending
list of dirty entries that `newMemIterator` scans, and then merges the parent's
iterator with it. `Write` replays the dirty entries on the parent in key order and
empties the cache.

The parent is any state `P` with the operations of `KVStore`; its iterators are
read as the listings they yield. The Go map `cache` is an association list,
`unsortedCache` a list of distinct keys, and `sortedCache` a list of entries in
which `none` is a deleted key. The mutex and the `nil` key and value panics are
left out: the state is passed explicitly, and keys and values are never `nil`.
-/

namespace Friday.CacheKV

open SortedKV Friday.Store

variable {P K V : Type*}

/-- `cValue`: a `nil` value that is not `deleted` is a key the parent does not
    have. -/
structure CValue (V : Type*) where
  value : Option V
  deleted : Bool
  dirty : Bool

/-- `Store`, over a parent in state `P`. -/
structure Store (P K V : Type*) where
  cache : AList fun _ : K => CValue V
  unsortedCache : List K
  sortedCache : List (K × Option V)
  parent : P

/-- `NewStore`. -/
def newStore (parent : P) : Store P K V :=
  { cache := ∅, unsortedCache := [], sortedCache := [], parent }

namespace Store

variable [DecidableEq K] (kv : KVStore P K V)

/-- `setCacheValue`, the only place that writes `cache`. -/
def setCacheValue (store : Store P K V) (key : K) (value : Option V) (deleted dirty : Bool) :
    Store P K V :=
  { store with
    cache := store.cache.insert key { value, deleted, dirty }
    unsortedCache := if dirty then store.unsortedCache.insert key else store.unsortedCache }

@[simp] theorem setCacheValue_parent (store : Store P K V) (key : K) (value : Option V)
    (deleted dirty : Bool) : (store.setCacheValue key value deleted dirty).parent = store.parent :=
  rfl

@[simp] theorem setCacheValue_sortedCache (store : Store P K V) (key : K) (value : Option V)
    (deleted dirty : Bool) :
    (store.setCacheValue key value deleted dirty).sortedCache = store.sortedCache :=
  rfl

theorem lookup_setCacheValue (store : Store P K V) (key k : K) (value : Option V)
    (deleted dirty : Bool) :
    (store.setCacheValue key value deleted dirty).cache.lookup k =
      if k = key then some { value, deleted, dirty } else store.cache.lookup k := by
  by_cases h : k = key
  · subst h
    simp [setCacheValue, AList.lookup_insert]
  · simp [setCacheValue, AList.lookup_insert_ne h, h]

/-- `Get`: a miss asks the parent and caches its answer, clean. -/
def get (store : Store P K V) (key : K) : Store P K V × Option V :=
  match store.cache.lookup key with
  | none =>
      let value := kv.get store.parent key
      (store.setCacheValue key value false false, value)
  | some cacheValue => (store, cacheValue.value)

/-- `Set`. -/
def set (store : Store P K V) (key : K) (value : V) : Store P K V :=
  store.setCacheValue key (some value) false true

/-- `Has`. -/
def has (store : Store P K V) (key : K) : Store P K V × Bool :=
  let (store, value) := store.get kv key
  (store, value.isSome)

/-- `Delete`. -/
def delete (store : Store P K V) (key : K) : Store P K V :=
  store.setCacheValue key none true true

/-- One pass of `Write`'s loop: replay the cached entry of `key` on the parent. -/
def writeKey (cache : AList fun _ : K => CValue V) (parent : P) (key : K) : P :=
  match cache.lookup key with
  | some { deleted := true, .. } => kv.delete parent key
  -- skip, it already doesn't exist in parent
  | some { value := none, .. } => parent
  | some { value := some value, .. } => kv.set parent key value
  -- every key of the loop was read from `cache`
  | none => parent

variable [Ord K]

/-- `Write`: the dirty keys, sorted, replayed on the parent; then the cache is
    cleared. -/
def write (store : Store P K V) : Store P K V :=
  let keys := store.cache.entries.filterMap fun entry =>
    if entry.2.dirty then some entry.1 else none
  let keys := keys.mergeSort fun a b => (compare a b).isLE
  newStore (keys.foldl (writeKey kv store.cache) store.parent)

/-- The first loop of `dirtyItems`: the dirty items of the domain, sorted by key.
    `sort.Slice` sorts by `<`; on the distinct keys of a map that is the order `≤`
    sorts them in. -/
def unsortedItems (store : Store P K V) (start endKey : Option K) : List (K × Option V) :=
  -- every key of `unsortedCache` is in `cache`
  let unsorted := (store.unsortedCache.filter (isKeyInDomain · start endKey)).map fun key =>
    (key, (store.cache.lookup key).bind CValue.value)
  unsorted.mergeSort fun a b => (compare a.1 b.1).isLE

/-- `dirtyItems`: the dirty keys of the domain leave `unsortedCache` and are merged
    into `sortedCache`, a key already there taking its new value. -/
def dirtyItems (store : Store P K V) (start endKey : Option K) : Store P K V :=
  { store with
    unsortedCache := store.unsortedCache.filter fun key => !isKeyInDomain key start endKey
    sortedCache := mergeReplace compare store.sortedCache (store.unsortedItems start endKey) }

@[simp] theorem dirtyItems_cache (store : Store P K V) (start endKey : Option K) :
    (store.dirtyItems start endKey).cache = store.cache := rfl

@[simp] theorem dirtyItems_parent (store : Store P K V) (start endKey : Option K) :
    (store.dirtyItems start endKey).parent = store.parent := rfl

/-- `iterator`: the parent's iterator in the same direction, merged with a
    `memIterator` over `sortedCache` once the domain's dirty items are in it. -/
def iterator (store : Store P K V) (start endKey : Option K) (ascending : Bool) :
    Store P K V × CacheMergeIterator K V :=
  let parent := if ascending then kv.iterator store.parent start endKey
    else kv.reverseIterator store.parent start endKey
  let store := store.dirtyItems start endKey
  (store, { parent, cache := newMemIterator start endKey store.sortedCache ascending, ascending })

end Store

/-! ## Calls

A client drives the store with a sequence of calls. An iterator is consumed by the
loop of `CacheMergeIterator.drain` before the next call, as the `KVStore` contract
asks. -/

/-- A call on the store. -/
inductive Op (K V : Type*)
  | get (key : K)
  | has (key : K)
  | set (key : K) (value : V)
  | delete (key : K)
  | iterator (start endKey : Option K)
  | reverseIterator (start endKey : Option K)
  | write

/-- What a call returns: an iterator is returned as what draining it reads, where
    `none` is a panic. -/
inductive Output (K V : Type*)
  | value (value : Option V)
  | has (has : Bool)
  | entries (entries : Option (List (K × Option V)))
  | done

namespace Store

variable [DecidableEq K] [Ord K] [Std.OrientedOrd K] (kv : KVStore P K V)

/-- One call. `Iterator` and `ReverseIterator` are `iterator` in the two directions. -/
def exec (store : Store P K V) : Op K V → Store P K V × Output K V
  | .get key =>
      let (store, value) := store.get kv key
      (store, .value value)
  | .has key =>
      let (store, has) := store.has kv key
      (store, .has has)
  | .set key value => (store.set key value, .done)
  | .delete key => (store.delete key, .done)
  | .iterator start endKey =>
      let (store, iter) := store.iterator kv start endKey true
      (store, .entries iter.drain)
  | .reverseIterator start endKey =>
      let (store, iter) := store.iterator kv start endKey false
      (store, .entries iter.drain)
  | .write => (store.write kv, .done)

/-- A sequence of calls, with what each returned. -/
def run (store : Store P K V) : List (Op K V) → Store P K V × List (Output K V)
  | [] => (store, [])
  | op :: ops =>
      let (store, out) := store.exec kv op
      let (store, outs) := store.run ops
      (store, out :: outs)

end Store

end Friday.CacheKV
