import Friday.Lib.SortedKV
import Mathlib.Logic.Function.Basic

/-! # The `types.KVStore` contract

`store/types/store.go` declares the `KVStore` interface that every store of the
application implements and that a cache store wraps: `Get`, `Has`, `Set`,
`Delete`, `Iterator` and `ReverseIterator` over byte keys. Here a store is a
state type with those operations; an iterator, consumed before the next write as
the interface's contract requires, is read as the list of entries it yields.

`KVStore.Lawful` is what the interface promises and what `cachekv.Store` relies
on of its parent: `Get` reads a finite map, `Set` and `Delete` update it at one
key, and the two iterators list the map on the domain `[start, end)` in
ascending and descending key order.
-/

namespace Friday.Store

variable {P K V : Type*}

/-- tm-db's `IsKeyInDomain`: `start ≤ key < end`; a `nil` bound does not bound. -/
def isKeyInDomain [Ord K] (key : K) (start endKey : Option K) : Bool :=
  (match start with
    | none => true
    | some start => compare key start != .lt) &&
  (match endKey with
    | none => true
    | some endKey => compare endKey key == .gt)

/-- `PrefixEndBytes`: the least key above every key with the prefix, `nil` when
    there is none. -/
def prefixEndBytes (pre : List UInt8) : Option (List UInt8) :=
  go pre.reverse
where
  /-- Drop trailing `0xff` bytes (the list is reversed) and increment the last one. -/
  go : List UInt8 → Option (List UInt8)
    | [] => none
    | b :: rest => if b ≠ 255 then some ((b + 1) :: rest).reverse else go rest

theorem prefixEndBytes_singleton {p : UInt8} (hp : p ≠ 255) : prefixEndBytes [p] = some [p + 1] := by
  simp [prefixEndBytes, prefixEndBytes.go, hp]

theorem toNat_succ_of_ne_max {b : UInt8} (hb : b ≠ 255) : (b + 1).toNat = b.toNat + 1 := by
  have hne : b.toNat ≠ 255 := fun h => hb (UInt8.toNat_inj.mp h)
  have hlt := b.toNat_lt
  rw [UInt8.toNat_add, UInt8.toNat_one, Nat.mod_eq_of_lt (by omega)]

/-- A prefix iterator over a one-byte prefix visits the keys that start with that
    byte, and no other. -/
theorem isKeyInDomain_cons_prefix {p : UInt8} (hp : p ≠ 255) (b : UInt8) (rest : List UInt8) :
    isKeyInDomain (b :: rest) (some [p]) (prefixEndBytes [p]) = true ↔ b = p := by
  have hr : compare rest [] ≠ .lt := by cases rest <;> simp
  have hl : compare [] rest ≠ .gt := by cases rest <;> simp
  simp [isKeyInDomain, prefixEndBytes_singleton hp, List.compare_cons_cons, Ordering.then_eq_lt,
    Ordering.then_eq_gt, hr, hl, Std.compare_eq_lt, Std.compare_eq_gt]
  rw [UInt8.le_iff_toNat_le, UInt8.lt_iff_toNat_lt, ← UInt8.toNat_inj, toNat_succ_of_ne_max hp]
  omega

/-- The operations of a `KVStore` on states `P`. -/
structure KVStore (P K V : Type*) where
  get : P → K → Option V
  set : P → K → V → P
  delete : P → K → P
  iterator : P → Option K → Option K → List (K × V)
  reverseIterator : P → Option K → Option K → List (K × V)

/-- The interface's contract, over the finite map that `get` reads. -/
structure KVStore.Lawful [Ord K] [DecidableEq K] (store : KVStore P K V) : Prop where
  get_set : ∀ p key value, store.get (store.set p key value) = Function.update (store.get p) key (some value)
  get_delete : ∀ p key, store.get (store.delete p key) = Function.update (store.get p) key none
  iterator_lists : ∀ p start endKey,
    SortedKV.Lists compare (store.get p) (fun key => isKeyInDomain key start endKey)
      (store.iterator p start endKey)
  reverseIterator_lists : ∀ p start endKey,
    SortedKV.Lists (fun a b => compare b a) (store.get p) (fun key => isKeyInDomain key start endKey)
      (store.reverseIterator p start endKey)

section Listing

open SortedKV

variable [Ord K] [DecidableEq K] [Std.TransOrd K] [Std.LawfulEqOrd K]

/-- The simplest store that keeps the contract: its state is the ascending listing of
    its contents, and a write overlays a one-entry listing. -/
def listingStore : KVStore {l : List (K × V) // Ascending compare l} K V where
  get p key := p.1.lookup key
  set p key value := ⟨overlay compare p.1 [(key, some value)], overlay_ascending p.2 (by simp [Ascending])⟩
  delete p key := ⟨overlay compare p.1 [(key, none)], overlay_ascending p.2 (by simp [Ascending])⟩
  iterator p start endKey := p.1.filter (isKeyInDomain ·.1 start endKey)
  reverseIterator p start endKey := (p.1.filter (isKeyInDomain ·.1 start endKey)).reverse

omit [Std.TransOrd K] in
theorem lists_lookup (p : {l : List (K × V) // Ascending compare l}) :
    Lists compare (p.1.lookup ·) (fun _ => True) p.1 :=
  ⟨p.2, fun k v => by simp [Ascending.lookup_eq_some_iff p.2]⟩

omit [Std.TransOrd K] [Std.LawfulEqOrd K] in
theorem lists_singleton (key : K) (o : Option V) :
    Lists compare (Function.update (fun _ => none) key (some o)) (fun _ => True) [(key, o)] := by
  refine ⟨by simp [Ascending], fun k w => ?_⟩
  by_cases h : k = key
  · subst h
    simp [eq_comm]
  · simp [h]

theorem get_overlay_singleton (p : {l : List (K × V) // Ascending compare l}) (key : K)
    (o : Option V) (k : K) :
    (overlay compare p.1 [(key, o)]).lookup k = Function.update (p.1.lookup ·) key o k := by
  rw [Lists.lookup_eq (Lists.overlay (lists_lookup p) (lists_singleton key o))]
  by_cases h : k = key
  · subst h
    simp
  · simp [h]

omit [Std.TransOrd K] in
theorem lists_filter (p : {l : List (K × V) // Ascending compare l}) (start endKey : Option K) :
    Lists compare (p.1.lookup ·) (isKeyInDomain · start endKey)
      (p.1.filter (isKeyInDomain ·.1 start endKey)) :=
  ⟨p.2.sublist List.filter_sublist, fun k v => by
    simp [Ascending.lookup_eq_some_iff p.2, and_comm]⟩

theorem listingStore_lawful : (listingStore (K := K) (V := V)).Lawful where
  get_set p key value := funext (get_overlay_singleton p key (some value))
  get_delete p key := funext (get_overlay_singleton p key none)
  iterator_lists := lists_filter
  reverseIterator_lists p start endKey := (lists_filter p start endKey).reverse

/-- The same store with writes that insert or remove one entry in place
    (`setEntry`, `deleteEntry`), by structural recursion, so that it computes. -/
def sortedStore : KVStore {l : List (K × V) // Ascending compare l} K V where
  get p key := p.1.lookup key
  set p key value := ⟨setEntry compare key value p.1, by
    rw [setEntry_eq_overlay]
    exact overlay_ascending p.2 (by simp [Ascending])⟩
  delete p key := ⟨deleteEntry compare key p.1, by
    rw [deleteEntry_eq_overlay]
    exact overlay_ascending p.2 (by simp [Ascending])⟩
  iterator p start endKey := p.1.filter (isKeyInDomain ·.1 start endKey)
  reverseIterator p start endKey := (p.1.filter (isKeyInDomain ·.1 start endKey)).reverse

theorem sortedStore_eq_listingStore :
    (sortedStore : KVStore {l : List (K × V) // Ascending compare l} K V) = listingStore := by
  simp only [sortedStore, listingStore, setEntry_eq_overlay, deleteEntry_eq_overlay]

theorem sortedStore_lawful : (sortedStore (K := K) (V := V)).Lawful := by
  rw [sortedStore_eq_listingStore]
  exact listingStore_lawful

end Listing

end Friday.Store
