import Friday.Lib.Lex
import Friday.Store.Types

/-! # Prefix ranges and the prefix store

`store/types/utils.go` and `store/prefix/store.go`. `PrefixEndBytes` drops the trailing
`0xff` bytes of a prefix and increments the last byte left. The keys with the prefix are
exactly the keys from the prefix up to that bound, and all keys from the prefix on when every
byte is `0xff` and there is no bound, so `KVStorePrefixIterator` lists exactly the keys with
the prefix (`prefixEndBytes_bounds`).

`prefix.Store` puts its prefix before every key and moves an iterator's bounds the same way,
with `PrefixEndBytes` for a missing end; its iterator strips the prefix and stops at the first
key without it. Over a parent that keeps the `KVStore` contract it keeps the contract, reading
the parent's keys that start with the prefix (`prefixStore_view`).
-/

namespace Friday.Store

open SortedKV

variable {P V : Type*}

/-! ## `PrefixEndBytes` -/

theorem compare_lt_succ_iff {b : UInt8} (hb : b ≠ 255) (c : UInt8) :
    compare c (b + 1) = .lt ↔ compare c b ≠ .gt := by
  rw [Std.compare_eq_lt, ne_eq, Std.compare_eq_gt, UInt8.lt_iff_toNat_lt, UInt8.lt_iff_toNat_lt,
    toNat_succ_of_ne_max hb]
  omega

theorem compare_max_ne_gt (c : UInt8) : compare c 255 ≠ .gt := by
  rw [ne_eq, Std.compare_eq_gt, UInt8.lt_iff_toNat_lt]
  have := c.toNat_lt
  simp only [UInt8.reduceToNat]
  omega

/-- The carry loop, on the prefix reversed: the keys with the prefix are the keys from the
    prefix up to the loop's result. -/
theorem prefix_iff_go (rs k : List UInt8) :
    rs.reverse <+: k ↔ compare k rs.reverse ≠ .lt ∧ ∀ e, prefixEndBytes.go rs = some e → compare e k = .gt := by
  induction rs with
  | nil => cases k <;> simp [prefixEndBytes.go]
  | cons b rest ih =>
    rw [List.reverse_cons]
    by_cases hb : b = 255
    · -- a trailing `0xff` is dropped, and the bound is the one of the bytes before it
      subst hb
      have hgo : prefixEndBytes.go (255 :: rest) = prefixEndBytes.go rest := by simp [prefixEndBytes.go]
      rw [Lex.prefix_append_iff_of_max compare_max_ne_gt, ih, hgo]
      constructor
      · rintro ⟨hle, -, hend⟩
        exact ⟨hle, hend⟩
      · rintro ⟨hle, hend⟩
        exact ⟨hle, Lex.compare_ne_lt_of_append hle, hend⟩
    · -- the last byte below `0xff` is incremented
      have hgo : prefixEndBytes.go (b :: rest) = some (rest.reverse ++ [b + 1]) := by
        simp [prefixEndBytes.go, hb]
      rw [Lex.prefix_append_iff_of_succ (compare_lt_succ_iff hb) rest.reverse k, hgo]
      simp

theorem prefix_iff_prefixEndBytes (pre k : List UInt8) :
    pre <+: k ↔ compare k pre ≠ .lt ∧ ∀ e, prefixEndBytes pre = some e → compare e k = .gt := by
  simpa [prefixEndBytes] using prefix_iff_go pre.reverse k

theorem go_eq_none_iff (rs : List UInt8) : prefixEndBytes.go rs = none ↔ ∀ b ∈ rs, b = 255 := by
  induction rs with
  | nil => simp [prefixEndBytes.go]
  | cons b rest ih =>
    by_cases hb : b = 255
    · simp [prefixEndBytes.go, hb, ih]
    · simp [prefixEndBytes.go, hb]

/-- `KVStorePrefixIterator`. -/
def kvStorePrefixIterator (kv : KVStore P (List UInt8) V) (p : P) (pre : List UInt8) : List (List UInt8 × V) :=
  kv.iterator p (some pre) (prefixEndBytes pre)

/-- `KVStoreReversePrefixIterator`. -/
def kvStoreReversePrefixIterator (kv : KVStore P (List UInt8) V) (p : P) (pre : List UInt8) :
    List (List UInt8 × V) :=
  kv.reverseIterator p (some pre) (prefixEndBytes pre)

/-- For every prefix, a key has it exactly when `IsKeyInDomain` puts it between the prefix and
    `PrefixEndBytes` of it; that bound is `nil` exactly when every byte is `0xff`. So the prefix
    iterators of a store that keeps the contract list exactly the keys with the prefix, in
    ascending and in descending order. -/
theorem prefixEndBytes_bounds (pre : List UInt8) :
    (∀ k, pre <+: k ↔ isKeyInDomain k (some pre) (prefixEndBytes pre) = true) ∧
      (prefixEndBytes pre = none ↔ ∀ b ∈ pre, b = 255) ∧
      ∀ kv : KVStore P (List UInt8) V, kv.Lawful → ∀ p,
        Lists compare (kv.get p) (pre <+: ·) (kvStorePrefixIterator kv p pre) ∧
        Lists (fun a b => compare b a) (kv.get p) (pre <+: ·) (kvStoreReversePrefixIterator kv p pre) := by
  have hdom : ∀ k, pre <+: k ↔ isKeyInDomain k (some pre) (prefixEndBytes pre) = true := by
    intro k
    rw [prefix_iff_prefixEndBytes]
    unfold isKeyInDomain
    cases prefixEndBytes pre <;> simp
  have hd : (pre <+: ·) = fun k => isKeyInDomain k (some pre) (prefixEndBytes pre) = true :=
    funext fun k => propext (hdom k)
  refine ⟨hdom, ?_, fun kv hkv p => ?_⟩
  · rw [prefixEndBytes, go_eq_none_iff]
    simp
  · rw [hd]
    exact ⟨hkv.iterator_lists p _ _, hkv.reverseIterator_lists p _ _⟩

/-- The prefix iterators of the listing store, for a prefix that ends in `0xff`. -/
theorem prefixEndBytes_bounds_listing :
    (listingStore (K := List UInt8) (V := Nat)).Lawful ∧
      ∀ p, Lists compare ((listingStore (V := Nat)).get p) ([1, 255] <+: ·) (kvStorePrefixIterator listingStore p [1, 255]) ∧
        Lists (fun a b => compare b a) ((listingStore (V := Nat)).get p) ([1, 255] <+: ·)
          (kvStoreReversePrefixIterator listingStore p [1, 255]) :=
  ⟨listingStore_lawful, (prefixEndBytes_bounds [1, 255]).2.2 listingStore listingStore_lawful⟩

/-! ## `prefix.Store` -/

/-- `Has`: whether `Get` finds the key, which is how the interface's stores answer it. -/
def KVStore.has {K : Type*} (store : KVStore P K V) (p : P) (key : K) : Bool :=
  (store.get p key).isSome

/-- `cloneAppend`: a fresh copy of the first bytes followed by the second. -/
def cloneAppend (bz tail : List UInt8) : List UInt8 :=
  bz ++ tail

/-- `stripPrefix`, on a key that starts with the prefix: the iterator checks that before it
    strips, and the source panics on any other key. -/
def stripPrefix (key pre : List UInt8) : List UInt8 :=
  key.drop pre.length

/-- `cpIncr`. -/
def cpIncr (bz : List UInt8) : Option (List UInt8) :=
  prefixEndBytes bz

/-- The parent's end bound of a prefix store's iterators (`newend`): the prefix incremented for
    a missing end, the prefix followed by the end otherwise. -/
def newEnd (pre : List UInt8) : Option (List UInt8) → Option (List UInt8)
  | none => cpIncr pre
  | some endKey => some (cloneAppend pre endKey)

/-- The entries a `prefixIterator` yields from its parent's: it stops at the first parent key
    without the prefix (`Next` re-checks the prefix), and strips the prefix from the keys before. -/
def prefixIterator (pre : List UInt8) : List (List UInt8 × V) → List (List UInt8 × V)
  | [] => []
  | entry :: rest =>
    if pre.isPrefixOf entry.1 then (stripPrefix entry.1 pre, entry.2) :: prefixIterator pre rest else []

/-- `prefix.Store` over a parent store: `Store.key` puts the prefix before each key, and the
    iterators move their bounds to the parent the same way, a missing start being the prefix. -/
def prefixStore (parent : KVStore P (List UInt8) V) (pre : List UInt8) : KVStore P (List UInt8) V where
  get p key := parent.get p (cloneAppend pre key)
  set p key value := parent.set p (cloneAppend pre key) value
  delete p key := parent.delete p (cloneAppend pre key)
  iterator p start endKey :=
    prefixIterator pre (parent.iterator p (some (cloneAppend pre (start.getD []))) (newEnd pre endKey))
  reverseIterator p start endKey :=
    prefixIterator pre (parent.reverseIterator p (some (cloneAppend pre (start.getD []))) (newEnd pre endKey))

theorem prefixIterator_of_forall {pre : List UInt8} {l : List (List UInt8 × V)} (h : ∀ e ∈ l, pre <+: e.1) :
    prefixIterator pre l = l.map fun e => (stripPrefix e.1 pre, e.2) := by
  induction l with
  | nil => rfl
  | cons e rest ih =>
    have he : pre.isPrefixOf e.1 = true := List.isPrefixOf_iff_prefix.mpr (h e (by simp))
    simp only [prefixIterator, he, if_true, List.map_cons]
    rw [ih fun e' he' => h e' (by simp [he'])]

theorem append_stripPrefix {pre key : List UInt8} (h : pre <+: key) : pre ++ stripPrefix key pre = key :=
  List.prefix_iff_eq_append.mp h

/-- A key inside the parent bounds of a prefix store's iterator has the prefix: the bounds lie
    from the prefix up to `PrefixEndBytes` of it or below. -/
theorem prefix_of_isKeyInDomain {pre k st : List UInt8} {endKey : Option (List UInt8)}
    (h : isKeyInDomain k (some (cloneAppend pre st)) (newEnd pre endKey) = true) : pre <+: k := by
  simp only [isKeyInDomain, Bool.and_eq_true, bne_iff_ne, ne_eq] at h
  obtain ⟨hlo, hhi⟩ := h
  refine (prefix_iff_prefixEndBytes pre k).mpr ⟨Lex.compare_ne_lt_of_append hlo, fun e he => ?_⟩
  cases endKey with
  | none => simpa [newEnd, cpIncr, he] using hhi
  | some endKey =>
    have hend : compare (pre ++ endKey) k = .gt := by simpa [newEnd, cloneAppend] using hhi
    have hbound := ((prefix_iff_prefixEndBytes pre (pre ++ endKey)).mp (List.prefix_append pre endKey)).2 e he
    exact Std.TransCmp.gt_trans hbound hend

/-- The parent bounds hold a key with the prefix exactly when the store's bounds hold the key
    without it. -/
theorem isKeyInDomain_append (pre k : List UInt8) (start endKey : Option (List UInt8)) :
    isKeyInDomain (pre ++ k) (some (cloneAppend pre (start.getD []))) (newEnd pre endKey) =
      isKeyInDomain k start endKey := by
  have hself : compare (pre ++ k) pre ≠ .lt := Lex.compare_ne_lt_of_prefix (List.prefix_append pre k)
  have hbound := ((prefix_iff_prefixEndBytes pre (pre ++ k)).mp (List.prefix_append pre k)).2
  cases start <;> cases endKey <;> cases hpe : prefixEndBytes pre <;>
    simp [isKeyInDomain, newEnd, cpIncr, cloneAppend, hpe, Lex.compare_append_left, hself, hbound]

/-- What the parent iterator lists over the translated bounds, the prefix iterator lists over
    the store's bounds and the keys without the prefix, in the order that drops the prefix. -/
theorem lists_prefixIterator {cmp : List UInt8 → List UInt8 → Ordering} {pre : List UInt8}
    (hcmp : ∀ a b, cmp (pre ++ a) (pre ++ b) = cmp a b) {m : List UInt8 → Option V}
    {d d' : List UInt8 → Prop} (hd : ∀ k, d k → pre <+: k) (hd' : ∀ k, d (pre ++ k) ↔ d' k)
    {l : List (List UInt8 × V)} (h : Lists cmp m d l) :
    Lists cmp (fun k => m (pre ++ k)) d' (prefixIterator pre l) := by
  have hall : ∀ e ∈ l, pre <+: e.1 := fun e he => hd _ ((h.2 e.1 e.2).mp he).1
  rw [prefixIterator_of_forall hall]
  constructor
  · -- dropping a common prefix keeps the order of the parent's keys
    refine List.pairwise_map.mpr (h.1.imp_of_mem fun {a b} ha hb hab => ?_)
    rw [← hcmp, append_stripPrefix (hall a ha), append_stripPrefix (hall b hb)]
    exact hab
  · intro k v
    constructor
    · intro hmem
      obtain ⟨e, he, hek⟩ := List.mem_map.mp hmem
      obtain ⟨hdom, hm⟩ := (h.2 e.1 e.2).mp he
      simp only [Prod.mk.injEq] at hek
      obtain ⟨rfl, rfl⟩ := hek
      have hkey := append_stripPrefix (hall e he)
      refine ⟨(hd' _).mp (by rwa [hkey]), ?_⟩
      simpa only [hkey] using hm
    · rintro ⟨hdom, hm⟩
      have hmem : (pre ++ k, v) ∈ l := (h.2 _ _).mpr ⟨(hd' k).mpr hdom, hm⟩
      exact List.mem_map.mpr ⟨_, hmem, by simp [stripPrefix]⟩

section Contract

variable {parent : KVStore P (List UInt8) V}

theorem get_prefixStore (pre : List UInt8) (p : P) :
    (prefixStore parent pre).get p = fun key => parent.get p (pre ++ key) :=
  rfl

/-- A write through the prefix store is the parent's write at the key with the prefix, read
    through the prefix. -/
theorem update_append (f : List UInt8 → Option V) (pre key : List UInt8) (o : Option V) :
    (fun k => Function.update f (pre ++ key) o (pre ++ k)) = Function.update (fun k => f (pre ++ k)) key o :=
  Function.update_comp_eq_of_injective f (List.append_right_injective pre) key o

theorem lists_iterator_prefixStore (hparent : parent.Lawful) (pre : List UInt8) (p : P)
    (start endKey : Option (List UInt8)) :
    Lists compare (fun k => parent.get p (pre ++ k)) (fun k => isKeyInDomain k start endKey)
      ((prefixStore parent pre).iterator p start endKey) :=
  lists_prefixIterator (Lex.compare_append_left pre) (fun _ => prefix_of_isKeyInDomain)
    (fun k => by rw [isKeyInDomain_append]) (hparent.iterator_lists p _ _)

theorem lists_reverseIterator_prefixStore (hparent : parent.Lawful) (pre : List UInt8) (p : P)
    (start endKey : Option (List UInt8)) :
    Lists (fun a b => compare b a) (fun k => parent.get p (pre ++ k)) (fun k => isKeyInDomain k start endKey)
      ((prefixStore parent pre).reverseIterator p start endKey) :=
  lists_prefixIterator (fun a b => Lex.compare_append_left pre b a) (fun _ => prefix_of_isKeyInDomain)
    (fun k => by rw [isKeyInDomain_append]) (hparent.reverseIterator_lists p _ _)

/-- Over a parent that keeps the `KVStore` contract, `prefix.Store` keeps it. -/
theorem prefixStore_lawful (hparent : parent.Lawful) (pre : List UInt8) : (prefixStore parent pre).Lawful where
  get_set p key value := by
    simp only [get_prefixStore]
    rw [← update_append]
    exact congrArg (fun f k => f (pre ++ k)) (hparent.get_set p (pre ++ key) value)
  get_delete p key := by
    simp only [get_prefixStore]
    rw [← update_append]
    exact congrArg (fun f k => f (pre ++ k)) (hparent.get_delete p (pre ++ key))
  iterator_lists := lists_iterator_prefixStore hparent pre
  reverseIterator_lists := lists_reverseIterator_prefixStore hparent pre

/-- The prefix store is the parent seen through the prefix: its iterators list, in ascending and
    in descending order, exactly the parent's entries `(pre ++ k, v)` with `k` in the bounds,
    keyed by `k`; `Get` and `Has` read, and `Set` and `Delete` write, the parent at `pre ++ k`
    and nowhere else; and it keeps the contract itself. -/
theorem prefixStore_view (hparent : parent.Lawful) (pre : List UInt8) :
    (∀ p start endKey,
      Lists compare (fun k => parent.get p (pre ++ k)) (fun k => isKeyInDomain k start endKey)
          ((prefixStore parent pre).iterator p start endKey) ∧
        Lists (fun a b => compare b a) (fun k => parent.get p (pre ++ k)) (fun k => isKeyInDomain k start endKey)
          ((prefixStore parent pre).reverseIterator p start endKey)) ∧
      (∀ p key, (prefixStore parent pre).get p key = parent.get p (pre ++ key)) ∧
      (∀ p key, (prefixStore parent pre).has p key = parent.has p (pre ++ key)) ∧
      (∀ p key value, parent.get ((prefixStore parent pre).set p key value) =
        Function.update (parent.get p) (pre ++ key) (some value)) ∧
      (∀ p key, parent.get ((prefixStore parent pre).delete p key) = Function.update (parent.get p) (pre ++ key) none) ∧
      (prefixStore parent pre).Lawful :=
  ⟨fun p start endKey => ⟨lists_iterator_prefixStore hparent pre p start endKey,
      lists_reverseIterator_prefixStore hparent pre p start endKey⟩,
    fun _ _ => rfl, fun _ _ => rfl, fun p key value => hparent.get_set p (pre ++ key) value,
    fun p key => hparent.get_delete p (pre ++ key), prefixStore_lawful hparent pre⟩

end Contract

/-- The view over the listing store, through a prefix that `PrefixEndBytes` carries past. -/
theorem prefixStore_view_listing :
    (listingStore (K := List UInt8) (V := Nat)).Lawful ∧
      (∀ p start endKey,
        Lists compare (fun k => (listingStore (V := Nat)).get p ([1, 255] ++ k)) (fun k => isKeyInDomain k start endKey)
            ((prefixStore (listingStore (V := Nat)) [1, 255]).iterator p start endKey) ∧
          Lists (fun a b => compare b a) (fun k => (listingStore (V := Nat)).get p ([1, 255] ++ k))
            (fun k => isKeyInDomain k start endKey) ((prefixStore (listingStore (V := Nat)) [1, 255]).reverseIterator p start endKey)) ∧
      (∀ p key, (prefixStore (listingStore (V := Nat)) [1, 255]).get p key = (listingStore (V := Nat)).get p ([1, 255] ++ key)) ∧
      (∀ p key, (prefixStore (listingStore (V := Nat)) [1, 255]).has p key = (listingStore (V := Nat)).has p ([1, 255] ++ key)) ∧
      (∀ p key value, (listingStore (V := Nat)).get ((prefixStore (listingStore (V := Nat)) [1, 255]).set p key value) =
        Function.update ((listingStore (V := Nat)).get p) ([1, 255] ++ key) (some value)) ∧
      (∀ p key, (listingStore (V := Nat)).get ((prefixStore (listingStore (V := Nat)) [1, 255]).delete p key) =
        Function.update ((listingStore (V := Nat)).get p) ([1, 255] ++ key) none) ∧
      (prefixStore (listingStore (V := Nat)) [1, 255]).Lawful :=
  ⟨listingStore_lawful, prefixStore_view listingStore_lawful [1, 255]⟩

end Friday.Store
