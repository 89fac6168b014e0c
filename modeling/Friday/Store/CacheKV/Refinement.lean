import Friday.Store.CacheKV.Store
import Friday.Lib.WriteBack

/-! # `cachekv.Store` refines a write-back overlay

Over a parent that keeps the `KVStore` contract, the cache store behaves as the
write-back overlay of `WriteBack`: its dirty entries are the pending updates, the
parent is the base, reads and iterators see the overlay, and `Write` flushes it.

`Inv` is what the four structures of the store keep to between calls: clean
entries cache the parent, a dirty entry is a tombstone exactly when it holds no
value, and every dirty key is waiting in `unsortedCache` or already merged into the
ascending `sortedCache`, where its value is current unless it is waiting again.
Each call keeps `Inv` and moves the abstract state as its abstract operation does
(`get_spec`, `set_spec`, `delete_spec`, `iterator_spec`, `write_spec`); `run_spec`
chains them over any sequence of calls.
-/

namespace Friday.CacheKV

open SortedKV Friday.Store

variable {P K V : Type*}

namespace Store

section Abstract

variable [DecidableEq K] (kv : KVStore P K V)

/-- The update a cached entry holds back: only a dirty entry holds one. -/
def pending (store : Store P K V) (k : K) : Option (Option V) :=
  (store.cache.lookup k).bind fun cacheValue =>
    if cacheValue.dirty then some cacheValue.value else none

/-- The write-back state a store stands for: its parent under its dirty entries. -/
def abstract (store : Store P K V) : WriteBack K V := ⟨kv.get store.parent, store.pending⟩

theorem pending_eq_some {store : Store P K V} {k : K} {o : Option V} :
    store.pending k = some o ↔
      ∃ cv, store.cache.lookup k = some cv ∧ cv.dirty = true ∧ cv.value = o := by
  simp only [pending, Option.bind_eq_some_iff, Option.ite_none_right_eq_some, Option.some.injEq]

theorem pending_of_lookup_eq_none {store : Store P K V} {k : K}
    (h : store.cache.lookup k = none) : store.pending k = none := by
  simp [pending, h]

theorem bind_value_of_pending {store : Store P K V} {k : K} {o : Option V}
    (h : store.pending k = some o) : (store.cache.lookup k).bind CValue.value = o := by
  obtain ⟨cv, hk, -, rfl⟩ := pending_eq_some.mp h
  simp [hk]

theorem pending_setCacheValue (store : Store P K V) (key k : K) (value : Option V)
    (deleted dirty : Bool) :
    (store.setCacheValue key value deleted dirty).pending k =
      if k = key then (if dirty then some value else none) else store.pending k := by
  by_cases h : k = key
  · simp [pending, lookup_setCacheValue, h]
  · simp only [pending, lookup_setCacheValue, h, if_false]

theorem mem_unsortedCache_setCacheValue {store : Store P K V} {key k : K} {value : Option V}
    {deleted dirty : Bool} :
    k ∈ (store.setCacheValue key value deleted dirty).unsortedCache ↔
      (dirty = true ∧ k = key) ∨ k ∈ store.unsortedCache := by
  cases dirty <;> simp [setCacheValue, List.mem_insert_iff]

variable [Ord K]

/-- What the store's structures keep to between calls. -/
structure Inv (store : Store P K V) : Prop where
  /-- A clean entry caches the parent's value. -/
  clean : ∀ k cv, store.cache.lookup k = some cv → cv.dirty = false →
    cv.value = kv.get store.parent k
  /-- A dirty entry is deleted exactly when it holds no value. -/
  tombstone : ∀ k cv, store.cache.lookup k = some cv → cv.dirty = true →
    (cv.deleted = true ↔ cv.value = none)
  unsorted_dirty : ∀ k ∈ store.unsortedCache, ∃ o, store.pending k = some o
  unsorted_nodup : store.unsortedCache.Nodup
  sorted_ascending : Ascending compare store.sortedCache
  /-- An item of `sortedCache` is dirty, and current unless its key waits in
      `unsortedCache`. -/
  sorted_dirty : ∀ k w, (k, w) ∈ store.sortedCache →
    ∃ o, store.pending k = some o ∧ (k ∉ store.unsortedCache → w = o)
  /-- A dirty key waits in `unsortedCache` or is already in `sortedCache`. -/
  dirty_tracked : ∀ k o, store.pending k = some o →
    k ∈ store.unsortedCache ∨ ∃ w, (k, w) ∈ store.sortedCache

theorem inv_newStore (parent : P) : (newStore parent : Store P K V).Inv kv where
  clean k cv hk := by simp [newStore, AList.lookup_empty] at hk
  tombstone k cv hk := by simp [newStore, AList.lookup_empty] at hk
  unsorted_dirty k hk := by simp [newStore] at hk
  unsorted_nodup := List.nodup_nil
  sorted_ascending := ascending_nil
  sorted_dirty k w hk := by simp [newStore] at hk
  dirty_tracked k o hk := by simp [newStore, pending, AList.lookup_empty] at hk

variable {kv}

theorem Inv.read_of_lookup {store : Store P K V} (h : store.Inv kv) {k : K} {cv : CValue V}
    (hk : store.cache.lookup k = some cv) : (store.abstract kv).read k = cv.value := by
  cases hd : cv.dirty with
  | true => simp [abstract, WriteBack.read, pending, hk, hd]
  | false => simp [abstract, WriteBack.read, pending, hk, hd, h.clean k cv hk hd]

omit [Ord K] in
theorem read_of_lookup_eq_none {store : Store P K V} {k : K} (hk : store.cache.lookup k = none) :
    (store.abstract kv).read k = kv.get store.parent k := by
  simp [abstract, WriteBack.read, pending_of_lookup_eq_none hk]

omit [Ord K] in
theorem abstract_newStore (parent : P) :
    (newStore parent : Store P K V).abstract kv = WriteBack.clean (kv.get parent) := by
  ext k : 2
  · rfl
  · simp [abstract, WriteBack.clean, newStore, pending, AList.lookup_empty]

end Abstract

section Writes

variable [DecidableEq K] [Ord K] {kv : KVStore P K V} {store : Store P K V}

/-- `setCacheValue` keeps the invariant when a clean entry is added for a missing key
    with the parent's value, and when a dirty entry is a tombstone exactly when it has
    no value. -/
theorem Inv.setCacheValue (h : store.Inv kv) {key : K} {value : Option V} {deleted dirty : Bool}
    (hclean : dirty = false → store.cache.lookup key = none ∧ value = kv.get store.parent key)
    (htomb : dirty = true → (deleted = true ↔ value = none)) :
    (store.setCacheValue key value deleted dirty).Inv kv := by
  -- a key with a pending update is cached, so a clean write never meets one
  have hfresh : dirty = false → ∀ o, store.pending key ≠ some o := fun hd o ho => by
    simp [pending_of_lookup_eq_none (hclean hd).1] at ho
  constructor
  · intro k cv hk hd
    rw [lookup_setCacheValue] at hk
    split_ifs at hk with hkey
    · cases hk
      simpa [hkey] using (hclean hd).2
    · simpa using h.clean k cv hk hd
  · intro k cv hk hd
    rw [lookup_setCacheValue] at hk
    split_ifs at hk with hkey
    · cases hk
      exact htomb hd
    · exact h.tombstone k cv hk hd
  · intro k hk
    rw [mem_unsortedCache_setCacheValue] at hk
    rw [pending_setCacheValue]
    split_ifs with hkey hd
    · exact ⟨value, rfl⟩
    · obtain ⟨o, ho⟩ := h.unsorted_dirty k (hk.resolve_left (by simp [hd]))
      exact absurd (hkey ▸ ho) (hfresh (by simpa using hd) o)
    · exact h.unsorted_dirty k (hk.resolve_left (by simp [hkey]))
  · cases dirty
    · exact h.unsorted_nodup
    · exact h.unsorted_nodup.insert
  · exact h.sorted_ascending
  · intro k w hk
    obtain ⟨o, ho, hw⟩ := h.sorted_dirty k w hk
    rw [pending_setCacheValue]
    split_ifs with hkey hd
    · exact ⟨value, rfl, fun hnot => absurd (mem_unsortedCache_setCacheValue.mpr (.inl ⟨hd, hkey⟩)) hnot⟩
    · exact absurd (hkey ▸ ho) (hfresh (by simpa using hd) o)
    · exact ⟨o, ho, fun hnot => hw fun hk' => hnot (mem_unsortedCache_setCacheValue.mpr (.inr hk'))⟩
  · intro k o hk
    rw [pending_setCacheValue] at hk
    split_ifs at hk with hkey hd
    · exact .inl (mem_unsortedCache_setCacheValue.mpr (.inl ⟨hd, hkey⟩))
    · rcases h.dirty_tracked k o hk with hu | hs
      · exact .inl (mem_unsortedCache_setCacheValue.mpr (.inr hu))
      · exact .inr hs

omit [Ord K] in
/-- A dirty `setCacheValue` holds the value back as the key's pending update. -/
theorem abstract_setCacheValue_dirty (key : K) (value : Option V) (deleted : Bool) :
    (store.setCacheValue key value deleted true).abstract kv = (store.abstract kv).put key value := by
  ext k : 2
  · rfl
  · by_cases h : k = key
    · simp [abstract, WriteBack.put, pending_setCacheValue, h]
    · simp [abstract, WriteBack.put, pending_setCacheValue, h]

omit [Ord K] in
/-- A clean `setCacheValue` at a missing key changes nothing the overlay holds. -/
theorem abstract_setCacheValue_clean {key : K} (hk : store.cache.lookup key = none)
    (value : Option V) (deleted : Bool) :
    (store.setCacheValue key value deleted false).abstract kv = store.abstract kv := by
  ext k : 2
  · rfl
  · by_cases h : k = key
    · simp [abstract, pending_setCacheValue, h, pending_of_lookup_eq_none hk]
    · simp [abstract, pending_setCacheValue, h]

/-- `Get` reads the overlay; a miss caches the parent's value, which the overlay
    already read. -/
theorem get_spec (h : store.Inv kv) (key : K) :
    (store.get kv key).2 = (store.abstract kv).read key ∧ (store.get kv key).1.Inv kv ∧
      (store.get kv key).1.abstract kv = store.abstract kv := by
  unfold get
  split
  · rename_i hk
    exact ⟨(read_of_lookup_eq_none hk).symm,
      h.setCacheValue (fun _ => ⟨hk, rfl⟩) (fun hd => absurd hd (by simp)),
      abstract_setCacheValue_clean hk _ _⟩
  · rename_i cv hk
    exact ⟨(h.read_of_lookup hk).symm, h, rfl⟩

theorem has_spec (h : store.Inv kv) (key : K) :
    (store.has kv key).2 = ((store.abstract kv).read key).isSome ∧ (store.has kv key).1.Inv kv ∧
      (store.has kv key).1.abstract kv = store.abstract kv := by
  obtain ⟨hv, hinv, habs⟩ := get_spec h key
  exact ⟨by simp [has, hv], hinv, habs⟩

theorem set_spec (h : store.Inv kv) (key : K) (value : V) :
    (store.set key value).Inv kv ∧
      (store.set key value).abstract kv = (store.abstract kv).put key (some value) :=
  ⟨h.setCacheValue (fun hd => absurd hd (by simp)) (fun _ => by simp),
    abstract_setCacheValue_dirty key (some value) false⟩

theorem delete_spec (h : store.Inv kv) (key : K) :
    (store.delete key).Inv kv ∧ (store.delete key).abstract kv = (store.abstract kv).put key none :=
  ⟨h.setCacheValue (fun hd => absurd hd (by simp)) (fun _ => by simp),
    abstract_setCacheValue_dirty key none true⟩

end Writes

section DirtyItems

variable [DecidableEq K] [Ord K] [Std.TransOrd K] [Std.LawfulEqOrd K]
  {kv : KVStore P K V} {store : Store P K V} {start endKey : Option K}

omit [Std.TransOrd K] [Std.LawfulEqOrd K] in
theorem mem_unsortedItems {x : K × Option V} :
    x ∈ store.unsortedItems start endKey ↔
      x.1 ∈ store.unsortedCache ∧ isKeyInDomain x.1 start endKey = true ∧
        x.2 = (store.cache.lookup x.1).bind CValue.value := by
  obtain ⟨k, w⟩ := x
  simp only [unsortedItems, List.mem_mergeSort, List.mem_map, List.mem_filter, Prod.mk.injEq]
  constructor
  · rintro ⟨k', ⟨hk', hdom⟩, rfl, rfl⟩
    exact ⟨hk', hdom, rfl⟩
  · rintro ⟨hk, hdom, rfl⟩
    exact ⟨k, ⟨hk, hdom⟩, rfl, rfl⟩

omit [Std.TransOrd K] [Std.LawfulEqOrd K] in
theorem mem_unsortedItems_of_mem {k : K} (hk : k ∈ store.unsortedCache)
    (hdom : isKeyInDomain k start endKey = true) :
    (k, (store.cache.lookup k).bind CValue.value) ∈ store.unsortedItems start endKey :=
  mem_unsortedItems.mpr ⟨hk, hdom, rfl⟩

theorem unsortedItems_ascending (start endKey : Option K) (h : store.unsortedCache.Nodup) :
    Ascending compare (store.unsortedItems start endKey) := by
  apply ascending_mergeSort
  rw [List.map_map]
  exact (h.filter _).map_on fun _ _ _ _ hxy => hxy

/-- On the domain, the merged `sortedCache` holds exactly the pending updates. -/
theorem Inv.mem_dirtyItems_sortedCache (h : store.Inv kv) {k : K} {w : Option V}
    (hdom : isKeyInDomain k start endKey = true) :
    (k, w) ∈ (store.dirtyItems start endKey).sortedCache ↔ store.pending k = some w := by
  have hu := unsortedItems_ascending start endKey h.unsorted_nodup
  simp only [dirtyItems, mem_mergeReplace h.sorted_ascending hu, mem_unsortedItems]
  constructor
  · rintro (⟨hk, -, rfl⟩ | ⟨hs, hnot⟩)
    · obtain ⟨o, ho⟩ := h.unsorted_dirty k hk
      rwa [bind_value_of_pending ho]
    · obtain ⟨o, ho, hw⟩ := h.sorted_dirty k w hs
      have hk : k ∉ store.unsortedCache := fun hk => hnot _ ⟨hk, hdom, rfl⟩
      rwa [hw hk]
  · intro hw
    by_cases hk : k ∈ store.unsortedCache
    · exact .inl ⟨hk, hdom, (bind_value_of_pending hw).symm⟩
    · refine .inr ⟨?_, fun w' hw' => hk hw'.1⟩
      obtain ⟨w', hs⟩ := (h.dirty_tracked k w hw).resolve_left hk
      obtain ⟨o, ho, hw'⟩ := h.sorted_dirty k w' hs
      rw [ho, Option.some.injEq] at hw
      rwa [← hw, ← hw' hk]

theorem Inv.dirtyItems (h : store.Inv kv) : (store.dirtyItems start endKey).Inv kv := by
  have hu := unsortedItems_ascending start endKey h.unsorted_nodup
  have hmem := mem_mergeReplace h.sorted_ascending hu
  constructor
  · exact h.clean
  · exact h.tombstone
  · intro k hk
    exact h.unsorted_dirty k (List.mem_filter.mp hk).1
  · exact h.unsorted_nodup.filter _
  · exact mergeReplace_ascending h.sorted_ascending hu
  · intro k w hk
    rcases (hmem (k, w)).mp hk with hu' | ⟨hs, hnot⟩
    · obtain ⟨hk', -, hw⟩ := mem_unsortedItems.mp hu'
      obtain ⟨o, ho⟩ := h.unsorted_dirty k hk'
      exact ⟨o, ho, fun _ => hw.trans (bind_value_of_pending ho)⟩
    · obtain ⟨o, ho, hw⟩ := h.sorted_dirty k w hs
      refine ⟨o, ho, fun hk' => hw fun hku => ?_⟩
      -- a waiting key that left `unsortedCache` is in the domain, so it was merged
      have hdom : isKeyInDomain k start endKey = true := by
        by_contra hdom
        exact hk' (List.mem_filter.mpr ⟨hku, by simpa using hdom⟩)
      exact hnot _ (mem_unsortedItems_of_mem hku hdom)
  · intro k o hk
    by_cases hku : k ∈ store.unsortedCache
    · by_cases hdom : isKeyInDomain k start endKey = true
      · exact .inr ⟨_, (hmem _).mpr (.inl (mem_unsortedItems_of_mem hku hdom))⟩
      · exact .inl (List.mem_filter.mpr ⟨hku, by simpa using hdom⟩)
    · obtain ⟨w, hs⟩ := (h.dirty_tracked k o hk).resolve_left hku
      by_cases hnew : ∃ w', (k, w') ∈ store.unsortedItems start endKey
      · obtain ⟨w', hw'⟩ := hnew
        exact .inr ⟨w', (hmem _).mpr (.inl hw')⟩
      · exact .inr ⟨w, (hmem _).mpr (.inr ⟨hs, fun w' hw' => hnew ⟨w', hw'⟩⟩)⟩

/-- The items `newMemIterator` keeps list the pending updates of the domain. -/
theorem Inv.lists_dirtyItems (h : store.Inv kv) (start endKey : Option K) :
    Lists compare store.pending (isKeyInDomain · start endKey)
      ((store.dirtyItems start endKey).sortedCache.filter
        fun item => isKeyInDomain item.1 start endKey) := by
  refine ⟨h.dirtyItems.sorted_ascending.sublist List.filter_sublist, fun k w => ?_⟩
  rw [List.mem_filter]
  constructor
  · rintro ⟨hk, hdom⟩
    exact ⟨hdom, (h.mem_dirtyItems_sortedCache hdom).mp hk⟩
  · rintro ⟨hdom, hw⟩
    exact ⟨(h.mem_dirtyItems_sortedCache hdom).mpr hw, hdom⟩

/-- An iterator lists the overlay on its domain in its direction, and creating it
    keeps the invariant and the overlay. -/
theorem iterator_spec (hkv : kv.Lawful) (h : store.Inv kv) (start endKey : Option K)
    (ascending : Bool) :
    (store.iterator kv start endKey ascending).1.Inv kv ∧
      (store.iterator kv start endKey ascending).1.abstract kv = store.abstract kv ∧
      Lists (compareDir ascending) (store.abstract kv).read (isKeyInDomain · start endKey)
        (store.iterator kv start endKey ascending).2.view := by
  refine ⟨h.dirtyItems, rfl, ?_⟩
  have hitems : (newMemIterator start endKey (store.dirtyItems start endKey).sortedCache
      ascending).items = (store.dirtyItems start endKey).sortedCache.filter
        fun item => isKeyInDomain item.1 start endKey :=
    itemsInDomain_eq_filter h.dirtyItems.sorted_ascending
  cases ascending with
  | true =>
      have hp := hkv.iterator_lists store.parent start endKey
      have hc := h.lists_dirtyItems start endKey
      rw [← hitems] at hc
      exact Lists.overlay hp hc
  | false =>
      have hp : Lists (compareDir false) (kv.get store.parent) (isKeyInDomain · start endKey)
          (kv.reverseIterator store.parent start endKey) := by
        rw [compareDir_false]
        exact hkv.reverseIterator_lists store.parent start endKey
      have hc : Lists (compareDir false) store.pending (isKeyInDomain · start endKey)
          (newMemIterator start endKey (store.dirtyItems start endKey).sortedCache false).seq := by
        rw [compareDir_false, MemIterator.seq, hitems]
        exact (h.lists_dirtyItems start endKey).reverse
      exact Lists.overlay hp hc

end DirtyItems

section Write

variable [DecidableEq K] [Ord K] {kv : KVStore P K V}

/-- One pass of `Write`'s loop sets the parent at its key to the cached value. -/
theorem get_writeKey (hkv : kv.Lawful) {cache : AList fun _ : K => CValue V} {key : K}
    {cv : CValue V} (hk : cache.lookup key = some cv) (ht : cv.deleted = true ↔ cv.value = none)
    (parent : P) :
    kv.get (writeKey kv cache parent key) = Function.update (kv.get parent) key cv.value := by
  obtain ⟨value, deleted, dirty⟩ := cv
  cases deleted with
  | true =>
      have hv : value = none := ht.mp rfl
      subst hv
      simp [writeKey, hk, hkv.get_delete]
  | false =>
      cases value with
      | none => simp at ht
      | some value => simp [writeKey, hk, hkv.get_set]

/-- `Write`'s loop sets the parent at each of its keys to the cached value. -/
theorem get_foldl_writeKey (hkv : kv.Lawful) {cache : AList fun _ : K => CValue V}
    (keys : List K)
    (hkeys : ∀ key ∈ keys, ∃ cv, cache.lookup key = some cv ∧ (cv.deleted = true ↔ cv.value = none))
    (parent : P) (k : K) :
    kv.get (keys.foldl (writeKey kv cache) parent) k =
      if k ∈ keys then (cache.lookup k).bind CValue.value else kv.get parent k := by
  induction keys generalizing parent with
  | nil => simp
  | cons key keys ih =>
      obtain ⟨cv, hk, ht⟩ := hkeys key (by simp)
      rw [List.foldl_cons, ih (fun key' hkey' => hkeys key' (by simp [hkey'])),
        get_writeKey hkv hk ht]
      by_cases hkk : k = key
      · subst hkk
        simp [hk]
      · by_cases hkeys' : k ∈ keys <;> simp [hkk, hkeys']

variable {store : Store P K V}

theorem mem_dirtyKeys {k : K} :
    k ∈ (store.cache.entries.filterMap fun entry =>
        if entry.2.dirty then some entry.1 else none).mergeSort (fun a b => (compare a b).isLE) ↔
      ∃ cv, store.cache.lookup k = some cv ∧ cv.dirty = true := by
  simp only [List.mem_mergeSort, List.mem_filterMap, Option.ite_none_right_eq_some,
    Option.some.injEq]
  constructor
  · rintro ⟨⟨k', cv⟩, hmem, hd, rfl⟩
    exact ⟨cv, AList.mem_lookup_iff.mpr hmem, hd⟩
  · rintro ⟨cv, hk, hd⟩
    exact ⟨⟨k, cv⟩, AList.mem_lookup_iff.mp hk, hd, rfl⟩

/-- `Write` replays the overlay on the parent and empties the cache. -/
theorem write_spec (hkv : kv.Lawful) (h : store.Inv kv) :
    (store.write kv).Inv kv ∧ (store.write kv).abstract kv = (store.abstract kv).flush := by
  refine ⟨inv_newStore kv _, ?_⟩
  rw [write, abstract_newStore, WriteBack.flush]
  congr 1
  funext k
  rw [get_foldl_writeKey hkv _ (fun key hkey => ?_)]
  · by_cases hk : ∃ cv, store.cache.lookup k = some cv ∧ cv.dirty = true
    · obtain ⟨cv, hk, hd⟩ := hk
      rw [if_pos (mem_dirtyKeys.mpr ⟨cv, hk, hd⟩), h.read_of_lookup hk, hk, Option.bind_some]
    · -- a key with no dirty entry has nothing pending, so the overlay reads the parent
      have hnone : store.pending k = none :=
        Option.eq_none_iff_forall_ne_some.mpr fun o ho => hk (by
          obtain ⟨cv, hk, hd, -⟩ := pending_eq_some.mp ho
          exact ⟨cv, hk, hd⟩)
      rw [if_neg (mt mem_dirtyKeys.mp hk)]
      simp [abstract, WriteBack.read, hnone]
  · obtain ⟨cv, hk, hd⟩ := mem_dirtyKeys.mp hkey
    exact ⟨cv, hk, h.tombstone key cv hk hd⟩

end Write

end Store

/-! ## Calls against the overlay -/

namespace Op

variable [DecidableEq K]

/-- What a call does to the overlay. -/
def apply (w : WriteBack K V) : Op K V → WriteBack K V
  | .set key value => w.put key (some value)
  | .delete key => w.put key none
  | .write => w.flush
  | _ => w

/-- The overlay after a sequence of calls. -/
def applyAll (w : WriteBack K V) (ops : List (Op K V)) : WriteBack K V := ops.foldl apply w

/-- Calls that neither set nor delete `k` leave what the overlay reads at `k`. -/
theorem read_applyAll_of_untouched {k : K} (w : WriteBack K V) (ops : List (Op K V))
    (hops : ∀ op ∈ ops, (∀ v, op ≠ .set k v) ∧ op ≠ .delete k) :
    (applyAll w ops).read k = w.read k := by
  induction ops generalizing w with
  | nil => rfl
  | cons op ops ih =>
      rw [applyAll, List.foldl_cons, ← applyAll, ih _ fun op' hop' => hops op' (by simp [hop'])]
      obtain ⟨hset, hdel⟩ := hops op (by simp)
      cases op with
      | set key value =>
          have hk : k ≠ key := fun hk => hset value (by rw [hk])
          simp [apply, hk]
      | delete key =>
          have hk : k ≠ key := fun hk => hdel (by rw [hk])
          simp [apply, hk]
      | _ => simp [apply]

variable [Ord K]

/-- What a call may return on the overlay `w`: reads see `w.read`, and a drained
    iterator yields the entries of `w.read` on its domain, in key order. -/
def Answers (w : WriteBack K V) : Op K V → Output K V → Prop
  | .get key, out => out = .value (w.read key)
  | .has key, out => out = .has (w.read key).isSome
  | .iterator start endKey, out => ∃ l, Lists compare w.read (isKeyInDomain · start endKey) l ∧
      out = .entries (some (l.map fun entry => (entry.1, some entry.2)))
  | .reverseIterator start endKey, out =>
      ∃ l, Lists (fun a b => compare b a) w.read (isKeyInDomain · start endKey) l ∧
        out = .entries (some (l.map fun entry => (entry.1, some entry.2)))
  | .set .., out | .delete .., out | .write, out => out = .done

/-- Every output of a sequence of calls is an answer of the overlay at that point. -/
def Accepts : WriteBack K V → List (Op K V) → List (Output K V) → Prop
  | _, [], [] => True
  | w, op :: ops, out :: outs => Answers w op out ∧ Accepts (apply w op) ops outs
  | _, _, _ => False

end Op

namespace Store

variable [DecidableEq K] [Ord K] [Std.TransOrd K] [Std.LawfulEqOrd K]
  {kv : KVStore P K V} {store : Store P K V}

/-- One call answers as the overlay does and moves it as the call's abstract
    operation. -/
theorem exec_spec (hkv : kv.Lawful) (h : store.Inv kv) (op : Op K V) :
    Op.Answers (store.abstract kv) op (store.exec kv op).2 ∧ (store.exec kv op).1.Inv kv ∧
      (store.exec kv op).1.abstract kv = Op.apply (store.abstract kv) op := by
  cases op with
  | get key =>
      obtain ⟨hv, hinv, habs⟩ := get_spec h key
      exact ⟨by simp [exec, Op.Answers, hv], hinv, habs⟩
  | has key =>
      obtain ⟨hv, hinv, habs⟩ := has_spec h key
      exact ⟨by simp [exec, Op.Answers, hv], hinv, habs⟩
  | set key value =>
      obtain ⟨hinv, habs⟩ := set_spec h key value
      exact ⟨rfl, hinv, habs⟩
  | delete key =>
      obtain ⟨hinv, habs⟩ := delete_spec h key
      exact ⟨rfl, hinv, habs⟩
  | iterator start endKey =>
      obtain ⟨hinv, habs, hlists⟩ := iterator_spec hkv h start endKey true
      refine ⟨⟨_, hlists, ?_⟩, hinv, habs⟩
      simp [exec, CacheMergeIterator.drain_eq_view]
  | reverseIterator start endKey =>
      obtain ⟨hinv, habs, hlists⟩ := iterator_spec hkv h start endKey false
      rw [compareDir_false] at hlists
      refine ⟨⟨_, hlists, ?_⟩, hinv, habs⟩
      simp [exec, CacheMergeIterator.drain_eq_view]
  | write =>
      obtain ⟨hinv, habs⟩ := write_spec hkv h
      exact ⟨rfl, hinv, habs⟩

/-- Every call keeps the invariant, over any parent: the contract of the parent is needed
    only for what the calls answer. -/
theorem Inv.exec (h : store.Inv kv) (op : Op K V) : (store.exec kv op).1.Inv kv := by
  cases op with
  | get key => exact (get_spec h key).2.1
  | has key => exact (has_spec h key).2.1
  | set key value => exact (set_spec h key value).1
  | delete key => exact (delete_spec h key).1
  | iterator start endKey => exact h.dirtyItems
  | reverseIterator start endKey => exact h.dirtyItems
  | write => exact inv_newStore kv _

theorem Inv.run (h : store.Inv kv) (ops : List (Op K V)) : (store.run kv ops).1.Inv kv := by
  induction ops generalizing store with
  | nil => exact h
  | cons op ops ih => exact ih (h.exec op)

/-- A run of calls from a store that keeps the invariant answers as the overlay does
    at every call, and ends on the overlay the calls move it to. -/
theorem run_spec (hkv : kv.Lawful) (h : store.Inv kv) (ops : List (Op K V)) :
    Op.Accepts (store.abstract kv) ops (store.run kv ops).2 ∧
      (store.run kv ops).1.abstract kv = Op.applyAll (store.abstract kv) ops := by
  induction ops generalizing store with
  | nil => exact ⟨trivial, rfl⟩
  | cons op ops ih =>
      obtain ⟨hans, hinv, habs⟩ := exec_spec hkv h op
      obtain ⟨hacc, hend⟩ := ih hinv
      rw [habs] at hacc hend
      exact ⟨⟨hans, hacc⟩, hend⟩

end Store

/-- The cache store over a lawful parent refines the write-back overlay of the parent's
    contents: along any sequence of calls on `NewStore`, every `Get`, `Has` and drained
    iterator answers as the overlay does at that point, and the store ends as the
    overlay the calls lead to, its parent being the overlay's base. -/
theorem run_refines [DecidableEq K] [Ord K] [Std.TransOrd K] [Std.LawfulEqOrd K]
    {kv : KVStore P K V} (hkv : kv.Lawful) (parent : P) (ops : List (Op K V)) :
    Op.Accepts (WriteBack.clean (kv.get parent)) ops ((newStore parent).run kv ops).2 ∧
      ((newStore parent).run kv ops).1.abstract kv =
        Op.applyAll (WriteBack.clean (kv.get parent)) ops := by
  have h := Store.run_spec hkv (Store.inv_newStore kv parent) ops
  rwa [Store.abstract_newStore] at h

/-- The refinement over a parent of two byte keys, along a `Set`, a `Delete`, a `Get`,
    an iterator and a `Write`. -/
theorem run_refines_listingStore :
    Op.Accepts (WriteBack.clean (listingStore.get ⟨[([1], [10]), ([3], [30])], by decide⟩))
        [.set [2] [20], .delete [3], .get [2], .iterator none none, .write]
        ((newStore ⟨[([1], [10]), ([3], [30])], by decide⟩).run listingStore
          [(.set [2] [20] : Op (List UInt8) (List UInt8)), .delete [3], .get [2],
            .iterator none none, .write]).2 ∧
      ((newStore ⟨[([1], [10]), ([3], [30])], by decide⟩).run listingStore
          [(.set [2] [20] : Op (List UInt8) (List UInt8)), .delete [3], .get [2],
            .iterator none none, .write]).1.abstract listingStore =
        Op.applyAll (WriteBack.clean (listingStore.get ⟨[([1], [10]), ([3], [30])], by decide⟩))
          [.set [2] [20], .delete [3], .get [2], .iterator none none, .write] :=
  run_refines listingStore_lawful _ _

/-- Along any sequence of calls on `NewStore`, over any parent, `sortedCache` ascends
    strictly, so that no key is in it twice, and every key of `unsortedCache` is dirty.
    `dirtyItems` of a domain takes the domain's keys out of `unsortedCache` and leaves in
    `sortedCache`, on the domain, exactly the dirty keys with their cached values; the scan
    of `newMemIterator`, which stops at the first key past the domain, keeps all of them. -/
theorem run_sortedCache [DecidableEq K] [Ord K] [Std.TransOrd K] [Std.LawfulEqOrd K]
    (kv : KVStore P K V) (parent : P) (ops : List (Op K V)) :
    let store : Store P K V := ((newStore parent).run kv ops).1
    Ascending compare store.sortedCache ∧ (store.sortedCache.map Prod.fst).Nodup ∧
      (∀ k ∈ store.unsortedCache, ∃ o, store.pending k = some o) ∧
      ∀ start endKey,
        (∀ k ∈ (store.dirtyItems start endKey).unsortedCache, isKeyInDomain k start endKey = false) ∧
        (∀ k o, isKeyInDomain k start endKey = true →
          ((k, o) ∈ (store.dirtyItems start endKey).sortedCache ↔ store.pending k = some o)) ∧
        ∀ ascending, (newMemIterator start endKey (store.dirtyItems start endKey).sortedCache ascending).items =
          (store.dirtyItems start endKey).sortedCache.filter fun item => isKeyInDomain item.1 start endKey := by
  intro store
  have h : store.Inv kv := (Store.inv_newStore kv parent).run ops
  refine ⟨h.sorted_ascending, h.sorted_ascending.nodup_keys, h.unsorted_dirty, fun start endKey =>
    ⟨fun k hk => ?_, fun k o hdom => h.mem_dirtyItems_sortedCache hdom,
      fun _ => itemsInDomain_eq_filter h.dirtyItems.sorted_ascending⟩⟩
  simpa using (List.mem_filter.mp hk).2

/-- The invariant after a `Set`, a `Delete` and an iterator over a parent of two byte keys. -/
theorem run_sortedCache_listingStore :
    let store : Store {l : List (List UInt8 × List UInt8) // Ascending compare l} (List UInt8) (List UInt8) :=
      ((newStore ⟨[([1], [10]), ([3], [30])], by decide⟩).run listingStore
        [(.set [2] [20] : Op (List UInt8) (List UInt8)), .delete [3], .iterator none none]).1
    Ascending compare store.sortedCache ∧ (store.sortedCache.map Prod.fst).Nodup ∧
      (∀ k ∈ store.unsortedCache, ∃ o, store.pending k = some o) ∧
      ∀ start endKey,
        (∀ k ∈ (store.dirtyItems start endKey).unsortedCache, isKeyInDomain k start endKey = false) ∧
        (∀ k o, isKeyInDomain k start endKey = true →
          ((k, o) ∈ (store.dirtyItems start endKey).sortedCache ↔ store.pending k = some o)) ∧
        ∀ ascending, (newMemIterator start endKey (store.dirtyItems start endKey).sortedCache ascending).items =
          (store.dirtyItems start endKey).sortedCache.filter fun item => isKeyInDomain item.1 start endKey :=
  run_sortedCache listingStore _ _

section Write

variable [DecidableEq K] [Ord K] [Std.TransOrd K] [Std.LawfulEqOrd K] {kv : KVStore P K V}

/-- After calls ending in `Write`, the parent holds what the calls read before it, and
    the cache is empty, so later reads see the parent. -/
theorem run_write_parent (hkv : kv.Lawful) (parent : P) (ops : List (Op K V)) :
    kv.get ((newStore parent).run kv (ops ++ [.write])).1.parent =
        (Op.applyAll (WriteBack.clean (kv.get parent)) ops).read ∧
      ∀ k, ((newStore parent).run kv (ops ++ [.write])).1.pending k = none := by
  have hend := (Store.run_spec hkv (Store.inv_newStore kv parent) (ops ++ [.write])).2
  rw [Store.abstract_newStore, Op.applyAll, List.foldl_append, ← Op.applyAll] at hend
  exact ⟨congrArg WriteBack.base hend, fun k => congrFun (congrArg WriteBack.pending hend) k⟩

/-- A `Write` leaves the parent alone at keys the calls before it never set or
    deleted. -/
theorem run_write_untouched (hkv : kv.Lawful) (parent : P) (ops : List (Op K V)) {k : K}
    (hops : ∀ op ∈ ops, (∀ v, op ≠ .set k v) ∧ op ≠ .delete k) :
    kv.get ((newStore parent).run kv (ops ++ [.write])).1.parent k = kv.get parent k := by
  rw [(run_write_parent hkv parent ops).1, Op.read_applyAll_of_untouched _ _ hops]
  rfl

end Write

end Friday.CacheKV
