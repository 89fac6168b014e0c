import Friday.Store.CacheKV.Refinement

/-! # `Write` without the sort

`Write` sorts the dirty keys before it replays them on the parent. A key is
replayed with the value the cache holds for it whatever the order, so the order
does not change what the parent reads afterwards. `flush` replays the dirty keys
in the order the cache holds them, by structural recursion, so that it computes;
`get_flush` shows that the parent then reads as after `Write`.
-/

namespace Friday.CacheKV

open Friday.Store

variable {P K V : Type*}

namespace Store

variable [DecidableEq K] (kv : KVStore P K V)

/-- `Write`'s loop over the dirty keys in the order of `cache`: the parent it
    leaves. -/
def flush (store : Store P K V) : P :=
  (store.cache.entries.filterMap fun entry => if entry.2.dirty then some entry.1 else none).foldl
    (writeKey kv store.cache) store.parent

variable {kv} [Ord K]

theorem mem_flushKeys {store : Store P K V} {k : K} :
    k ∈ (store.cache.entries.filterMap fun entry => if entry.2.dirty then some entry.1 else none) ↔
      ∃ cv, store.cache.lookup k = some cv ∧ cv.dirty = true :=
  List.mem_mergeSort.symm.trans mem_dirtyKeys

/-- Over a lawful parent, `flush` leaves the parent reading as `Write` does,
    provided a dirty entry is a tombstone exactly when it has no value. -/
theorem get_flush (hkv : kv.Lawful) {store : Store P K V}
    (htomb : ∀ k cv, store.cache.lookup k = some cv → cv.dirty = true →
      (cv.deleted = true ↔ cv.value = none)) (k : K) :
    kv.get (store.flush kv) k = kv.get (store.write kv).parent k := by
  have hdirty : ∀ key, (∃ cv, store.cache.lookup key = some cv ∧ cv.dirty = true) →
      ∃ cv, store.cache.lookup key = some cv ∧ (cv.deleted = true ↔ cv.value = none) := by
    rintro key ⟨cv, hk, hd⟩
    exact ⟨cv, hk, htomb key cv hk hd⟩
  rw [flush, write, newStore,
    get_foldl_writeKey hkv _ (fun key hkey => hdirty key (mem_flushKeys.mp hkey)),
    get_foldl_writeKey hkv _ (fun key hkey => hdirty key (mem_dirtyKeys.mp hkey))]
  simp only [mem_flushKeys, mem_dirtyKeys]

end Store

end Friday.CacheKV
