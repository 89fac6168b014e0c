import Friday.Store.CacheKV.MemIterator

/-! # `cachekv.cacheMergeIterator`

The cache store's iterator merges the parent's iterator with a `memIterator` over
the dirty entries of the domain. The cache shadows the parent on a common key,
and a cache entry with a `nil` value (a deleted key) hides the parent's entry.
`Valid`, `Key`, `Value` and `Next` each first fast-forward past deleted cache
items (`skipUntilExistsOrInvalid`), so every call may move the two inner
iterators. The parent iterator is read as the list of entries it has left.

`drain` is the consumer's loop `for ; it.Valid(); it.Next() { it.Key(); it.Value() }`,
with `none` for a panic of `assertValid`. Both loops terminate because each
pass moves one of the inner iterators: the `compare` of a lawful order is
antisymmetric, so the skip in the `cache < parent` case always advances.
-/

namespace Friday.CacheKV

open Friday.Store

variable {K V : Type*}

section Compare

variable [Ord K]

/-- `cacheMergeIterator.compare`: like `bytes.Compare` but opposite if not ascending. -/
def compareDir (ascending : Bool) (a b : K) : Ordering :=
  if ascending then compare a b else (compare a b).swap

@[simp] theorem compareDir_true : compareDir true = (compare : K → K → Ordering) := rfl

theorem compareDir_false [Std.OrientedOrd K] :
    compareDir false = fun a b : K => compare b a := by
  funext a b
  simp [compareDir, Std.OrientedOrd.eq_swap (a := b)]

instance [Std.OrientedOrd K] (ascending : Bool) :
    Std.OrientedCmp (compareDir (K := K) ascending) := by
  cases ascending
  · rw [compareDir_false]; infer_instance
  · exact inferInstanceAs (Std.OrientedCmp (compare : K → K → Ordering))

instance [Std.TransOrd K] (ascending : Bool) : Std.TransCmp (compareDir (K := K) ascending) := by
  cases ascending
  · rw [compareDir_false]; infer_instance
  · exact inferInstanceAs (Std.TransCmp (compare : K → K → Ordering))

instance [Std.TransOrd K] [Std.LawfulEqOrd K] (ascending : Bool) :
    Std.LawfulEqCmp (compareDir (K := K) ascending) := by
  cases ascending
  · rw [compareDir_false]; infer_instance
  · exact inferInstanceAs (Std.LawfulEqCmp (compare : K → K → Ordering))

end Compare

/-- A `cacheMergeIterator`. -/
structure CacheMergeIterator (K V : Type*) where
  parent : List (K × V)
  cache : MemIterator K V
  ascending : Bool

namespace MemIterator

theorem length_next_lt {mi : MemIterator K V} {x : K × Option V} (h : mi.current? = some x) :
    mi.next.items.length < mi.items.length := by
  rw [current?_eq_head?] at h
  have hne : mi.seq ≠ [] := fun he => by simp [he] at h
  have hlen := congrArg List.length (seq_next mi)
  rw [length_seq, List.length_tail, length_seq] at hlen
  have : 0 < mi.seq.length := List.length_pos_iff.mpr hne
  rw [length_seq] at this
  omega

theorem length_next_le (mi : MemIterator K V) : mi.next.items.length ≤ mi.items.length := by
  have hlen := congrArg List.length (seq_next mi)
  rw [length_seq, List.length_tail, length_seq] at hlen
  omega

end MemIterator

namespace CacheMergeIterator

variable [Ord K]

/-- The number of entries the two inner iterators have left. -/
def size (iter : CacheMergeIterator K V) : Nat := iter.parent.length + iter.cache.items.length

/-- `skipCacheDeletes`: skip the deleted cache items with key below `until`; a `nil`
    `until` does not bound. -/
def skipCacheDeletes (iter : CacheMergeIterator K V) (untilKey : Option K) :
    CacheMergeIterator K V :=
  match _h : iter.cache.current? with
  | some (key, none) =>
      if untilKey.all fun untilKey => compareDir iter.ascending key untilKey == .lt then
        skipCacheDeletes { iter with cache := iter.cache.next } untilKey
      else iter
  | _ => iter
termination_by iter.cache.items.length
decreasing_by exact MemIterator.length_next_lt _h

theorem size_skipCacheDeletes_le (iter : CacheMergeIterator K V) (untilKey : Option K) :
    (iter.skipCacheDeletes untilKey).size ≤ iter.size := by
  fun_induction skipCacheDeletes iter untilKey with
  | case1 iter key h _ ih =>
      have := MemIterator.length_next_lt h
      simp only [size] at ih ⊢
      omega
  | case2 => exact Nat.le_refl _
  | case3 => exact Nat.le_refl _

/-- Skipping up to a bound above a deleted cache head moves the cache. -/
theorem size_skipCacheDeletes_lt {iter : CacheMergeIterator K V} {key untilKey : K}
    (h : iter.cache.current? = some (key, none))
    (hlt : compareDir iter.ascending key untilKey = .lt) :
    (iter.skipCacheDeletes (some untilKey)).size < iter.size := by
  rw [skipCacheDeletes, h]
  simp only [Option.all_some, hlt, beq_self_eq_true, if_true]
  have hle := size_skipCacheDeletes_le { iter with cache := iter.cache.next } (some untilKey)
  have hnext := MemIterator.length_next_lt h
  simp only [size] at hle ⊢
  omega

/-- `skipUntilExistsOrInvalid`: fast-forward the cache, or parent and cache together on
    a deleted key, until the current item exists or the iterator is invalid. Returns
    whether the iterator is valid. -/
def skipUntilExistsOrInvalid [Std.OrientedOrd K] (iter : CacheMergeIterator K V) :
    CacheMergeIterator K V × Bool :=
  match _hp : iter.parent with
  | [] =>
      let iter := iter.skipCacheDeletes none
      (iter, iter.cache.valid)
  | (keyP, _) :: parentRest =>
      match _hc : iter.cache.current? with
      | none => (iter, true)
      | some (keyC, valueC) =>
          match _hcmp : compareDir iter.ascending keyP keyC with
          | .lt => (iter, true)
          | .eq =>
              match valueC with
              | none =>
                  skipUntilExistsOrInvalid
                    { iter with parent := parentRest, cache := iter.cache.next }
              | some _ => (iter, true)
          | .gt =>
              match _hv : valueC with
              | none => skipUntilExistsOrInvalid (iter.skipCacheDeletes (some keyP))
              | some _ => (iter, true)
termination_by iter.size
decreasing_by
  · have := MemIterator.length_next_lt _hc
    simp only [size, _hp, List.length_cons]
    omega
  · subst _hv
    exact size_skipCacheDeletes_lt _hc (Std.OrientedCmp.gt_iff_lt.mp _hcmp)

section Calls

variable [Std.OrientedOrd K]

/-- `Valid`. -/
def valid (iter : CacheMergeIterator K V) : CacheMergeIterator K V × Bool :=
  iter.skipUntilExistsOrInvalid

/-- `Next`: skip, `assertValid` (which skips again; `none` is its panic), then move the
    parent, the cache or both past the current key. -/
def next (iter : CacheMergeIterator K V) : Option (CacheMergeIterator K V) :=
  let iter := iter.skipUntilExistsOrInvalid.1
  let (iter, valid) := iter.valid
  if !valid then none
  else
    match iter.parent, iter.cache.current? with
    | [], _ => some { iter with cache := iter.cache.next }
    | _ :: parentRest, none => some { iter with parent := parentRest }
    | (keyP, _) :: parentRest, some (keyC, _) =>
        match compareDir iter.ascending keyP keyC with
        | .lt => some { iter with parent := parentRest }
        | .eq => some { iter with parent := parentRest, cache := iter.cache.next }
        | .gt => some { iter with cache := iter.cache.next }

/-- `Key`: skip, `assertValid` (`none` is its panic), then the smaller current key. -/
def key (iter : CacheMergeIterator K V) : CacheMergeIterator K V × Option K :=
  let iter := iter.skipUntilExistsOrInvalid.1
  let (iter, valid) := iter.valid
  if !valid then (iter, none)
  else
    (iter,
      match iter.parent, iter.cache.current? with
      | [], current => current.map (·.1)
      | (keyP, _) :: _, none => some keyP
      | (keyP, _) :: _, some (keyC, _) =>
          match compareDir iter.ascending keyP keyC with
          | .lt => some keyP
          | .eq => some keyP
          | .gt => some keyC)

/-- `Value`: skip, `assertValid` (`none` is its panic), then the cache's value when the
    cache holds the current key, else the parent's. -/
def value (iter : CacheMergeIterator K V) : CacheMergeIterator K V × Option (Option V) :=
  let iter := iter.skipUntilExistsOrInvalid.1
  let (iter, valid) := iter.valid
  if !valid then (iter, none)
  else
    (iter,
      match iter.parent, iter.cache.current? with
      | [], current => current.map (·.2)
      | (_, valueP) :: _, none => some (some valueP)
      | (keyP, valueP) :: _, some (keyC, valueC) =>
          match compareDir iter.ascending keyP keyC with
          | .lt => some (some valueP)
          | .eq => some valueC
          | .gt => some valueC)

end Calls

section View

open SortedKV

/-- What the merge iterator has left to yield: the parent's remaining entries overlaid
    by the cache's remaining items, in the iteration order. -/
def view (iter : CacheMergeIterator K V) : List (K × V) :=
  overlay (compareDir iter.ascending) iter.parent iter.cache.seq

@[simp] theorem skipCacheDeletes_parent (iter : CacheMergeIterator K V) (untilKey : Option K) :
    (iter.skipCacheDeletes untilKey).parent = iter.parent := by
  fun_induction skipCacheDeletes iter untilKey <;> simp_all

@[simp] theorem skipCacheDeletes_ascending (iter : CacheMergeIterator K V)
    (untilKey : Option K) : (iter.skipCacheDeletes untilKey).ascending = iter.ascending := by
  fun_induction skipCacheDeletes iter untilKey <;> simp_all

/-- Dropping a deleted cache item that the parent cannot see changes nothing left to
    yield: with no parent left, or below the parent's current key. -/
theorem view_next_of_tombstone {iter : CacheMergeIterator K V} {key : K}
    (hcur : iter.cache.current? = some (key, none))
    (hbelow : ∀ p ps, iter.parent = p :: ps → compareDir iter.ascending p.1 key = .gt) :
    view { iter with cache := iter.cache.next } = view iter := by
  simp only [view, MemIterator.seq_eq_cons hcur]
  cases hp : iter.parent with
  | nil => simp
  | cons p ps => rw [overlay_of_gt_none ps _ (hbelow p ps hp)]

/-- With no parent left, skipping deleted cache items changes nothing left to yield. -/
theorem view_skipCacheDeletes_none {iter : CacheMergeIterator K V} (h : iter.parent = []) :
    (iter.skipCacheDeletes none).view = iter.view := by
  fun_induction skipCacheDeletes iter none with
  | case1 iter key hcur _ ih =>
      rw [ih h, view_next_of_tombstone hcur (by simp [h])]
  | case2 => rfl
  | case3 => rfl

variable [Std.OrientedOrd K]

/-- Skipping the deleted cache items below the parent's current key changes nothing left
    to yield. -/
theorem view_skipCacheDeletes_some {iter : CacheMergeIterator K V} {p : K × V} {ps : List (K × V)}
    (h : iter.parent = p :: ps) : (iter.skipCacheDeletes (some p.1)).view = iter.view := by
  fun_induction skipCacheDeletes iter (some p.1) with
  | case1 iter key hcur hall ih =>
      have hlt : compareDir iter.ascending key p.1 = .lt := by simpa using hall
      rw [ih h, view_next_of_tombstone hcur fun q qs hq => ?_]
      rw [h] at hq
      cases hq
      exact Std.OrientedCmp.gt_iff_lt.mpr hlt
  | case2 => rfl
  | case3 => rfl

/-- Where `skipUntilExistsOrInvalid` stops on a valid iterator: the current item exists. -/
def Settled (iter : CacheMergeIterator K V) : Prop :=
  match iter.parent, iter.cache.seq with
  | [], [] => False
  | [], (_, value) :: _ => value.isSome = true
  | _ :: _, [] => True
  | (keyP, _) :: _, (keyC, value) :: _ =>
      compareDir iter.ascending keyP keyC = .lt ∨ value.isSome = true

omit [Std.OrientedOrd K] in
/-- Skipping without a bound leaves a live cache item current, or none. -/
theorem skipCacheDeletes_none_current (iter : CacheMergeIterator K V) :
    ∀ key, (iter.skipCacheDeletes none).cache.current? ≠ some (key, none) := by
  fun_induction skipCacheDeletes iter none with
  | case1 iter key hcur _ ih => exact ih
  | case2 iter key hcur hall => simp at hall
  | case3 iter hnot => exact hnot

/-- Fast-forwarding keeps the direction and what is left to yield, and moves no inner
    iterator backwards. -/
theorem skipUntilExistsOrInvalid_view (iter : CacheMergeIterator K V) :
    iter.skipUntilExistsOrInvalid.1.ascending = iter.ascending ∧
      iter.skipUntilExistsOrInvalid.1.view = iter.view ∧
      iter.skipUntilExistsOrInvalid.1.size ≤ iter.size := by
  fun_induction skipUntilExistsOrInvalid iter with
  | case1 iter hp =>
      exact ⟨skipCacheDeletes_ascending _ _, view_skipCacheDeletes_none hp,
        size_skipCacheDeletes_le _ _⟩
  | case2 => exact ⟨rfl, rfl, Nat.le_refl _⟩
  | case3 => exact ⟨rfl, rfl, Nat.le_refl _⟩
  | case4 iter keyP valueP parentRest hp keyC heq hcur _ ih =>
      obtain ⟨hasc, hview, hsize⟩ := ih
      have hnext := MemIterator.length_next_le iter.cache
      refine ⟨hasc, hview.trans ?_, ?_⟩
      · simp only [view, hp, MemIterator.seq_eq_cons hcur]
        rw [overlay_of_eq_none _ _ heq]
      · simp only [size, hp, List.length_cons] at hsize ⊢
        omega
  | case5 => exact ⟨rfl, rfl, Nat.le_refl _⟩
  | case6 iter keyP valueP parentRest hp keyC hgt hcur _ ih =>
      obtain ⟨hasc, hview, hsize⟩ := ih
      exact ⟨hasc.trans (skipCacheDeletes_ascending _ _),
        hview.trans (view_skipCacheDeletes_some hp),
        Nat.le_trans hsize (size_skipCacheDeletes_le _ _)⟩
  | case7 => exact ⟨rfl, rfl, Nat.le_refl _⟩

theorem settled_of_skipUntilExistsOrInvalid {iter : CacheMergeIterator K V}
    (h : iter.skipUntilExistsOrInvalid.2 = true) : iter.skipUntilExistsOrInvalid.1.Settled := by
  fun_induction skipUntilExistsOrInvalid iter with
  | case1 iter hp =>
      dsimp only at h ⊢
      simp only [MemIterator.valid_eq, Bool.not_eq_true', List.isEmpty_eq_false_iff] at h
      have hlive := skipCacheDeletes_none_current iter
      unfold Settled
      rw [skipCacheDeletes_parent, hp]
      cases hs : (iter.skipCacheDeletes none).cache.seq with
      | nil => exact absurd hs h
      | cons c cs =>
          obtain ⟨k, value⟩ := c
          cases value with
          | none => exact absurd (by simp [hs]) (hlive k)
          | some v => rfl
  | case2 iter keyP valueP parentRest hp hcur =>
      unfold Settled
      rw [hp, MemIterator.seq_eq_nil hcur]
      trivial
  | case3 iter keyP valueP parentRest hp keyC valueC hcur hlt =>
      unfold Settled
      rw [hp, MemIterator.seq_eq_cons hcur]
      exact .inl hlt
  | case4 _ _ _ _ _ _ _ _ _ ih => exact ih h
  | case5 iter keyP valueP parentRest hp keyC heq v hcur _ =>
      unfold Settled
      rw [hp, MemIterator.seq_eq_cons hcur]
      exact .inr rfl
  | case6 _ _ _ _ _ _ _ _ _ ih => exact ih h
  | case7 iter keyP valueP parentRest hp keyC hgt v hcur _ =>
      unfold Settled
      rw [hp, MemIterator.seq_eq_cons hcur]
      exact .inr rfl

theorem settled_of_valid {iter iter₁ : CacheMergeIterator K V}
    (h : iter.valid = (iter₁, true)) : iter₁.Settled := by
  have hsk : iter.skipUntilExistsOrInvalid = (iter₁, true) := h
  have hset := settled_of_skipUntilExistsOrInvalid (show iter.skipUntilExistsOrInvalid.2 = true by
    rw [hsk])
  rwa [hsk] at hset

theorem view_eq_nil_of_skipUntilExistsOrInvalid {iter : CacheMergeIterator K V}
    (h : iter.skipUntilExistsOrInvalid.2 = false) : iter.view = [] := by
  fun_induction skipUntilExistsOrInvalid iter with
  | case1 iter hp =>
      dsimp only at h
      simp only [MemIterator.valid_eq, Bool.not_eq_false', List.isEmpty_iff] at h
      rw [← view_skipCacheDeletes_none hp, view, h, skipCacheDeletes_parent, hp,
        overlay_nil_left, List.filterMap_nil]
  | case2 => simp at h
  | case3 => simp at h
  | case4 iter keyP valueP parentRest hp keyC heq hcur _ ih =>
      rw [view, hp, MemIterator.seq_eq_cons hcur, overlay_of_eq_none _ _ heq]
      exact ih h
  | case5 => simp at h
  | case6 iter keyP valueP parentRest hp keyC hgt hcur _ ih =>
      rw [← view_skipCacheDeletes_some hp]
      exact ih h
  | case7 => simp at h

omit [Std.OrientedOrd K] in
theorem skipCacheDeletes_of_live {iter : CacheMergeIterator K V} (untilKey : Option K)
    (h : ∀ key, iter.cache.current? ≠ some (key, none)) : iter.skipCacheDeletes untilKey = iter := by
  rw [skipCacheDeletes]
  split
  · rename_i key hcur
    exact absurd hcur (h key)
  · rfl

theorem skipUntilExistsOrInvalid_of_settled {iter : CacheMergeIterator K V} (h : iter.Settled) :
    iter.skipUntilExistsOrInvalid = (iter, true) := by
  fun_induction skipUntilExistsOrInvalid iter with
  | case1 iter hp =>
      unfold Settled at h
      rw [hp] at h
      have hlive : ∀ key, iter.cache.current? ≠ some (key, none) := by
        intro key hcur
        rw [MemIterator.seq_eq_cons hcur] at h
        exact absurd h (by simp)
      have hvalid : iter.cache.valid = true := by
        rw [MemIterator.valid_eq]
        cases hs : iter.cache.seq with
        | nil => rw [hs] at h; exact absurd h id
        | cons _ _ => rfl
      show (iter.skipCacheDeletes none, (iter.skipCacheDeletes none).cache.valid) = (iter, true)
      rw [skipCacheDeletes_of_live none hlive, hvalid]
  | case2 => rfl
  | case3 => rfl
  | case4 iter keyP valueP parentRest hp keyC heq hcur _ _ =>
      unfold Settled at h
      rw [hp, MemIterator.seq_eq_cons hcur] at h
      dsimp only at h
      simp [heq] at h
  | case5 => rfl
  | case6 iter keyP valueP parentRest hp keyC hgt hcur _ _ =>
      unfold Settled at h
      rw [hp, MemIterator.seq_eq_cons hcur] at h
      dsimp only at h
      simp [hgt] at h
  | case7 => rfl

theorem key_of_settled_fst {iter : CacheMergeIterator K V} (h : iter.Settled) :
    iter.key.1 = iter := by
  simp [key, valid, skipUntilExistsOrInvalid_of_settled h]

theorem value_of_settled_fst {iter : CacheMergeIterator K V} (h : iter.Settled) :
    iter.value.1 = iter := by
  simp [value, valid, skipUntilExistsOrInvalid_of_settled h]

/-- `Next` on an existing item moves an inner iterator. -/
theorem size_next_lt_of_settled {iter iter' : CacheMergeIterator K V} (h : iter.Settled)
    (hnext : iter.next = some iter') : iter'.size < iter.size := by
  simp only [next, valid, skipUntilExistsOrInvalid_of_settled h, Bool.not_true,
    Bool.false_eq_true, if_false] at hnext
  unfold Settled at h
  cases hp : iter.parent with
  | nil =>
      rw [hp] at h hnext
      cases hc : iter.cache.current? with
      | none => rw [MemIterator.seq_eq_nil hc] at h; exact absurd h id
      | some x =>
          simp only [Option.some.injEq] at hnext
          subst hnext
          have := MemIterator.length_next_lt hc
          simp only [size, hp, List.length_nil]
          omega
  | cons p ps =>
      rw [hp] at hnext
      cases hc : iter.cache.current? with
      | none =>
          simp only [hc, Option.some.injEq] at hnext
          subst hnext
          simp [size, hp]
      | some x =>
          obtain ⟨keyC, valueC⟩ := x
          have hlen := MemIterator.length_next_lt hc
          simp only [hc] at hnext
          split at hnext <;> simp only [Option.some.injEq] at hnext <;> subst hnext <;>
            simp only [size, hp, List.length_cons] <;> omega

end View

section Drain

variable [Std.OrientedOrd K]

/-- The consumer's loop `for ; iter.Valid(); iter.Next() { iter.Key(); iter.Value() }`,
    collecting what `Key` and `Value` return; `none` if a call panics. -/
def drain (iter : CacheMergeIterator K V) : Option (List (K × Option V)) :=
  match _hvalid : iter.valid with
  | (_, false) => some []
  | (iter₁, true) =>
      match _hkey : iter₁.key with
      | (_, none) => none
      | (iter₂, some key) =>
          match _hvalue : iter₂.value with
          | (_, none) => none
          | (iter₃, some value) =>
              match _hnext : iter₃.next with
              | none => none
              | some iter₄ => (drain iter₄).map ((key, value) :: ·)
termination_by iter.size
decreasing_by
  have hsk : iter.skipUntilExistsOrInvalid = (iter₁, true) := _hvalid
  have hset : iter₁.Settled := settled_of_valid _hvalid
  have h₂ : iter₂ = iter₁ := by rw [← key_of_settled_fst hset, _hkey]
  have h₃ : iter₃ = iter₁ := by rw [← value_of_settled_fst hset, ← h₂, _hvalue]
  have hlt := size_next_lt_of_settled hset (h₃ ▸ _hnext)
  have hle : iter₁.size ≤ iter.size := by
    simpa [hsk] using (skipUntilExistsOrInvalid_view iter).2.2
  omega

end Drain

section Read

open SortedKV

variable [Std.TransOrd K] [Std.LawfulEqOrd K]

/-- On an existing item, `Key` and `Value` read the head of what is left to yield, and
    `Next` leaves the rest. -/
theorem read_of_settled {iter : CacheMergeIterator K V} (h : iter.Settled) :
    ∃ k v rest, iter.view = (k, v) :: rest ∧ iter.key = (iter, some k) ∧
      iter.value = (iter, some (some v)) ∧ ∃ iter', iter.next = some iter' ∧ iter'.view = rest := by
  have hs := skipUntilExistsOrInvalid_of_settled h
  simp only [key, value, next, valid, hs, Bool.not_true, Bool.false_eq_true, if_false]
  unfold Settled at h
  cases hp : iter.parent with
  | nil =>
      rw [hp] at h
      cases hc : iter.cache.current? with
      | none => rw [MemIterator.seq_eq_nil hc] at h; exact absurd h id
      | some x =>
          obtain ⟨k, o⟩ := x
          rw [MemIterator.seq_eq_cons hc] at h
          cases o with
          | none => exact absurd h (by simp)
          | some v =>
              refine ⟨k, v, _, ?_, rfl, rfl, _, rfl, rfl⟩
              simp only [view, hp, MemIterator.seq_eq_cons hc, overlay_nil_left, List.filterMap_cons,
                Option.map_some]
  | cons p ps =>
      obtain ⟨kp, vp⟩ := p
      cases hc : iter.cache.current? with
      | none =>
          refine ⟨kp, vp, ps, ?_, rfl, rfl, _, rfl, ?_⟩
          · simp only [view, hp, MemIterator.seq_eq_nil hc, overlay_nil_right]
          · simp only [view, MemIterator.seq_eq_nil hc, overlay_nil_right]
      | some x =>
          obtain ⟨kc, o⟩ := x
          rw [hp, MemIterator.seq_eq_cons hc] at h
          dsimp only at h
          have hseq := MemIterator.seq_eq_cons hc
          cases hcmp : compareDir iter.ascending kp kc with
          | lt =>
              refine ⟨kp, vp, _, ?_, by simp only [hcmp], by simp only [hcmp],
                { iter with parent := ps }, by simp only [hcmp], rfl⟩
              simp only [view, hp, hseq]
              exact overlay_of_lt ps _ hcmp
          | eq =>
              have hpk : kp = kc := Std.LawfulEqCmp.eq_of_compare hcmp
              obtain ⟨v, rfl⟩ : ∃ v, o = some v := by
                cases o with
                | none => simp [hcmp] at h
                | some v => exact ⟨v, rfl⟩
              refine ⟨kc, v, _, ?_, by simp only [hcmp]; rw [hpk], by simp only [hcmp],
                { iter with parent := ps, cache := iter.cache.next }, by simp only [hcmp], rfl⟩
              simp only [view, hp, hseq]
              exact overlay_of_eq_some ps _ hcmp
          | gt =>
              obtain ⟨v, rfl⟩ : ∃ v, o = some v := by
                cases o with
                | none => simp [hcmp] at h
                | some v => exact ⟨v, rfl⟩
              refine ⟨kc, v, overlay (compareDir iter.ascending) ((kp, vp) :: ps) iter.cache.next.seq,
                ?_, by simp only [hcmp], by simp only [hcmp],
                { iter with cache := iter.cache.next }, by simp only [hcmp, hp], ?_⟩
              · simp only [view, hp, hseq]
                exact overlay_of_gt_some ps _ hcmp
              · simp only [view, hp]

/-- The consumer reads exactly what the merge iterator has left to yield, and no call
    panics. -/
theorem drain_eq_view (iter : CacheMergeIterator K V) :
    iter.drain = some (iter.view.map fun entry => (entry.1, some entry.2)) := by
  fun_induction drain iter with
  | case1 iter iter₁ hvalid =>
      have hnil : iter.view = [] := view_eq_nil_of_skipUntilExistsOrInvalid (by
        show iter.valid.2 = false
        rw [hvalid])
      simp only [hnil, List.map_nil]
  | case2 iter iter₁ hvalid iter₂ hkey =>
      obtain ⟨k, v, rest, -, hk, -⟩ := read_of_settled (settled_of_valid hvalid)
      rw [hk] at hkey
      cases hkey
  | case3 iter iter₁ hvalid iter₂ key hkey iter₃ hvalue =>
      obtain ⟨k, v, rest, -, hk, hv, -⟩ := read_of_settled (settled_of_valid hvalid)
      rw [hk] at hkey
      cases hkey
      rw [hv] at hvalue
      cases hvalue
  | case4 iter iter₁ hvalid iter₂ key hkey iter₃ value hvalue hnext =>
      obtain ⟨k, v, rest, -, hk, hv, iter', hn, -⟩ := read_of_settled (settled_of_valid hvalid)
      rw [hk] at hkey
      cases hkey
      rw [hv] at hvalue
      cases hvalue
      rw [hn] at hnext
      cases hnext
  | case5 iter iter₁ hvalid iter₂ key hkey iter₃ value hvalue iter₄ hnext ih =>
      obtain ⟨k, v, rest, hview, hk, hv, iter', hn, hrest⟩ :=
        read_of_settled (settled_of_valid hvalid)
      rw [hk] at hkey
      cases hkey
      rw [hv] at hvalue
      cases hvalue
      rw [hn] at hnext
      cases hnext
      have hsame : iter₁.view = iter.view := by
        have := (skipUntilExistsOrInvalid_view iter).2.1
        rwa [show iter.skipUntilExistsOrInvalid = (iter₁, true) from hvalid] at this
      rw [← hsame, hview, ih, hrest]
      rfl

/-- Over a parent and a cache that each list distinct keys in the iteration order, the
    consumer's loop reads the merge: the live cache entries, and the parent's entries whose
    key the cache does not mention (a tombstone hides its key), each key once and in that
    order. -/
theorem drain_merges (parent : List (K × V)) (cache : MemIterator K V) (ascending : Bool)
    (hp : Ascending (compareDir ascending) parent) (hc : Ascending (compareDir ascending) cache.seq) :
    ∃ l, (⟨parent, cache, ascending⟩ : CacheMergeIterator K V).drain =
        some (l.map fun entry => (entry.1, some entry.2)) ∧
      Ascending (compareDir ascending) l ∧ (l.map Prod.fst).Nodup ∧
      ∀ k v, (k, v) ∈ l ↔ (k, some v) ∈ cache.seq ∨ ((k, v) ∈ parent ∧ ∀ o, (k, o) ∉ cache.seq) := by
  have hasc := overlay_ascending hp hc
  exact ⟨_, drain_eq_view _, hasc, hasc.nodup_keys, fun k v => mem_overlay hp hc (k, v)⟩

/-- A parent of two keys under a cache that writes one key and deletes another. -/
theorem drain_merges_sample :
    Ascending (compareDir true) [(1, "a"), (3, "c")] ∧
      Ascending (compareDir true) (⟨[(2, some "b"), (3, none)], true⟩ : MemIterator Nat String).seq ∧
      ∃ l, (⟨[(1, "a"), (3, "c")], ⟨[(2, some "b"), (3, none)], true⟩, true⟩ :
          CacheMergeIterator Nat String).drain = some (l.map fun entry => (entry.1, some entry.2)) ∧
        Ascending (compareDir true) l ∧ (l.map Prod.fst).Nodup ∧
        ∀ k v, (k, v) ∈ l ↔ (k, some v) ∈ (⟨[(2, some "b"), (3, none)], true⟩ : MemIterator Nat String).seq ∨
          ((k, v) ∈ [(1, "a"), (3, "c")] ∧
            ∀ o, (k, o) ∉ (⟨[(2, some "b"), (3, none)], true⟩ : MemIterator Nat String).seq) :=
  ⟨by decide, by decide, drain_merges _ _ _ (by decide) (by decide)⟩

end Read

end CacheMergeIterator

end Friday.CacheKV
