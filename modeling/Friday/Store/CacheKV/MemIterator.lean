import Friday.Store.Types

/-! # `cachekv.memIterator`

The cache store iterates its dirty entries through a `memIterator` built by
`newMemIterator` from the sorted list `sortedCache`. Construction keeps the items
of the domain `[start, end)` with a scan that skips items before the domain and
stops at the first item after it; the iterator then yields its items from the
front when ascending and from the back when descending. A `nil` value is a
deleted key.

`itemsInDomain_eq_filter` shows that on an ascending list the early stop loses
nothing: the scan keeps exactly the items in the domain. `seq` is the order in
which the iterator yields its items; `current?` and `next` read and advance it.
-/

namespace Friday.CacheKV

open SortedKV Friday.Store

variable {K V : Type*}

/-- A `memIterator`: the dirty items of a domain, read from the front when
    `ascending` and from the back otherwise. -/
structure MemIterator (K V : Type*) where
  items : List (K × Option V)
  ascending : Bool

/-- The loop of `newMemIterator`: skip items until the first one in the domain, keep
    items while they are in it, and `break` at the first one past it. -/
def itemsInDomain [Ord K] (start endKey : Option K) :
    Bool → List (K × Option V) → List (K × Option V)
  | _, [] => []
  | entered, item :: items =>
      if !isKeyInDomain item.1 start endKey then
        if entered then [] else itemsInDomain start endKey entered items
      else item :: itemsInDomain start endKey true items

/-- `newMemIterator`. -/
def newMemIterator [Ord K] (start endKey : Option K) (items : List (K × Option V))
    (ascending : Bool) : MemIterator K V :=
  { items := itemsInDomain start endKey false items, ascending }

namespace MemIterator

/-- `Valid`. -/
def valid (mi : MemIterator K V) : Bool := !mi.items.isEmpty

/-- `Key` and `Value` together: the item at the front, or at the back when descending.
    The merge iterator asks for them only on a valid iterator, where `memIterator`
    does not panic. -/
def current? (mi : MemIterator K V) : Option (K × Option V) :=
  if mi.ascending then mi.items.head? else mi.items.getLast?

/-- `Next`: drop the item at the front, or at the back when descending. -/
def next (mi : MemIterator K V) : MemIterator K V :=
  if mi.ascending then { mi with items := mi.items.tail }
  else { mi with items := mi.items.dropLast }

/-- The items in the order the iterator yields them. -/
def seq (mi : MemIterator K V) : List (K × Option V) :=
  if mi.ascending then mi.items else mi.items.reverse

@[simp] theorem current?_eq_head? (mi : MemIterator K V) : mi.current? = mi.seq.head? := by
  cases h : mi.ascending <;> simp [current?, seq, h, List.head?_reverse]

@[simp] theorem seq_next (mi : MemIterator K V) : mi.next.seq = mi.seq.tail := by
  cases h : mi.ascending <;> simp [next, seq, h, List.tail_reverse]

@[simp] theorem valid_eq (mi : MemIterator K V) : mi.valid = !mi.seq.isEmpty := by
  cases h : mi.ascending <;> simp [valid, seq, h]

theorem length_seq (mi : MemIterator K V) : mi.seq.length = mi.items.length := by
  cases h : mi.ascending <;> simp [seq, h]

theorem seq_eq_cons {mi : MemIterator K V} {x : K × Option V} (h : mi.current? = some x) :
    mi.seq = x :: mi.next.seq := by
  rw [current?_eq_head?] at h
  rw [seq_next]
  cases hs : mi.seq with
  | nil => simp [hs] at h
  | cons y ys => simp_all

theorem seq_eq_nil {mi : MemIterator K V} (h : mi.current? = none) : mi.seq = [] := by
  simpa using h

end MemIterator

section Domain

variable [Ord K] [Std.TransOrd K]

/-- A key above an in-domain key and outside the domain is past its end, and so is
    every key above it. -/
theorem not_isKeyInDomain_of_past {start endKey : Option K} {k h y : K}
    (hk : isKeyInDomain k start endKey = true) (hkh : compare k h = .lt)
    (hh : isKeyInDomain h start endKey = false) (hhy : compare h y = .lt) :
    isKeyInDomain y start endKey = false := by
  cases start with
  | none =>
      cases endKey with
      | none => simp [isKeyInDomain] at hh
      | some e =>
          have he : compare e h ≠ .gt := by simpa [isKeyInDomain] using hh
          have hey : compare e y = .lt :=
            Std.TransCmp.lt_of_isLE_of_lt (Ordering.isLE_iff_ne_gt.mpr he) hhy
          simp [isKeyInDomain, hey]
  | some s =>
      have hks : compare k s ≠ .lt := by simp_all [isKeyInDomain]
      have hhs : compare h s ≠ .lt := fun hlt => hks (Std.TransCmp.lt_trans hkh hlt)
      cases endKey with
      | none => simp [isKeyInDomain, hhs] at hh
      | some e =>
          have he : compare e h ≠ .gt := by simpa [isKeyInDomain, hhs] using hh
          have hey : compare e y = .lt :=
            Std.TransCmp.lt_of_isLE_of_lt (Ordering.isLE_iff_ne_gt.mpr he) hhy
          simp [isKeyInDomain, hey]

/-- Once inside the domain, the scan's `break` drops only items past the domain. -/
theorem itemsInDomain_eq_filter_of_entered {start endKey : Option K} (entered : Bool)
    {items : List (K × Option V)} (hasc : Ascending compare items)
    (hin : entered = true → ∃ k, isKeyInDomain k start endKey = true ∧
      ∀ y ∈ items, compare k y.1 = .lt) :
    itemsInDomain start endKey entered items =
      items.filter fun item => isKeyInDomain item.1 start endKey := by
  induction items generalizing entered with
  | nil => simp [itemsInDomain]
  | cons item items ih =>
      by_cases hdom : isKeyInDomain item.1 start endKey = true
      · simp only [itemsInDomain, List.filter_cons, hdom, Bool.not_true, Bool.false_eq_true,
          if_false, if_true]
        exact congrArg _ (ih true hasc.tail fun _ => ⟨item.1, hdom, fun y hy => hasc.head_lt hy⟩)
      · have hout : isKeyInDomain item.1 start endKey = false := by simpa using hdom
        simp only [List.filter_cons, hout, Bool.false_eq_true, if_false]
        cases entered with
        | false =>
            simp only [itemsInDomain, hout, Bool.not_false, if_true, Bool.false_eq_true, if_false]
            exact ih false hasc.tail (by simp)
        | true =>
            obtain ⟨k, hk, hlt⟩ := hin rfl
            simp only [itemsInDomain, hout, Bool.not_false, if_true]
            symm
            refine List.filter_eq_nil_iff.mpr fun y hy => ?_
            simpa using not_isKeyInDomain_of_past hk (hlt item (by simp)) hout (hasc.head_lt hy)

/-- On an ascending list the scan of `newMemIterator` keeps exactly the items in the
    domain. -/
theorem itemsInDomain_eq_filter {start endKey : Option K} {items : List (K × Option V)}
    (hasc : Ascending compare items) :
    itemsInDomain start endKey false items =
      items.filter fun item => isKeyInDomain item.1 start endKey :=
  itemsInDomain_eq_filter_of_entered false hasc (by simp)

end Domain

end Friday.CacheKV
