import Mathlib

/-! # Lexicographic order and prefixes

The order `compare` gives lists: element by element, a proper prefix first. A list is at or
above its prefixes (`compare_ne_lt_of_prefix`), a common prefix does not change a
comparison (`compare_append_left`), and the lists that extend a prefix form an interval.
When the prefix ends in an element that has a next one, the interval runs up to the prefix
with that element replaced by the next (`prefix_append_iff_of_succ`); when it ends in the
largest element, the interval is the one of the prefix without it, cut below at the prefix
(`prefix_append_iff_of_max`).
-/

namespace Lex

variable {α : Type*} [Ord α] [Std.LawfulEqOrd α] [Std.OrientedOrd α]

omit [Std.OrientedOrd α] in
theorem ne_of_compare_ne_eq {a b : α} (h : compare a b ≠ .eq) : a ≠ b := by
  rintro rfl
  exact h Std.compare_self

omit [Std.OrientedOrd α] in
theorem compare_append_left (p a b : List α) : compare (p ++ a) (p ++ b) = compare a b := by
  induction p with
  | nil => rfl
  | cons x p ih =>
    rw [List.cons_append, List.cons_append, List.compare_cons_cons, Std.compare_self]
    exact ih

omit [Std.OrientedOrd α] in
theorem compare_ne_lt_of_prefix {p k : List α} (h : p <+: k) : compare k p ≠ .lt := by
  induction p generalizing k with
  | nil => cases k <;> simp
  | cons x p ih =>
    cases k with
    | nil => simp at h
    | cons y k =>
      obtain ⟨rfl, hpk⟩ := List.cons_prefix_cons.mp h
      rw [List.compare_cons_cons, Std.compare_self]
      exact ih hpk

omit [Std.LawfulEqOrd α] [Std.OrientedOrd α] in
theorem compare_ne_lt_of_append {q s k : List α} (h : compare k (q ++ s) ≠ .lt) : compare k q ≠ .lt := by
  induction q generalizing k with
  | nil => cases k <;> simp
  | cons x q ih =>
    cases k with
    | nil => simp at h
    | cons y k =>
      rw [List.cons_append, List.compare_cons_cons] at h
      rw [List.compare_cons_cons]
      cases hyx : compare y x with
      | lt => simp [hyx] at h
      | eq =>
        rw [hyx] at h
        exact ih h
      | gt => simp

/-- The lists that extend `q ++ [b]` lie from `q ++ [b]` up to `q ++ [b']`, when `b'` is the
    element next to `b`. -/
theorem prefix_append_iff_of_succ {b b' : α} (hsucc : ∀ c, compare c b' = .lt ↔ compare c b ≠ .gt)
    (q k : List α) : q ++ [b] <+: k ↔ compare k (q ++ [b]) ≠ .lt ∧ compare (q ++ [b']) k = .gt := by
  induction q generalizing k with
  | nil =>
    cases k with
    | nil => simp
    | cons c r =>
      -- one element past the prefix: `b ≤ c < b'`, that is `c = b`
      have hr : compare r [] ≠ .lt := by cases r <;> simp
      have hl : compare [] r ≠ .gt := by cases r <;> simp
      have hb' : compare b' c = .gt ↔ compare c b ≠ .gt := Std.OrientedCmp.gt_iff_lt.trans (hsucc c)
      simp only [List.nil_append, List.cons_prefix_cons, List.nil_prefix, and_true, List.compare_cons_cons,
        ne_eq, Ordering.then_eq_lt, Ordering.then_eq_gt, hr, hl, and_false, or_false, hb', eq_comm (a := b)]
      cases hcb : compare c b with
      | lt =>
        have hne : c ≠ b := ne_of_compare_ne_eq (by simp [hcb])
        simp [hne]
      | eq => simp [Std.LawfulEqCmp.eq_of_compare hcb]
      | gt =>
        have hne : c ≠ b := ne_of_compare_ne_eq (by simp [hcb])
        simp [hne]
  | cons x q ih =>
    cases k with
    | nil => simp
    | cons c r =>
      simp only [List.cons_append, List.cons_prefix_cons, List.compare_cons_cons, ne_eq, Ordering.then_eq_lt,
        Ordering.then_eq_gt, ih r, eq_comm (a := x)]
      cases hcx : compare c x with
      | lt =>
        have hne : c ≠ x := ne_of_compare_ne_eq (by simp [hcx])
        simp [hne]
      | eq =>
        obtain rfl := Std.LawfulEqCmp.eq_of_compare hcx
        simp
      | gt =>
        have hne : c ≠ x := ne_of_compare_ne_eq (by simp [hcx])
        have hxc : compare x c = .lt := Std.OrientedCmp.gt_iff_lt.mp hcx
        simp [hne, hxc]

omit [Std.OrientedOrd α] in
/-- The lists that extend `q ++ [b]`, when `b` is the largest element, are the lists that
    extend `q` from `q ++ [b]` up. -/
theorem prefix_append_iff_of_max {b : α} (hmax : ∀ c, compare c b ≠ .gt) (q k : List α) :
    q ++ [b] <+: k ↔ compare k (q ++ [b]) ≠ .lt ∧ q <+: k := by
  induction q generalizing k with
  | nil =>
    cases k with
    | nil => simp
    | cons c r =>
      have hr : compare r [] ≠ .lt := by cases r <;> simp
      simp only [List.nil_append, List.cons_prefix_cons, List.nil_prefix, and_true, List.compare_cons_cons,
        ne_eq, Ordering.then_eq_lt, hr, and_false, or_false, eq_comm (a := b)]
      cases hcb : compare c b with
      | lt =>
        have hne : c ≠ b := ne_of_compare_ne_eq (by simp [hcb])
        simp [hne]
      | eq => simp [Std.LawfulEqCmp.eq_of_compare hcb]
      | gt => exact absurd hcb (hmax c)
  | cons x q ih =>
    cases k with
    | nil => simp
    | cons c r =>
      simp only [List.cons_append, List.cons_prefix_cons, List.compare_cons_cons, ne_eq, Ordering.then_eq_lt,
        ih r, eq_comm (a := x)]
      cases hcx : compare c x with
      | lt =>
        have hne : c ≠ x := ne_of_compare_ne_eq (by simp [hcx])
        simp [hne]
      | eq =>
        obtain rfl := Std.LawfulEqCmp.eq_of_compare hcx
        simp
      | gt =>
        have hne : c ≠ x := ne_of_compare_ne_eq (by simp [hcx])
        simp [hne]

end Lex
