import Mathlib.Algebra.Order.Ring.Int
import Mathlib.Tactic.Ring

/-! # Rounding an integer quotient

What it means for an integer `r` to be the quotient `n / d` rounded half to even, or
rounded up, with the distance `|n - r * d|` measured in units of `1 / d`. Each rounding
has at most one result (`halfEven_unique`, `up_unique`), and the quotient and remainder
of a natural division compute it (`halfEven_of_lt` and the lemmas after it). Rounding
toward zero is `Int.tdiv`.
-/

namespace Rounding

/-- The distance from `n / d` to `r`, in units of `1 / d`. -/
def distance (n d r : Int) : Nat := (n - r * d).natAbs

/-- `r` is `n / d` rounded to the nearest integer, a tie to the even one. -/
def HalfEven (n d r : Int) : Prop :=
  2 * distance n d r < d.natAbs ∨ (2 * distance n d r = d.natAbs ∧ r % 2 = 0)

instance (n d r : Int) : Decidable (HalfEven n d r) := inferInstanceAs (Decidable (_ ∨ _))

/-- `r` is `n / d` rounded up, for a positive `d`. -/
def Up (n d r : Int) : Prop := n ≤ r * d ∧ r * d < n + d

instance (n d r : Int) : Decidable (Up n d r) := inferInstanceAs (Decidable (_ ∧ _))

section HalfEven

variable {n d r r' : Int}

theorem halfEven_neg : HalfEven (-n) d (-r) ↔ HalfEven n d r := by
  have hdist : distance (-n) d (-r) = distance n d r := by
    simp only [distance, neg_mul, sub_neg_eq_add]
    rw [← Int.natAbs_neg]
    congr 1
    ring
  simp only [HalfEven, hdist]
  omega

/-- Two results `r` and `r'` differ by `(r - r') * d`, which is at most the sum of
their distances. -/
theorem natAbs_mul_le_distance (r r' : Int) :
    ((r - r') * d).natAbs ≤ distance n d r + distance n d r' := by
  have h : (r - r') * d = (n - r' * d) - (n - r * d) := by ring
  rw [h, distance, distance]
  exact (Int.natAbs_sub_le _ _).trans (by omega)

theorem halfEven_unique (hd : d ≠ 0) (h : HalfEven n d r) (h' : HalfEven n d r') : r = r' := by
  by_contra hne
  have hsum := natAbs_mul_le_distance (n := n) (d := d) r r'
  -- two distinct results are `|d|` apart at least, and each is within `|d| / 2`
  have hfar : d.natAbs ≤ ((r - r') * d).natAbs := by
    rw [Int.natAbs_mul]
    have : 1 ≤ (r - r').natAbs := by omega
    exact Nat.le_mul_of_pos_left _ this
  have hpos : 0 < d.natAbs := Int.natAbs_pos.mpr hd
  -- so both are ties, `(r - r') * d` is `± d`, and `r` and `r'` are one apart
  have hone : (r - r').natAbs = 1 := by
    have hle : ((r - r') * d).natAbs ≤ d.natAbs := by unfold HalfEven at h h'; omega
    rw [Int.natAbs_mul] at hle
    have : (r - r').natAbs * d.natAbs ≤ 1 * d.natAbs := by omega
    have := Nat.le_of_mul_le_mul_right this hpos
    omega
  unfold HalfEven at h h'
  omega

theorem halfEven_of_lt (hd : 0 < d) (h : 2 * (n % d) < d) : HalfEven n d (n / d) := by
  have hdiv := Int.mul_ediv_add_emod n d
  have hrem := Int.emod_nonneg n (ne_of_gt hd)
  left
  simp only [distance]
  have : n - n / d * d = n % d := by rw [mul_comm]; omega
  rw [this]
  omega

theorem halfEven_of_gt (hd : 0 < d) (h : d < 2 * (n % d)) : HalfEven n d (n / d + 1) := by
  have hdiv := Int.mul_ediv_add_emod n d
  have hlt := Int.emod_lt_of_pos n hd
  left
  simp only [distance]
  have : n - (n / d + 1) * d = n % d - d := by rw [add_mul, mul_comm]; omega
  rw [this]
  omega

theorem halfEven_of_eq (hd : 0 < d) (h : 2 * (n % d) = d) :
    HalfEven n d (if n / d % 2 = 0 then n / d else n / d + 1) := by
  have hdiv := Int.mul_ediv_add_emod n d
  right
  split
  · rename_i heven
    refine ⟨?_, heven⟩
    simp only [distance]
    have : n - n / d * d = n % d := by rw [mul_comm]; omega
    rw [this]
    omega
  · rename_i hodd
    refine ⟨?_, by omega⟩
    simp only [distance]
    have : n - (n / d + 1) * d = n % d - d := by rw [add_mul, mul_comm]; omega
    rw [this]
    omega

end HalfEven

section Up

variable {n d r r' : Int}

theorem up_unique (hd : 0 < d) (h : Up n d r) (h' : Up n d r') : r = r' := by
  unfold Up at h h'
  -- `r * d` and `r' * d` lie in one interval of length `d`
  have hlt : r * d < (r' + 1) * d := by rw [add_mul]; omega
  have hlt' : r' * d < (r + 1) * d := by rw [add_mul]; omega
  have h1 := lt_of_mul_lt_mul_right hlt hd.le
  have h2 := lt_of_mul_lt_mul_right hlt' hd.le
  omega

theorem up_of_ediv (hd : 0 < d) : Up n d (if n % d = 0 then n / d else n / d + 1) := by
  have hdiv := Int.mul_ediv_add_emod n d
  have hlt := Int.emod_lt_of_pos n hd
  have hrem := Int.emod_nonneg n (ne_of_gt hd)
  unfold Up
  split
  · rw [mul_comm]; omega
  · rw [add_mul, mul_comm]; omega

theorem up_neg_of_ediv (hd : 0 < d) : Up (-n) d (-(n / d)) := by
  have hdiv := Int.mul_ediv_add_emod n d
  have hlt := Int.emod_lt_of_pos n hd
  have hrem := Int.emod_nonneg n (ne_of_gt hd)
  unfold Up
  rw [neg_mul, mul_comm]
  omega

end Up

theorem tdiv_tdiv_mul {x b p : Int} (hp : 0 < p) : ((x * p).tdiv b).tdiv p = x.tdiv b := by
  -- the signs of `x` and `b` come out of every truncating division
  have hnat : ∀ m n : Nat, (((m : Int) * p).tdiv n).tdiv p = (m : Int).tdiv n := by
    intro m n
    have hmp : (0 : Int) ≤ m * p := Int.mul_nonneg (by omega) hp.le
    have hn : (0 : Int) ≤ n := Int.natCast_nonneg n
    rw [Int.tdiv_eq_ediv_of_nonneg hmp, Int.tdiv_eq_ediv_of_nonneg (Int.ediv_nonneg hmp hn),
      Int.natCast_tdiv_eq_ediv, Int.ediv_ediv_of_nonneg hn, Int.mul_ediv_mul_of_pos_left _ _ hp]
  obtain ⟨m, rfl | rfl⟩ := Int.eq_nat_or_neg x <;> obtain ⟨n, rfl | rfl⟩ := Int.eq_nat_or_neg b <;>
    simp only [Int.neg_mul, Int.neg_tdiv, Int.tdiv_neg, hnat]

end Rounding
