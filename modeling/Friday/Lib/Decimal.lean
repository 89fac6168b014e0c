import Mathlib.Data.Nat.Digits.Defs

/-! # Decimal digit strings

The number a string of decimal digits stands for, most significant digit first, read
through `Nat.ofDigits`. Code that scales a decimal amount by cutting characters off
its string computes a division: dropping the last `k` digits divides the value by
`10 ^ k`, rounding down (`value_take`).
-/

namespace Decimal

theorem ne_of_isDigit {c d : Char} (hc : c.isDigit) (hd : d.isDigit = false) : c ≠ d := by
  rintro rfl
  simp [hd] at hc

/-- The value of a decimal digit. -/
def digitValue (c : Char) : Nat := c.toNat - '0'.toNat

/-- The number that decimal digits stand for, most significant first. -/
def value (ds : List Char) : Nat := Nat.ofDigits 10 (ds.reverse.map digitValue)

theorem digitValue_lt {c : Char} (h : c.isDigit) : digitValue c < 10 := by
  simp only [Char.isDigit, Bool.and_eq_true, decide_eq_true_eq] at h
  have h1 : '0'.toNat ≤ c.toNat := h.1
  have h2 : c.toNat ≤ '9'.toNat := h.2
  simp only [digitValue]
  have h0 : '0'.toNat = 48 := rfl
  have h9 : '9'.toNat = 57 := rfl
  omega

@[simp] theorem value_nil : value [] = 0 := rfl

theorem value_append (xs ys : List Char) : value (xs ++ ys) = value xs * 10 ^ ys.length + value ys := by
  simp only [value, List.reverse_append, List.map_append, Nat.ofDigits_append, List.length_map,
    List.length_reverse]
  ring

theorem value_lt {ds : List Char} (h : ∀ c ∈ ds, c.isDigit) : value ds < 10 ^ ds.length := by
  have hlt := Nat.ofDigits_lt_base_pow_length (b := 10) (l := ds.reverse.map digitValue) (by omega)
    (by
      intro x hx
      obtain ⟨c, hc, rfl⟩ := List.mem_map.mp hx
      exact digitValue_lt (h c (List.mem_reverse.mp hc)))
  rwa [List.length_map, List.length_reverse] at hlt

/-- Dropping the last `k` digits divides the value by `10 ^ k`. -/
theorem value_take {ds : List Char} (h : ∀ c ∈ ds, c.isDigit) (k : Nat) :
    value (ds.take (ds.length - k)) = value ds / 10 ^ k := by
  by_cases hk : k ≤ ds.length
  · -- the digits split into the ones kept and the `k` dropped ones
    have hsplit := value_append (ds.take (ds.length - k)) (ds.drop (ds.length - k))
    rw [List.take_append_drop, List.length_drop, Nat.sub_sub_self hk] at hsplit
    have hlow : value (ds.drop (ds.length - k)) < 10 ^ k := by
      have hdigits : ∀ c ∈ ds.drop (ds.length - k), c.isDigit := fun c hc => h c (List.mem_of_mem_drop hc)
      have hlt := value_lt hdigits
      rwa [List.length_drop, Nat.sub_sub_self hk] at hlt
    rw [hsplit, Nat.add_comm, Nat.add_mul_div_right _ _ (by positivity), Nat.div_eq_of_lt hlow, Nat.zero_add]
  · -- all digits are dropped, and the value is below `10 ^ k`
    have hzero : ds.length - k = 0 := by omega
    have hlt : value ds < 10 ^ k :=
      Nat.lt_of_lt_of_le (value_lt h) (Nat.pow_le_pow_right (by omega) (by omega))
    rw [hzero, List.take_zero, value_nil, Nat.div_eq_of_lt hlt]

theorem value_replicate_zero (k : Nat) : value (List.replicate k '0') = 0 := by
  simp [value, digitValue]

theorem ofDigitChars_eq_value (ds : List Char) : Nat.ofDigitChars 10 ds 0 = value ds := by
  induction ds with
  | nil => rfl
  | cons c cs ih =>
    have hsplit : value (c :: cs) = digitValue c * 10 ^ cs.length + value cs := by
      simpa [value, Nat.ofDigits] using value_append [c] cs
    rw [Nat.ofDigitChars_cons, Nat.ofDigitChars_eq_ofDigitChars_zero, ih, hsplit, digitValue]
    ring

end Decimal
