import Mathlib.Algebra.Order.Group.Nat
import Mathlib.Data.Nat.Init

/-! # Little-endian byte encodings

`leBytes k n` are the `k` bytes of `n`, least significant first: what Go's
`binary.Write` with `binary.LittleEndian` emits for a `k`-byte integer whose bits
read as `n`. `leValue` reads bytes back, so `leBytes k` is injective below
`256 ^ k`.
-/

namespace LittleEndian

/-- The `k` low bytes of `n`, least significant first. -/
def leBytes : Nat → Nat → List UInt8
  | 0, _ => []
  | k + 1, n => UInt8.ofNat n :: leBytes k (n / 256)

/-- The number little-endian bytes stand for. -/
def leValue : List UInt8 → Nat
  | [] => 0
  | b :: bs => b.toNat + 256 * leValue bs

@[simp] theorem length_leBytes (k n : Nat) : (leBytes k n).length = k := by
  induction k generalizing n with
  | zero => rfl
  | succ k ih => simp [leBytes, ih]

theorem leValue_leBytes (k n : Nat) : leValue (leBytes k n) = n % 256 ^ k := by
  induction k generalizing n with
  | zero => simp [leBytes, leValue, Nat.mod_one]
  | succ k ih =>
      have h256 : (2 : Nat) ^ 8 = 256 := rfl
      rw [leBytes, leValue, ih, UInt8.toNat_ofNat', h256, pow_succ', Nat.mod_mul]

theorem leBytes_inj {k n m : Nat} (hn : n < 256 ^ k) (hm : m < 256 ^ k)
    (h : leBytes k n = leBytes k m) : n = m := by
  have hv := congrArg leValue h
  rwa [leValue_leBytes, leValue_leBytes, Nat.mod_eq_of_lt hn, Nat.mod_eq_of_lt hm] at hv

end LittleEndian
