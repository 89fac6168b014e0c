import Mathlib.Algebra.Order.Ring.Int
import Friday.Lib.Decimal

/-! # Big integers

Go's `math/big.Int` as an `Int`. `BitLen` is the length of the absolute value in bits:
a bound on it is a bound on the absolute value (`bitLen_le_iff`), and a product is at
least as long as its factors' lengths together, less one (`add_bitLen_le_bitLen_mul`).

`SetString` reads an optional sign and then the digits that `nat.scan` accepts, and the
whole text must be read. With base 0 the digits may start with a base prefix: `0b`, `0o`,
`0x`, or a lone `0`, which makes the rest octal; underscores may separate digits. The
decimal text of every integer reads back as that integer in base 0 and in base 10
(`setString_toString`), since it has no leading zero; a decimal numeral with a leading
zero is read in base 0 as octal.
-/

namespace BigInt

/-- `Int.BitLen`: the bits of the absolute value, none for zero. -/
def bitLen (i : Int) : Nat := if i = 0 then 0 else i.natAbs.log2 + 1

theorem bitLen_le_iff {i : Int} {n : Nat} : bitLen i ≤ n ↔ i.natAbs < 2 ^ n := by
  unfold bitLen
  split
  · rename_i h
    simp [h]
  · rename_i h
    have hlog := Nat.log2_lt (n := i.natAbs) (k := n) (by omega)
    omega

theorem lt_bitLen_iff {i : Int} {n : Nat} : n < bitLen i ↔ 2 ^ n ≤ i.natAbs := by
  rw [← not_le, bitLen_le_iff, not_lt]

@[simp] theorem bitLen_neg (i : Int) : bitLen (-i) = bitLen i := by
  simp [bitLen]

theorem two_pow_le_natAbs {i : Int} (h : i ≠ 0) : 2 ^ (bitLen i - 1) ≤ i.natAbs := by
  have hlen : bitLen i - 1 < bitLen i := by simp [bitLen, h]
  exact lt_bitLen_iff.mp hlen

/-- The product of two integers other than zero has at least the bits of both, less one. -/
theorem add_bitLen_le_bitLen_mul {i j : Int} (hi : i ≠ 0) (hj : j ≠ 0) :
    bitLen i + bitLen j - 1 ≤ bitLen (i * j) := by
  have hpi := two_pow_le_natAbs hi
  have hpj := two_pow_le_natAbs hj
  have hli : 0 < bitLen i := by simp [bitLen, hi]
  have hlj : 0 < bitLen j := by simp [bitLen, hj]
  have hprod : 2 ^ (bitLen i + bitLen j - 1 - 1) ≤ (i * j).natAbs := by
    rw [Int.natAbs_mul]
    calc 2 ^ (bitLen i + bitLen j - 1 - 1) = 2 ^ (bitLen i - 1) * 2 ^ (bitLen j - 1) := by
          rw [← pow_add]; congr 1; omega
      _ ≤ i.natAbs * j.natAbs := Nat.mul_le_mul hpi hpj
  have hlt : bitLen i + bitLen j - 1 - 1 < bitLen (i * j) := lt_bitLen_iff.mpr hprod
  omega

/-! ## Text -/

/-- What `nat.scan` saw last: a digit, a separator `_`, or anything else. -/
inductive Prev
  | digit
  | sep
  | other
  deriving DecidableEq, Repr

/-- `MaxBase`. -/
def maxBase : Nat := 62

/-- The digit value that `nat.scan` gives a character in base `b`, and `maxBase + 1` to a
character that is no digit. -/
def digitOf (b : Nat) (ch : Char) : Nat :=
  if '0' ≤ ch ∧ ch ≤ '9' then ch.toNat - '0'.toNat
  else if 'a' ≤ ch ∧ ch ≤ 'z' then ch.toNat - 'a'.toNat + 10
  else if 'A' ≤ ch ∧ ch ≤ 'Z' then
    if b ≤ 36 then ch.toNat - 'A'.toNat + 10 else ch.toNat - 'A'.toNat + 36
  else maxBase + 1

/-- The state of the digit loop of `nat.scan`: the value, the digits counted, what was
seen last, and whether a separator stood where it may not. -/
structure Scan where
  z : Nat
  count : Nat
  prev : Prev
  invalSep : Bool
  deriving DecidableEq, Repr

/-- The digit loop of `nat.scan` in base `b`, which takes separators `_` when `sep` (base
0). It stops at the first character that is neither a digit nor a separator and leaves it
unread. -/
def scanDigits (b : Nat) (sep : Bool) : Scan → List Char → Scan × List Char
  | st, [] => (st, [])
  | st, ch :: rest =>
    if ch = '_' ∧ sep = true then
      scanDigits b sep { st with prev := .sep, invalSep := st.invalSep || st.prev != .digit } rest
    else if digitOf b ch < b then
      scanDigits b sep { st with z := b * st.z + digitOf b ch, count := st.count + 1, prev := .digit } rest
    else (st, ch :: rest)

/-- The base prefix that `nat.scan` reads with base 0: the base, the prefix (`'0'` for a
leading zero that makes the number octal), the state of the digit loop after it, and the
characters left. -/
def scanPrefix : List Char → Nat × Option Char × Scan × List Char
  | '0' :: ch :: rest =>
    if ch = 'b' ∨ ch = 'B' then (2, some 'b', ⟨0, 0, .digit, false⟩, rest)
    else if ch = 'o' ∨ ch = 'O' then (8, some 'o', ⟨0, 0, .digit, false⟩, rest)
    else if ch = 'x' ∨ ch = 'X' then (16, some 'x', ⟨0, 0, .digit, false⟩, rest)
    else (8, some '0', ⟨0, 0, .digit, false⟩, ch :: rest)
  | ['0'] => (10, none, ⟨0, 1, .digit, false⟩, [])
  | s => (10, none, ⟨0, 0, .other, false⟩, s)

/-- The errors of `nat.scan`. -/
inductive ScanError
  | noDigits
  | invalSep
  deriving DecidableEq, Repr

/-- `nat.scan` without a fraction: the value and the characters left unread. -/
def natScan (base : Nat) (s : List Char) : Except ScanError (Nat × List Char) :=
  let (b, pre, st, s) := if base = 0 then scanPrefix s else (base, none, ⟨0, 0, .other, false⟩, s)
  let (st, rest) := scanDigits b (base == 0) st s
  let invalid := st.invalSep || st.prev == .sep
  if st.count = 0 then
    -- only the octal prefix `0`, which reads as decimal zero
    if pre = some '0' then (if invalid then .error .invalSep else .ok (0, rest))
    else .error .noDigits
  else if invalid then .error .invalSep else .ok (st.z, rest)

/-- `Int.SetString(s, base)`: an optional sign, then `nat.scan`, which must read the whole
text. -/
def setString (s : String) (base : Nat) : Option Int :=
  match s.toList with
  | [] => none
  | c :: cs =>
    let (neg, digits) := if c = '-' then (true, cs) else if c = '+' then (false, cs) else (false, c :: cs)
    match natScan base digits with
    | .ok (z, []) => some (if neg then -(z : Int) else z)
    | _ => none

theorem digitOf_ten {c : Char} (h : c.isDigit) : digitOf 10 c = c.toNat - 48 ∧ c.toNat - 48 < 10 := by
  simp only [Char.isDigit, Bool.and_eq_true, decide_eq_true_eq] at h
  have hle : '0' ≤ c ∧ c ≤ '9' := h
  have hc : c.toNat ≤ 57 := h.2
  refine ⟨?_, by omega⟩
  simp only [digitOf, hle, and_self, if_true]
  rfl

theorem scanDigits_decimal {sep : Bool} :
    ∀ (ds : List Char) (st : Scan), (∀ c ∈ ds, c.isDigit) →
      scanDigits 10 sep st ds =
        ({ st with
            z := Nat.ofDigitChars 10 ds st.z
            count := st.count + ds.length
            prev := if ds = [] then st.prev else .digit }, [])
  | [], st, _ => by simp [scanDigits]
  | c :: ds, st, h => by
    have hc := h c List.mem_cons_self
    obtain ⟨hval, hlt⟩ := digitOf_ten hc
    have hsep : ¬(c = '_' ∧ sep = true) := fun hsep => Decimal.ne_of_isDigit hc (by decide) hsep.1
    rw [scanDigits, if_neg hsep, if_pos (by omega),
      scanDigits_decimal ds _ fun c' hc' => h c' (List.mem_cons_of_mem _ hc')]
    simp only [hval, Nat.ofDigitChars_cons, List.length_cons, reduceCtorEq, if_false]
    by_cases hds : ds = []
    · simp [hds]
    · simp [hds]
      omega

theorem natScan_decimal {ds : List Char} (hne : ds ≠ []) (h : ∀ c ∈ ds, c.isDigit) :
    natScan 10 ds = .ok (Nat.ofDigitChars 10 ds 0, []) := by
  have hlen : ds.length ≠ 0 := by simpa using hne
  simp only [natScan, Nat.reduceBEq, Nat.reduceEqDiff, if_false]
  rw [scanDigits_decimal ds _ h]
  simp [hne, hlen]

theorem natScan_zero_decimal {c : Char} {ds : List Char} (hc : c ≠ '0') (h : ∀ c' ∈ c :: ds, c'.isDigit) :
    natScan 0 (c :: ds) = .ok (Nat.ofDigitChars 10 (c :: ds) 0, []) := by
  have hpre : scanPrefix (c :: ds) = (10, none, ⟨0, 0, .other, false⟩, c :: ds) := by
    unfold scanPrefix
    split <;> simp_all
  simp only [natScan, hpre, if_true]
  rw [scanDigits_decimal (c :: ds) _ h]
  simp

theorem toDigits_ten_head (n : Nat) (hn : 0 < n) : ∃ c cs, Nat.toDigits 10 n = c :: cs ∧ c ≠ '0' := by
  induction n using Nat.strong_induction_on with
  | _ n ih =>
  rw [Nat.toDigits_eq_if (by decide)]
  split
  · rename_i hlt
    refine ⟨n.digitChar, [], rfl, ?_⟩
    have hval := Nat.toNat_digitChar_of_lt_ten hlt
    intro heq
    have : n.digitChar.toNat = '0'.toNat := by rw [heq]
    have h0 : '0'.toNat = 48 := rfl
    omega
  · -- the leading digits are those of `n / 10`
    obtain ⟨c, cs, hcs, hc⟩ := ih (n / 10) (by omega) (by omega)
    exact ⟨c, cs ++ [(n % 10).digitChar], by rw [hcs, List.cons_append], hc⟩

theorem natScan_toDigits (n : Nat) :
    natScan 0 (Nat.toDigits 10 n) = .ok (n, []) ∧ natScan 10 (Nat.toDigits 10 n) = .ok (n, []) := by
  have hdigits : ∀ c ∈ Nat.toDigits 10 n, c.isDigit := fun c hc => Nat.isDigit_of_mem_toDigits (by decide) (by decide) hc
  have hten := natScan_decimal Nat.toDigits_ne_nil hdigits
  rw [Nat.ofDigitChars_ten_toDigits] at hten
  refine ⟨?_, hten⟩
  rcases Nat.eq_zero_or_pos n with rfl | hn
  · rfl
  · obtain ⟨c, cs, hcs, hc⟩ := toDigits_ten_head n hn
    rw [hcs] at hdigits ⊢
    rw [natScan_zero_decimal hc hdigits, ← hcs, Nat.ofDigitChars_ten_toDigits]

/-- The decimal text of an integer reads back as the integer, in base 0 and base 10. -/
theorem setString_toString (i : Int) (base : Nat) (hbase : base = 0 ∨ base = 10) :
    setString (toString i) base = some i := by
  have hscan : ∀ n, natScan base (Nat.toDigits 10 n) = .ok (n, []) := by
    intro n
    rcases hbase with rfl | rfl
    · exact (natScan_toDigits n).1
    · exact (natScan_toDigits n).2
  have hsign : ∀ n, ∃ c cs, Nat.toDigits 10 n = c :: cs ∧ c ≠ '-' ∧ c ≠ '+' := by
    intro n
    obtain ⟨c, cs, hcs⟩ := List.exists_cons_of_ne_nil (Nat.toDigits_ne_nil (n := n) (b := 10))
    have hc : c.isDigit := Nat.isDigit_of_mem_toDigits (by decide) (by decide) (hcs ▸ List.mem_cons_self)
    exact ⟨c, cs, hcs, Decimal.ne_of_isDigit hc (by decide), Decimal.ne_of_isDigit hc (by decide)⟩
  cases i with
  | ofNat n =>
    obtain ⟨c, cs, hcs, hminus, hplus⟩ := hsign n
    have htext : (toString (Int.ofNat n)).toList = c :: cs := by
      rw [← hcs]
      exact Nat.toList_repr
    have hs := hscan n
    rw [hcs] at hs
    simp only [setString, htext, hminus, hplus, if_false, hs]
    rfl
  | negSucc n =>
    have htext : (toString (Int.negSucc n)).toList = '-' :: Nat.toDigits 10 (n + 1) := by
      show (Int.repr (Int.negSucc n)).toList = _
      simp [Int.repr, Nat.toList_repr]
    simp only [setString, htext, if_true, hscan]
    rfl

theorem setString_digits {ds : List Char} (hne : ds ≠ []) (h : ∀ c ∈ ds, c.isDigit) :
    setString (String.ofList ds) 10 = some ((Nat.ofDigitChars 10 ds 0 : Nat) : Int) := by
  have hscan := natScan_decimal hne h
  obtain ⟨c, cs, rfl⟩ := List.exists_cons_of_ne_nil hne
  have hc : c.isDigit := h c List.mem_cons_self
  have hminus : c ≠ '-' := Decimal.ne_of_isDigit hc (by decide)
  have hplus : c ≠ '+' := Decimal.ne_of_isDigit hc (by decide)
  simp only [setString, String.toList_ofList, hminus, hplus, if_false, hscan]
  rfl

end BigInt
