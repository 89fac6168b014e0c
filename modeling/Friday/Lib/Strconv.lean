import Mathlib
import Friday.Lib.Decimal

/-! # Decimal integer parsing

Go's `strconv.ParseUint`, `ParseInt` and `Atoi` in base 10. A numeral is an optional
sign and decimal digits, and the value must fit in 64 bits. A numeral of digits with a
value in range reads as that value (`atoi_digits`), leading zeros included; a sign `+`
is accepted as well.
-/

namespace Strconv

/-- `ErrSyntax` and `ErrRange`. -/
inductive NumErr
  | errSyntax
  | errRange
  deriving DecidableEq, Repr

/-- `NumError.Error()`, for the function `func` on the input `num`. -/
def NumErr.text (func num : String) : NumErr → String
  | .errSyntax => "strconv." ++ func ++ ": parsing " ++ num.quote ++ ": invalid syntax"
  | .errRange => "strconv." ++ func ++ ": parsing " ++ num.quote ++ ": value out of range"

/-- The digit loop of `ParseUint` in base 10 and 64 bits: a character that is no digit
is a syntax error, and a value past `2^64 - 1` a range error at the digit that passes it. -/
def parseUintLoop : List Char → Nat → Except NumErr Nat
  | [], n => .ok n
  | c :: cs, n =>
    if c.isDigit then
      let n1 := 10 * n + (c.toNat - '0'.toNat)
      if n1 > 2 ^ 64 - 1 then .error .errRange else parseUintLoop cs n1
    else .error .errSyntax

/-- `ParseUint(s, 10, 64)`. -/
def parseUint (s : List Char) : Except NumErr Nat :=
  if s = [] then .error .errSyntax else parseUintLoop s 0

/-- `ParseInt(s, 10, 0)` on a 64-bit platform: the sign, then `ParseUint`, whose range
error still leaves the magnitude `2^64 - 1` to check. -/
def parseInt (s : List Char) : Except NumErr Int :=
  match s with
  | [] => .error .errSyntax
  | c :: cs =>
    let (neg, digits) := if c = '+' then (false, cs) else if c = '-' then (true, cs) else (false, c :: cs)
    match parseUint digits with
    | .error .errSyntax => .error .errSyntax
    | r =>
      let un := match r with
        | .ok n => n
        | .error _ => 2 ^ 64 - 1
      if !neg && un ≥ 2 ^ 63 then .error .errRange
      else if neg && un > 2 ^ 63 then .error .errRange
      else .ok (if neg then -(un : Int) else un)

/-- `Atoi`. Its fast path for inputs of fewer than 19 bytes reads the sign and the digits
as `ParseInt` does, and no such input is out of range. -/
def atoi (s : String) : Except String Int :=
  match parseInt s.toList with
  | .ok i => .ok i
  | .error e => .error (e.text "Atoi" s)

theorem parseUintLoop_digits :
    ∀ (ds : List Char) (n : Nat), (∀ c ∈ ds, c.isDigit) → Nat.ofDigitChars 10 ds n < 2 ^ 64 →
      parseUintLoop ds n = .ok (Nat.ofDigitChars 10 ds n)
  | [], n, _, _ => rfl
  | c :: ds, n, h, hlt => by
    have hc := h c List.mem_cons_self
    rw [Nat.ofDigitChars_cons] at hlt
    have hle : 10 * n + (c.toNat - '0'.toNat) ≤ Nat.ofDigitChars 10 ds (10 * n + (c.toNat - '0'.toNat)) := by
      rw [Nat.ofDigitChars_eq_ofDigitChars_zero]
      exact Nat.le_trans (Nat.le_mul_of_pos_left _ (Nat.pow_pos (by decide))) (Nat.le_add_right _ _)
    rw [parseUintLoop, if_pos hc, if_neg (by omega), Nat.ofDigitChars_cons]
    exact parseUintLoop_digits ds _ (fun c' hc' => h c' (List.mem_cons_of_mem _ hc')) hlt

theorem parseInt_digits {ds : List Char} (hne : ds ≠ []) (h : ∀ c ∈ ds, c.isDigit)
    (hlt : Nat.ofDigitChars 10 ds 0 < 2 ^ 63) : parseInt ds = .ok (Nat.ofDigitChars 10 ds 0) := by
  obtain ⟨c, cs, rfl⟩ := List.exists_cons_of_ne_nil hne
  have hc : c.isDigit := h c List.mem_cons_self
  -- a digit is no sign, so every character goes to `ParseUint`
  have hplus : c ≠ '+' := Decimal.ne_of_isDigit hc (by decide)
  have hminus : c ≠ '-' := Decimal.ne_of_isDigit hc (by decide)
  have hloop := parseUintLoop_digits (c :: cs) 0 h (by omega)
  have huint : parseUint (c :: cs) = .ok (Nat.ofDigitChars 10 (c :: cs) 0) := by
    rw [parseUint, if_neg (List.cons_ne_nil c cs), hloop]
  simp only [parseInt, hplus, hminus, if_false, huint]
  simp only [Bool.not_false, Bool.true_and, decide_eq_true_eq, Bool.false_and, Bool.false_eq_true, if_false]
  rw [if_neg (by omega)]

/-- `Atoi` reads a numeral of decimal digits whose value is below `2^63`. -/
theorem atoi_digits {s : String} (hne : s.toList ≠ []) (h : ∀ c ∈ s.toList, c.isDigit)
    (hlt : Nat.ofDigitChars 10 s.toList 0 < 2 ^ 63) : atoi s = .ok (Nat.ofDigitChars 10 s.toList 0) := by
  simp only [atoi, parseInt_digits hne h hlt]

/-- `ParseInt(s, 10, 64)`, with its error as text. -/
def parseInt64 (s : String) : Except String Int :=
  match parseInt s.toList with
  | .ok i => .ok i
  | .error e => .error (e.text "ParseInt" s)

theorem parseInt64_digits {s : String} (hne : s.toList ≠ []) (h : ∀ c ∈ s.toList, c.isDigit)
    (hlt : Nat.ofDigitChars 10 s.toList 0 < 2 ^ 63) : parseInt64 s = .ok (Nat.ofDigitChars 10 s.toList 0) := by
  simp only [parseInt64, parseInt_digits hne h hlt]

end Strconv
