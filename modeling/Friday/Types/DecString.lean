import Friday.Lib.Ascii
import Friday.Lib.BigInt
import Friday.Lib.Decimal
import Friday.Lib.Json
import Friday.Types.Dec

/-! # The text of a decimal

`types/decimal.go`. `String()` writes the decimal digits of the magnitude with a point
before the last `Precision` of them, padded with zeros below one, after a sign `-`.
`NewDecFromStr` reads an optional sign and the digits around at most one point, pads the
decimals with zeros to `Precision` and reads the digits as an integer. JSON carries the
text as a string.

Every `Dec` has a text of the form `-?(0|[1-9][0-9]*)\.[0-9]{18}`, and that text reads back
as the `Dec`, by `NewDecFromStr` and through JSON (`toString_round_trip`). Every input of the
documented form `-?[0-9]+(\.[0-9]{1,18})?` is read as its value scaled by `10 ^ 18`
(`newDecFromStr_decInput`), but so are some texts of other forms, since `SetString` reads a sign
of its own (`newDecFromStr_accepts_signs`).
-/

namespace Friday.Types

/-- `Precision`. -/
def precision : Nat := 18

namespace Dec

/-- `String()`. The text of the magnitude is `MarshalText` of `big.Int`, its decimal
digits. -/
def toString (d : Dec) : String :=
  let isNeg := d.int < 0
  let bzInt := Nat.toDigits 10 d.int.natAbs
  let inputSize := bzInt.length
  let bzStr :=
    if inputSize ≤ precision then
      -- purely decimal: `0.`, zeros, then the digits
      ['0', '.'] ++ List.replicate (precision - inputSize) '0' ++ bzInt
    else
      let decPointPlace := inputSize - precision
      bzInt.take decPointPlace ++ '.' :: bzInt.drop decPointPlace
  if isNeg then "-" ++ String.ofList bzStr else String.ofList bzStr

/-- `NewDecFromStr`. Lengths are counted in bytes, as Go counts them. -/
def newDecFromStr (str : String) : Except SdkError Dec := do
  if str.toList = [] then throw (errUnknownRequest "decimal string is empty")
  let (neg, s) := if str.toList.head? = some '-' then (true, str.toList.tail) else (false, str.toList)
  if s = [] then throw (errUnknownRequest "decimal string is empty")
  let (combinedStr, lenDecs) ← match s.splitOn '.' with
    | [whole] => pure (whole, 0)
    | [whole, decs] =>
      let lenDecs := (String.ofList decs).utf8ByteSize
      if lenDecs = 0 ∨ whole = [] then throw (errUnknownRequest "bad decimal length")
      pure (whole ++ decs, lenDecs)
    | _ => throw (errUnknownRequest "too many periods to be a decimal string")
  if lenDecs > precision then
    throw (errUnknownRequest ("too much precision, maximum " ++ ToString.toString precision ++ ", len decimal " ++
      ToString.toString lenDecs))
  -- `fmt.Sprintf("%0<n>s", "")` for `n = Precision - lenDecs`: `n` zeros, and none for `n = 0`
  let combinedStr := combinedStr ++ List.replicate (precision - lenDecs) '0'
  match BigInt.setString (String.ofList combinedStr) 10 with
  | none => throw (errUnknownRequest ("bad string to integer conversion, combinedStr: " ++ String.ofList combinedStr))
  | some combined => pure ⟨if neg then -combined else combined⟩

/-- `MarshalJSON`: the text as a JSON string. -/
def marshalJSON (d : Dec) : String := Json.marshalString d.toString

/-- The errors of `UnmarshalJSON`: one of `encoding/json`, whose text the model leaves out,
or one of `NewDecFromStr`. -/
inductive UnmarshalError
  | json
  | dec (err : SdkError)

/-- `UnmarshalJSON`: the new value of the decimal. On `null` the text stays empty, which
`NewDecFromStr` refuses. -/
def unmarshalJSON (bz : String) : Except UnmarshalError Dec :=
  match Json.unmarshalString bz "" with
  | none => .error .json
  | some text =>
    match newDecFromStr text with
    | .ok d => .ok d
    | .error err => .error (.dec err)

/-- The form `-?(0|[1-9][0-9]*)\.[0-9]{18}`. -/
def IsDecText (s : List Char) : Prop :=
  ∃ sign whole decs : List Char, s = sign ++ whole ++ '.' :: decs ∧ (sign = [] ∨ sign = ['-']) ∧
    (whole = ['0'] ∨ ∃ c cs, whole = c :: cs ∧ c ≠ '0' ∧ ∀ x ∈ whole, x.isDigit) ∧
    decs.length = precision ∧ ∀ x ∈ decs, x.isDigit

/-- The input form `-?[0-9]+(\.[0-9]{1,18})?` that the doc comment of `NewDecFromStr` gives. -/
def IsDecInput (s : List Char) : Prop :=
  ∃ sign whole : List Char, (sign = [] ∨ sign = ['-']) ∧ whole ≠ [] ∧ (∀ x ∈ whole, x.isDigit) ∧
    (s = sign ++ whole ∨
      ∃ decs, s = sign ++ whole ++ '.' :: decs ∧ decs ≠ [] ∧ decs.length ≤ precision ∧ ∀ x ∈ decs, x.isDigit)

/-! ## The parts of the text -/

theorem ofDigitChars_replicate_zero (k : Nat) (l : List Char) :
    Nat.ofDigitChars 10 (List.replicate k '0' ++ l) 0 = Nat.ofDigitChars 10 l 0 := by
  induction k with
  | zero => rfl
  | succ k ih =>
    rw [List.replicate_succ, List.cons_append, Nat.ofDigitChars_cons]
    exact ih

theorem isDigit_of_mem_toDigits {m : Nat} {c : Char} (h : c ∈ Nat.toDigits 10 m) : c.isDigit :=
  Nat.isDigit_of_mem_toDigits (by decide) (by decide) h

/-- The text of a decimal without its sign: digits around one point, the last `precision`
of them after it, the first of them `0` only when it is the only one before the point. -/
theorem toString_parts (d : Dec) : ∃ whole decs : List Char,
    d.toString.toList = (if d.int < 0 then ['-'] else []) ++ whole ++ '.' :: decs ∧
      (whole = ['0'] ∨ ∃ c cs, whole = c :: cs ∧ c ≠ '0') ∧ decs.length = precision ∧
      (∀ x ∈ whole ++ decs, x.isDigit) ∧ Nat.ofDigitChars 10 (whole ++ decs) 0 = d.int.natAbs := by
  have hvalue : Nat.ofDigitChars 10 (Nat.toDigits 10 d.int.natAbs) 0 = d.int.natAbs := Nat.ofDigitChars_ten_toDigits
  have hsign : ∀ l : List Char, (if d.int < 0 then "-" ++ String.ofList l else String.ofList l).toList =
      (if d.int < 0 then ['-'] else []) ++ l := by
    intro l
    split <;> simp
  by_cases hsmall : (Nat.toDigits 10 d.int.natAbs).length ≤ precision
  · -- below one: `0.`, then zeros and the digits
    refine ⟨['0'], List.replicate (precision - (Nat.toDigits 10 d.int.natAbs).length) '0' ++
      Nat.toDigits 10 d.int.natAbs, ?_, .inl rfl, ?_, ?_, ?_⟩
    · simp only [toString, if_pos hsmall, hsign]
      simp
    · simp only [List.length_append, List.length_replicate]
      omega
    · intro x hx
      simp only [List.cons_append, List.nil_append, List.mem_cons, List.mem_append, List.mem_replicate] at hx
      rcases hx with rfl | ⟨-, rfl⟩ | hx
      · rfl
      · rfl
      · exact isDigit_of_mem_toDigits hx
    · rw [List.cons_append, Nat.ofDigitChars_cons, List.nil_append]
      exact (ofDigitChars_replicate_zero _ _).trans hvalue
  · -- from one on: the point splits the digits
    have hpos : 0 < d.int.natAbs := by
      rcases Nat.eq_zero_or_pos d.int.natAbs with h0 | h0
      · rw [h0] at hsmall
        exact absurd (by decide) hsmall
      · exact h0
    obtain ⟨c, cs, hcs, hc⟩ := BigInt.toDigits_ten_head d.int.natAbs hpos
    refine ⟨(Nat.toDigits 10 d.int.natAbs).take ((Nat.toDigits 10 d.int.natAbs).length - precision),
      (Nat.toDigits 10 d.int.natAbs).drop ((Nat.toDigits 10 d.int.natAbs).length - precision), ?_, ?_, ?_, ?_, ?_⟩
    · simp only [toString, if_neg hsmall, hsign]
      simp
    · have hk : (Nat.toDigits 10 d.int.natAbs).length - precision = ((c :: cs).length - precision - 1) + 1 := by
        rw [← hcs]
        omega
      rw [hk, hcs, List.take_succ_cons]
      exact .inr ⟨c, _, rfl, hc⟩
    · simp only [List.length_drop]
      omega
    · rw [List.take_append_drop]
      exact fun x hx => isDigit_of_mem_toDigits hx
    · rw [List.take_append_drop]
      exact hvalue

theorem isAscii_of_digits {l : List Char} (h : ∀ x ∈ l, x.isDigit) : Ascii.IsAscii (String.ofList l) := by
  intro c hc
  rw [String.toList_ofList] at hc
  exact Ascii.toNat_lt_of_isLower_or_isDigit (by simp [h c hc])

theorem padded_isDigit {whole decs : List Char} (hdigits : ∀ x ∈ whole ++ decs, x.isDigit) (k : Nat) :
    ∀ x ∈ whole ++ decs ++ List.replicate k '0', x.isDigit := by
  intro x hx
  rcases List.mem_append.mp hx with hx | hx
  · exact hdigits x hx
  · rw [(List.mem_replicate.mp hx).2]
    rfl

/-- `NewDecFromStr` reads digits around one point, with one to `precision` digits after it: it
    pads those with zeros to `precision` places and reads all the digits as one integer. -/
theorem newDecFromStr_point_pad {p : Prop} [Decidable p] {whole decs : List Char} (hw : whole ≠ [])
    (hdigits : ∀ x ∈ whole ++ decs, x.isDigit) (hne : decs ≠ []) (hlen : decs.length ≤ precision) :
    newDecFromStr (String.ofList ((if p then ['-'] else []) ++ whole ++ '.' :: decs)) =
      .ok ⟨if p then -(Nat.ofDigitChars 10 (whole ++ decs ++ List.replicate (precision - decs.length) '0') 0 : Int)
        else Nat.ofDigitChars 10 (whole ++ decs ++ List.replicate (precision - decs.length) '0') 0⟩ := by
  have hnodot : ∀ l ∈ [whole, decs], '.' ∉ l := by
    intro l hl hdot
    simp only [List.mem_cons, List.not_mem_nil, or_false] at hl
    exact Decimal.ne_of_isDigit (hdigits '.' (by rcases hl with rfl | rfl <;> simp [hdot])) (by decide) rfl
  have hsplit : (whole ++ '.' :: decs).splitOn '.' = [whole, decs] := by
    have h := List.splitOn_intercalate '.' hnodot (by simp)
    simpa using h
  have hbytes : (String.ofList decs).utf8ByteSize = decs.length := by
    rw [Ascii.utf8ByteSize_of_ascii (isAscii_of_digits fun x hx => hdigits x (List.mem_append_right _ hx)),
      String.length_ofList]
  have hlen0 : decs.length ≠ 0 := fun h => hne (List.eq_nil_of_length_eq_zero h)
  have hprec : ¬precision < decs.length := Nat.not_lt.mpr hlen
  have hset := BigInt.setString_digits
    (List.append_ne_nil_of_left_ne_nil (List.append_ne_nil_of_left_ne_nil hw decs) _)
    (padded_isDigit hdigits (precision - decs.length))
  obtain ⟨c, cs, rfl⟩ := List.exists_cons_of_ne_nil hw
  have hc : c ≠ '-' := Decimal.ne_of_isDigit (hdigits c List.mem_cons_self) (by decide)
  -- the checks of the text pass in order, then `SetString` reads the digits
  by_cases hp : p
  · simp only [newDecFromStr, if_pos hp, String.toList_ofList, List.cons_append, List.nil_append, List.cons_ne_nil,
      if_false, List.head?_cons, List.tail_cons, if_true]
    simp only [← List.cons_append, hsplit, hbytes, hlen0, or_false, List.cons_ne_nil, if_false, pure_bind, gt_iff_lt,
      hprec, hset]
    rfl
  · simp only [newDecFromStr, if_neg hp, String.toList_ofList, List.cons_append, List.nil_append, List.cons_ne_nil,
      if_false, List.head?_cons, Option.some.injEq, hc]
    simp only [← List.cons_append, hsplit, hbytes, hlen0, or_false, List.cons_ne_nil, if_false, pure_bind, gt_iff_lt,
      hprec, hset, Bool.false_eq_true]
    rfl

/-- `NewDecFromStr` reads digits around one point, with `precision` digits after it. -/
theorem newDecFromStr_point {p : Prop} [Decidable p] {whole decs : List Char} (hw : whole ≠ [])
    (hdigits : ∀ x ∈ whole ++ decs, x.isDigit) (hlen : decs.length = precision) :
    newDecFromStr (String.ofList ((if p then ['-'] else []) ++ whole ++ '.' :: decs)) =
      .ok ⟨if p then -(Nat.ofDigitChars 10 (whole ++ decs) 0 : Int) else Nat.ofDigitChars 10 (whole ++ decs) 0⟩ := by
  have hne : decs ≠ [] := by
    rintro rfl
    exact absurd hlen (by decide)
  rw [newDecFromStr_point_pad hw hdigits hne hlen.le, hlen, Nat.sub_self, List.replicate_zero, List.append_nil]

/-- `NewDecFromStr` reads digits with no point as the digits followed by `precision` zeros. -/
theorem newDecFromStr_integer {p : Prop} [Decidable p] {whole : List Char} (hw : whole ≠ [])
    (hdigits : ∀ x ∈ whole, x.isDigit) :
    newDecFromStr (String.ofList ((if p then ['-'] else []) ++ whole)) =
      .ok ⟨if p then -(Nat.ofDigitChars 10 (whole ++ List.replicate precision '0') 0 : Int)
        else Nat.ofDigitChars 10 (whole ++ List.replicate precision '0') 0⟩ := by
  have hsplit : whole.splitOn '.' = [whole] := by
    exact List.splitOn_eq_singleton fun hdot => Decimal.ne_of_isDigit (hdigits '.' hdot) (by decide) rfl
  have hpadded : ∀ x ∈ whole ++ List.replicate precision '0', x.isDigit := by
    simpa using @padded_isDigit whole [] (by simpa using hdigits) precision
  have hset := BigInt.setString_digits (List.append_ne_nil_of_left_ne_nil hw _) hpadded
  obtain ⟨c, cs, rfl⟩ := List.exists_cons_of_ne_nil hw
  have hc : c ≠ '-' := Decimal.ne_of_isDigit (hdigits c List.mem_cons_self) (by decide)
  by_cases hp : p
  · simp only [newDecFromStr, if_pos hp, String.toList_ofList, List.cons_append, List.nil_append, List.cons_ne_nil,
      if_false, List.head?_cons, List.tail_cons, if_true]
    simp only [← List.cons_append, hsplit, pure_bind, gt_iff_lt, Nat.not_lt_zero, if_false, Nat.sub_zero, hset]
    rfl
  · simp only [newDecFromStr, if_neg hp, String.toList_ofList, List.cons_append, List.nil_append, List.cons_ne_nil,
      if_false, List.head?_cons, Option.some.injEq, hc]
    simp only [← List.cons_append, hsplit, pure_bind, gt_iff_lt, Nat.not_lt_zero, if_false, Nat.sub_zero, hset,
      Bool.false_eq_true]
    rfl

/-- The digits around the point, padded to `precision` places after it, stand for the value of
    the text scaled by `10 ^ precision`. -/
theorem value_padded {whole decs : List Char} (hlen : decs.length ≤ precision) :
    Nat.ofDigitChars 10 (whole ++ decs ++ List.replicate (precision - decs.length) '0') 0 =
      Decimal.value whole * 10 ^ precision + Decimal.value decs * 10 ^ (precision - decs.length) := by
  have hk : decs.length + (precision - decs.length) = precision := by omega
  rw [Decimal.ofDigitChars_eq_value, Decimal.value_append, Decimal.value_append, Decimal.value_replicate_zero,
    List.length_replicate]
  calc (Decimal.value whole * 10 ^ decs.length + Decimal.value decs) * 10 ^ (precision - decs.length) + 0
      = Decimal.value whole * 10 ^ (decs.length + (precision - decs.length)) +
          Decimal.value decs * 10 ^ (precision - decs.length) := by ring
    _ = Decimal.value whole * 10 ^ precision + Decimal.value decs * 10 ^ (precision - decs.length) := by rw [hk]

/-- `NewDecFromStr` reads every input of the documented form, with or without a point, as its
    value scaled by `10 ^ precision`. -/
theorem newDecFromStr_decInput {sign whole decs : List Char} (hsign : sign = [] ∨ sign = ['-']) (hw : whole ≠ [])
    (hdigits : ∀ x ∈ whole ++ decs, x.isDigit) (hlen : decs.length ≤ precision) :
    newDecFromStr (String.ofList (sign ++ whole ++ if decs = [] then [] else '.' :: decs)) =
      .ok ⟨(if sign = [] then 1 else -1) *
        (Decimal.value whole * 10 ^ precision + Decimal.value decs * 10 ^ (precision - decs.length) : Nat)⟩ := by
  have hsign' : (if sign = ['-'] then ['-'] else []) = sign := by
    rcases hsign with rfl | rfl <;> simp
  have hfactor : ∀ n : Nat, (if sign = ['-'] then -(n : Int) else n) = (if sign = [] then 1 else -1) * n := by
    intro n
    rcases hsign with rfl | rfl <;> simp
  by_cases hdecs : decs = []
  · -- no point: the digits and `precision` zeros
    subst hdecs
    have h := newDecFromStr_integer (p := sign = ['-']) hw (by simpa using hdigits)
    rw [hsign'] at h
    have hvalue := @value_padded whole [] (Nat.zero_le _)
    simp only [List.append_nil, List.length_nil, Nat.sub_zero] at hvalue
    rw [if_pos rfl, List.append_nil, h, hvalue, hfactor, List.length_nil, Nat.sub_zero]
  · -- a point and one to `precision` digits after it
    have h := newDecFromStr_point_pad (p := sign = ['-']) hw hdigits hdecs hlen
    rw [hsign'] at h
    rw [if_neg hdecs, h, value_padded hlen, hfactor]

/-- Every input of the documented form `-?[0-9]+(\.[0-9]{1,18})?` is accepted. -/
theorem newDecFromStr_of_isDecInput {s : List Char} (h : IsDecInput s) : ∃ d, newDecFromStr (String.ofList s) = .ok d := by
  obtain ⟨sign, whole, hsign, hw, hdigits, hs⟩ := h
  rcases hs with rfl | ⟨decs, rfl, hne, hlen, hdecs⟩
  · have hread := @newDecFromStr_decInput sign whole [] hsign hw (by simpa using hdigits) (Nat.zero_le _)
    rw [if_pos rfl, List.append_nil] at hread
    exact ⟨_, hread⟩
  · have hread := newDecFromStr_decInput hsign hw
      (fun x hx => (List.mem_append.mp hx).elim (hdigits x) (hdecs x)) hlen
    rw [if_neg hne] at hread
    exact ⟨_, hread⟩

/-- An input of the documented form starts with a digit, after at most one `-`. -/
theorem IsDecInput.first_digit {s : List Char} (h : IsDecInput s) :
    ∃ c rest, c.isDigit ∧ (s = c :: rest ∨ s = '-' :: c :: rest) := by
  obtain ⟨sign, whole, hsign, hne, hdigits, hs⟩ := h
  obtain ⟨c, cs, rfl⟩ := List.exists_cons_of_ne_nil hne
  have hc := hdigits c List.mem_cons_self
  rcases hsign with rfl | rfl
  · rcases hs with rfl | ⟨decs, rfl, -⟩
    · exact ⟨c, cs, hc, .inl rfl⟩
    · exact ⟨c, cs ++ '.' :: decs, hc, .inl rfl⟩
  · rcases hs with rfl | ⟨decs, rfl, -⟩
    · exact ⟨c, cs, hc, .inr rfl⟩
    · exact ⟨c, cs ++ '.' :: decs, hc, .inr rfl⟩

/-- A text whose first character is neither a digit nor a `-`, or which starts with a `-` and
    then no digit, is not of the documented form. -/
theorem not_isDecInput {c d : Char} {rest : List Char} (hc : c.isDigit = false) (hd : c = '-' → d.isDigit = false) :
    ¬IsDecInput (c :: d :: rest) := by
  intro h
  obtain ⟨c', rest', hc', hs⟩ := h.first_digit
  rcases hs with hs | hs
  · obtain ⟨rfl, -⟩ := List.cons.inj hs
    simp [hc] at hc'
  · obtain ⟨hminus, hs⟩ := List.cons.inj hs
    obtain ⟨rfl, -⟩ := List.cons.inj hs
    simp [hd hminus] at hc'

/-- `NewDecFromStr` leaves the sign of what follows its one `-` to `SetString`, which reads a
    sign of its own: `+1` is read as one, `--1` as one as well, and `+.5` as a half, though none of
    them has the documented form. -/
theorem newDecFromStr_accepts_signs :
    newDecFromStr "+1" = .ok ⟨10 ^ 18⟩ ∧ ¬IsDecInput "+1".toList ∧
      newDecFromStr "--1" = .ok ⟨10 ^ 18⟩ ∧ ¬IsDecInput "--1".toList ∧
      newDecFromStr "+.5" = .ok ⟨5 * 10 ^ 17⟩ ∧ ¬IsDecInput "+.5".toList :=
  ⟨by decide, not_isDecInput (by decide) (by decide), by decide,
    not_isDecInput (by decide) (fun _ => by decide), by decide, not_isDecInput (by decide) (by decide)⟩

/-- Every decimal's text has the form `-?(0|[1-9][0-9]*)\.[0-9]{18}` and reads back as the
decimal, by `NewDecFromStr` and by `UnmarshalJSON` of `MarshalJSON`. -/
theorem toString_round_trip (d : Dec) :
    IsDecText d.toString.toList ∧ newDecFromStr d.toString = .ok d ∧ unmarshalJSON (marshalJSON d) = .ok d := by
  obtain ⟨whole, decs, htext, hwhole, hlen, hdigits, hvalue⟩ := toString_parts d
  have hw : whole ≠ [] := by
    rcases hwhole with rfl | ⟨c, cs, rfl, -⟩ <;> simp
  have hparse : newDecFromStr d.toString = .ok d := by
    have hsign : (if d.int < 0 then -(d.int.natAbs : Int) else d.int.natAbs) = d.int := by
      split <;> omega
    rw [← String.ofList_toList (s := d.toString), htext, newDecFromStr_point hw hdigits hlen, hvalue, hsign]
  refine ⟨⟨if d.int < 0 then ['-'] else [], whole, decs, htext, by split <;> simp, ?_, hlen,
    fun x hx => hdigits x (List.mem_append_right _ hx)⟩, hparse, ?_⟩
  · rcases hwhole with h | ⟨c, cs, h, hc⟩
    · exact .inl h
    · exact .inr ⟨c, cs, h, hc, fun x hx => hdigits x (List.mem_append_left _ hx)⟩
  · simp only [unmarshalJSON, marshalJSON, Json.unmarshalString_marshalString, hparse]

end Dec

end Friday.Types
