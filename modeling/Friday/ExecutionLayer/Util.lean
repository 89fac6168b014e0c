import Mathlib.Data.List.TakeWhile

/-! # Amounts in Hdac and in Bigsun

`x/executionlayer/client/util/util.go`: one Hdac is `10 ^ 18` Bigsun, and the CLI
and REST amounts are converted as decimal strings. The model reads a string as its
characters: `ToBigsun` rejects a string with a character outside `[0-9|.]` before
it slices anything, so past that check every character is one byte; `ToHdac` is
only given decimal digits.

`ToBigsun` undoes `ToHdac` on every canonical decimal (`toBigsun_toHdac`), through
what each does to a well-formed amount (`toHdac_split`, `toBigsun_point`,
`toBigsun_integer`).
-/

namespace Friday.ExecutionLayer.Util

/-- The character class `[0-9|.]` of `^[0-9|.]*$`: inside brackets `|` is a literal. -/
def inNumberClass (c : Char) : Bool := ('0' ≤ c && c ≤ '9') || c == '|' || c == '.'

/-- The loop that keeps `res` from its first byte that is not `'0'`, or all of it. -/
def trimLeadingZeros (res : List Char) : List Char :=
  match res.findIdx? (· != '0') with
  | some i => res.drop i
  | none => res

/-- `ToBigsun`: the amount, and the error text when there is one. -/
def toBigsun (hdac : String) : String × Option String :=
  let src := hdac.toList
  if !src.all inNumberClass then ("0", some "Must be number or '.'") else
  let ress := src.splitOn '.'
  if ress.length > 2 then ("0", some ("'.' must be less than or equal to 1, But " ++ toString ress.length)) else
  let res := ress.flatten
  if res.count '0' = res.length then ("0", none) else
  let fraction := ress.getD 1 []
  let paddingCount : Int := if res.length ≠ (ress.headD []).length then 18 - fraction.length else 18
  if paddingCount < 0 then
    ("0", some ("The decimal place must be 18 digits or less, But " ++ toString fraction.length))
  else (String.ofList (trimLeadingZeros (res ++ List.replicate paddingCount.toNat '0')), none)

/-- `ToHdac`: the last eighteen digits are the fraction, without its trailing zeros. -/
def toHdac (bigsun : String) : String :=
  let src := bigsun.toList
  if bigsun = "0" then bigsun else
  let integer := if src.length > 18 then src.take (src.length - 18) else ['0']
  let fraction := if src.length > 18 then src.drop (src.length - 18) else List.replicate (18 - src.length) '0' ++ src
  let fraction := (fraction.reverse.dropWhile (· == '0')).reverse
  if fraction = [] then String.ofList integer else String.ofList (integer ++ '.' :: fraction)

example : toBigsun "10.12" = ("10120000000000000000", none) := by decide
example : toBigsun "10.1234567890123456789" = ("0", some "The decimal place must be 18 digits or less, But 19") := by decide
example : toHdac "1123000000000000000" = "1.123" := by decide

section RoundTrip

/-- `trimLeadingZeros` after zeros keeps what follows them, from a digit that is not `'0'`. -/
theorem trimLeadingZeros_replicate_append (k : Nat) {c : Char} (cs : List Char) (hc : c ≠ '0') :
    trimLeadingZeros (List.replicate k '0' ++ c :: cs) = c :: cs := by
  have hfind : (List.replicate k '0' ++ c :: cs).findIdx? (· != '0') = some k := by
    induction k with
    | zero => simp [List.findIdx?_cons, hc]
    | succ k ih => simp [List.replicate_succ, List.findIdx?_cons, ih]
  rw [trimLeadingZeros, hfind]
  exact List.drop_left' (by simp)

theorem dropTrailingZeros_append (l : List Char) :
    (l.reverse.dropWhile (· == '0')).reverse ++
      List.replicate (l.length - (l.reverse.dropWhile (· == '0')).reverse.length) '0' = l := by
  have hsplit := List.takeWhile_append_dropWhile (p := (· == '0')) (l := l.reverse)
  have hzeros : (l.reverse.takeWhile (· == '0')) =
      List.replicate (l.length - (l.reverse.dropWhile (· == '0')).length) '0' := by
    rw [List.eq_replicate_iff]
    refine ⟨?_, fun b hb => by simpa using List.mem_takeWhile_imp hb⟩
    have := congrArg List.length hsplit
    simp only [List.length_append, List.length_reverse] at this
    omega
  conv => rhs; rw [← List.reverse_reverse l, ← hsplit]
  rw [List.reverse_append, hzeros, List.reverse_replicate, List.length_reverse]

theorem inNumberClass_of_isDigit {c : Char} (h : c.isDigit) : inNumberClass c := by
  have hdigit : ('0' ≤ c && c ≤ '9') = true := h
  simp only [inNumberClass, hdigit, Bool.true_or]

theorem ne_point_of_isDigit {c : Char} (h : c.isDigit) : c ≠ '.' := by
  rintro rfl
  exact absurd h (by decide)

theorem splitOn_of_digits {l : List Char} (hl : ∀ c ∈ l, c.isDigit) : l.splitOn '.' = [l] := by
  rw [List.splitOn_eq_splitOnP]
  exact List.splitOnP_eq_singleton fun c hc => by simpa using ne_point_of_isDigit (hl c hc)

theorem splitOn_point {integer fraction : List Char} (hi : ∀ c ∈ integer, c.isDigit)
    (hf : ∀ c ∈ fraction, c.isDigit) : (integer ++ '.' :: fraction).splitOn '.' = [integer, fraction] := by
  rw [List.splitOn_eq_splitOnP, List.splitOnP_append_cons_of_forall_mem
    (fun c hc => by simpa using ne_point_of_isDigit (hi c hc)) '.' (by decide), ← List.splitOn_eq_splitOnP,
    splitOn_of_digits hf]

theorem all_inNumberClass {l : List Char} (hl : ∀ c ∈ l, c.isDigit ∨ c = '.') : l.all inNumberClass := by
  rw [List.all_eq_true]
  intro c hc
  rcases hl c hc with h | rfl
  · exact inNumberClass_of_isDigit h
  · decide

/-- `ToBigsun` of digits with a point and a fraction of at most eighteen digits, not
    all zeros. -/
theorem toBigsun_point {integer fraction : List Char} (hi : ∀ c ∈ integer, c.isDigit)
    (hf : ∀ c ∈ fraction, c.isDigit) (hne : fraction ≠ []) (hlen : fraction.length ≤ 18)
    (hnz : ∃ c ∈ integer ++ fraction, c ≠ '0') :
    toBigsun (String.ofList (integer ++ '.' :: fraction)) =
      (String.ofList (trimLeadingZeros (integer ++ fraction ++ List.replicate (18 - fraction.length) '0')), none) := by
  have hclass : (integer ++ '.' :: fraction).all inNumberClass := by
    refine all_inNumberClass fun c hc => ?_
    rcases List.mem_append.mp hc with hc | hc
    · exact .inl (hi c hc)
    · rcases List.mem_cons.mp hc with rfl | hc
      · exact .inr rfl
      · exact .inl (hf c hc)
  have hcount : (integer ++ fraction).count '0' ≠ (integer ++ fraction).length := by
    obtain ⟨c, hc, hc0⟩ := hnz
    exact fun h => hc0 (List.count_eq_length.mp h c hc).symm
  have hpad : (integer ++ fraction).length ≠ integer.length := by
    have := List.length_pos_iff.mpr hne
    simp only [List.length_append]
    omega
  simp only [toBigsun, String.toList_ofList, hclass, Bool.not_true, Bool.false_eq_true, if_false,
    splitOn_point hi hf, List.flatten_cons, List.flatten_nil, List.append_nil, hcount, List.headD_cons,
    List.getD_cons_succ, List.getD_cons_zero]
  have hnat : ((18 : Int) - fraction.length).toNat = 18 - fraction.length := by omega
  rw [if_neg (by simp), if_pos hpad, if_neg (by omega), hnat]

/-- `ToBigsun` of digits without a point, not all zeros. -/
theorem toBigsun_integer {integer : List Char} (hi : ∀ c ∈ integer, c.isDigit) (hnz : ∃ c ∈ integer, c ≠ '0') :
    toBigsun (String.ofList integer) = (String.ofList (trimLeadingZeros (integer ++ List.replicate 18 '0')), none) := by
  have hclass : integer.all inNumberClass := all_inNumberClass fun c hc => .inl (hi c hc)
  have hcount : integer.count '0' ≠ integer.length := by
    obtain ⟨c, hc, hc0⟩ := hnz
    exact fun h => hc0 (List.count_eq_length.mp h c hc).symm
  simp only [toBigsun, String.toList_ofList, hclass, Bool.not_true, Bool.false_eq_true, if_false,
    splitOn_of_digits hi, List.flatten_cons, List.flatten_nil, List.append_nil, hcount, List.headD_cons]
  simp only [ne_eq, not_true_eq_false, if_false, List.length_singleton]
  rfl

/-- A canonical decimal: `"0"`, or digits that do not start with `'0'`. -/
structure Canonical (ds : List Char) : Prop where
  digits : ∀ c ∈ ds, c.isDigit
  lead : ds = ['0'] ∨ ∃ c cs, ds = c :: cs ∧ c ≠ '0'

/-- `ToHdac` of digits that start with one that is not `'0'`: an integer part and
    eighteen fraction digits that together are the digits after some zeros. -/
theorem toHdac_split {c : Char} {cs : List Char} (hdig : ∀ x ∈ c :: cs, x.isDigit) (hc : c ≠ '0') :
    ∃ integer fraction k, integer ++ fraction = List.replicate k '0' ++ c :: cs ∧ fraction.length = 18 ∧
      (∀ x ∈ integer ++ fraction, x.isDigit) ∧
      toHdac (String.ofList (c :: cs)) =
        let fraction := (fraction.reverse.dropWhile (· == '0')).reverse
        if fraction = [] then String.ofList integer else String.ofList (integer ++ '.' :: fraction) := by
  have hne0 : String.ofList (c :: cs) ≠ "0" := by
    intro h0
    have := congrArg String.toList h0
    simp only [String.toList_ofList] at this
    exact hc (List.cons.inj this).1
  by_cases hL : (c :: cs).length > 18
  · refine ⟨(c :: cs).take ((c :: cs).length - 18), (c :: cs).drop ((c :: cs).length - 18), 0, by simp,
      by rw [List.length_drop]; omega, by rw [List.take_append_drop]; exact hdig, ?_⟩
    simp only [toHdac, String.toList_ofList, if_neg hne0, if_pos hL]
  · -- a short amount: `"0"`, then zeros up to eighteen fraction digits
    refine ⟨['0'], List.replicate (18 - (c :: cs).length) '0' ++ c :: cs, 18 - (c :: cs).length + 1, ?_,
      by simp at hL ⊢; omega, ?_, ?_⟩
    · rw [List.replicate_succ]
      rfl
    · intro x hx
      rw [List.singleton_append, List.mem_cons, List.mem_append, List.mem_replicate] at hx
      rcases hx with rfl | ⟨-, rfl⟩ | hx
      · rfl
      · rfl
      · exact hdig x hx
    · simp only [toHdac, String.toList_ofList, if_neg hne0, if_neg hL]

/-- `ToBigsun` undoes `ToHdac` on every canonical decimal. -/
theorem toBigsun_toHdac {ds : List Char} (h : Canonical ds) :
    toBigsun (toHdac (String.ofList ds)) = (String.ofList ds, none) := by
  rcases h.lead with rfl | ⟨c, cs, rfl, hc⟩
  · decide
  obtain ⟨integer, fraction, k, hsplit, hflen, hdig, hhdac⟩ := toHdac_split h.digits hc
  rw [hhdac]
  dsimp only
  -- the fraction `ToHdac` writes is the eighteen digits without their trailing zeros
  have hpad := dropTrailingZeros_append fraction
  rw [hflen] at hpad
  have hlast : (fraction.reverse.dropWhile (· == '0')).reverse ≠ [] →
      ∃ x ∈ (fraction.reverse.dropWhile (· == '0')).reverse, x ≠ '0' := by
    intro hne
    have hne' : fraction.reverse.dropWhile (· == '0') ≠ [] := by simpa using hne
    refine ⟨_, List.mem_reverse.mpr (List.head_mem hne'), ?_⟩
    simpa using List.head_dropWhile_not (· == '0') hne'
  generalize (fraction.reverse.dropWhile (· == '0')).reverse = frac at hpad hlast ⊢
  have hfrac : ∀ x ∈ frac, x ∈ fraction := fun x hx => hpad ▸ List.mem_append_left _ hx
  have hint : ∀ x ∈ integer, x.isDigit := fun x hx => hdig x (List.mem_append_left _ hx)
  have hflen' : frac.length ≤ 18 := by
    have := congrArg List.length hpad
    simp only [List.length_append, List.length_replicate] at this
    omega
  by_cases hempty : frac = []
  · -- no fraction digit is left: the amount is a multiple of `10 ^ 18`, `c` is in the integer part
    rw [if_pos hempty]
    have hzeros : fraction = List.replicate 18 '0' := by
      rw [← hpad, hempty]
      rfl
    have hcint : c ∈ integer := by
      have hmem : c ∈ integer ++ fraction := by rw [hsplit]; simp
      rcases List.mem_append.mp hmem with hmem | hmem
      · exact hmem
      · rw [hzeros, List.mem_replicate] at hmem
        exact absurd hmem.2 hc
    rw [toBigsun_integer hint ⟨c, hcint, hc⟩, ← hzeros, hsplit, trimLeadingZeros_replicate_append k cs hc]
  · rw [if_neg hempty]
    have hnz : ∃ x ∈ integer ++ frac, x ≠ '0' := by
      obtain ⟨x, hx, hx0⟩ := hlast hempty
      exact ⟨x, List.mem_append_right _ hx, hx0⟩
    rw [toBigsun_point hint (fun x hx => hdig x (List.mem_append_right _ (hfrac x hx))) hempty hflen' hnz,
      List.append_assoc, hpad, hsplit, trimLeadingZeros_replicate_append k cs hc]

end RoundTrip

/-- The class of the regular expression lets `|` through, and the shortcut for an
    amount of zeros comes before the check on the fraction's length. -/
theorem toBigsun_accepts_bar :
    toBigsun "1|2" = ("1|2000000000000000000", none) ∧ toBigsun "0.0000000000000000000" = ("0", none) := by
  constructor <;> decide

end Friday.ExecutionLayer.Util
