import Friday.Lib.Except
import Friday.Types.CoinArithmetic
import Friday.Types.Dec

/-! # Decimal coins

`types/dec_coin.go`. A `DecCoin` is a denomination and a `Dec` amount, and `DecCoins` a list
of them in ascending denomination order with positive amounts. `TruncateDecimal` splits a
set into whole coins and change: each coin into its integer part, a `Coin`, and the rest,
each part added into its own set unless it is zero.

On a valid set whose denominations all match `reDnm` and whose amounts are below `2^255`
whole units, the whole coins are the floors of the amounts and the change the fractions,
both sets valid (`truncateDecimal_conserves`). `IsValid` checks only the first
denomination against `reDnm` while `NewCoin` checks each, and `TruncateInt` panics past
255 bits: either makes a valid set panic (`truncateDecimal_panics`).
-/

namespace Friday.Types

open BigInt

structure DecCoin where
  denom : String
  amount : Dec
  deriving DecidableEq, Repr

namespace DecCoin

def isZero (coin : DecCoin) : Bool := coin.amount.int == 0

def isPositive (coin : DecCoin) : Bool := decide (0 < coin.amount.int)

/-- `Add`: panics on two denominations. -/
def add (coin coinB : DecCoin) : Except Panic DecCoin := do
  if coin.denom ≠ coinB.denom then
    throw (.other ("coin denom different: " ++ coin.denom ++ " " ++ coinB.denom ++ "\n"))
  return ⟨coin.denom, ← coin.amount.add coinB.amount⟩

/-- `TruncateDecimal`: the whole coin and the change. -/
def truncateDecimal (coin : DecCoin) : Except Panic (Coin × DecCoin) := do
  let truncated ← coin.amount.truncateInt
  let change ← coin.amount.sub (newDecFromInt truncated)
  return (← newCoin coin.denom truncated, ⟨coin.denom, change⟩)

/-- The whole coin of a coin: the floor of its amount. -/
def wholePart (coin : DecCoin) : Coin := ⟨coin.denom, coin.amount.int / precisionReuse⟩

/-- The change of a coin: the fraction of its amount. -/
def changePart (coin : DecCoin) : DecCoin := ⟨coin.denom, ⟨coin.amount.int % precisionReuse⟩⟩

/-- A coin of a valid denomination, not negative and below `2^255` whole units splits into
its floor and its fraction. -/
theorem truncateDecimal_eq {coin : DecCoin} (hd : isDenom coin.denom = true) (hpos : 0 ≤ coin.amount.int)
    (hfit : coin.amount.int < 2 ^ maxBitLen * precisionReuse) :
    coin.truncateDecimal = .ok (coin.wholePart, coin.changePart) := by
  have hP := precisionReuse_pos
  have hwhole : 0 ≤ coin.amount.int / precisionReuse := Int.ediv_nonneg hpos (le_of_lt hP)
  have hlt : coin.amount.int / precisionReuse < 2 ^ maxBitLen := Int.ediv_lt_of_lt_mul hP hfit
  -- the change is below `precisionReuse < 2^60`, far within the bits of a `Dec`
  have hrem : coin.amount.int - coin.amount.int / precisionReuse * precisionReuse = coin.amount.int % precisionReuse := by
    rw [Int.emod_def, Int.mul_comm]
  have hchange : bitLen (coin.amount.int % precisionReuse) ≤ maxDecBitLen := by
    have hlow := Int.emod_nonneg coin.amount.int (ne_of_gt hP)
    have hhigh := Int.emod_lt_of_pos coin.amount.int hP
    have hbound : precisionReuse < 2 ^ decimalPrecisionBits := by decide
    have hbits : bitLen (coin.amount.int % precisionReuse) ≤ decimalPrecisionBits := bitLen_le_iff.mpr (by omega)
    unfold maxDecBitLen
    omega
  have htrunc : coin.amount.truncateInt = .ok (coin.amount.int / precisionReuse) := by
    rw [Dec.truncateInt, chopPrecisionAndTruncate, Int.tdiv_eq_ediv_of_nonneg hpos]
    have hpow : ((2 ^ maxBitLen : Nat) : Int) = 2 ^ maxBitLen := by norm_num
    exact SdkInt.newIntFromBigInt_eq_ok (by omega)
  have hsub : coin.amount.sub (newDecFromInt (coin.amount.int / precisionReuse)) =
      .ok ⟨coin.amount.int % precisionReuse⟩ := by
    refine Dec.ofChecked_eq_ok_iff.mpr ⟨hrem.symm, ?_⟩
    show bitLen (coin.amount.int - coin.amount.int / precisionReuse * precisionReuse) ≤ maxDecBitLen
    rw [hrem]
    exact hchange
  simp only [truncateDecimal, htrunc, hsub, newCoin_eq_ok hd hwhole, bind, Except.bind, pure, Except.pure]
  rfl

theorem isPositive_wholePart {coin : DecCoin} (hpos : 0 ≤ coin.amount.int) (hz : coin.wholePart.isZero = false) :
    coin.wholePart.isPositive = true := by
  have hwhole : 0 ≤ coin.amount.int / precisionReuse := Int.ediv_nonneg hpos (le_of_lt precisionReuse_pos)
  simp only [Coin.isZero, wholePart, beq_eq_false_iff_ne] at hz
  have hlt : 0 < coin.wholePart.amount := show 0 < coin.amount.int / precisionReuse by omega
  exact decide_eq_true hlt

theorem isPositive_changePart {coin : DecCoin} (hz : coin.changePart.isZero = false) :
    coin.changePart.isPositive = true := by
  have hchange := Int.emod_nonneg coin.amount.int (ne_of_gt precisionReuse_pos)
  simp only [isZero, changePart, beq_eq_false_iff_ne] at hz
  have hlt : 0 < coin.changePart.amount.int := show 0 < coin.amount.int % precisionReuse by omega
  exact decide_eq_true hlt

end DecCoin

/-- `sdk.DecCoins`. -/
abbrev DecCoins := List DecCoin

namespace DecCoins

/-- `IsValid`, the check of `Coins.IsValid`. -/
def isValid (coins : DecCoins) : Bool := Coins.isValidBy DecCoin.denom DecCoin.isPositive coins

def removeZeroDecCoins (coins : DecCoins) : DecCoins := Merge.removeZero DecCoin.isZero coins

/-- The loop of `safeAdd` while the first set has `coinA` left, as in `Coins.safeAdd`; the sum
of two coins of one denomination can panic. -/
def addFrom (coinA : DecCoin) (coins : DecCoins) (rest : DecCoins → Except Panic DecCoins) :
    DecCoins → Except Panic DecCoins
  | [] => pure (removeZeroDecCoins (coinA :: coins))
  | coinB :: coinsB =>
    match compare coinA.denom coinB.denom with
    | .lt => return (if coinA.isZero then [] else [coinA]) ++ (← rest (coinB :: coinsB))
    | .eq => do
      let res ← coinA.add coinB
      return (if res.isZero then [] else [res]) ++ (← rest coinsB)
    | .gt => return (if coinB.isZero then [] else [coinB]) ++ (← addFrom coinA coins rest coinsB)

def safeAdd : DecCoins → DecCoins → Except Panic DecCoins
  | [], coinsB => pure (removeZeroDecCoins coinsB)
  | coinA :: coins, coinsB => addFrom coinA coins (safeAdd coins) coinsB

/-- `Add`. -/
def add (coins coinsB : DecCoins) : Except Panic DecCoins := safeAdd coins coinsB

/-- `AmountOf`, the binary search of `Coins.AmountOf`. -/
def amountOf (coins : DecCoins) (denom : String) : Except Panic Dec :=
  Search.search mustValidateDenom DecCoin.denom DecCoin.amount ⟨0⟩ coins denom

/-- `AmountOf` of both coin sets: on denominations that ascend strictly, the binary search of
a valid denomination finds the amount of the one coin of that denomination, and zero when
there is none, which is what the linear scan finds. -/
theorem amountOf_binary_search :
    (∀ (coins : Coins) (denom : String), Merge.Sorted Coin.denom coins → isDenom denom = true →
      Coins.amountOf coins denom = .ok (Search.scan Coin.denom Coin.amount 0 coins denom) ∧
        (∀ coin ∈ coins, coin.denom = denom → Coins.amountOf coins denom = .ok coin.amount) ∧
        ((∀ coin ∈ coins, coin.denom ≠ denom) → Coins.amountOf coins denom = .ok 0)) ∧
    (∀ (coins : DecCoins) (denom : String), Merge.Sorted DecCoin.denom coins → isDenom denom = true →
      amountOf coins denom = .ok (Search.scan DecCoin.denom DecCoin.amount ⟨0⟩ coins denom) ∧
        (∀ coin ∈ coins, coin.denom = denom → amountOf coins denom = .ok coin.amount) ∧
        ((∀ coin ∈ coins, coin.denom ≠ denom) → amountOf coins denom = .ok ⟨0⟩)) := by
  constructor
  · intro coins denom hsorted hd
    have hk := Coins.mustValidateDenom_eq_ok_iff.mpr hd
    rw [Coins.amountOf_eq_search]
    exact ⟨Search.search_eq_scan hsorted hk, fun coin hc hcd => Search.search_of_mem hsorted hk hc hcd,
      Search.search_of_not_mem hsorted hk⟩
  · intro coins denom hsorted hd
    have hk := Coins.mustValidateDenom_eq_ok_iff.mpr hd
    exact ⟨Search.search_eq_scan hsorted hk, fun coin hc hcd => Search.search_of_mem hsorted hk hc hcd,
      Search.search_of_not_mem hsorted hk⟩

/-- Both lookups of the second of two denominations. -/
theorem amountOf_binary_search_def :
    (Merge.Sorted Coin.denom [⟨"abc", 1⟩, ⟨"def", 2⟩] ∧ isDenom "def" = true ∧
      Coins.amountOf [⟨"abc", 1⟩, ⟨"def", 2⟩] "def" =
          .ok (Search.scan Coin.denom Coin.amount 0 [⟨"abc", 1⟩, ⟨"def", 2⟩] "def") ∧
        (∀ coin ∈ ([⟨"abc", 1⟩, ⟨"def", 2⟩] : Coins), coin.denom = "def" →
          Coins.amountOf [⟨"abc", 1⟩, ⟨"def", 2⟩] "def" = .ok coin.amount) ∧
        ((∀ coin ∈ ([⟨"abc", 1⟩, ⟨"def", 2⟩] : Coins), coin.denom ≠ "def") →
          Coins.amountOf [⟨"abc", 1⟩, ⟨"def", 2⟩] "def" = .ok 0)) ∧
    (Merge.Sorted DecCoin.denom [⟨"abc", ⟨1⟩⟩, ⟨"def", ⟨2⟩⟩] ∧ isDenom "def" = true ∧
      amountOf [⟨"abc", ⟨1⟩⟩, ⟨"def", ⟨2⟩⟩] "def" =
          .ok (Search.scan DecCoin.denom DecCoin.amount ⟨0⟩ [⟨"abc", ⟨1⟩⟩, ⟨"def", ⟨2⟩⟩] "def") ∧
        (∀ coin ∈ ([⟨"abc", ⟨1⟩⟩, ⟨"def", ⟨2⟩⟩] : DecCoins), coin.denom = "def" →
          amountOf [⟨"abc", ⟨1⟩⟩, ⟨"def", ⟨2⟩⟩] "def" = .ok coin.amount) ∧
        ((∀ coin ∈ ([⟨"abc", ⟨1⟩⟩, ⟨"def", ⟨2⟩⟩] : DecCoins), coin.denom ≠ "def") →
          amountOf [⟨"abc", ⟨1⟩⟩, ⟨"def", ⟨2⟩⟩] "def" = .ok ⟨0⟩)) := by
  have hs : Merge.Sorted Coin.denom [⟨"abc", 1⟩, ⟨"def", 2⟩] := by decide +kernel
  have hs' : Merge.Sorted DecCoin.denom [⟨"abc", ⟨1⟩⟩, ⟨"def", ⟨2⟩⟩] := by decide +kernel
  have hd : isDenom "def" = true := by decide +kernel
  exact ⟨⟨hs, hd, amountOf_binary_search.1 _ _ hs hd⟩, ⟨hs', hd, amountOf_binary_search.2 _ _ hs' hd⟩⟩

/-- One turn of the loop of `TruncateDecimal`. -/
def truncateDecimalStep (acc : Coins × DecCoins) (coin : DecCoin) : Except Panic (Coins × DecCoins) := do
  let (truncated, change) ← coin.truncateDecimal
  let truncatedCoins ← if !truncated.isZero then acc.1.add [truncated] else pure acc.1
  let changeCoins ← if !change.isZero then acc.2.add [change] else pure acc.2
  pure (truncatedCoins, changeCoins)

/-- `TruncateDecimal`. -/
def truncateDecimal (coins : DecCoins) : Except Panic (Coins × DecCoins) :=
  coins.foldlM truncateDecimalStep ([], [])

theorem removeZeroDecCoins_singleton (coin : DecCoin) :
    removeZeroDecCoins [coin] = if coin.isZero then [] else [coin] := by
  rw [removeZeroDecCoins, Merge.removeZero_cons]
  exact List.append_nil _

/-- Adding one coin above every denomination of a set without zero coins appends it. -/
theorem safeAdd_singleton_of_lt {coin : DecCoin} :
    ∀ {coins : DecCoins}, (∀ c ∈ coins, c.denom < coin.denom) → (∀ c ∈ coins, c.isZero = false) →
      safeAdd coins [coin] = .ok (coins ++ if coin.isZero then [] else [coin])
  | [], _, _ => by
    rw [safeAdd, removeZeroDecCoins_singleton]
    rfl
  | c :: coins, hlt, hz => by
    have hc : compare c.denom coin.denom = .lt := compare_lt_iff_lt.mpr (hlt c List.mem_cons_self)
    have hrest := safeAdd_singleton_of_lt (fun c' hc' => hlt c' (List.mem_cons_of_mem c hc'))
      (fun c' hc' => hz c' (List.mem_cons_of_mem c hc'))
    rw [safeAdd, addFrom, hc]
    simp only [hrest, hz c List.mem_cons_self, bind, Except.bind, pure, Except.pure]
    rfl

/-- The whole coins that the loop of `TruncateDecimal` has collected after `l`. -/
def wholes (l : DecCoins) : Coins := (l.map DecCoin.wholePart).filter fun c => !c.isZero

/-- The change that the loop of `TruncateDecimal` has collected after `l`. -/
def changes (l : DecCoins) : DecCoins := (l.map DecCoin.changePart).filter fun c => !c.isZero

theorem wholes_append (l : DecCoins) (coin : DecCoin) :
    wholes (l ++ [coin]) = wholes l ++ if coin.wholePart.isZero then [] else [coin.wholePart] := by
  cases h : coin.wholePart.isZero <;> simp [wholes, h]

theorem changes_append (l : DecCoins) (coin : DecCoin) :
    changes (l ++ [coin]) = changes l ++ if coin.changePart.isZero then [] else [coin.changePart] := by
  cases h : coin.changePart.isZero <;> simp [changes, h]

/-- What the loop keeps of the coins before: entries of their denominations, none zero. -/
theorem mem_wholes {c : Coin} {l : DecCoins} (hc : c ∈ wholes l) : (∃ a ∈ l, c.denom = a.denom) ∧ c.isZero = false := by
  simp only [wholes, List.mem_filter, List.mem_map, Bool.not_eq_true'] at hc
  obtain ⟨⟨a, ha, rfl⟩, hz⟩ := hc
  exact ⟨⟨a, ha, rfl⟩, hz⟩

theorem mem_changes {c : DecCoin} {l : DecCoins} (hc : c ∈ changes l) :
    (∃ a ∈ l, c.denom = a.denom) ∧ c.isZero = false := by
  simp only [changes, List.mem_filter, List.mem_map, Bool.not_eq_true'] at hc
  obtain ⟨⟨a, ha, rfl⟩, hz⟩ := hc
  exact ⟨⟨a, ha, rfl⟩, hz⟩

/-- One turn of the loop on a coin above all those before it adds its whole coin and its
change, each unless it is zero. -/
theorem truncateDecimalStep_eq {pre : DecCoins} {coin : DecCoin} (hlt : ∀ c ∈ pre, c.denom < coin.denom)
    (hd : isDenom coin.denom = true) (hpos : 0 ≤ coin.amount.int) (hfit : coin.amount.int < 2 ^ maxBitLen * precisionReuse) :
    truncateDecimalStep (wholes pre, changes pre) coin = .ok (wholes (pre ++ [coin]), changes (pre ++ [coin])) := by
  have hadd : (wholes pre).add [coin.wholePart] = .ok (wholes (pre ++ [coin])) := by
    have hlow : ∀ c ∈ wholes pre, c.denom < coin.wholePart.denom := fun c hc => by
      obtain ⟨⟨a, ha, hka⟩, -⟩ := mem_wholes hc
      exact hka ▸ hlt a ha
    rw [Coins.add_singleton_of_lt hlow (fun c hc => (mem_wholes hc).2), wholes_append]
  have hsafe : add (changes pre) [coin.changePart] = .ok (changes (pre ++ [coin])) := by
    have hlow : ∀ c ∈ changes pre, c.denom < coin.changePart.denom := fun c hc => by
      obtain ⟨⟨a, ha, hka⟩, -⟩ := mem_changes hc
      exact hka ▸ hlt a ha
    rw [add, safeAdd_singleton_of_lt hlow (fun c hc => (mem_changes hc).2), changes_append]
  rw [truncateDecimalStep, DecCoin.truncateDecimal_eq hd hpos hfit]
  cases hw : coin.wholePart.isZero <;> cases hc : coin.changePart.isZero <;>
    simp [hw, hc, hadd, hsafe, wholes_append, changes_append, bind, Except.bind, pure, Except.pure]

/-- The loop of `TruncateDecimal` over the coins after `pre`, with the parts of `pre`
collected: it collects the parts of all of them. -/
theorem foldlM_truncateDecimalStep :
    ∀ (pre rest : DecCoins), Merge.Sorted DecCoin.denom (pre ++ rest) →
      (∀ coin ∈ rest, isDenom coin.denom = true ∧ 0 ≤ coin.amount.int ∧ coin.amount.int < 2 ^ maxBitLen * precisionReuse) →
      rest.foldlM truncateDecimalStep (wholes pre, changes pre) = .ok (wholes (pre ++ rest), changes (pre ++ rest))
  | pre, [], _, _ => by
    rw [List.foldlM_nil, List.append_nil]
    rfl
  | pre, coin :: rest, hsorted, hcoins => by
    have hlt : ∀ c ∈ pre, c.denom < coin.denom := by
      intro c hc
      unfold Merge.Sorted at hsorted
      rw [List.map_append, List.pairwise_append] at hsorted
      exact hsorted.2.2 _ (List.mem_map_of_mem hc) _ (List.mem_map_of_mem List.mem_cons_self)
    obtain ⟨hd, hpos, hfit⟩ := hcoins coin List.mem_cons_self
    have hrest := foldlM_truncateDecimalStep (pre ++ [coin]) rest (by simpa using hsorted)
      (fun c hc => hcoins c (List.mem_cons_of_mem coin hc))
    rw [List.foldlM_cons, truncateDecimalStep_eq hlt hd hpos hfit]
    simpa using hrest

theorem truncateDecimal_eq {c : DecCoins} (hsorted : Merge.Sorted DecCoin.denom c)
    (hcoins : ∀ coin ∈ c, isDenom coin.denom = true ∧ 0 ≤ coin.amount.int ∧ coin.amount.int < 2 ^ maxBitLen * precisionReuse) :
    truncateDecimal c = .ok (wholes c, changes c) :=
  foldlM_truncateDecimalStep [] c hsorted hcoins

theorem isValid_wholes {c : DecCoins} (hv : Coins.ValidBy DecCoin.denom DecCoin.isPositive c)
    (hd : ∀ coin ∈ c, isDenom coin.denom = true) : Coins.isValid (wholes c) = true := by
  rw [Coins.isValid_eq_isValidBy, Coins.isValidBy_iff]
  refine Coins.validBy_filter_map DecCoin.wholePart _ (fun _ => rfl) hv.sorted hd fun coin hcoin hz => ?_
  have hpos : 0 < coin.amount.int := by simpa [DecCoin.isPositive] using hv.pos coin hcoin
  exact DecCoin.isPositive_wholePart (le_of_lt hpos) (by simpa using hz)

theorem isValid_changes {c : DecCoins} (hv : Coins.ValidBy DecCoin.denom DecCoin.isPositive c)
    (hd : ∀ coin ∈ c, isDenom coin.denom = true) : isValid (changes c) = true := by
  rw [isValid, Coins.isValidBy_iff]
  exact Coins.validBy_filter_map DecCoin.changePart _ (fun _ => rfl) hv.sorted hd
    fun _ _ hz => DecCoin.isPositive_changePart (by simpa using hz)

theorem amountOf_wholes {c : DecCoins} (hsorted : Merge.Sorted DecCoin.denom c) (denom : String) :
    Coins.amountOf (wholes c) denom = (fun x : Dec => x.int / precisionReuse) <$> amountOf c denom := by
  rw [Coins.amountOf_eq_search, amountOf]
  refine Search.search_filter_map_comp DecCoin.wholePart _ (fun x : Dec => x.int / precisionReuse)
    (fun coin => (rfl : coin.wholePart.denom = coin.denom)) (fun _ => rfl) (Int.zero_ediv _)
    (fun coin hz => ?_) hsorted
  simpa [Coin.isZero] using hz

theorem amountOf_changes {c : DecCoins} (hsorted : Merge.Sorted DecCoin.denom c) (denom : String) :
    amountOf (changes c) denom = (fun x : Dec => (⟨x.int % precisionReuse⟩ : Dec)) <$> amountOf c denom := by
  rw [amountOf, amountOf]
  refine Search.search_filter_map_comp DecCoin.changePart _ (fun x : Dec => (⟨x.int % precisionReuse⟩ : Dec))
    (fun coin => (rfl : coin.changePart.denom = coin.denom)) (fun _ => rfl)
    (congrArg Dec.mk (Int.zero_emod _)) (fun coin hz => ?_) hsorted
  have hzero : coin.amount.int % precisionReuse = 0 := by simpa [DecCoin.isZero, DecCoin.changePart] using hz
  exact congrArg Dec.mk hzero

/-- On a valid set whose denominations all match `reDnm` and whose amounts are below `2^255`
whole units, `TruncateDecimal` returns a valid set of whole coins and a valid set of change,
holding for each denomination the floor and the fraction of its amount, which add up to it. -/
theorem truncateDecimal_conserves (c : DecCoins) (hvalid : isValid c = true)
    (hd : ∀ coin ∈ c, isDenom coin.denom = true)
    (hfit : ∀ coin ∈ c, coin.amount.int < 2 ^ maxBitLen * precisionReuse) :
    ∃ t ch, truncateDecimal c = .ok (t, ch) ∧ Coins.isValid t = true ∧ isValid ch = true ∧
      ∀ denom, Coins.amountOf t denom = (fun x : Dec => x.int / precisionReuse) <$> amountOf c denom ∧
        amountOf ch denom = (fun x : Dec => (⟨x.int % precisionReuse⟩ : Dec)) <$> amountOf c denom ∧
        ∀ x, amountOf c denom = .ok x → ∃ w r, Coins.amountOf t denom = .ok w ∧ amountOf ch denom = .ok r ∧
          0 ≤ r.int ∧ r.int < precisionReuse ∧ (newDecFromInt w).int + r.int = x.int := by
  have hv : Coins.ValidBy DecCoin.denom DecCoin.isPositive c := (Coins.isValidBy_iff c).mp hvalid
  have hcoins : ∀ coin ∈ c, isDenom coin.denom = true ∧ 0 ≤ coin.amount.int ∧
      coin.amount.int < 2 ^ maxBitLen * precisionReuse := fun coin hcoin => by
    have hpos : 0 < coin.amount.int := by simpa [DecCoin.isPositive] using hv.pos coin hcoin
    exact ⟨hd coin hcoin, le_of_lt hpos, hfit coin hcoin⟩
  refine ⟨wholes c, changes c, truncateDecimal_eq hv.sorted hcoins, isValid_wholes hv hd, isValid_changes hv hd,
    fun denom => ⟨amountOf_wholes hv.sorted denom, amountOf_changes hv.sorted denom, fun x hx => ?_⟩⟩
  have hP := precisionReuse_pos
  refine ⟨x.int / precisionReuse, ⟨x.int % precisionReuse⟩, by rw [amountOf_wholes hv.sorted, hx]; rfl,
    by rw [amountOf_changes hv.sorted, hx]; rfl, Int.emod_nonneg _ (ne_of_gt hP), Int.emod_lt_of_pos _ hP, ?_⟩
  show x.int / precisionReuse * precisionReuse + x.int % precisionReuse = x.int
  rw [Int.emod_def]
  ring

theorem truncateDecimal_conserves_abc :
    isValid [⟨"abc", ⟨15 * 10 ^ 17⟩⟩, ⟨"def", ⟨3 * 10 ^ 18⟩⟩] = true ∧
      (∀ coin ∈ ([⟨"abc", ⟨15 * 10 ^ 17⟩⟩, ⟨"def", ⟨3 * 10 ^ 18⟩⟩] : DecCoins), isDenom coin.denom = true) ∧
      (∀ coin ∈ ([⟨"abc", ⟨15 * 10 ^ 17⟩⟩, ⟨"def", ⟨3 * 10 ^ 18⟩⟩] : DecCoins),
        coin.amount.int < 2 ^ maxBitLen * precisionReuse) ∧
      ∃ t ch, truncateDecimal [⟨"abc", ⟨15 * 10 ^ 17⟩⟩, ⟨"def", ⟨3 * 10 ^ 18⟩⟩] = .ok (t, ch) ∧
        Coins.isValid t = true ∧ isValid ch = true ∧
        ∀ denom, Coins.amountOf t denom = (fun x : Dec => x.int / precisionReuse) <$>
            amountOf [⟨"abc", ⟨15 * 10 ^ 17⟩⟩, ⟨"def", ⟨3 * 10 ^ 18⟩⟩] denom ∧
          amountOf ch denom = (fun x : Dec => (⟨x.int % precisionReuse⟩ : Dec)) <$>
            amountOf [⟨"abc", ⟨15 * 10 ^ 17⟩⟩, ⟨"def", ⟨3 * 10 ^ 18⟩⟩] denom ∧
          ∀ x, amountOf [⟨"abc", ⟨15 * 10 ^ 17⟩⟩, ⟨"def", ⟨3 * 10 ^ 18⟩⟩] denom = .ok x →
            ∃ w r, Coins.amountOf t denom = .ok w ∧ amountOf ch denom = .ok r ∧
              0 ≤ r.int ∧ r.int < precisionReuse ∧ (newDecFromInt w).int + r.int = x.int := by
  have hvalid : isValid [⟨"abc", ⟨15 * 10 ^ 17⟩⟩, ⟨"def", ⟨3 * 10 ^ 18⟩⟩] = true := by decide +kernel
  have hd : ∀ coin ∈ ([⟨"abc", ⟨15 * 10 ^ 17⟩⟩, ⟨"def", ⟨3 * 10 ^ 18⟩⟩] : DecCoins), isDenom coin.denom = true := by
    decide +kernel
  have hfit : ∀ coin ∈ ([⟨"abc", ⟨15 * 10 ^ 17⟩⟩, ⟨"def", ⟨3 * 10 ^ 18⟩⟩] : DecCoins),
      coin.amount.int < 2 ^ maxBitLen * precisionReuse := by decide +kernel
  exact ⟨hvalid, hd, hfit, truncateDecimal_conserves _ hvalid hd hfit⟩

/-- `IsValid` checks only the first denomination against `reDnm`, and `NewCoin` panics on a
later one that fails it; `TruncateInt` panics on an amount of `2^255` whole units. -/
theorem truncateDecimal_panics :
    isValid [⟨"abc", ⟨10 ^ 18⟩⟩, ⟨"b", ⟨10 ^ 18⟩⟩] = true ∧
      truncateDecimal [⟨"abc", ⟨10 ^ 18⟩⟩, ⟨"b", ⟨10 ^ 18⟩⟩] = .error (.other "invalid denom: b") ∧
      isValid [⟨"abc", ⟨2 ^ 255 * 10 ^ 18⟩⟩] = true ∧
      truncateDecimal [⟨"abc", ⟨2 ^ 255 * 10 ^ 18⟩⟩] = .error (.other "NewIntFromBigInt() out of bound") := by
  decide +kernel

end DecCoins

end Friday.Types
