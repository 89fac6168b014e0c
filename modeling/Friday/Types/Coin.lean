import Friday.Lib.Except
import Friday.Lib.Merge
import Friday.Lib.Search
import Friday.Types.Int
import Friday.Types.Result
import Mathlib.Data.List.Sort
import Mathlib.Data.String.Basic

/-! # Coins

`types/coin.go`. A `Coin` is a denomination and an `sdk.Int` amount, and `Coins` a list
of them that the code keeps in ascending denomination order with positive amounts
(`IsValid`). The amount is read as an `Int`; `Coin.Add` adds two with `Int.Add`, which
panics past 255 bits.

`Add` merges two sorted lists, and panics where one of the sums it makes overflows; where it
returns, it returns `plus`, the merge with the amounts added without a bound
(`safeAdd_eq_ok`), and it returns whenever every coin of `plus` fits (`safeAdd_eq_plus`).
Whatever the lists hold, `plus` adds the amounts of each denomination: `amountAt`, the sum of
a list's entries of one denomination, is additive over it for every pair of lists.
`AmountOf` finds that sum by binary search on a list whose denominations ascend.
-/

namespace Friday.Types

/-- `sdk.Coin`. -/
structure Coin where
  denom : String
  amount : Int
  deriving DecidableEq, Repr

/-- `reDnm`, the expression `^[a-z][a-z0-9]{2,15}$`. -/
def isDenom (denom : String) : Bool :=
  match denom.toList with
  | [] => false
  | c :: cs => c.isLower && 2 ≤ cs.length && cs.length ≤ 15 && cs.all fun c => c.isLower || c.isDigit

def validateDenom (denom : String) : Except String Unit :=
  if isDenom denom then pure () else throw ("invalid denom: " ++ denom)

def mustValidateDenom (denom : String) : Except Panic Unit :=
  match validateDenom denom with
  | .ok () => pure ()
  | .error err => throw (.other err)

def validate (denom : String) (amount : Int) : Except String Unit := do
  validateDenom denom
  if amount < 0 then throw ("negative coin amount: " ++ toString amount)

/-- `NewCoin`: panics with the error of `validate`. -/
def newCoin (denom : String) (amount : Int) : Except Panic Coin :=
  match validate denom amount with
  | .ok () => pure ⟨denom, amount⟩
  | .error err => throw (.other err)

theorem newCoin_eq_ok {denom : String} {amount : Int} (hd : isDenom denom = true) (h : 0 ≤ amount) :
    newCoin denom amount = .ok ⟨denom, amount⟩ := by
  have hnot : ¬amount < 0 := by omega
  simp [newCoin, validate, validateDenom, hd, hnot]

theorem nonneg_of_newCoin_eq_ok {denom : String} {amount : Int} {coin : Coin} (h : newCoin denom amount = .ok coin) :
    0 ≤ amount := by
  unfold newCoin at h
  split at h
  · rename_i hv
    by_contra hneg
    simp only [validate, if_pos (lt_of_not_ge hneg)] at hv
    obtain ⟨_, -, hv⟩ := Except.bind_eq_ok.mp hv
    cases hv
  · cases h

theorem eq_of_newCoin_eq_ok {denom : String} {amount : Int} {coin : Coin} (h : newCoin denom amount = .ok coin) :
    coin = ⟨denom, amount⟩ := by
  unfold newCoin at h
  split at h
  · cases h
    rfl
  · cases h

namespace Coin

def isZero (coin : Coin) : Bool := coin.amount == 0

def isPositive (coin : Coin) : Bool := decide (0 < coin.amount)

def isNegative (coin : Coin) : Bool := decide (coin.amount < 0)

/-- `String()`: the amount, then the denomination. -/
def toString (coin : Coin) : String := ToString.toString coin.amount ++ coin.denom

/-- The coin `coinA.Add(coinB)` returns on coins of one denomination when the sum fits: the
amounts added without a bound. -/
def plus (coinA coinB : Coin) : Coin := ⟨coinA.denom, coinA.amount + coinB.amount⟩

/-- `Add`. -/
def add (coinA coinB : Coin) : Except Panic Coin := do
  if coinA.denom ≠ coinB.denom then
    throw (.other ("invalid coin denominations; " ++ coinA.denom ++ ", " ++ coinB.denom))
  return ⟨coinA.denom, ← SdkInt.add coinA.amount coinB.amount⟩

/-- A coin whose amount an `sdk.Int` holds: at most 255 bits. -/
def Fits (coin : Coin) : Prop := coin.amount.natAbs < 2 ^ maxBitLen

instance (coin : Coin) : Decidable coin.Fits := inferInstanceAs (Decidable (_ < _))

end Coin

/-- `sdk.Coins`. -/
abbrev Coins := List Coin

namespace Coins

/-- `IsValid`. A set of several coins checks its first coin as a set of one (its
denomination against `reDnm`), and every later denomination only for upper case letters
and for coming after the one before it. -/
def isValid : Coins → Bool
  | [] => true
  | [coin] => isDenom coin.denom && coin.isPositive
  | coin :: coins => isDenom coin.denom && coin.isPositive && ascending coin.denom coins
where
  ascending (lowDenom : String) : Coins → Bool
    | [] => true
    | coin :: coins =>
      coin.denom.toLower == coin.denom && decide (lowDenom < coin.denom) && coin.isPositive &&
        ascending coin.denom coins

/-- `IsValid` of `Coins` and of `DecCoins`, over the denomination and the sign of a coin:
`isValid` is its instance on `Coins` (`isValid_eq_isValidBy`). -/
def isValidBy {α : Type} (denom : α → String) (isPositive : α → Bool) : List α → Bool
  | [] => true
  | [coin] => isDenom (denom coin) && isPositive coin
  | coin :: coins => isDenom (denom coin) && isPositive coin && ascending (denom coin) coins
where
  ascending (lowDenom : String) : List α → Bool
    | [] => true
    | coin :: coins =>
      (denom coin).toLower == denom coin && decide (lowDenom < denom coin) && isPositive coin &&
        ascending (denom coin) coins

theorem ascending_eq (lowDenom : String) (coins : Coins) :
    isValid.ascending lowDenom coins = isValidBy.ascending Coin.denom Coin.isPositive lowDenom coins := by
  induction coins generalizing lowDenom with
  | nil => rfl
  | cons coin coins ih => simp only [isValid.ascending, isValidBy.ascending, ih]

theorem isValid_eq_isValidBy (coins : Coins) : isValid coins = isValidBy Coin.denom Coin.isPositive coins := by
  match coins with
  | [] => rfl
  | [coin] => rfl
  | coin :: coin' :: coins => simp only [isValid, isValidBy, ascending_eq]

/-- `removeZeroCoins`. The source removes in place, in the slice it is given. -/
def removeZeroCoins (coins : Coins) : Coins := coins.filter fun coin => !coin.isZero

/-- The loop of `safeAdd` while the first set has `coinA` left, followed by `coins`: it
walks the second set up to `coinA`'s denomination, and `rest` is the loop from the next
coin of the first set on. -/
def addFrom (coinA : Coin) (coins : Coins) (rest : Coins → Except Panic Coins) : Coins → Except Panic Coins
  | [] => pure (removeZeroCoins (coinA :: coins))
  | coinB :: coinsB =>
    match compare coinA.denom coinB.denom with
    | .lt => do return (if coinA.isZero then [] else [coinA]) ++ (← rest (coinB :: coinsB))
    | .eq => do
      let res ← coinA.add coinB
      return (if res.isZero then [] else [res]) ++ (← rest coinsB)
    | .gt => do return (if coinB.isZero then [] else [coinB]) ++ (← addFrom coinA coins rest coinsB)

/-- `safeAdd`: the merge of two sets in denomination order, without zero coins. -/
def safeAdd : Coins → Coins → Except Panic Coins
  | [], coinsB => pure (removeZeroCoins coinsB)
  | coinA :: coins, coinsB => addFrom coinA coins (safeAdd coins) coinsB

/-- `Add`. -/
def add (coins coinsB : Coins) : Except Panic Coins := safeAdd coins coinsB

/-- The sum `Add` returns when no amount overflows: the merge of the two sets with the
amounts of one denomination added without a bound. -/
def plus (coins coinsB : Coins) : Coins := Merge.merge Coin.denom Coin.plus Coin.isZero coins coinsB

def negative (coins : Coins) : Coins := coins.map fun coin => ⟨coin.denom, -coin.amount⟩

def isAnyNegative (coins : Coins) : Bool := coins.any Coin.isNegative

def safeSub (coins coinsB : Coins) : Except Panic (Coins × Bool) := do
  let diff ← safeAdd coins (negative coinsB)
  return (diff, isAnyNegative diff)

/-- `Sub`. -/
def sub (coins coinsB : Coins) : Except Panic Coins := do
  let (diff, hasNeg) ← safeSub coins coinsB
  if hasNeg then throw (.other "negative coin amount") else pure diff

def isZero (coins : Coins) : Bool := coins.all Coin.isZero

def isAllPositive (coins : Coins) : Bool := coins.length != 0 && coins.all Coin.isPositive

/-- `String()`: the coins separated by commas. -/
def toString (coins : Coins) : String := ",".intercalate (coins.map Coin.toString)

/-- `Sort`. The source's `sort.Sort` is not stable; on distinct denominations every sort
gives this order. -/
def sort (coins : Coins) : Coins := coins.mergeSort fun a b => decide (a.denom ≤ b.denom)

/-- `IsEqual`: the sets sorted, compared coin by coin; two coins of different
denominations at one position panic in `Coin.IsEqual`. -/
def isEqual (coins coinsB : Coins) : Except Panic Bool :=
  if coins.length ≠ coinsB.length then pure false else go coins.sort coinsB.sort
where
  go : Coins → Coins → Except Panic Bool
    | coin :: coins, coinB :: coinsB =>
      if coin.denom ≠ coinB.denom then
        throw (.other ("invalid coin denominations; " ++ coin.denom ++ ", " ++ coinB.denom))
      else if coin.amount ≠ coinB.amount then pure false
      else go coins coinsB
    | _, _ => pure true

/-- `AmountOf`: a binary search, which validates the denomination at every level. -/
def amountOf (coins : Coins) (denom : String) : Except Panic Int := do
  mustValidateDenom denom
  match h : coins with
  | [] => pure 0
  | [coin] => pure (if coin.denom = denom then coin.amount else 0)
  | c₀ :: c₁ :: cs =>
    let midIdx := coins.length / 2
    let coin := coins.get ⟨midIdx, by simp only [midIdx, h, List.length_cons]; omega⟩
    if denom < coin.denom then amountOf (coins.take midIdx) denom
    else if denom = coin.denom then pure coin.amount
    else amountOf (coins.drop (midIdx + 1)) denom
termination_by coins.length
decreasing_by
  all_goals simp only [h, List.length_take, List.length_drop, List.length_cons]
  all_goals omega

/-- `IsAnyGT`: some coin of `coins` has a greater amount than the same denomination in
`coinsB`, counting only the denominations whose amount there is not zero. -/
def isAnyGT (coins coinsB : Coins) : Except Panic Bool :=
  if coinsB.length = 0 then pure false
  else coins.anyM fun coin => do
    let amt ← amountOf coinsB coin.denom
    return decide (coin.amount > amt) && amt != 0

/-- `IsAllGTE`: no coin of `coinsB` has a greater amount than its denomination has in
`coins`. The loop stops at the first coin that has, before `AmountOf` sees the next
denomination. -/
def isAllGTE (coins coinsB : Coins) : Except Panic Bool :=
  if coinsB.length = 0 then pure true
  else if coins.length = 0 then pure false
  else coinsB.allM fun coinB => do
    let amt ← amountOf coins coinB.denom
    return !decide (coinB.amount > amt)

/-- The amount of `denom` in a list of coins: the sum of its entries of that denomination,
whatever their order and however often the denomination occurs. -/
def amountAt (coins : Coins) (denom : String) : Int :=
  (coins.map fun coin => if coin.denom = denom then coin.amount else 0).sum

/-! ## Addition as a merge

`safeAdd` is the checked merge of `Merge` over the denomination, with `Coin.add` and
`Coin.isZero`, and `plus` its merge with `Coin.plus`; `amountAt` is its `amountAt` of the
amounts.
-/

section Merge

theorem addFrom_eq_mergeFromM (coinA : Coin) (coins : Coins) (rest : Coins → Except Panic Coins) :
    ∀ coinsB, addFrom coinA coins rest coinsB = Merge.mergeFromM Coin.denom Coin.add Coin.isZero coinA coins rest coinsB
  | [] => rfl
  | coinB :: coinsB => by
    have ih := addFrom_eq_mergeFromM coinA coins rest coinsB
    cases hcmp : compare coinA.denom coinB.denom <;> simp only [addFrom, Merge.mergeFromM, hcmp, ih]

theorem safeAdd_eq_mergeM :
    ∀ coins coinsB : Coins, safeAdd coins coinsB = Merge.mergeM Coin.denom Coin.add Coin.isZero coins coinsB
  | [], _ => rfl
  | coinA :: coins, coinsB => by
    have hrest : safeAdd coins = Merge.mergeM Coin.denom Coin.add Coin.isZero coins := funext (safeAdd_eq_mergeM coins)
    rw [safeAdd, Merge.mergeM, addFrom_eq_mergeFromM, hrest]

theorem Coin.add_eq_ok {coinA coinB c : Coin} (h : coinA.add coinB = .ok c) : c = coinA.plus coinB := by
  simp only [Coin.add, SdkInt.add_eq] at h
  split at h
  · cases h
  split at h
  · cases h
  · cases h
    rfl

theorem Coin.fits_of_add_eq_ok {coinA coinB c : Coin} (h : coinA.add coinB = .ok c) : c.Fits := by
  simp only [Coin.add, SdkInt.add_eq] at h
  split at h
  · cases h
  split at h
  · cases h
  · rename_i hlt
    cases h
    exact Nat.lt_of_not_le hlt

theorem Coin.add_eq_error {coinA coinB : Coin} {e : Panic} (hd : coinA.denom = coinB.denom)
    (h : coinA.add coinB = .error e) : e = .other "Int overflow" := by
  simp only [Coin.add, SdkInt.add_eq, hd, ne_eq, not_true_eq_false, if_false] at h
  split at h
  · cases h
    rfl
  · cases h

theorem Coin.add_eq_plus {coinA coinB : Coin} (hd : coinA.denom = coinB.denom) (hfit : (coinA.plus coinB).Fits) :
    coinA.add coinB = .ok (coinA.plus coinB) := by
  have hlt : ¬2 ^ maxBitLen ≤ (coinA.amount + coinB.amount).natAbs := Nat.not_le.mpr hfit
  simp [Coin.add, SdkInt.add_eq, hd, hlt, Coin.plus]

/-- Where `Add` returns, it returns `plus`. -/
theorem safeAdd_eq_ok {coins coinsB c : Coins} (h : safeAdd coins coinsB = .ok c) : c = plus coins coinsB := by
  rw [safeAdd_eq_mergeM] at h
  exact Merge.mergeM_eq_ok (fun _ _ _ => Coin.add_eq_ok) coins coinsB c h

/-- `Add` returns `plus` when every coin of it fits in 255 bits. -/
theorem safeAdd_eq_plus {coins coinsB : Coins} (h : ∀ c ∈ plus coins coinsB, c.Fits) :
    safeAdd coins coinsB = .ok (plus coins coinsB) := by
  rw [safeAdd_eq_mergeM]
  refine Merge.mergeM_eq_merge Coin.Fits (fun c hc => ?_) (fun _ _ => Coin.add_eq_plus) coins coinsB h
  simp only [Coin.isZero, beq_iff_eq] at hc
  simp [Coin.Fits, hc]

theorem amountAt_eq (coins : Coins) (denom : String) :
    amountAt coins denom = Merge.amountAt Coin.denom Coin.amount coins denom := rfl

theorem lawful : Merge.Lawful Coin.denom Coin.plus Coin.isZero Coin.amount where
  key_plus _ _ _ := rfl
  val_plus _ _ _ := rfl
  val_zero coin h := by simpa [Coin.isZero] using h

theorem amount_ne_zero {coin : Coin} (h : coin.isZero = false) : coin.amount ≠ 0 := by
  simpa [Coin.isZero] using h

theorem coin_ext (coin coinB : Coin) (hd : coin.denom = coinB.denom) (ha : coin.amount = coinB.amount) :
    coin = coinB := by
  cases coin
  cases coinB
  simp_all

end Merge

section Amounts

variable {denom : String}

@[simp] theorem amountAt_nil : amountAt [] denom = 0 := rfl

@[simp] theorem amountAt_cons (coin : Coin) (coins : Coins) :
    amountAt (coin :: coins) denom = (if coin.denom = denom then coin.amount else 0) + amountAt coins denom := by
  simp [amountAt]

@[simp] theorem amountAt_append (coins coins' : Coins) :
    amountAt (coins ++ coins') denom = amountAt coins denom + amountAt coins' denom := by
  simp [amountAt]

theorem amountAt_eq_zero {coins : Coins} (h : ∀ coin ∈ coins, coin.denom ≠ denom) : amountAt coins denom = 0 := by
  induction coins with
  | nil => rfl
  | cons coin coins ih =>
    rw [amountAt_cons, if_neg (h coin List.mem_cons_self), ih (fun c hc => h c (List.mem_cons_of_mem _ hc))]
    rfl

theorem amountAt_plus (coins coinsB : Coins) :
    amountAt (plus coins coinsB) denom = amountAt coins denom + amountAt coinsB denom :=
  Merge.amountAt_merge lawful coins coinsB

@[simp] theorem amountAt_negative (coins : Coins) : amountAt (negative coins) denom = -amountAt coins denom := by
  induction coins with
  | nil => rfl
  | cons coin coins ih =>
    have hcons : negative (coin :: coins) = ⟨coin.denom, -coin.amount⟩ :: negative coins := rfl
    simp only [hcons, amountAt_cons, ih]
    split <;> omega

theorem amountAt_plus_negative (coins coinsB : Coins) :
    amountAt (plus coins (negative coinsB)) denom = amountAt coins denom - amountAt coinsB denom := by
  rw [amountAt_plus, amountAt_negative]
  omega


theorem mustValidateDenom_eq_ok_iff : mustValidateDenom denom = .ok () ↔ isDenom denom = true := by
  cases hd : isDenom denom
  · simp [mustValidateDenom, validateDenom, hd]
  · simp [mustValidateDenom, validateDenom, hd]

/-- `AmountOf` is the binary search of `Search` over the denomination. -/
theorem amountOf_eq_search (coins : Coins) (denom : String) :
    amountOf coins denom = Search.search mustValidateDenom Coin.denom Coin.amount 0 coins denom := by
  -- strong induction on the length: both searches take the same half
  induction hlen : coins.length using Nat.strong_induction_on generalizing coins with
  | _ n ih =>
  match coins with
  | [] => rw [amountOf, Search.search]
  | [c] => rw [amountOf, Search.search]
  | c₀ :: c₁ :: cs =>
    rw [amountOf, Search.search]
    have htake : ((c₀ :: c₁ :: cs).take ((c₀ :: c₁ :: cs).length / 2)).length < n := by
      rw [List.length_take, ← hlen]
      simp only [List.length_cons]
      omega
    have hdrop : ((c₀ :: c₁ :: cs).drop ((c₀ :: c₁ :: cs).length / 2 + 1)).length < n := by
      rw [List.length_drop, ← hlen]
      simp only [List.length_cons]
      omega
    simp only [ih _ htake _ rfl, ih _ hdrop _ rfl]

/-- `AmountOf` of a valid denomination, on a list whose denominations ascend strictly,
is the amount of that denomination. -/
theorem amountOf_eq_amountAt (hd : isDenom denom = true) (coins : Coins)
    (hsorted : (coins.map Coin.denom).Pairwise (· < ·)) : amountOf coins denom = .ok (amountAt coins denom) := by
  have hvalid := mustValidateDenom_eq_ok_iff.mpr hd
  rw [amountOf_eq_search]
  by_cases hex : ∃ c ∈ coins, c.denom = denom
  · obtain ⟨c, hc, rfl⟩ := hex
    rw [Search.search_of_mem hsorted hvalid hc rfl, amountAt_eq, Merge.amountAt_of_mem hsorted hc]
  · have hne : ∀ c ∈ coins, c.denom ≠ denom := fun c hc h => hex ⟨c, hc, h⟩
    rw [Search.search_of_not_mem hsorted hvalid hne, amountAt_eq_zero hne]

/-- `IsAnyGT` on a set whose denominations ascend, for coins of valid denominations. -/
theorem isAnyGT_eq_ok {coins coinsB : Coins} (hd : ∀ coin ∈ coins, isDenom coin.denom = true)
    (hsorted : (coinsB.map Coin.denom).Pairwise (· < ·)) :
    isAnyGT coins coinsB = .ok (coinsB.length != 0 && coins.any fun coin =>
      decide (coin.amount > amountAt coinsB coin.denom) && amountAt coinsB coin.denom != 0) := by
  unfold isAnyGT
  split
  · rename_i hlen
    simp [hlen]
  · rename_i hlen
    have hany := Except.anyM_eq_ok coins (p := fun coin => do
        let amt ← amountOf coinsB coin.denom
        return decide (coin.amount > amt) && amt != 0)
      (q := fun coin => decide (coin.amount > amountAt coinsB coin.denom) && amountAt coinsB coin.denom != 0)
      (fun coin hcoin => by rw [amountOf_eq_amountAt (hd coin hcoin) coinsB hsorted]; rfl)
    have hne : (coinsB.length != 0) = true := by simpa using hlen
    rw [hne, Bool.true_and]
    exact hany

end Amounts

section Signs

theorem pos_of_mem_plus {coins coinsB : Coins} (hA : ∀ c ∈ coins, 0 ≤ c.amount)
    (hB : ∀ c ∈ coinsB, 0 ≤ c.amount) : ∀ c ∈ plus coins coinsB, 0 < c.amount := by
  intro c hc
  -- the merge keeps the signs of its entries, and drops the zero ones
  have hnonneg : 0 ≤ c.amount :=
    Merge.forall_mem_merge (fun c : Coin => 0 ≤ c.amount) (fun a b _ ha hb => Int.add_nonneg ha hb) hA hB c hc
  have hne := amount_ne_zero (Merge.isZero_of_mem_merge hc)
  omega

end Signs

end Coins

/-! ## Building a set -/

/-- `findDup` on sorted coins: the coin at the first index whose denomination is the one
before it, which `NewCoins` prints; the source returns the index. -/
def findDup : Coins → Option Coin
  | [] => none
  | coin :: coins => go coin.denom coins
where
  go (prevDenom : String) : Coins → Option Coin
    | [] => none
    | coin :: coins => if coin.denom = prevDenom then some coin else go coin.denom coins

/-- `NewCoins`: the coins with the zero ones removed, sorted; a denomination twice, or a set
that is not valid, panics. -/
def newCoins (coins : Coins) : Except Panic Coins :=
  let newCoins := Coins.removeZeroCoins coins
  if newCoins.isEmpty then pure []
  else
    let newCoins := newCoins.sort
    match findDup newCoins with
    | some coin => throw (.other ("find duplicate denom: " ++ coin.toString))
    | none =>
      if !newCoins.isValid then throw (.other ("invalid coin set: " ++ newCoins.toString)) else pure newCoins

end Friday.Types
