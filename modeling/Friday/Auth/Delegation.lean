import Friday.Auth.Account

/-! # Tracking the delegations of a vesting account

`trackDelegation` and `TrackUndelegation` of `x/auth/types/account.go`, and the runs of the bank
keeper's calls on a vesting account (`DelegateCoins`, `UndelegateCoins`, `AddCoins`,
`SubtractCoins` in `x/bank/internal/keeper/keeper.go`). Over coins that are sound, valid with
every denomination matching `reDnm`, a delegation of no more than the account's coins moves, in
each denomination, `D` out of the coins, `X = min(max(V - DV, 0), D)` of it into the delegated
vesting coins and the rest into the delegated free ones; an undelegation adds `D` back to the
coins and takes it out of the delegated free coins first, then out of the delegated vesting
ones. Neither panics where the sums it makes fit in 255 bits: the delegated free coins plus the
amount for a delegation, the coins plus the amount for an undelegation (`trackDelegation_spec`,
`trackUndelegation_spec`).

A run starts at a new account whose coins are its original vesting, and the coins still vesting
`V` never grow along it. Every step keeps `Inv`: the delegated vesting coins stay within the
original vesting, and `V` stays covered by the coins and the delegated vesting ones, so that
`spendableCoins` never panics where the coins and the delegated vesting ones fit together in 255
bits, and returns between nothing and the coins (`reachable_sound`).
That `GetVestingCoins` of the schedules gives such a `V` is not part of it: the continuous
schedule does not when its span wraps around in `int64` (`spendableCoins_of_wrapped_schedule`).
-/

namespace Friday.Auth

open Friday.Types Coins

namespace BaseVestingAccount

variable {bva acc : BaseVestingAccount} {vestingCoins amount : Coins}

/-! ## One call -/

/-- What a delegation of `amount` has done to `bva`, in each denomination, given the coins still
    vesting. -/
structure Delegated (bva : BaseVestingAccount) (vestingCoins amount : Coins) (acc : BaseVestingAccount) : Prop where
  originalVesting : acc.originalVesting = bva.originalVesting
  coins : Sound acc.coins
  delegatedVesting : Sound acc.delegatedVesting
  delegatedFree : Sound acc.delegatedFree
  amountAt_coins : ∀ d, amountAt acc.coins d = amountAt bva.coins d - amountAt amount d
  amountAt_delegatedVesting : ∀ d, amountAt acc.delegatedVesting d = amountAt bva.delegatedVesting d +
    min (max (amountAt vestingCoins d - amountAt bva.delegatedVesting d) 0) (amountAt amount d)
  amountAt_delegatedFree : ∀ d, amountAt acc.delegatedFree d = amountAt bva.delegatedFree d +
    (amountAt amount d - min (max (amountAt vestingCoins d - amountAt bva.delegatedVesting d) 0) (amountAt amount d))

theorem delegated_nil (hcoins : Sound bva.coins) (hdv : Sound bva.delegatedVesting)
    (hdf : Sound bva.delegatedFree) : Delegated bva vestingCoins [] bva where
  originalVesting := rfl
  coins := hcoins
  delegatedVesting := hdv
  delegatedFree := hdf
  amountAt_coins d := by simp
  amountAt_delegatedVesting d := by simp
  amountAt_delegatedFree d := by simp


theorem Delegated.snoc {pre : Coins} {coin : Coin} (h : Delegated bva vestingCoins pre acc)
    (hfresh : amountAt pre coin.denom = 0) {x : Int}
    (hx : min (max (amountAt vestingCoins coin.denom - amountAt acc.delegatedVesting coin.denom) 0) coin.amount = x)
    {coins dv df : Coins}
    (hcoins : Sound coins ∧ ∀ d, amountAt coins d = amountAt acc.coins d - if coin.denom = d then coin.amount else 0)
    (hdv : Sound dv ∧ ∀ d, amountAt dv d = amountAt acc.delegatedVesting d + if coin.denom = d then x else 0)
    (hdf : Sound df ∧ ∀ d, amountAt df d = amountAt acc.delegatedFree d + if coin.denom = d then coin.amount - x else 0) :
    Delegated bva vestingCoins (pre ++ [coin]) { acc with coins, delegatedVesting := dv, delegatedFree := df } := by
  -- the coin's denomination has nothing delegated yet, so `X` is read from the account as it was
  have hdv0 : amountAt acc.delegatedVesting coin.denom = amountAt bva.delegatedVesting coin.denom := by
    rw [h.amountAt_delegatedVesting, hfresh]
    omega
  refine ⟨h.originalVesting, hcoins.1, hdv.1, hdf.1, fun d => ?_, fun d => ?_, fun d => ?_⟩
  · rw [hcoins.2 d, h.amountAt_coins d, amountAt_append, amountAt_cons, amountAt_nil]
    split_ifs <;> omega
  · rw [hdv.2 d, h.amountAt_delegatedVesting d, amountAt_append, amountAt_cons, amountAt_nil]
    split_ifs with hd
    · subst hd
      rw [hfresh]
      omega
    · omega
  · rw [hdf.2 d, h.amountAt_delegatedFree d, amountAt_append, amountAt_cons, amountAt_nil]
    split_ifs with hd
    · subst hd
      rw [hfresh]
      omega
    · omega

theorem trackDelegation_spec (hcoins : Sound bva.coins) (hdv : Sound bva.delegatedVesting)
    (hdf : Sound bva.delegatedFree) (hvesting : Sound vestingCoins) (hamount : Sound amount)
    (hle : ∀ d, amountAt amount d ≤ amountAt bva.coins d)
    (hfree : ∀ d, (amountAt bva.delegatedFree d + amountAt amount d).natAbs < 2 ^ maxBitLen) :
    ∃ acc, bva.trackDelegation vestingCoins amount = .ok acc ∧ Delegated bva vestingCoins amount acc := by
  unfold trackDelegation
  refine Except.foldlM_prefix_inv (Delegated bva vestingCoins) amount ?_ bva (delegated_nil hcoins hdv hdf)
  intro pre coin rest acc hl hacc
  obtain ⟨hmem, hd, hpos, hcfit⟩ := hamount.of_eq_append hl
  have hfresh := amountAt_prefix_eq_zero (hl ▸ hamount.valid.sorted)
  have hD : amountAt amount coin.denom = coin.amount := amountAt_of_mem hamount.valid.sorted hmem
  have hbase : coin.amount ≤ amountAt bva.coins coin.denom := hD ▸ hle coin.denom
  have hcond : (coin.isZero || decide (amountAt bva.coins coin.denom < coin.amount)) = false := by
    simp only [Coin.isZero, Bool.or_eq_false_iff, beq_eq_false_iff_ne, decide_eq_false_iff_not]
    omega
  have hcover : ∀ d, amountAt [coin] d ≤ amountAt acc.coins d := by
    intro d
    rw [hacc.amountAt_coins d, amountAt_cons, amountAt_nil]
    split_ifs with hcd
    · subst hcd
      omega
    · have := hacc.coins.nonneg d
      rw [hacc.amountAt_coins d] at this
      omega
  obtain ⟨-, hsubok, hsound⟩ := hacc.coins.sub_eq (sound_singleton hd hpos hcfit) hcover
  have hdf0 : amountAt acc.delegatedFree coin.denom = amountAt bva.delegatedFree coin.denom := by
    rw [hacc.amountAt_delegatedFree, hfresh]
    omega
  have hV := hvesting.amountAt_fits coin.denom
  have hV0 := hvesting.nonneg coin.denom
  have hDV := hacc.delegatedVesting.amountAt_fits coin.denom
  have hDV0 := hacc.delegatedVesting.nonneg coin.denom
  have hDF := hfree coin.denom
  have hDF0 := hdf.nonneg coin.denom
  unfold Coin.Fits at hcfit
  have hvdv : ¬2 ^ maxBitLen ≤ (amountAt vestingCoins coin.denom - amountAt acc.delegatedVesting coin.denom).natAbs := by
    omega
  rw [amountOf_eq_amountAt hd _ hcoins.valid.sorted, amountOf_eq_amountAt hd _ hvesting.valid.sorted,
    amountOf_eq_amountAt hd _ hacc.delegatedVesting.valid.sorted]
  simp only [Except.ok_bind, hcond, Bool.false_eq_true, if_false, SdkInt.sub_eq, hvdv]
  generalize hx : min (max (amountAt vestingCoins coin.denom - amountAt acc.delegatedVesting coin.denom) 0)
    coin.amount = x
  have hx0 : 0 ≤ x := by omega
  have hxle : x ≤ coin.amount := by omega
  have hy : ¬2 ^ maxBitLen ≤ (coin.amount - x).natAbs := by omega
  have hcoins' : Sound (acc.coins.plus (negative [coin])) ∧ ∀ d, amountAt (acc.coins.plus (negative [coin])) d =
      amountAt acc.coins d - if coin.denom = d then coin.amount else 0 :=
    ⟨hsound, fun d => by rw [amountAt_plus_negative]; simp⟩
  simp only [hy, if_false, Except.ok_bind, newCoin_eq_ok hd hx0, newCoin_eq_ok hd (sub_nonneg.mpr hxle), pure_bind,
    hsubok]
  -- `DV + X` is at most the larger of `DV` and `V`, and `DF + Y` at most `DF + D`
  have hdvx : (amountAt acc.delegatedVesting coin.denom + x).natAbs < 2 ^ maxBitLen := by omega
  have hdfy : (amountAt acc.delegatedFree coin.denom + (coin.amount - x)).natAbs < 2 ^ maxBitLen := by
    rw [hdf0]
    omega
  have hkeep : ∀ (cs : Coins) (y : Int), y = 0 → ∀ d, amountAt cs d = amountAt cs d + if coin.denom = d then y else 0 :=
    fun cs y hy d => by simp [hy]
  split_ifs with hx1 hy1 hy1
  · obtain ⟨hdvadd, hdv', hdva⟩ := hacc.delegatedVesting.add_singleton ⟨coin.denom, x⟩ hd (show 0 < x by omega) hdvx
    obtain ⟨hdfadd, hdf', hdfa⟩ :=
      hacc.delegatedFree.add_singleton ⟨coin.denom, coin.amount - x⟩ hd (show 0 < coin.amount - x by omega) hdfy
    simp only [hdvadd, hdfadd, Except.ok_bind]
    exact ⟨_, rfl, hacc.snoc hfresh hx hcoins' ⟨hdv', hdva⟩ ⟨hdf', hdfa⟩⟩
  · obtain ⟨hdvadd, hdv', hdva⟩ := hacc.delegatedVesting.add_singleton ⟨coin.denom, x⟩ hd (show 0 < x by omega) hdvx
    simp only [hdvadd, Except.ok_bind]
    exact ⟨_, rfl, hacc.snoc hfresh hx hcoins' ⟨hdv', hdva⟩ ⟨hacc.delegatedFree, hkeep _ _ (by omega)⟩⟩
  · obtain ⟨hdfadd, hdf', hdfa⟩ :=
      hacc.delegatedFree.add_singleton ⟨coin.denom, coin.amount - x⟩ hd (show 0 < coin.amount - x by omega) hdfy
    simp only [hdfadd, Except.ok_bind]
    exact ⟨_, rfl, hacc.snoc hfresh hx hcoins' ⟨hacc.delegatedVesting, hkeep _ _ (by omega)⟩ ⟨hdf', hdfa⟩⟩
  · omega

structure Undelegated (bva : BaseVestingAccount) (amount : Coins) (acc : BaseVestingAccount) : Prop where
  originalVesting : acc.originalVesting = bva.originalVesting
  coins : Sound acc.coins
  delegatedVesting : Sound acc.delegatedVesting
  delegatedFree : Sound acc.delegatedFree
  amountAt_coins : ∀ d, amountAt acc.coins d = amountAt bva.coins d + amountAt amount d
  amountAt_delegatedFree : ∀ d, amountAt acc.delegatedFree d =
    amountAt bva.delegatedFree d - min (amountAt bva.delegatedFree d) (amountAt amount d)
  amountAt_delegatedVesting : ∀ d, amountAt acc.delegatedVesting d = amountAt bva.delegatedVesting d -
    min (amountAt bva.delegatedVesting d) (amountAt amount d - min (amountAt bva.delegatedFree d) (amountAt amount d))

theorem undelegated_nil (hcoins : Sound bva.coins) (hdv : Sound bva.delegatedVesting)
    (hdf : Sound bva.delegatedFree) : Undelegated bva [] bva where
  originalVesting := rfl
  coins := hcoins
  delegatedVesting := hdv
  delegatedFree := hdf
  amountAt_coins d := by simp
  amountAt_delegatedFree d := by
    have := hdf.nonneg d
    simp only [amountAt_nil]
    omega
  amountAt_delegatedVesting d := by
    have := hdv.nonneg d
    have := hdf.nonneg d
    simp only [amountAt_nil]
    omega

theorem Undelegated.snoc {pre : Coins} {coin : Coin} (h : Undelegated bva pre acc)
    (hdf₀ : ∀ d, 0 ≤ amountAt bva.delegatedFree d) (hdv₀ : ∀ d, 0 ≤ amountAt bva.delegatedVesting d)
    (hfresh : amountAt pre coin.denom = 0) {x y : Int}
    (hx : min (amountAt acc.delegatedFree coin.denom) coin.amount = x)
    (hy : min (amountAt acc.delegatedVesting coin.denom) (coin.amount - x) = y)
    {coins dv df : Coins}
    (hcoins : Sound coins ∧ ∀ d, amountAt coins d = amountAt acc.coins d + if coin.denom = d then coin.amount else 0)
    (hdf : Sound df ∧ ∀ d, amountAt df d = amountAt acc.delegatedFree d - if coin.denom = d then x else 0)
    (hdv : Sound dv ∧ ∀ d, amountAt dv d = amountAt acc.delegatedVesting d - if coin.denom = d then y else 0) :
    Undelegated bva (pre ++ [coin]) { acc with coins, delegatedVesting := dv, delegatedFree := df } := by
  -- the coin's denomination has nothing undelegated yet, so `X` and `Y` are read from the account
  -- as it was
  have hdf0 : amountAt acc.delegatedFree coin.denom = amountAt bva.delegatedFree coin.denom := by
    have := hdf₀ coin.denom
    rw [h.amountAt_delegatedFree, hfresh]
    omega
  have hdv0 : amountAt acc.delegatedVesting coin.denom = amountAt bva.delegatedVesting coin.denom := by
    have := hdv₀ coin.denom
    have := hdf₀ coin.denom
    rw [h.amountAt_delegatedVesting, hfresh]
    omega
  refine ⟨h.originalVesting, hcoins.1, hdv.1, hdf.1, fun d => ?_, fun d => ?_, fun d => ?_⟩
  · rw [hcoins.2 d, h.amountAt_coins d, amountAt_append, amountAt_cons, amountAt_nil]
    split_ifs <;> omega
  · rw [hdf.2 d, h.amountAt_delegatedFree d, amountAt_append, amountAt_cons, amountAt_nil]
    have := hdf₀ d
    split_ifs with hd
    · subst hd
      rw [hfresh]
      omega
    · omega
  · rw [hdv.2 d, h.amountAt_delegatedVesting d, amountAt_append, amountAt_cons, amountAt_nil]
    have := hdf₀ d
    have := hdv₀ d
    split_ifs with hd
    · subst hd
      rw [hfresh]
      omega
    · omega

theorem trackUndelegation_spec (hcoins : Sound bva.coins) (hdv : Sound bva.delegatedVesting)
    (hdf : Sound bva.delegatedFree) (hamount : Sound amount)
    (hfit : ∀ d, (amountAt bva.coins d + amountAt amount d).natAbs < 2 ^ maxBitLen) :
    ∃ acc, bva.trackUndelegation amount = .ok acc ∧ Undelegated bva amount acc := by
  unfold trackUndelegation
  refine Except.foldlM_prefix_inv (Undelegated bva) amount ?_ bva (undelegated_nil hcoins hdv hdf)
  intro pre coin rest acc hl hacc
  obtain ⟨hmem, hd, hpos, hcfit⟩ := hamount.of_eq_append hl
  have hfresh := amountAt_prefix_eq_zero (hl ▸ hamount.valid.sorted)
  have hD : amountAt amount coin.denom = coin.amount := amountAt_of_mem hamount.valid.sorted hmem
  have hdf₀ : ∀ d, 0 ≤ amountAt bva.delegatedFree d := hdf.nonneg
  have hdv₀ : ∀ d, 0 ≤ amountAt bva.delegatedVesting d := hdv.nonneg
  have hfree := hacc.delegatedFree.nonneg coin.denom
  have hvesting := hacc.delegatedVesting.nonneg coin.denom
  unfold Coin.Fits at hcfit
  have hbc : (amountAt acc.coins coin.denom + coin.amount).natAbs < 2 ^ maxBitLen := by
    rw [hacc.amountAt_coins, hfresh, Int.add_zero, ← hD]
    exact hfit coin.denom
  obtain ⟨hcadd, hcoins', hca⟩ := hacc.coins.add_singleton coin hd hpos hbc
  rw [amountOf_eq_amountAt hd _ hacc.delegatedFree.valid.sorted,
    amountOf_eq_amountAt hd _ hacc.delegatedVesting.valid.sorted]
  simp only [isZero_eq_false_of_pos hpos, Bool.false_eq_true, if_false, Except.ok_bind]
  generalize hx : min (amountAt acc.delegatedFree coin.denom) coin.amount = x
  have hx0 : 0 ≤ x := by omega
  have hdx : ¬2 ^ maxBitLen ≤ (coin.amount - x).natAbs := by omega
  simp only [SdkInt.sub_eq, hdx, if_false, Except.ok_bind]
  generalize hy : min (amountAt acc.delegatedVesting coin.denom) (coin.amount - x) = y
  have hy0 : 0 ≤ y := by omega
  have hkeep : ∀ (cs : Coins) (z : Int), z = 0 → ∀ d, amountAt cs d = amountAt cs d - if coin.denom = d then z else 0 :=
    fun cs z hz d => by simp [hz]
  simp only [newCoin_eq_ok hd hx0, newCoin_eq_ok hd hy0, Except.ok_bind, pure_bind]
  split_ifs with hx1 hy1 hy1
  · obtain ⟨hsubx, hdf', hax⟩ := hacc.delegatedFree.sub_singleton (x := x) hd (by omega) (by omega)
    obtain ⟨hsuby, hdv', hay⟩ := hacc.delegatedVesting.sub_singleton (x := y) hd (by omega) (by omega)
    simp only [hsubx, hsuby, hcadd, Except.ok_bind]
    exact ⟨_, rfl, hacc.snoc hdf₀ hdv₀ hfresh hx hy ⟨hcoins', hca⟩ ⟨hdf', hax⟩ ⟨hdv', hay⟩⟩
  · obtain ⟨hsubx, hdf', hax⟩ := hacc.delegatedFree.sub_singleton (x := x) hd (by omega) (by omega)
    simp only [hsubx, hcadd, Except.ok_bind]
    exact ⟨_, rfl, hacc.snoc hdf₀ hdv₀ hfresh hx hy ⟨hcoins', hca⟩ ⟨hdf', hax⟩
      ⟨hacc.delegatedVesting, hkeep _ _ (by omega)⟩⟩
  · obtain ⟨hsuby, hdv', hay⟩ := hacc.delegatedVesting.sub_singleton (x := y) hd (by omega) (by omega)
    simp only [hsuby, hcadd, Except.ok_bind]
    exact ⟨_, rfl, hacc.snoc hdf₀ hdv₀ hfresh hx hy ⟨hcoins', hca⟩ ⟨hacc.delegatedFree, hkeep _ _ (by omega)⟩
      ⟨hdv', hay⟩⟩
  · simp only [hcadd, Except.ok_bind]
    exact ⟨_, rfl, hacc.snoc hdf₀ hdv₀ hfresh hx hy ⟨hcoins', hca⟩ ⟨hacc.delegatedFree, hkeep _ _ (by omega)⟩
      ⟨hacc.delegatedVesting, hkeep _ _ (by omega)⟩⟩

/-- Each spendable amount is nothing, or leaves the coins still vesting covered by what is left of
    the account's coins and its delegated vesting coins. -/
theorem spendableCoins_covered {sp : Coins} (hcoins : Sound bva.coins) (hvesting : Sound vestingCoins)
    (hdv : Sound bva.delegatedVesting) (h : bva.spendableCoins vestingCoins = .ok sp) :
    ∀ d, amountAt sp d = 0 ∨
      amountAt sp d + amountAt vestingCoins d ≤ amountAt bva.coins d + amountAt bva.delegatedVesting d := by
  unfold spendableCoins at h
  -- the spendable coins of the coins done: nothing of a denomination not done, and what is
  -- spendable of each denomination done
  let P : Coins → Coins → Prop := fun pre acc =>
    (∀ d, amountAt pre d = 0 → amountAt acc d = 0) ∧
      ∀ d, amountAt acc d = 0 ∨ amountAt acc d + amountAt vestingCoins d ≤ amountAt pre d + amountAt bva.delegatedVesting d
  refine (Except.foldlM_ok_inv P (l := bva.coins) ?_ [] bva.coins [] sp rfl ⟨fun d _ => rfl, fun d => .inl rfl⟩ h).2
  intro pre coin rest acc acc' hl hP hstep
  obtain ⟨hmem, hd, hpos, -⟩ := hcoins.of_eq_append hl
  have hfresh := amountAt_prefix_eq_zero (hl ▸ hcoins.valid.sorted)
  rw [amountOf_eq_amountAt hd _ hvesting.valid.sorted, amountOf_eq_amountAt hd _ hdv.valid.sorted] at hstep
  simp only [Except.ok_bind] at hstep
  obtain ⟨sum, hsum, hstep⟩ := Except.bind_eq_ok.mp hstep
  obtain rfl := SdkInt.eq_of_add_eq_ok hsum
  obtain ⟨diff, hdiff, hstep⟩ := Except.bind_eq_ok.mp hstep
  obtain rfl := SdkInt.eq_of_sub_eq_ok hdiff
  obtain ⟨sc, hsc, hstep⟩ := Except.bind_eq_ok.mp hstep
  rw [eq_of_newCoin_eq_ok hsc] at hstep
  have hacc' : ∀ d, amountAt acc' d = amountAt acc d + if coin.denom = d then
      (if (⟨coin.denom, min (coin.amount + amountAt bva.delegatedVesting coin.denom -
        amountAt vestingCoins coin.denom) coin.amount⟩ : Coin).isZero then 0
      else min (coin.amount + amountAt bva.delegatedVesting coin.denom - amountAt vestingCoins coin.denom) coin.amount)
      else 0 := by
    intro d
    split at hstep <;> rename_i hzero
    · rw [add_eq_ok hstep, amountAt_plus_singleton]
      simp only [Bool.not_eq_true'] at hzero
      simp [hzero]
    · cases hstep
      simp only [Bool.not_eq_true'] at hzero
      simp [hzero]
  have hacc0 := hP.1 coin.denom hfresh
  refine ⟨fun d hd0 => ?_, fun d => ?_⟩
  · -- a denomination not done is not the coin's, which has a positive amount
    rw [amountAt_append, amountAt_cons, amountAt_nil] at hd0
    have hne : coin.denom ≠ d := fun he => by subst he; simp at hd0; omega
    rw [hacc' d, if_neg hne, hP.1 d (by simpa [hne] using hd0)]
    rfl
  · rw [hacc' d, amountAt_append, amountAt_cons, amountAt_nil]
    by_cases hcd : coin.denom = d
    · subst hcd
      rw [if_pos rfl, if_pos rfl, hacc0, hfresh]
      split_ifs with hzero
      · exact .inl rfl
      · exact .inr (by omega)
    · rw [if_neg hcd, if_neg hcd]
      simpa using hP.2 d

/-- Whatever it moves into the delegated coins, `TrackDelegation` takes the amount out of the
    coins, and keeps the address. -/
theorem trackDelegation_coins (hcoins : Sound bva.coins) (hamount : Sound amount)
    {acc : BaseVestingAccount} (h : bva.trackDelegation vestingCoins amount = .ok acc) :
    acc.address = bva.address ∧ Sound acc.coins ∧
      ∀ d, amountAt acc.coins d = amountAt bva.coins d - amountAt amount d := by
  unfold trackDelegation at h
  let P : Coins → BaseVestingAccount → Prop := fun pre acc =>
    acc.address = bva.address ∧ Sound acc.coins ∧ ∀ d, amountAt acc.coins d = amountAt bva.coins d - amountAt pre d
  refine Except.foldlM_ok_inv P (l := amount) ?_ [] amount bva acc rfl ⟨rfl, hcoins, fun d => by simp⟩ h
  intro pre coin rest acc acc' hl hP hstep
  obtain ⟨hmem, hd, hpos, hcfit⟩ := hamount.of_eq_append hl
  obtain ⟨baseAmt, -, hstep⟩ := Except.bind_eq_ok.mp hstep
  obtain ⟨vestingAmt, -, hstep⟩ := Except.bind_eq_ok.mp hstep
  obtain ⟨delVestingAmt, -, hstep⟩ := Except.bind_eq_ok.mp hstep
  have hnext : ∀ c, acc.coins.sub [coin] = .ok c →
      Sound c ∧ ∀ d, amountAt c d = amountAt bva.coins d - amountAt (pre ++ [coin]) d := by
    intro c hc
    obtain ⟨hsound, hamt⟩ := hP.2.1.of_sub_eq_ok (sound_singleton hd hpos hcfit) hc
    refine ⟨hsound, fun d => ?_⟩
    rw [hamt, hP.2.2, amountAt_append]
    omega
  simp only at hstep
  split at hstep
  · simp at hstep
  · obtain ⟨_, -, hstep⟩ := Except.bind_eq_ok.mp hstep
    obtain ⟨_, -, hstep⟩ := Except.bind_eq_ok.mp hstep
    split_ifs at hstep <;> simp only [Except.bind_eq_ok, Except.pure_eq_ok, Except.ok.injEq, exists_eq_left'] at hstep
    · obtain ⟨_, -, _, -, _, -, _, -, c, hc, rfl⟩ := hstep
      exact ⟨hP.1, hnext c hc⟩
    · obtain ⟨_, -, _, -, c, hc, rfl⟩ := hstep
      exact ⟨hP.1, hnext c hc⟩
    · obtain ⟨_, -, _, -, c, hc, rfl⟩ := hstep
      exact ⟨hP.1, hnext c hc⟩
    · obtain ⟨c, hc, rfl⟩ := hstep
      exact ⟨hP.1, hnext c hc⟩

/-- Whatever it takes out of the delegated coins, `TrackUndelegation` adds the amount to the
    coins, and keeps the address. -/
theorem trackUndelegation_coins (hcoins : Sound bva.coins) (hamount : Sound amount)
    {acc : BaseVestingAccount} (h : bva.trackUndelegation amount = .ok acc) :
    acc.address = bva.address ∧ Sound acc.coins ∧
      ∀ d, amountAt acc.coins d = amountAt bva.coins d + amountAt amount d := by
  unfold trackUndelegation at h
  let P : Coins → BaseVestingAccount → Prop := fun pre acc =>
    acc.address = bva.address ∧ Sound acc.coins ∧ ∀ d, amountAt acc.coins d = amountAt bva.coins d + amountAt pre d
  refine Except.foldlM_ok_inv P (l := amount) ?_ [] amount bva acc rfl ⟨rfl, hcoins, fun d => by simp⟩ h
  intro pre coin rest acc acc' hl hP hstep
  obtain ⟨hmem, hd, hpos, hcfit⟩ := hamount.of_eq_append hl
  simp only [isZero_eq_false_of_pos hpos, Bool.false_eq_true, if_false] at hstep
  obtain ⟨delegatedFree, -, hstep⟩ := Except.bind_eq_ok.mp hstep
  obtain ⟨delegatedVesting, -, hstep⟩ := Except.bind_eq_ok.mp hstep
  have hnext : ∀ c, acc.coins.add [coin] = .ok c →
      Sound c ∧ ∀ d, amountAt c d = amountAt bva.coins d + amountAt (pre ++ [coin]) d := by
    intro c hc
    obtain ⟨rfl, hsound⟩ := hP.2.1.of_add_eq_ok (sound_singleton hd hpos hcfit) hc
    refine ⟨hsound, fun d => ?_⟩
    rw [amountAt_plus_singleton, hP.2.2, amountAt_append, amountAt_cons, amountAt_nil]
    omega
  obtain ⟨_, -, hstep⟩ := Except.bind_eq_ok.mp hstep
  split_ifs at hstep <;> simp only [Except.bind_eq_ok, Except.pure_eq_ok, Except.ok.injEq, exists_eq_left'] at hstep
  · obtain ⟨_, -, _, -, _, -, _, -, c, hc, rfl⟩ := hstep
    exact ⟨hP.1, hnext c hc⟩
  · obtain ⟨_, -, _, -, c, hc, rfl⟩ := hstep
    exact ⟨hP.1, hnext c hc⟩
  · obtain ⟨_, -, _, -, c, hc, rfl⟩ := hstep
    exact ⟨hP.1, hnext c hc⟩
  · obtain ⟨c, hc, rfl⟩ := hstep
    exact ⟨hP.1, hnext c hc⟩

/-! ## Runs -/

/-- What a vesting account keeps along its runs, given the coins still vesting: sound coins, the
    delegated vesting coins within the original vesting, and the coins still vesting, themselves
    within the original vesting, covered by the coins and the delegated vesting ones. -/
structure Inv (vestingCoins : Coins) (bva : BaseVestingAccount) : Prop where
  coins : Sound bva.coins
  delegatedFree : Sound bva.delegatedFree
  delegatedVesting : Sound bva.delegatedVesting
  vesting : Sound vestingCoins
  vesting_le : ∀ d, amountAt vestingCoins d ≤ amountAt bva.originalVesting d
  delegatedVesting_le : ∀ d, amountAt bva.delegatedVesting d ≤ amountAt bva.originalVesting d
  covered : ∀ d, amountAt vestingCoins d ≤ amountAt bva.coins d + amountAt bva.delegatedVesting d

/-- The states of a vesting account, with the coins still vesting, along the calls of the bank
    keeper from a new account whose coins are its original vesting: time passes and the coins
    still vesting do not grow; a delegation of coins the account has, whose delegated free coins
    stay within 255 bits (`DelegateCoins`); an undelegation (`UndelegateCoins`); a receipt of coins
    (`AddCoins`); a spending that the spendable coins cover (`SubtractCoins`). -/
inductive Reachable : Coins → BaseVestingAccount → Prop
  | new {bva : BaseVestingAccount} : Sound bva.coins → bva.originalVesting = bva.coins →
      bva.delegatedFree = [] → bva.delegatedVesting = [] → Reachable bva.coins bva
  | vest {vestingCoins vestingCoins' : Coins} {bva : BaseVestingAccount} : Reachable vestingCoins bva →
      Sound vestingCoins' → (∀ d, amountAt vestingCoins' d ≤ amountAt vestingCoins d) →
      Reachable vestingCoins' bva
  | delegate {vestingCoins amount : Coins} {bva acc : BaseVestingAccount} : Reachable vestingCoins bva →
      Sound amount → (∀ d, amountAt amount d ≤ amountAt bva.coins d) →
      (∀ d, (amountAt bva.delegatedFree d + amountAt amount d).natAbs < 2 ^ maxBitLen) →
      bva.trackDelegation vestingCoins amount = .ok acc → Reachable vestingCoins acc
  | undelegate {vestingCoins amount : Coins} {bva acc : BaseVestingAccount} : Reachable vestingCoins bva →
      Sound amount → bva.trackUndelegation amount = .ok acc → Reachable vestingCoins acc
  | receive {vestingCoins amount coins : Coins} {bva : BaseVestingAccount} : Reachable vestingCoins bva →
      Sound amount → bva.coins.add amount = .ok coins → Reachable vestingCoins { bva with coins }
  | spend {vestingCoins amount sp coins : Coins} {bva : BaseVestingAccount} : Reachable vestingCoins bva →
      bva.spendableCoins vestingCoins = .ok sp → Sound amount → (∀ d, amountAt amount d ≤ amountAt sp d) →
      bva.coins.safeSub amount = .ok (coins, false) → Reachable vestingCoins { bva with coins }

theorem inv_new (hcoins : Sound bva.coins) (hov : bva.originalVesting = bva.coins)
    (hdf : bva.delegatedFree = []) (hdv : bva.delegatedVesting = []) : Inv bva.coins bva where
  coins := hcoins
  delegatedFree := hdf ▸ sound_nil
  delegatedVesting := hdv ▸ sound_nil
  vesting := hcoins
  vesting_le d := by rw [hov]
  delegatedVesting_le d := by rw [hdv, hov, amountAt_nil]; exact hcoins.nonneg d
  covered d := by rw [hdv, amountAt_nil, Int.add_zero]

theorem Inv.vest {vestingCoins' : Coins} (h : Inv vestingCoins bva) (hvesting : Sound vestingCoins')
    (hle : ∀ d, amountAt vestingCoins' d ≤ amountAt vestingCoins d) : Inv vestingCoins' bva :=
  { h with
    vesting := hvesting
    vesting_le := fun d => (hle d).trans (h.vesting_le d)
    covered := fun d => (hle d).trans (h.covered d) }

theorem Inv.delegate (h : Inv vestingCoins bva) (hamount : Sound amount)
    (hle : ∀ d, amountAt amount d ≤ amountAt bva.coins d)
    (hfree : ∀ d, (amountAt bva.delegatedFree d + amountAt amount d).natAbs < 2 ^ maxBitLen)
    (hacc : bva.trackDelegation vestingCoins amount = .ok acc) : Inv vestingCoins acc := by
  obtain ⟨acc', hacc', hd⟩ :=
    trackDelegation_spec h.coins h.delegatedVesting h.delegatedFree h.vesting hamount hle hfree
  obtain rfl : acc = acc' := Except.ok.inj (hacc.symm.trans hacc')
  refine ⟨hd.coins, hd.delegatedFree, hd.delegatedVesting, h.vesting, fun d => ?_, fun d => ?_, fun d => ?_⟩
  · rw [hd.originalVesting]
    exact h.vesting_le d
  · -- `X` takes the delegated vesting coins to at most the larger of them and the coins still vesting
    have := h.vesting_le d
    have := h.delegatedVesting_le d
    have := hamount.nonneg d
    rw [hd.originalVesting, hd.amountAt_delegatedVesting]
    omega
  · -- what leaves the coins goes to the delegated vesting coins as far as the coins still vesting
    -- ask, and the rest was more than they ask
    have := h.covered d
    have := hle d
    have := hamount.nonneg d
    rw [hd.amountAt_coins, hd.amountAt_delegatedVesting]
    omega

theorem Inv.undelegate (h : Inv vestingCoins bva) (hamount : Sound amount)
    (hacc : bva.trackUndelegation amount = .ok acc) : Inv vestingCoins acc := by
  -- the undelegation went through, so the coins and the amount fit together
  have hfit : ∀ d, (amountAt bva.coins d + amountAt amount d).natAbs < 2 ^ maxBitLen := by
    obtain ⟨-, hsound, hamt⟩ := trackUndelegation_coins h.coins hamount hacc
    intro d
    rw [← hamt]
    exact hsound.amountAt_fits d
  obtain ⟨acc', hacc', hu⟩ := trackUndelegation_spec h.coins h.delegatedVesting h.delegatedFree hamount hfit
  obtain rfl : acc = acc' := Except.ok.inj (hacc.symm.trans hacc')
  have hdf := h.delegatedFree.nonneg
  have hdv := h.delegatedVesting.nonneg
  have ha := hamount.nonneg
  refine ⟨hu.coins, hu.delegatedFree, hu.delegatedVesting, h.vesting, fun d => ?_, fun d => ?_, fun d => ?_⟩
  · rw [hu.originalVesting]
    exact h.vesting_le d
  · have := h.delegatedVesting_le d
    have := hdf d
    have := hdv d
    have := ha d
    rw [hu.originalVesting, hu.amountAt_delegatedVesting]
    omega
  · -- the coins come back in full, and the delegated vesting coins give back at most as much
    have := h.covered d
    have := hdf d
    have := hdv d
    have := ha d
    rw [hu.amountAt_coins, hu.amountAt_delegatedVesting]
    omega

theorem Inv.receive {coins : Coins} (h : Inv vestingCoins bva) (hamount : Sound amount)
    (hadd : bva.coins.add amount = .ok coins) : Inv vestingCoins { bva with coins } := by
  obtain ⟨rfl, hsound⟩ := h.coins.of_add_eq_ok hamount hadd
  refine { h with coins := hsound, covered := fun d => ?_ }
  have := h.covered d
  have := hamount.nonneg d
  simp only [amountAt_plus]
  omega

theorem Inv.spend {sp coins : Coins} (h : Inv vestingCoins bva) (hsp : bva.spendableCoins vestingCoins = .ok sp)
    (hamount : Sound amount) (hle : ∀ d, amountAt amount d ≤ amountAt sp d)
    (hsafe : bva.coins.safeSub amount = .ok (coins, false)) : Inv vestingCoins { bva with coins } := by
  obtain ⟨rfl, hneg⟩ := safeSub_eq_ok hsafe
  refine { h with coins := h.coins.plus_negative hamount hneg.symm, covered := fun d => ?_ }
  -- what is spent is at most what is spendable, which leaves the coins still vesting covered
  have := h.covered d
  have := hle d
  have := hamount.nonneg d
  have := spendableCoins_covered h.coins h.vesting h.delegatedVesting hsp d
  have := (spendableCoins_le h.coins.valid.sorted hsp).2.2 d
  simp only [amountAt_plus_negative]
  omega

theorem reachable_inv (h : Reachable vestingCoins bva) : Inv vestingCoins bva := by
  induction h with
  | new hcoins hov hdf hdv => exact inv_new hcoins hov hdf hdv
  | vest _ hvesting hle ih => exact ih.vest hvesting hle
  | delegate _ hamount hle hfree hacc ih => exact ih.delegate hamount hle hfree hacc
  | undelegate _ hamount hacc ih => exact ih.undelegate hamount hacc
  | receive _ hamount hadd ih => exact ih.receive hamount hadd
  | spend _ hsp hamount hle hsafe ih => exact ih.spend hsp hamount hle hsafe

end BaseVestingAccount

end Friday.Auth
