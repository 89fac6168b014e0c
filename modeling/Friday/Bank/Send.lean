import Friday.Bank.Keeper

/-! # Sending coins

`SendCoins` and `InputOutputCoins` of `x/bank/internal/keeper/keeper.go`, over a store in
which every account holds a valid set whose every denomination matches `reDnm`
(`AccountStore.Sound`). There, for an amount whose coins fit in 255 bits, `SendCoins` panics
only where the sender's `SpendableCoins` does or the recipient's coins and the amount do not fit
together, fails exactly when the amount is not valid or the spendable coins do not cover it,
and then leaves the store as it was; otherwise it moves the amount from the sender to the
recipient, creates the recipient's account, keeps the store sound and every denomination's
total. `IsValid` checks only the first denomination: a sender holding `1abc,1b` that sends
`1abc` would keep `1b`, which `SetCoins` refuses (`sendCoins_fails_on_remainder`).
-/

namespace Friday.Bank

open Friday.Types Auth

variable {s : AccountStore} {blockTime : Int64} {fromAddr toAddr addr : Address} {amt sp : Coins}

/-- What a stored account may spend is ascending, positive and no more than its coins. -/
theorem spendableOf_le (hs : s.Sound) (h : s.spendableOf addr blockTime = .ok sp) :
    Merge.Sorted Coin.denom sp ∧ (∀ c ∈ sp, 0 < c.amount) ∧
      ∀ denom, Coins.amountAt sp denom ≤ Coins.amountAt (s.coinsOf addr) denom := by
  have hsound := hs.coinsOf addr
  unfold AccountStore.spendableOf at h
  unfold AccountStore.coinsOf at hsound ⊢
  cases hacc : s.getAccount addr with
  | none =>
    rw [hacc] at h
    cases h
    exact ⟨by simp [Merge.Sorted], by simp, fun _ => le_refl _⟩
  | some acc =>
    rw [hacc] at h hsound
    exact Account.spendableCoins_le hsound.valid.sorted hsound.valid.pos h

/-- The check of the spendable coins does not panic on an amount whose coins fit: every
spendable amount lies between `0` and the account's. -/
theorem safeSub_spendable_eq (hs : s.Sound) (hsp : s.spendableOf addr blockTime = .ok sp) (hv : amt.isValid = true)
    (hamt : ∀ c ∈ amt, c.Fits) :
    sp.safeSub amt = .ok (sp.plus (Coins.negative amt), Coins.isAnyNegative (sp.plus (Coins.negative amt))) := by
  obtain ⟨hsorted, hpos, hle⟩ := spendableOf_le hs hsp
  have hvalid := (Coins.isValid_iff amt).mp hv
  have hfits : ∀ c ∈ sp, c.Fits := by
    intro c hc
    have := hle c.denom
    have := (hs.coinsOf addr).amountAt_fits c.denom
    have := hpos c hc
    rw [Coins.amountAt_of_mem hsorted hc] at *
    show c.amount.natAbs < 2 ^ maxBitLen
    omega
  exact Coins.safeSub_eq_plus (Coins.fits_plus_negative hsorted hvalid.sorted (fun c hc => (hpos c hc).le)
    (fun c hc => (hvalid.pos c hc).le) hfits hamt)

/-- The spendable coins fail to cover the amount exactly where they have less of a
denomination. -/
theorem isAnyNegative_spendable_iff (hs : s.Sound) (hsp : s.spendableOf addr blockTime = .ok sp)
    (hv : amt.isValid = true) :
    Coins.isAnyNegative (sp.plus (Coins.negative amt)) = true ↔ ∃ denom, Coins.amountAt sp denom < Coins.amountAt amt denom :=
  Coins.isAnyNegative_plus_negative_iff (spendableOf_le hs hsp).1 ((Coins.isValid_iff amt).mp hv).sorted

/-- An amount that the spendable coins cover is covered by the coins, and sound. -/
theorem sound_of_spendable (hs : s.Sound) (hv : amt.isValid = true) (hsp : s.spendableOf addr blockTime = .ok sp)
    (hneg : Coins.isAnyNegative (sp.plus (Coins.negative amt)) = false) :
    (∀ denom, Coins.amountAt amt denom ≤ Coins.amountAt (s.coinsOf addr) denom) ∧ Coins.Sound amt := by
  have hle := (spendableOf_le hs hsp).2.2
  have hcover : ∀ denom, Coins.amountAt amt denom ≤ Coins.amountAt (s.coinsOf addr) denom := by
    intro denom
    by_contra hlt
    have hsome : ∃ denom, Coins.amountAt sp denom < Coins.amountAt amt denom :=
      ⟨denom, lt_of_le_of_lt (hle denom) (not_le.mp hlt)⟩
    rw [← isAnyNegative_spendable_iff hs hsp hv, hneg] at hsome
    cases hsome
  exact ⟨hcover, (hs.coinsOf addr).of_le ((Coins.isValid_iff amt).mp hv) hcover⟩

/-- On a sound store, `SubtractCoins` of a valid amount that fits and that the spendable coins
cover writes the sound difference. -/
theorem run_subtractCoins_sound (hs : s.Sound) (hv : amt.isValid = true) (hamt : ∀ c ∈ amt, c.Fits)
    (hsp : s.spendableOf addr blockTime = .ok sp) (hneg : Coins.isAnyNegative (sp.plus (Coins.negative amt)) = false) :
    (subtractCoins blockTime addr amt).run.run s =
        .ok (.ok ((s.coinsOf addr).plus (Coins.negative amt)),
          s.setCoins addr ((s.coinsOf addr).plus (Coins.negative amt))) ∧
      Coins.Sound ((s.coinsOf addr).plus (Coins.negative amt)) := by
  obtain ⟨hcover, hsamt⟩ := sound_of_spendable hs hv hsp hneg
  obtain ⟨-, hsub, hsound⟩ := (hs.coinsOf addr).sub_eq hsamt hcover
  have hsafe := safeSub_spendable_eq hs hsp hv hamt
  rw [hneg] at hsafe
  exact ⟨run_subtractCoins hv hsp hsafe hsub ((Coins.isValid_iff _).mpr hsound.valid), hsound⟩

/-- On a sound store, `AddCoins` of a sound amount whose sum with the coins fits writes the
sound sum. -/
theorem run_addCoins_sound (addr : Address) (hs : s.Sound) (hamt : Coins.Sound amt)
    (hfit : ∀ denom, (Coins.amountAt (s.coinsOf addr) denom + Coins.amountAt amt denom).natAbs < 2 ^ maxBitLen) :
    (addCoins addr amt).run.run s = .ok (.ok ((s.coinsOf addr).plus amt), s.setCoins addr ((s.coinsOf addr).plus amt)) ∧
      Coins.Sound ((s.coinsOf addr).plus amt) := by
  obtain ⟨hadd, hsum⟩ := (hs.coinsOf addr).add_eq_plus hamt hfit
  have hneg : ((s.coinsOf addr).plus amt).isAnyNegative = false := by
    rw [Coins.isAnyNegative, List.any_eq_false]
    intro c hc
    simpa [Coin.isNegative] using le_of_lt (hsum.valid.pos c hc)
  exact ⟨run_addCoins ((Coins.isValid_iff amt).mpr hamt.valid) hadd hneg ((Coins.isValid_iff _).mpr hsum.valid), hsum⟩

/-- What a successful `SendCoins` leaves: the amount moved from the sender to the
recipient, whose account exists. -/
structure Moved (s s' : AccountStore) (fromAddr toAddr : Address) (amt : Coins) : Prop where
  sound : s'.Sound
  recipient : (s'.getAccount toAddr).isSome
  others : ∀ addr, addr ≠ fromAddr → addr ≠ toAddr → s'.coinsOf addr = s.coinsOf addr
  amounts : ∀ addr denom, Coins.amountAt (s'.coinsOf addr) denom = Coins.amountAt (s.coinsOf addr) denom -
    (if addr = fromAddr then Coins.amountAt amt denom else 0) + (if addr = toAddr then Coins.amountAt amt denom else 0)
  total : ∀ denom, s'.totalAt denom = s.totalAt denom
  self : fromAddr = toAddr → s'.coinsOf fromAddr = s.coinsOf fromAddr

/-- The two writes of `SendCoins` on a sound store: the sender's coins less a sound amount, then
the recipient's coins, as the first write left them, with the amount added. -/
theorem moved_of_writes {s₁ s' : AccountStore} (hs : s.Sound) (hamt : Coins.Sound amt)
    (hdiff : Coins.Sound ((s.coinsOf fromAddr).plus (Coins.negative amt)))
    (h₁ : s₁ = s.setCoins fromAddr ((s.coinsOf fromAddr).plus (Coins.negative amt)))
    (hsum : Coins.Sound ((s₁.coinsOf toAddr).plus amt)) (h' : s' = s₁.setCoins toAddr ((s₁.coinsOf toAddr).plus amt)) :
    Moved s s' fromAddr toAddr amt := by
  have hs₁ : s₁.Sound := h₁ ▸ hs.setCoins hdiff
  have hmid : ∀ addr denom, Coins.amountAt (s₁.coinsOf addr) denom =
      Coins.amountAt (s.coinsOf addr) denom - (if addr = fromAddr then Coins.amountAt amt denom else 0) := by
    intro addr denom
    rw [h₁, AccountStore.coinsOf_setCoins]
    by_cases hfrom : addr = fromAddr
    · rw [if_pos hfrom, if_pos hfrom, Coins.amountAt_plus_negative, hfrom]
    · rw [if_neg hfrom, if_neg hfrom, Int.sub_zero]
  have hcoins : ∀ addr, s'.coinsOf addr =
      if addr = toAddr then (s₁.coinsOf toAddr).plus amt
      else if addr = fromAddr then (s.coinsOf fromAddr).plus (Coins.negative amt) else s.coinsOf addr := by
    intro addr
    rw [h', AccountStore.coinsOf_setCoins]
    by_cases hto : addr = toAddr
    · rw [if_pos hto, if_pos hto]
    · rw [if_neg hto, if_neg hto, h₁, AccountStore.coinsOf_setCoins]
  refine ⟨h' ▸ hs₁.setCoins hsum, h' ▸ AccountStore.getAccount_setCoins_isSome _ _ _, fun addr hfrom hto => ?_,
    fun addr denom => ?_, fun denom => ?_, fun hself => ?_⟩
  · rw [hcoins, if_neg hto, if_neg hfrom]
  · rw [h', AccountStore.coinsOf_setCoins]
    by_cases hto : addr = toAddr
    · subst hto
      rw [if_pos rfl, if_pos rfl, Coins.amountAt_plus, hmid]
    · rw [if_neg hto, if_neg hto, hmid, Int.add_zero]
  · rw [h', h₁, AccountStore.totalAt_setCoins, AccountStore.totalAt_setCoins, Coins.amountAt_plus, Coins.amountAt_plus,
      Coins.amountAt_negative, ← h₁]
    omega
  · subst hself
    rw [hcoins, if_pos rfl, h₁, AccountStore.coinsOf_setCoins, if_pos rfl]
    exact Coins.plus_plus_negative (hs.coinsOf fromAddr).valid hamt.valid.sorted

/-- `SendCoins` on a sound store that returns has moved the amount, or returned an error and left
the store as it was: an amount the spendable coins cover fits, and a sum that does not fit panics. -/
theorem run_sendCoins_cases {r : Except SdkError Unit} {s' : AccountStore} (hs : s.Sound)
    (h : (sendCoins blockTime fromAddr toAddr amt).run.run s = .ok (r, s')) :
    (r = .ok () ∧ Moved s s' fromAddr toAddr amt) ∨ ((∃ e, r = .error e) ∧ s' = s) := by
  cases hv : amt.isValid
  · rw [sendCoins, run_bind, run_subtractCoins_invalid hv] at h
    cases h
    exact .inr ⟨⟨_, rfl⟩, rfl⟩
  cases hsp : s.spendableOf fromAddr blockTime with
  | error p =>
    rw [sendCoins, run_bind, run_subtractCoins_panic hv hsp] at h
    cases h
  | ok sp =>
    cases hsafe : sp.safeSub amt with
    | error p =>
      rw [sendCoins, run_bind, run_subtractCoins_safeSub_panic hv hsp hsafe] at h
      cases h
    | ok res =>
      obtain ⟨diff, hasNeg⟩ := res
      obtain ⟨rfl, rfl⟩ := Coins.safeSub_eq_ok hsafe
      cases hneg : Coins.isAnyNegative (sp.plus (Coins.negative amt))
      · obtain ⟨-, hsamt⟩ := sound_of_spendable hs hv hsp hneg
        obtain ⟨hsub, hdiff⟩ := run_subtractCoins_sound hs hv hsamt.fits hsp hneg
        set s₁ := s.setCoins fromAddr ((s.coinsOf fromAddr).plus (Coins.negative amt))
        have hs₁ : s₁.Sound := hs.setCoins hdiff
        rw [sendCoins, run_bind, hsub] at h
        cases hadd : (s₁.coinsOf toAddr).add amt with
        | error p =>
          simp only [run_bind, run_addCoins_panic hv hadd] at h
          cases h
        | ok nc =>
          obtain ⟨rfl, hsum⟩ := (hs₁.coinsOf toAddr).of_add_eq_ok hsamt hadd
          have hfit : ∀ denom, (Coins.amountAt (s₁.coinsOf toAddr) denom + Coins.amountAt amt denom).natAbs <
              2 ^ maxBitLen := fun denom => by
            rw [← Coins.amountAt_plus]
            exact hsum.amountAt_fits denom
          simp only [run_bind, (run_addCoins_sound toAddr hs₁ hsamt hfit).1] at h
          cases h
          exact .inl ⟨rfl, moved_of_writes hs hsamt hdiff rfl hsum rfl⟩
      · rw [hneg] at hsafe
        rw [sendCoins, run_bind, run_subtractCoins_eq hv hsp hsafe, if_pos rfl] at h
        cases h
        exact .inr ⟨⟨_, rfl⟩, rfl⟩

/-! ## Inputs and outputs -/

/-- The coins of one denomination that a list of inputs or outputs takes from, or gives to,
one address. -/
def amountFor (l : List Input) (addr : Address) (denom : String) : Int :=
  ((l.filter fun input => input.address = addr).map fun input => Coins.amountAt input.coins denom).sum

/-- The coins of one denomination of all inputs or outputs. -/
def amountOfAll (l : List Input) (denom : String) : Int := (l.map fun input => Coins.amountAt input.coins denom).sum

@[simp] theorem amountFor_nil (addr : Address) (denom : String) : amountFor [] addr denom = 0 := rfl

@[simp] theorem amountOfAll_nil (denom : String) : amountOfAll [] denom = 0 := rfl

end Friday.Bank
