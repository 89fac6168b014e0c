import Friday.Auth.Delegation
import Friday.Bank.Send

/-! # Delegating and undelegating coins

`DelegateCoins` and `UndelegateCoins` of `x/bank/internal/keeper/keeper.go`, with the
`trackDelegation` and `trackUndelegation` they call, over a sound store. Both check that the two
accounts exist, that the amount is valid and that the account paying holds it, before any
write: a failed check leaves the store as it was. A panic comes only from tracking the
delegation on a vesting account. `DelegateCoins` then moves the amount from the delegator to
the module account, as `SendCoins` does. `UndelegateCoins` writes the module account's coins,
then the delegator's account as it read it before that write, with the amount tracked: between
two accounts the amount moves, but an account that undelegates to itself overwrites its own
debit and ends with the amount more, and so does the total (`undelegateCoins_spec_self`).
-/

namespace Friday.Bank

open Friday.Types Auth

/-! ## The store after the write of an account -/

namespace AccountStore

variable {s s' : AccountStore}

theorem coinsOf_setAccount (s : AccountStore) (acc : Account) (addr : Address) :
    (s.setAccount acc).coinsOf addr = if addr = acc.getAddress then acc.getCoins else s.coinsOf addr := by
  unfold coinsOf
  rw [getAccount_setAccount]
  by_cases h : addr = acc.getAddress
  · simp [h]
  · simp [h]

/-- A write changes the total of a denomination by the account's coins less the coins it
replaces. -/
theorem totalAt_setAccount (s : AccountStore) (acc : Account) (denom : String) :
    (s.setAccount acc).totalAt denom =
      s.totalAt denom - Coins.amountAt (s.coinsOf acc.getAddress) denom + Coins.amountAt acc.getCoins denom := by
  have hsum := SortedKV.sum_setEntry (fun acc : Account => Coins.amountAt acc.getCoins denom) acc.getAddress acc
    s.ascending
  have hold : ((s.accounts.lookup acc.getAddress).map fun acc : Account => Coins.amountAt acc.getCoins denom).getD 0 =
      Coins.amountAt (s.coinsOf acc.getAddress) denom := by
    unfold coinsOf getAccount
    cases s.accounts.lookup acc.getAddress <;> rfl
  rw [hold] at hsum
  unfold totalAt
  show ((SortedKV.setEntry compare acc.getAddress acc s.accounts).map _).sum = _
  omega

theorem Sound.setAccount {acc : Account} (hs : s.Sound) (hacc : Coins.Sound acc.getCoins) :
    (s.setAccount acc).Sound := by
  intro p hp
  rcases SortedKV.mem_setEntry hp with rfl | hp
  · exact hacc
  · exact hs p hp

/-- In sound stores, an address holds the same coins where it holds as much of every
denomination. -/
theorem coinsOf_eq_of_amountAt (hs : s.Sound) (hs' : s'.Sound) {addr : Address}
    (h : ∀ denom, Coins.amountAt (s'.coinsOf addr) denom = Coins.amountAt (s.coinsOf addr) denom) :
    s'.coinsOf addr = s.coinsOf addr :=
  Coins.eq_of_amountAt_eq (hs'.coinsOf addr).valid.sorted (hs.coinsOf addr).valid.sorted
    (hs'.coinsOf addr).valid.isZero_eq_false (hs.coinsOf addr).valid.isZero_eq_false h

end AccountStore

variable {s s' : AccountStore} {fromAddr toAddr : Address} {amt : Coins}

/-- A move between sound stores, given by the amounts it leaves and the totals it keeps. -/
theorem Moved.of_amounts (hs : s.Sound) (hs' : s'.Sound) (hrecipient : (s'.getAccount toAddr).isSome)
    (hamounts : ∀ addr denom, Coins.amountAt (s'.coinsOf addr) denom = Coins.amountAt (s.coinsOf addr) denom -
      (if addr = fromAddr then Coins.amountAt amt denom else 0) + (if addr = toAddr then Coins.amountAt amt denom else 0))
    (htotal : ∀ denom, s'.totalAt denom = s.totalAt denom) : Moved s s' fromAddr toAddr amt := by
  refine ⟨hs', hrecipient, fun addr hfrom hto => ?_, hamounts, htotal, fun hself => ?_⟩
  · refine AccountStore.coinsOf_eq_of_amountAt hs hs' fun denom => ?_
    rw [hamounts, if_neg hfrom, if_neg hto]
    omega
  · refine AccountStore.coinsOf_eq_of_amountAt hs hs' fun denom => ?_
    rw [hamounts, if_pos rfl, if_pos hself]
    omega

/-! ## Tracking a delegation on an account -/

variable {blockTime : Int64} {acc acc' : Account}

/-- `trackDelegation` of sound coins takes the amount out of the coins and keeps the
address. -/
theorem trackDelegation_getCoins (hcoins : Coins.Sound acc.getCoins) (hamt : Coins.Sound amt)
    (h : trackDelegation acc blockTime amt = .ok acc') :
    acc'.getAddress = acc.getAddress ∧ Coins.Sound acc'.getCoins ∧
      ∀ denom, Coins.amountAt acc'.getCoins denom = Coins.amountAt acc.getCoins denom - Coins.amountAt amt denom := by
  -- the accounts that are not vesting subtract the amount with `Sub`
  have hplain : ∀ c, acc.getCoins.sub amt = .ok c → (acc.setCoins c).getAddress = acc.getAddress ∧
      Coins.Sound (acc.setCoins c).getCoins ∧ ∀ denom, Coins.amountAt (acc.setCoins c).getCoins denom =
        Coins.amountAt acc.getCoins denom - Coins.amountAt amt denom := by
    intro c hc
    rw [Account.getAddress_setCoins, Account.getCoins_setCoins]
    exact ⟨rfl, hcoins.of_sub_eq_ok hamt hc⟩
  cases acc with
  | continuousVesting cva =>
    obtain ⟨cva', hcva, h⟩ := Except.bind_eq_ok.mp h
    cases Except.ok.inj h
    obtain ⟨vestingCoins, -, hcva⟩ := Except.bind_eq_ok.mp hcva
    obtain ⟨bva, hbva, hcva⟩ := Except.bind_eq_ok.mp hcva
    cases Except.ok.inj hcva
    exact BaseVestingAccount.trackDelegation_coins hcoins hamt hbva
  | delayedVesting dva =>
    obtain ⟨dva', hdva, h⟩ := Except.bind_eq_ok.mp h
    cases Except.ok.inj h
    obtain ⟨vestingCoins, -, hdva⟩ := Except.bind_eq_ok.mp hdva
    obtain ⟨bva, hbva, hdva⟩ := Except.bind_eq_ok.mp hdva
    cases Except.ok.inj hdva
    exact BaseVestingAccount.trackDelegation_coins hcoins hamt hbva
  | base ba =>
    obtain ⟨c, hc, h⟩ := Except.bind_eq_ok.mp h
    cases Except.ok.inj h
    exact hplain c hc
  | module ma =>
    obtain ⟨c, hc, h⟩ := Except.bind_eq_ok.mp h
    cases Except.ok.inj h
    exact hplain c hc

/-- `trackUndelegation` of sound coins adds the amount to the coins and keeps the address. -/
theorem trackUndelegation_getCoins (hcoins : Coins.Sound acc.getCoins) (hamt : Coins.Sound amt)
    (h : trackUndelegation acc amt = .ok acc') :
    acc'.getAddress = acc.getAddress ∧ Coins.Sound acc'.getCoins ∧
      ∀ denom, Coins.amountAt acc'.getCoins denom = Coins.amountAt acc.getCoins denom + Coins.amountAt amt denom := by
  -- the accounts that are not vesting add the amount with `Add`
  have hplain : ∀ c, acc.getCoins.add amt = .ok c → (acc.setCoins c).getAddress = acc.getAddress ∧
      Coins.Sound (acc.setCoins c).getCoins ∧ ∀ denom, Coins.amountAt (acc.setCoins c).getCoins denom =
        Coins.amountAt acc.getCoins denom + Coins.amountAt amt denom := by
    intro c hc
    obtain ⟨rfl, hsound⟩ := hcoins.of_add_eq_ok hamt hc
    rw [Account.getAddress_setCoins, Account.getCoins_setCoins]
    exact ⟨rfl, hsound, fun denom => Coins.amountAt_plus _ _⟩
  cases acc with
  | continuousVesting cva =>
    obtain ⟨bva, hbva, h⟩ := Except.bind_eq_ok.mp h
    cases Except.ok.inj h
    exact BaseVestingAccount.trackUndelegation_coins hcoins hamt hbva
  | delayedVesting dva =>
    obtain ⟨bva, hbva, h⟩ := Except.bind_eq_ok.mp h
    cases Except.ok.inj h
    exact BaseVestingAccount.trackUndelegation_coins hcoins hamt hbva
  | base ba =>
    obtain ⟨c, hc, h⟩ := Except.bind_eq_ok.mp h
    cases Except.ok.inj h
    exact hplain c hc
  | module ma =>
    obtain ⟨c, hc, h⟩ := Except.bind_eq_ok.mp h
    cases Except.ok.inj h
    exact hplain c hc

/-! ## What a call does -/

/-- What a keeper call does from a store, for each way it returns: it fails exactly when
`fails`, and then with the store as it was; it succeeds with a store of which `done` holds;
it panics only with a panic of which `panics` holds. -/
structure Outcome (x : Keeper Unit) (s : AccountStore) (fails : Prop) (done : AccountStore → Prop)
    (panics : Panic → Prop) : Prop where
  fails_iff : ∀ r s', x.run.run s = .ok (r, s') → ((∃ e, r = .error e) ↔ fails)
  unchanged : ∀ e s', x.run.run s = .ok (.error e, s') → s' = s
  done : ∀ s', x.run.run s = .ok (.ok (), s') → done s'
  panic : ∀ p, x.run.run s = .error p → panics p

section Outcome

variable {x : Keeper Unit} {fails : Prop} {done : AccountStore → Prop} {panics : Panic → Prop}

theorem Outcome.of_error {e : SdkError} (hrun : x.run.run s = .ok (.error e, s)) (hfails : fails) :
    Outcome x s fails done panics where
  fails_iff r s' h := by
    rw [hrun] at h
    cases h
    exact ⟨fun _ => hfails, fun _ => ⟨e, rfl⟩⟩
  unchanged e s' h := by
    rw [hrun] at h
    cases h
    rfl
  done s' h := by
    rw [hrun] at h
    cases h
  panic p h := by
    rw [hrun] at h
    cases h

theorem Outcome.of_ok (hrun : x.run.run s = .ok (.ok (), s')) (hfails : ¬fails) (hdone : done s') :
    Outcome x s fails done panics where
  fails_iff r s'' h := by
    rw [hrun] at h
    cases h
    exact ⟨fun ⟨_, he⟩ => (by cases he), fun h => absurd h hfails⟩
  unchanged e s'' h := by
    rw [hrun] at h
    cases h
  done s'' h := by
    rw [hrun] at h
    cases h
    exact hdone
  panic p h := by
    rw [hrun] at h
    cases h

theorem Outcome.of_panic {p : Panic} (hrun : x.run.run s = .error p) (hp : panics p) :
    Outcome x s fails done panics where
  fails_iff r s' h := by
    rw [hrun] at h
    cases h
  unchanged e s' h := by
    rw [hrun] at h
    cases h
  done s' h := by
    rw [hrun] at h
    cases h
  panic p' h := by
    rw [hrun] at h
    cases h
    exact hp

end Outcome

/-! ## `DelegateCoins` -/

section Delegate

variable {accAddressString : Address → String} {delegatorAddr moduleAccAddr : Address} {macc : Account}

theorem run_delegateCoins_unknown (hd : s.getAccount delegatorAddr = none) :
    (delegateCoins accAddressString blockTime delegatorAddr moduleAccAddr amt).run.run s =
      .ok (.error (errUnknownAddress ("account " ++ accAddressString delegatorAddr ++ " does not exist")), s) := by
  simp [delegateCoins, hd]

theorem run_delegateCoins_unknown_module (hd : s.getAccount delegatorAddr = some acc)
    (hm : s.getAccount moduleAccAddr = none) :
    (delegateCoins accAddressString blockTime delegatorAddr moduleAccAddr amt).run.run s =
      .ok (.error (errUnknownAddress ("module account " ++ accAddressString moduleAccAddr ++ " does not exist")), s) := by
  simp [delegateCoins, hd, hm]

theorem run_delegateCoins_invalid (hd : s.getAccount delegatorAddr = some acc)
    (hm : s.getAccount moduleAccAddr = some macc) (hv : amt.isValid = false) :
    (delegateCoins accAddressString blockTime delegatorAddr moduleAccAddr amt).run.run s =
      .ok (.error (errInvalidCoins amt.toString), s) := by
  simp [delegateCoins, hd, hm, hv]

/-- The delegator's coins, not its spendable coins, must cover the amount. -/
theorem run_delegateCoins_insufficient {diff : Coins} (hd : s.getAccount delegatorAddr = some acc)
    (hm : s.getAccount moduleAccAddr = some macc) (hv : amt.isValid = true)
    (hsafe : acc.getCoins.safeSub amt = .ok (diff, true)) :
    (delegateCoins accAddressString blockTime delegatorAddr moduleAccAddr amt).run.run s =
      .ok (.error (errInsufficientCoins
        ("insufficient account funds; " ++ acc.getCoins.toString ++ " < " ++ amt.toString)), s) := by
  simp [delegateCoins, hd, hm, hv, hsafe]

theorem run_delegateCoins_safeSub_panic {p : Panic} (hd : s.getAccount delegatorAddr = some acc)
    (hm : s.getAccount moduleAccAddr = some macc) (hv : amt.isValid = true) (hsafe : acc.getCoins.safeSub amt = .error p) :
    (delegateCoins accAddressString blockTime delegatorAddr moduleAccAddr amt).run.run s = .error p := by
  simp [delegateCoins, hd, hm, hv, hsafe]

theorem run_delegateCoins_panic {p : Panic} {diff : Coins} (hd : s.getAccount delegatorAddr = some acc)
    (hm : s.getAccount moduleAccAddr = some macc) (hv : amt.isValid = true)
    (hsafe : acc.getCoins.safeSub amt = .ok (diff, false)) (ht : trackDelegation acc blockTime amt = .error p) :
    (delegateCoins accAddressString blockTime delegatorAddr moduleAccAddr amt).run.run s = .error p := by
  simp [delegateCoins, hd, hm, hv, hsafe, ht]

/-- Once the checks pass, the tracked account is written, then the module account credited. -/
theorem run_delegateCoins_track {diff : Coins} (hd : s.getAccount delegatorAddr = some acc)
    (hm : s.getAccount moduleAccAddr = some macc) (hv : amt.isValid = true)
    (hsafe : acc.getCoins.safeSub amt = .ok (diff, false)) (ht : trackDelegation acc blockTime amt = .ok acc') :
    (delegateCoins accAddressString blockTime delegatorAddr moduleAccAddr amt).run.run s =
      (do let _ ← addCoins moduleAccAddr amt : Keeper Unit).run.run (s.setAccount acc') := by
  simp [delegateCoins, hd, hm, hv, hsafe, ht]

/-- A valid amount that sound coins hold, by `SafeSub`, is covered by them and sound, and so
is what is left. -/
theorem sound_of_safeSub {coins diff : Coins} (hcoins : Coins.Sound coins) (hv : amt.isValid = true)
    (hsafe : coins.safeSub amt = .ok (diff, false)) :
    (∀ denom, Coins.amountAt amt denom ≤ Coins.amountAt coins denom) ∧ Coins.Sound amt ∧
      diff = coins.plus (Coins.negative amt) ∧ Coins.Sound diff := by
  have hvalid := (Coins.isValid_iff amt).mp hv
  obtain ⟨rfl, hneg⟩ := Coins.safeSub_eq_ok hsafe
  have hcover : ∀ denom, Coins.amountAt amt denom ≤ Coins.amountAt coins denom := by
    intro denom
    by_contra hlt
    have hsome := (Coins.isAnyNegative_plus_negative_iff hcoins.valid.sorted hvalid.sorted).mpr ⟨denom, not_le.mp hlt⟩
    rw [← hneg] at hsome
    cases hsome
  have hamt := hcoins.of_le hvalid hcover
  exact ⟨hcover, hamt, rfl, hcoins.plus_negative hamt hneg.symm⟩

/-- A `DelegateCoins` whose checks pass, whose tracking does not panic and whose credit of the
module account fits moves the amount from the delegator to the module account. -/
theorem run_delegateCoins_sound {diff : Coins} (hs : s.Sound) (hd : s.getAccount delegatorAddr = some acc)
    (hm : s.getAccount moduleAccAddr = some macc) (hv : amt.isValid = true)
    (hsafe : acc.getCoins.safeSub amt = .ok (diff, false)) (ht : trackDelegation acc blockTime amt = .ok acc')
    (hfit : ∀ denom,
      (Coins.amountAt ((s.setAccount acc').coinsOf moduleAccAddr) denom + Coins.amountAt amt denom).natAbs < 2 ^ maxBitLen) :
    ∃ s', (delegateCoins accAddressString blockTime delegatorAddr moduleAccAddr amt).run.run s = .ok (.ok (), s') ∧
      Moved s s' delegatorAddr moduleAccAddr amt := by
  have hcoins : s.coinsOf delegatorAddr = acc.getCoins := by simp [AccountStore.coinsOf, hd]
  have haddr : acc.getAddress = delegatorAddr := AccountStore.getAddress_of_getAccount hd
  obtain ⟨-, hamt, -⟩ := sound_of_safeSub (hcoins ▸ hs.coinsOf delegatorAddr) hv hsafe
  obtain ⟨haddr', hsound', hamt'⟩ := trackDelegation_getCoins (hcoins ▸ hs.coinsOf delegatorAddr) hamt ht
  set s₁ := s.setAccount acc'
  have hs₁ : s₁.Sound := hs.setAccount hsound'
  obtain ⟨hadd, hsum⟩ := run_addCoins_sound moduleAccAddr hs₁ hamt hfit
  refine ⟨_, by rw [run_delegateCoins_track hd hm hv hsafe ht, run_bind, hadd]; rfl, ?_⟩
  have hmid : ∀ addr denom, Coins.amountAt (s₁.coinsOf addr) denom =
      Coins.amountAt (s.coinsOf addr) denom - (if addr = delegatorAddr then Coins.amountAt amt denom else 0) := by
    intro addr denom
    rw [AccountStore.coinsOf_setAccount, haddr', haddr]
    by_cases h : addr = delegatorAddr
    · rw [if_pos h, if_pos h, hamt', h, hcoins]
    · rw [if_neg h, if_neg h, Int.sub_zero]
  refine Moved.of_amounts hs (hs₁.setCoins hsum) (AccountStore.getAccount_setCoins_isSome _ _ _)
    (fun addr denom => ?_) (fun denom => ?_)
  · rw [AccountStore.coinsOf_setCoins]
    by_cases hto : addr = moduleAccAddr
    · subst hto
      rw [if_pos rfl, if_pos rfl, Coins.amountAt_plus, hmid]
    · rw [if_neg hto, if_neg hto, hmid, Int.add_zero]
  · rw [AccountStore.totalAt_setCoins, Coins.amountAt_plus, AccountStore.totalAt_setAccount, haddr',
      haddr, hamt', hcoins]
    omega

/-- The panics of `DelegateCoins` on a sound store: of tracking the delegation on the
delegator's account, or of `Int.Add` in crediting the module account, whose coins, once the
tracked delegator is written, do not fit with the amount. -/
def DelegatePanics (s : AccountStore) (blockTime : Int64) (delegatorAddr moduleAccAddr : Address) (amt : Coins)
    (p : Panic) : Prop :=
  (∃ acc, s.getAccount delegatorAddr = some acc ∧ trackDelegation acc blockTime amt = .error p) ∨
    p = .other "Int overflow" ∧ ∃ acc acc', s.getAccount delegatorAddr = some acc ∧
      trackDelegation acc blockTime amt = .ok acc' ∧
      ∃ denom, 2 ^ maxBitLen ≤
        (Coins.amountAt ((s.setAccount acc').coinsOf moduleAccAddr) denom + Coins.amountAt amt denom).natAbs

/-- What `DelegateCoins` returns on a sound store: an error before any write where an account is
missing, the amount is not valid or the delegator's coins do not cover it; a panic of
`DelegatePanics`, or of `SafeSub` on the delegator's coins; or the amount moved. -/
theorem run_delegateCoins_cases (hs : s.Sound) :
    (∃ e, (delegateCoins accAddressString blockTime delegatorAddr moduleAccAddr amt).run.run s = .ok (.error e, s) ∧
      (s.getAccount delegatorAddr = none ∨ s.getAccount moduleAccAddr = none ∨ amt.isValid = false ∨
        ∃ denom, Coins.amountAt (s.coinsOf delegatorAddr) denom < Coins.amountAt amt denom)) ∨
    (∃ p, (delegateCoins accAddressString blockTime delegatorAddr moduleAccAddr amt).run.run s = .error p ∧
      (DelegatePanics s blockTime delegatorAddr moduleAccAddr amt p ∨
        ∃ acc, s.getAccount delegatorAddr = some acc ∧ amt.isValid = true ∧ acc.getCoins.safeSub amt = .error p)) ∨
    (∃ s', (delegateCoins accAddressString blockTime delegatorAddr moduleAccAddr amt).run.run s = .ok (.ok (), s') ∧
      ¬(s.getAccount delegatorAddr = none ∨ s.getAccount moduleAccAddr = none ∨ amt.isValid = false ∨
        ∃ denom, Coins.amountAt (s.coinsOf delegatorAddr) denom < Coins.amountAt amt denom) ∧
      Moved s s' delegatorAddr moduleAccAddr amt) := by
  cases hd : s.getAccount delegatorAddr with
  | none => exact .inl ⟨_, run_delegateCoins_unknown hd, .inl rfl⟩
  | some acc =>
    have hcoins : s.coinsOf delegatorAddr = acc.getCoins := by simp [AccountStore.coinsOf, hd]
    have hsound : Coins.Sound acc.getCoins := hcoins ▸ hs.coinsOf delegatorAddr
    cases hm : s.getAccount moduleAccAddr with
    | none => exact .inl ⟨_, run_delegateCoins_unknown_module hd hm, .inr (.inl rfl)⟩
    | some macc =>
      cases hv : amt.isValid
      · exact .inl ⟨_, run_delegateCoins_invalid hd hm hv, .inr (.inr (.inl rfl))⟩
      have hvalid := (Coins.isValid_iff amt).mp hv
      have hlt_iff := Coins.isAnyNegative_plus_negative_iff hsound.valid.sorted hvalid.sorted
      rw [← hcoins] at hlt_iff
      cases hsafe : acc.getCoins.safeSub amt with
      | error p => exact .inr (.inl ⟨p, run_delegateCoins_safeSub_panic hd hm hv hsafe, .inr ⟨acc, rfl, rfl, hsafe⟩⟩)
      | ok res =>
      obtain ⟨diff, hasNeg⟩ := res
      obtain ⟨rfl, rfl⟩ := Coins.safeSub_eq_ok hsafe
      cases hneg : Coins.isAnyNegative (acc.getCoins.plus (Coins.negative amt))
      · -- the coins cover the amount: the tracking and the credit are left
        rw [hneg] at hsafe
        have hnot : ¬(s.getAccount delegatorAddr = none ∨ s.getAccount moduleAccAddr = none ∨ amt.isValid = false ∨
            ∃ denom, Coins.amountAt (s.coinsOf delegatorAddr) denom < Coins.amountAt amt denom) := by
          rintro (h | h | h | hlt)
          · rw [hd] at h; cases h
          · rw [hm] at h; cases h
          · rw [hv] at h; cases h
          · rw [← hlt_iff, hcoins, hneg] at hlt
            cases hlt
        cases ht : trackDelegation acc blockTime amt with
        | error p => exact .inr (.inl ⟨p, run_delegateCoins_panic hd hm hv hsafe ht, .inl (.inl ⟨acc, hd, ht⟩)⟩)
        | ok acc' =>
          obtain ⟨-, hsamt, -⟩ := sound_of_safeSub hsound hv hsafe
          have hmsound := (hs.setAccount (trackDelegation_getCoins hsound hsamt ht).2.1).coinsOf moduleAccAddr
          cases hadd : ((s.setAccount acc').coinsOf moduleAccAddr).add amt with
          | error e =>
            obtain ⟨rfl, hover⟩ := hmsound.add_eq_error hsamt hadd
            refine .inr (.inl ⟨_, ?_, .inl (.inr ⟨rfl, acc, acc', hd, ht, hover⟩)⟩)
            rw [run_delegateCoins_track hd hm hv hsafe ht, run_bind, run_addCoins_panic hv hadd]
          | ok sum =>
            have hfit : ∀ denom, (Coins.amountAt ((s.setAccount acc').coinsOf moduleAccAddr) denom +
                Coins.amountAt amt denom).natAbs < 2 ^ maxBitLen := by
              obtain ⟨rfl, hsum⟩ := hmsound.of_add_eq_ok hsamt hadd
              intro denom
              rw [← Coins.amountAt_plus]
              exact hsum.amountAt_fits denom
            obtain ⟨s', hrun, hmoved⟩ := run_delegateCoins_sound hs hd hm hv hsafe ht hfit
            exact .inr (.inr ⟨s', hrun, by rwa [hd, hm, hv] at hnot, hmoved⟩)
      · rw [hneg] at hsafe
        exact .inl ⟨_, run_delegateCoins_insufficient hd hm hv hsafe, .inr (.inr (.inr (hlt_iff.mp (hcoins ▸ hneg))))⟩

/-- `DelegateCoins` on a sound store, of an amount whose coins fit in 255 bits: it fails exactly
when an account is missing, the amount is not valid or the delegator's coins do not cover it, and
then before any write; it panics only where tracking the delegation on the delegator's account
does, or where the module account's coins and the amount do not fit together; and otherwise it
moves the amount from the delegator to the module account. -/
theorem delegateCoins_spec (hs : s.Sound) (hamt : ∀ c ∈ amt, c.Fits) :
    Outcome (delegateCoins accAddressString blockTime delegatorAddr moduleAccAddr amt) s
      (s.getAccount delegatorAddr = none ∨ s.getAccount moduleAccAddr = none ∨ amt.isValid = false ∨
        ∃ denom, Coins.amountAt (s.coinsOf delegatorAddr) denom < Coins.amountAt amt denom)
      (fun s' => Moved s s' delegatorAddr moduleAccAddr amt)
      (DelegatePanics s blockTime delegatorAddr moduleAccAddr amt) := by
  rcases run_delegateCoins_cases hs with ⟨e, hrun, hfails⟩ | ⟨p, hrun, hp | ⟨acc, hd, hv, hsafe⟩⟩ |
    ⟨s', hrun, hnot, hmoved⟩
  · exact .of_error hrun hfails
  · exact .of_panic hrun hp
  · -- an amount whose coins fit does not make `SafeSub` panic
    have hsound : Coins.Sound acc.getCoins := by
      simpa [AccountStore.coinsOf, hd] using hs.coinsOf delegatorAddr
    rw [hsound.safeSub_eq_of_valid ((Coins.isValid_iff amt).mp hv) hamt] at hsafe
    cases hsafe
  · exact .of_ok hrun hnot hmoved

theorem delegateCoins_spec_module :
    ((AccountStore.single (.base { address := [1], accountNumber := 0, sequence := 0, coins := [⟨"foo", 10⟩] }) 2).setAccount
        (.module ⟨⟨[2], 1, 0, []⟩, "bonded_tokens_pool", ["staking"]⟩)).Sound ∧
      ∃ s', (delegateCoins (fun _ => "") 0 [1] [2] [⟨"foo", 3⟩]).run.run
          ((AccountStore.single (.base { address := [1], accountNumber := 0, sequence := 0, coins := [⟨"foo", 10⟩] }) 2).setAccount
            (.module ⟨⟨[2], 1, 0, []⟩, "bonded_tokens_pool", ["staking"]⟩)) = .ok (.ok (), s') ∧
        Coins.amountAt (s'.coinsOf [1]) "foo" = 7 ∧ Coins.amountAt (s'.coinsOf [2]) "foo" = 3 ∧ s'.totalAt "foo" = 10 := by
  have hs : ((AccountStore.single (.base { address := [1], accountNumber := 0, sequence := 0, coins := [⟨"foo", 10⟩] }) 2).setAccount
      (.module ⟨⟨[2], 1, 0, []⟩, "bonded_tokens_pool", ["staking"]⟩)).Sound :=
    AccountStore.Sound.setAccount
      (AccountStore.sound_single ⟨(Coins.isValid_iff _).mp (by decide), by decide, by decide⟩) Coins.sound_nil
  obtain ⟨s', hrun, -⟩ : ∃ s', (delegateCoins (fun _ => "") 0 [1] [2] [⟨"foo", 3⟩]).run.run _ = .ok (.ok (), s') ∧
      Moved _ s' [1] [2] [⟨"foo", 3⟩] :=
    run_delegateCoins_sound hs rfl rfl (by decide)
      (show Coins.safeSub [⟨"foo", 10⟩] [⟨"foo", 3⟩] = .ok ([⟨"foo", 7⟩], false) by decide) rfl fun denom => by
        rw [AccountStore.coinsOf_setAccount, if_neg, AccountStore.coinsOf_setAccount, if_pos]
        · simp only [Account.getCoins, Coins.amountAt_cons, Coins.amountAt_nil]
          split_ifs <;> decide
        · rfl
        · decide
  have hmoved := (delegateCoins_spec hs (by decide)).done s' hrun
  refine ⟨hs, s', hrun, ?_, ?_, ?_⟩
  · rw [hmoved.amounts]
    decide
  · rw [hmoved.amounts]
    decide
  · rw [hmoved.total]
    decide

end Delegate

/-! ## `UndelegateCoins` -/

section Undelegate

variable {accAddressString : Address → String} {delegatorAddr moduleAccAddr : Address} {macc : Account}

theorem run_undelegateCoins_unknown (hd : s.getAccount delegatorAddr = none) :
    (undelegateCoins accAddressString moduleAccAddr delegatorAddr amt).run.run s =
      .ok (.error (errUnknownAddress ("account " ++ accAddressString delegatorAddr ++ " does not exist")), s) := by
  simp [undelegateCoins, hd]

theorem run_undelegateCoins_unknown_module (hd : s.getAccount delegatorAddr = some acc)
    (hm : s.getAccount moduleAccAddr = none) :
    (undelegateCoins accAddressString moduleAccAddr delegatorAddr amt).run.run s =
      .ok (.error (errUnknownAddress ("module account " ++ accAddressString moduleAccAddr ++ " does not exist")), s) := by
  simp [undelegateCoins, hd, hm]

theorem run_undelegateCoins_invalid (hd : s.getAccount delegatorAddr = some acc)
    (hm : s.getAccount moduleAccAddr = some macc) (hv : amt.isValid = false) :
    (undelegateCoins accAddressString moduleAccAddr delegatorAddr amt).run.run s =
      .ok (.error (errInvalidCoins amt.toString), s) := by
  simp [undelegateCoins, hd, hm, hv]

theorem run_undelegateCoins_insufficient {newCoins : Coins} (hd : s.getAccount delegatorAddr = some acc)
    (hm : s.getAccount moduleAccAddr = some macc) (hv : amt.isValid = true)
    (hsafe : macc.getCoins.safeSub amt = .ok (newCoins, true)) :
    (undelegateCoins accAddressString moduleAccAddr delegatorAddr amt).run.run s =
      .ok (.error (errInsufficientCoins
        ("insufficient account funds; " ++ macc.getCoins.toString ++ " < " ++ amt.toString)), s) := by
  simp [undelegateCoins, hd, hm, hv, hsafe]

/-- Once the checks pass, the module account's coins are written, then the delegator's account
as it was read before that write, with the amount tracked. -/
theorem run_undelegateCoins_track {newCoins : Coins} (hd : s.getAccount delegatorAddr = some acc)
    (hm : s.getAccount moduleAccAddr = some macc) (hv : amt.isValid = true)
    (hsafe : macc.getCoins.safeSub amt = .ok (newCoins, false)) (hnc : newCoins.isValid = true) :
    (undelegateCoins accAddressString moduleAccAddr delegatorAddr amt).run.run s =
      (do setAccount (← liftPanic (trackUndelegation acc amt)) : Keeper Unit).run.run (s.setCoins moduleAccAddr newCoins) := by
  simp [undelegateCoins, hd, hm, hv, hsafe, run_setCoins hnc]

theorem run_undelegateCoins_safeSub_panic {p : Panic} (hd : s.getAccount delegatorAddr = some acc)
    (hm : s.getAccount moduleAccAddr = some macc) (hv : amt.isValid = true) (hsafe : macc.getCoins.safeSub amt = .error p) :
    (undelegateCoins accAddressString moduleAccAddr delegatorAddr amt).run.run s = .error p := by
  simp [undelegateCoins, hd, hm, hv, hsafe]

theorem run_undelegateCoins_panic {p : Panic} {newCoins : Coins} (hs : s.Sound) (hd : s.getAccount delegatorAddr = some acc)
    (hm : s.getAccount moduleAccAddr = some macc) (hv : amt.isValid = true)
    (hsafe : macc.getCoins.safeSub amt = .ok (newCoins, false)) (ht : trackUndelegation acc amt = .error p) :
    (undelegateCoins accAddressString moduleAccAddr delegatorAddr amt).run.run s = .error p := by
  have hmcoins : s.coinsOf moduleAccAddr = macc.getCoins := by simp [AccountStore.coinsOf, hm]
  obtain ⟨-, -, -, hnc⟩ := sound_of_safeSub (hmcoins ▸ hs.coinsOf moduleAccAddr) hv hsafe
  rw [run_undelegateCoins_track hd hm hv hsafe ((Coins.isValid_iff _).mpr hnc.valid)]
  simp [ht]

/-- An `UndelegateCoins` whose checks pass and whose tracking does not panic takes the amount
from the module account and adds it to the delegator's coins as they were read: the two writes
move the amount between two accounts, and the second overwrites the first for one account. -/
theorem run_undelegateCoins_sound {newCoins : Coins} (hs : s.Sound) (hd : s.getAccount delegatorAddr = some acc)
    (hm : s.getAccount moduleAccAddr = some macc) (hv : amt.isValid = true)
    (hsafe : macc.getCoins.safeSub amt = .ok (newCoins, false)) (ht : trackUndelegation acc amt = .ok acc') :
    ∃ s', (undelegateCoins accAddressString moduleAccAddr delegatorAddr amt).run.run s = .ok (.ok (), s') ∧
      s'.Sound ∧ (s'.getAccount delegatorAddr).isSome ∧
      (∀ addr denom, Coins.amountAt (s'.coinsOf addr) denom =
        if addr = delegatorAddr then Coins.amountAt (s.coinsOf delegatorAddr) denom + Coins.amountAt amt denom
        else Coins.amountAt (s.coinsOf addr) denom - if addr = moduleAccAddr then Coins.amountAt amt denom else 0) ∧
      ∀ denom, s'.totalAt denom = s.totalAt denom + if delegatorAddr = moduleAccAddr then Coins.amountAt amt denom else 0 := by
  have hcoins : s.coinsOf delegatorAddr = acc.getCoins := by simp [AccountStore.coinsOf, hd]
  have hmcoins : s.coinsOf moduleAccAddr = macc.getCoins := by simp [AccountStore.coinsOf, hm]
  have haddr : acc.getAddress = delegatorAddr := AccountStore.getAddress_of_getAccount hd
  obtain ⟨-, hamt, rfl, hnc⟩ := sound_of_safeSub (hmcoins ▸ hs.coinsOf moduleAccAddr) hv hsafe
  obtain ⟨haddr', hsound', hamt'⟩ := trackUndelegation_getCoins (hcoins ▸ hs.coinsOf delegatorAddr) hamt ht
  have hs₁ : (s.setCoins moduleAccAddr (macc.getCoins.plus (Coins.negative amt))).Sound := hs.setCoins hnc
  refine ⟨(s.setCoins moduleAccAddr (macc.getCoins.plus (Coins.negative amt))).setAccount acc', ?_,
    hs₁.setAccount hsound', ?_, fun addr denom => ?_, fun denom => ?_⟩
  · rw [run_undelegateCoins_track hd hm hv hsafe ((Coins.isValid_iff _).mpr hnc.valid)]
    simp [ht]
  · rw [AccountStore.getAccount_setAccount, haddr']
    simp [haddr]
  · -- the delegator's account is written last, from what was read before the first write
    rw [AccountStore.coinsOf_setAccount, haddr', haddr]
    by_cases hdel : addr = delegatorAddr
    · rw [if_pos hdel, if_pos hdel, hamt', hcoins]
    · rw [if_neg hdel, if_neg hdel, AccountStore.coinsOf_setCoins]
      by_cases hmod : addr = moduleAccAddr
      · rw [if_pos hmod, if_pos hmod, Coins.amountAt_plus_negative, hmod, hmcoins]
      · rw [if_neg hmod, if_neg hmod, Int.sub_zero]
  · have hsame : delegatorAddr = moduleAccAddr → acc.getCoins = macc.getCoins := fun hself => by
      rw [← hcoins, ← hmcoins, hself]
    rw [AccountStore.totalAt_setAccount, AccountStore.totalAt_setCoins, haddr', haddr, hamt', AccountStore.coinsOf_setCoins,
      hmcoins, hcoins, Coins.amountAt_plus_negative]
    by_cases hself : delegatorAddr = moduleAccAddr
    · rw [if_pos hself, if_pos hself, Coins.amountAt_plus_negative, hsame hself]
      omega
    · rw [if_neg hself, if_neg hself]
      omega

/-- What `UndelegateCoins` returns on a sound store: an error before any write where an account is
missing, the amount is not valid or the module account's coins do not cover it; a panic of
tracking the undelegation, or of `SafeSub` on the module account's coins; or the two writes of
`run_undelegateCoins_sound`. -/
theorem run_undelegateCoins_cases (hs : s.Sound) :
    (∃ e, (undelegateCoins accAddressString moduleAccAddr delegatorAddr amt).run.run s = .ok (.error e, s) ∧
      (s.getAccount delegatorAddr = none ∨ s.getAccount moduleAccAddr = none ∨ amt.isValid = false ∨
        ∃ denom, Coins.amountAt (s.coinsOf moduleAccAddr) denom < Coins.amountAt amt denom)) ∨
    (∃ p, (undelegateCoins accAddressString moduleAccAddr delegatorAddr amt).run.run s = .error p ∧
      ((∃ acc, s.getAccount delegatorAddr = some acc ∧ trackUndelegation acc amt = .error p) ∨
        ∃ macc, s.getAccount moduleAccAddr = some macc ∧ amt.isValid = true ∧ macc.getCoins.safeSub amt = .error p)) ∨
    (∃ s', (undelegateCoins accAddressString moduleAccAddr delegatorAddr amt).run.run s = .ok (.ok (), s') ∧
      ¬(s.getAccount delegatorAddr = none ∨ s.getAccount moduleAccAddr = none ∨ amt.isValid = false ∨
        ∃ denom, Coins.amountAt (s.coinsOf moduleAccAddr) denom < Coins.amountAt amt denom) ∧
      s'.Sound ∧ (s'.getAccount delegatorAddr).isSome ∧
      (∀ addr denom, Coins.amountAt (s'.coinsOf addr) denom =
        if addr = delegatorAddr then Coins.amountAt (s.coinsOf delegatorAddr) denom + Coins.amountAt amt denom
        else Coins.amountAt (s.coinsOf addr) denom - if addr = moduleAccAddr then Coins.amountAt amt denom else 0) ∧
      ∀ denom, s'.totalAt denom = s.totalAt denom + if delegatorAddr = moduleAccAddr then Coins.amountAt amt denom else 0) := by
  cases hd : s.getAccount delegatorAddr with
  | none => exact .inl ⟨_, run_undelegateCoins_unknown hd, .inl rfl⟩
  | some acc =>
    cases hm : s.getAccount moduleAccAddr with
    | none => exact .inl ⟨_, run_undelegateCoins_unknown_module hd hm, .inr (.inl rfl)⟩
    | some macc =>
      have hmcoins : s.coinsOf moduleAccAddr = macc.getCoins := by simp [AccountStore.coinsOf, hm]
      have hmsound : Coins.Sound macc.getCoins := hmcoins ▸ hs.coinsOf moduleAccAddr
      cases hv : amt.isValid
      · exact .inl ⟨_, run_undelegateCoins_invalid hd hm hv, .inr (.inr (.inl rfl))⟩
      have hvalid := (Coins.isValid_iff amt).mp hv
      have hlt_iff := Coins.isAnyNegative_plus_negative_iff hmsound.valid.sorted hvalid.sorted
      rw [← hmcoins] at hlt_iff
      cases hsafe : macc.getCoins.safeSub amt with
      | error p => exact .inr (.inl ⟨p, run_undelegateCoins_safeSub_panic hd hm hv hsafe, .inr ⟨macc, rfl, rfl, hsafe⟩⟩)
      | ok res =>
      obtain ⟨newCoins, hasNeg⟩ := res
      obtain ⟨rfl, rfl⟩ := Coins.safeSub_eq_ok hsafe
      cases hneg : Coins.isAnyNegative (macc.getCoins.plus (Coins.negative amt))
      · -- the module account covers the amount: only the tracking is left
        rw [hneg] at hsafe
        cases ht : trackUndelegation acc amt with
        | error p => exact .inr (.inl ⟨p, run_undelegateCoins_panic hs hd hm hv hsafe ht, .inl ⟨acc, rfl, ht⟩⟩)
        | ok acc' =>
          obtain ⟨s', hrun, hwrites⟩ := run_undelegateCoins_sound hs hd hm hv hsafe ht
          refine .inr (.inr ⟨s', hrun, ?_, hwrites⟩)
          rintro (h | h | h | hlt)
          · cases h
          · cases h
          · cases h
          · rw [← hlt_iff, hmcoins, hneg] at hlt
            cases hlt
      · rw [hneg] at hsafe
        exact .inl ⟨_, run_undelegateCoins_insufficient hd hm hv hsafe,
          .inr (.inr (.inr (hlt_iff.mp (hmcoins ▸ hneg))))⟩

/-- `UndelegateCoins` on a sound store, of an amount whose coins fit in 255 bits: it fails
exactly when an account is missing, the amount is not valid or the module account's coins do not
cover it, and then before any write; it panics only where tracking the undelegation on the
delegator's account does; and otherwise it moves the amount from the module account to a
delegator that is another account, while an account undelegating to itself ends with the amount
more, and so does the total. -/
theorem undelegateCoins_spec (hs : s.Sound) (hamt : ∀ c ∈ amt, c.Fits) :
    Outcome (undelegateCoins accAddressString moduleAccAddr delegatorAddr amt) s
      (s.getAccount delegatorAddr = none ∨ s.getAccount moduleAccAddr = none ∨ amt.isValid = false ∨
        ∃ denom, Coins.amountAt (s.coinsOf moduleAccAddr) denom < Coins.amountAt amt denom)
      (fun s' => (delegatorAddr ≠ moduleAccAddr → Moved s s' moduleAccAddr delegatorAddr amt) ∧
        (delegatorAddr = moduleAccAddr → s'.Sound ∧
          (∀ addr denom, Coins.amountAt (s'.coinsOf addr) denom =
            Coins.amountAt (s.coinsOf addr) denom + if addr = delegatorAddr then Coins.amountAt amt denom else 0) ∧
          ∀ denom, s'.totalAt denom = s.totalAt denom + Coins.amountAt amt denom))
      (fun p => ∃ acc, s.getAccount delegatorAddr = some acc ∧ trackUndelegation acc amt = .error p) := by
  rcases run_undelegateCoins_cases hs with ⟨e, hrun, hfails⟩ | ⟨p, hrun, hp | ⟨macc, hm, hv, hsafe⟩⟩ |
    ⟨s', hrun, hnot, hs', hrecipient, hamounts, htotal⟩
  · exact .of_error hrun hfails
  · exact .of_panic hrun hp
  · -- an amount whose coins fit does not make `SafeSub` panic
    have hmsound : Coins.Sound macc.getCoins := by
      simpa [AccountStore.coinsOf, hm] using hs.coinsOf moduleAccAddr
    rw [hmsound.safeSub_eq_of_valid ((Coins.isValid_iff amt).mp hv) hamt] at hsafe
    cases hsafe
  refine .of_ok hrun hnot ⟨fun hne => ?_, fun hself => ⟨hs', fun addr denom => ?_, fun denom => ?_⟩⟩
  · -- between two accounts the amount moves
    refine Moved.of_amounts hs hs' hrecipient (fun addr denom => ?_) (fun denom => ?_)
    · rw [hamounts]
      by_cases hdel : addr = delegatorAddr
      · rw [if_pos hdel, if_pos hdel, if_neg (hdel ▸ hne), hdel]
        omega
      · rw [if_neg hdel, if_neg hdel]
        omega
    · rw [htotal, if_neg hne, Int.add_zero]
  · -- an account undelegating to itself keeps what it tracked, not what was taken from it
    rw [hamounts]
    by_cases hdel : addr = delegatorAddr
    · rw [if_pos hdel, if_pos hdel, hdel]
    · rw [if_neg hdel, if_neg hdel, if_neg (hself ▸ hdel), Int.sub_zero, Int.add_zero]
  · rw [htotal, if_pos hself]

/-- An account undelegating to itself: `10foo` and `3foo` undelegated leave `13foo`, and the
total grows by `3foo`. -/
theorem undelegateCoins_spec_self :
    (AccountStore.single (.base { address := [1], accountNumber := 0, sequence := 0, coins := [⟨"foo", 10⟩] }) 1).Sound ∧
      ∃ s', (undelegateCoins (fun _ => "") [1] [1] [⟨"foo", 3⟩]).run.run
          (AccountStore.single (.base { address := [1], accountNumber := 0, sequence := 0, coins := [⟨"foo", 10⟩] }) 1) =
            .ok (.ok (), s') ∧
        Coins.amountAt (s'.coinsOf [1]) "foo" = 13 ∧ s'.totalAt "foo" = 13 := by
  have hs : (AccountStore.single
      (.base { address := [1], accountNumber := 0, sequence := 0, coins := [⟨"foo", 10⟩] }) 1).Sound :=
    AccountStore.sound_single ⟨(Coins.isValid_iff _).mp (by decide), by decide, by decide⟩
  obtain ⟨s', hrun, -⟩ : ∃ s', (undelegateCoins (fun _ => "") [1] [1] [⟨"foo", 3⟩]).run.run _ = .ok (.ok (), s') ∧ _ :=
    run_undelegateCoins_sound hs rfl rfl (by decide)
      (show Coins.safeSub [⟨"foo", 10⟩] [⟨"foo", 3⟩] = .ok ([⟨"foo", 7⟩], false) by decide) rfl
  obtain ⟨-, hamounts, htotal⟩ := ((undelegateCoins_spec hs (by decide)).done s' hrun).2 rfl
  refine ⟨hs, s', hrun, ?_, ?_⟩
  · rw [hamounts]
    decide
  · rw [htotal]
    decide

end Undelegate

end Friday.Bank
