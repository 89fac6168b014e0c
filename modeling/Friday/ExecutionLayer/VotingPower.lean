import Friday.ExecutionLayer.ABCI
import Friday.ExecutionLayer.HashMap
import Friday.Lib.Decimal

/-! # Voting power in `EndBlocker`

After the block's state is stepped, `EndBlocker` reads the stakes the proof-of-stake
contract reports, by hex operator address, and walks the stored validators: a
validator whose stored stake differs from the reported one (a missing one counts as
`""`) gets a `ValidatorUpdate` and is stored again with the new stake. The power is
computed on the decimal string, by cutting its last `DECIMAL_POINT_POS` characters
and parsing the rest; on decimal digits this is the stake's value divided by
`10 ^ 18`, rounded down (`parseInt64_powerOf`).
-/

namespace Friday.ExecutionLayer

open Friday.Types App Store SortedKV

/-- A stake as the contract reports it: decimal digits, whose power fits in an `int64`. -/
def StakeString (stake : String) : Prop :=
  (∀ c ∈ stake.toList, c.isDigit) ∧ Decimal.value stake.toList / 10 ^ decimalPointPos < 2 ^ 63

/-- The power of a stake: its value in units of `10 ^ DECIMAL_POINT_POS`, rounded down. -/
def votingPower (stake : String) : Int := (Decimal.value stake.toList / 10 ^ decimalPointPos : Nat)

variable (nextStakeInfos : List (String × String))

/-- The stake the contract reports for a validator; absence counts as `""`. -/
def reportedStake (v : Validator) : String :=
  (nextStakeInfos.lookup (Hex.encodeToString v.operatorAddress)).getD ""

/-- What the loop is for: one update for each validator whose stake changed, with
    the power of its new stake, and none for the others. -/
def stakeUpdates (validators : List Validator) : List ValidatorUpdate :=
  validators.filterMap fun v =>
    if v.stake = reportedStake nextStakeInfos v then none
    else some { pubKey := v.consPubKey, power := votingPower (reportedStake nextStakeInfos v) }

/-- The contents with the reported stake for the validators at `addrs`. -/
def Contents.restake (addrs : List Address) (c : Contents) : Contents :=
  { c with validators := fun a =>
      if a ∈ addrs then (c.validators a).map fun v => { v with stake := reportedStake nextStakeInfos v }
      else c.validators a }

section Power

/-- `strconv.ParseInt(s, 10, 64)` reads a non-empty string of decimal digits whose value fits
    in an `int64` as that value. -/
theorem parseInt64_decimal {s : String} (hs : s ≠ "") (hdigits : ∀ c ∈ s.toList, c.isDigit)
    (hlt : Decimal.value s.toList < 2 ^ 63) : Strconv.parseInt64 s = .ok (Decimal.value s.toList) := by
  have hne : s.toList ≠ [] := fun h => hs (String.toList_eq_nil_iff.mp h)
  rw [← Decimal.ofDigitChars_eq_value] at hlt ⊢
  exact Strconv.parseInt64_digits hne hdigits hlt

theorem parseInt64_zero : Strconv.parseInt64 "0" = .ok 0 :=
  parseInt64_decimal (by decide) (List.all_eq_true.mp (by decide)) (by decide)

/-- Cutting the last 18 characters and parsing the rest gives the stake's power. -/
theorem parseInt64_powerOf {stake : String} (hs : StakeString stake) :
    Strconv.parseInt64 (powerOf stake) = .ok (votingPower stake) := by
  obtain ⟨hdigits, hbound⟩ := hs
  unfold powerOf votingPower
  split_ifs with hlen
  · -- at most 18 digits: the value is below `10 ^ 18`
    have hlt : Decimal.value stake.toList < 10 ^ decimalPointPos :=
      Nat.lt_of_lt_of_le (Decimal.value_lt hdigits)
        (Nat.pow_le_pow_right (by omega) (by rw [String.length_toList]; exact hlen))
    rw [parseInt64_zero, Nat.div_eq_of_lt hlt]
    rfl
  · have htake : (stake.take (stake.length - decimalPointPos)).toString.toList =
        stake.toList.take (stake.toList.length - decimalPointPos) := by
      rw [← String.length_toList]
      exact String.toList_copy_take
    have hvalue := Decimal.value_take hdigits decimalPointPos
    rw [parseInt64_decimal _ _ (by rw [htake, hvalue]; exact hbound), htake, hvalue]
    · intro hempty
      have hnil := congrArg String.toList hempty
      rw [htake, String.toList_empty, List.take_eq_nil_iff] at hnil
      rw [← String.length_toList] at hlen
      rcases hnil with h | h
      · omega
      · rw [h, List.length_nil] at hlen
        omega
    · rw [htake]
      exact fun c hc => hdigits c (List.mem_of_mem_take hc)

/-- What the loop makes of one validator: nothing when the stake is unchanged, and
    otherwise the power text and the validator with the reported stake. -/
theorem nextStake_eq (v : Validator) :
    nextStake nextStakeInfos v =
      if v.stake = reportedStake nextStakeInfos v then none
      else some ((nextStakeInfos.lookup (Hex.encodeToString v.operatorAddress)).getD "0",
        { v with stake := reportedStake nextStakeInfos v }) := by
  unfold nextStake reportedStake
  cases nextStakeInfos.lookup (Hex.encodeToString v.operatorAddress) with
  | some stake => rfl
  | none =>
    by_cases hempty : v.stake = ""
    · simp [hempty]
    · simp [hempty]

variable {nextStakeInfos}

theorem parseInt64_reported (hstakes : ∀ key stake, (key, stake) ∈ nextStakeInfos → StakeString stake)
    (v : Validator) :
    Strconv.parseInt64 (powerOf ((nextStakeInfos.lookup (Hex.encodeToString v.operatorAddress)).getD "0")) =
      .ok (votingPower (reportedStake nextStakeInfos v)) := by
  unfold reportedStake
  cases hlookup : nextStakeInfos.lookup (Hex.encodeToString v.operatorAddress) with
  | some stake => exact parseInt64_powerOf (hstakes _ _ (mem_of_lookup_eq_some hlookup))
  | none =>
    -- an absent stake reports the power of `"0"`, which is that of `""`
    rw [Option.getD_none, Option.getD_none]
    exact parseInt64_zero

end Power

section Loop

variable {env : Env} {nextStakeInfos}

@[simp] theorem Contents.restake_nil (c : Contents) : c.restake nextStakeInfos [] = c := by
  simp [Contents.restake]

theorem Contents.restake_cons_of_eq {c : Contents} {v : Validator} {addrs : List Address}
    (hv : c.validators v.operatorAddress = some v) (hstake : v.stake = reportedStake nextStakeInfos v) :
    c.restake nextStakeInfos (v.operatorAddress :: addrs) = c.restake nextStakeInfos addrs := by
  simp only [Contents.restake, Contents.mk.injEq, true_and, and_true]
  funext a
  by_cases ha : a = v.operatorAddress
  · subst ha
    simp [hv, ← hstake]
  · simp [ha]

/-- Storing a changed validator with its reported stake and restaking the rest is
    restaking them all. -/
theorem Contents.restake_setValidator {c : Contents} {v : Validator} {addrs : List Address}
    (hv : c.validators v.operatorAddress = some v) (hnot : v.operatorAddress ∉ addrs) :
    ((Call.setValidator v.operatorAddress { v with stake := reportedStake nextStakeInfos v }).apply env
        c).restake nextStakeInfos addrs = c.restake nextStakeInfos (v.operatorAddress :: addrs) := by
  simp only [Contents.restake, Call.apply, Contents.mk.injEq, true_and, and_true]
  funext a
  by_cases ha : a = v.operatorAddress
  · subst ha
    simp [hv, hnot]
  · simp [ha]

variable {root : Root} {ctx : Context} (hroot : ctx.multiStore = .root root)
  (hstakes : ∀ key stake, (key, stake) ∈ nextStakeInfos → StakeString stake)
include hroot hstakes

/-- The loop over validators stored at their own addresses, each address once: it
    returns `stakeUpdates` and leaves each of them stored with its reported stake. -/
theorem runOn_updateValidators :
    ∀ (validators : List Validator) (c : Contents) (w : World),
      Represents c.read (w.stores root .contractHashmap) →
      (∀ v ∈ validators, c.validators v.operatorAddress = some v) →
      (validators.map (·.operatorAddress)).Nodup →
      ∃ w', runOn w (updateValidators ctx nextStakeInfos validators) =
          some (.ok (stakeUpdates nextStakeInfos validators), w') ∧
        Represents (c.restake nextStakeInfos (validators.map (·.operatorAddress))).read
          (w'.stores root .contractHashmap)
  | [], c, w, hc, _, _ => ⟨w, rfl, by rw [List.map_nil, Contents.restake_nil]; exact hc⟩
  | v :: validators, c, w, hc, hstored, hnodup => by
    have hv := hstored v List.mem_cons_self
    have hrest : ∀ u ∈ validators, c.validators u.operatorAddress = some u :=
      fun u hu => hstored u (List.mem_cons_of_mem v hu)
    rw [List.map_cons, List.nodup_cons] at hnodup
    obtain ⟨hnot, hnodup⟩ := hnodup
    by_cases hstake : v.stake = reportedStake nextStakeInfos v
    · -- unchanged: the loop goes on from the same state
      obtain ⟨w', hrun, hw'⟩ := runOn_updateValidators validators c w hc hrest hnodup
      refine ⟨w', ?_, ?_⟩
      · simp only [updateValidators, nextStake_eq, hstake, if_true, hrun, stakeUpdates, List.filterMap_cons]
      · rw [List.map_cons, Contents.restake_cons_of_eq hv hstake]
        exact hw'
    · -- changed: the validator is stored with the new stake, then the loop goes on
      have hset : runOn w (setValidator ctx v.operatorAddress { v with stake := reportedStake nextStakeInfos v }) =
          some (.ok (), w.set (.root root) .contractHashmap (getValidatorKey v.operatorAddress)
            (.validator { v with stake := reportedStake nextStakeInfos v })) :=
        runOn_kvSet hroot _ _ _
      -- storing a validator reads no function of the environment: any one relates the run to
      -- the contents it writes
      have hcall : runOn w ((Call.setValidator v.operatorAddress
          { v with stake := reportedStake nextStakeInfos v }).run sampleEnv ctx) = _ := hset
      have hc₁ := represents_run sampleEnv hroot hcall hc
      have hrest₁ : ∀ u ∈ validators, ((Call.setValidator v.operatorAddress
          { v with stake := reportedStake nextStakeInfos v }).apply sampleEnv c).validators
          u.operatorAddress = some u := by
        intro u hu
        have hne : u.operatorAddress ≠ v.operatorAddress := fun h => hnot (h ▸ List.mem_map_of_mem hu)
        simp [Call.apply, hne, hrest u hu]
      obtain ⟨w', hrun, hw'⟩ := runOn_updateValidators validators _ _ hc₁ hrest₁ hnodup
      refine ⟨w', ?_, ?_⟩
      · simp only [updateValidators, nextStake_eq, hstake, if_false, parseInt64_reported hstakes v,
          runOn_bind, hset, Option.bind_some, hrun, runOn_pure, stakeUpdates, List.filterMap_cons]
      · rw [List.map_cons, ← Contents.restake_setValidator hv hnot]
        exact hw'

end Loop

/-- The voting power step of `EndBlocker`, on the stored validators and a non-empty
    stake map: one update for each validator whose stake changed, with the power of
    its new stake, none for the others, and afterwards every validator stored with
    its reported stake. -/
theorem endBlocker_voting_power {ctx : Context} {w : World} {c : Contents}
    {nextStakeInfos : List (String × String)}
    (hroot : ctx.multiStore = .root ctx.root) (hc : Represents c.read (w.stores ctx.root .contractHashmap))
    (hkeyed : ∀ a v, c.validators a = some v → v.operatorAddress = a)
    (hne : nextStakeInfos ≠ [])
    (hstakes : ∀ key stake, (key, stake) ∈ nextStakeInfos → StakeString stake) :
    ∃ l w', Lists compare c.validators (fun _ => True) l ∧
      runOn w (getAllValidators ctx.root >>= fun validators =>
          if nextStakeInfos.length > 0 then updateValidators ctx nextStakeInfos validators else pure []) =
        some (.ok (stakeUpdates nextStakeInfos (l.map Prod.snd)), w') ∧
      Represents { c with validators := fun a =>
          (c.validators a).map fun v : Validator => { v with stake := reportedStake nextStakeInfos v } }.read
        (w'.stores ctx.root .contractHashmap) := by
  obtain ⟨l, hl, hall⟩ := runOn_getAllValidators hc
  have hstored : ∀ v ∈ l.map Prod.snd, c.validators v.operatorAddress = some v := by
    intro v hv
    obtain ⟨⟨a, v'⟩, hmem, rfl⟩ := List.mem_map.mp hv
    have ha := ((hl.2 a v').mp hmem).2
    rw [hkeyed a v' ha]
    exact ha
  have haddrs : (l.map Prod.snd).map (·.operatorAddress) = l.map Prod.fst := by
    rw [List.map_map]
    apply List.map_congr_left
    intro ⟨a, v⟩ hmem
    exact hkeyed a v ((hl.2 a v).mp hmem).2
  have hnodup : ((l.map Prod.snd).map (·.operatorAddress)).Nodup := by
    rw [haddrs]
    exact hl.1.nodup_keys
  obtain ⟨w', hloop, hw'⟩ := runOn_updateValidators hroot hstakes (l.map Prod.snd) c w hc hstored hnodup
  refine ⟨l, w', hl, ?_, ?_⟩
  · simp only [runOn_bind, hall, Option.bind_some, if_pos (List.length_pos_iff.mpr hne), hloop]
  · have hrestake : c.restake nextStakeInfos ((l.map Prod.snd).map (·.operatorAddress)) =
        { c with validators := fun a =>
          (c.validators a).map fun v : Validator => { v with stake := reportedStake nextStakeInfos v } } := by
      rw [haddrs]
      simp only [Contents.restake, Contents.mk.injEq, true_and, and_true]
      funext a
      by_cases ha : a ∈ l.map Prod.fst
      · simp [ha]
      · -- an address that is not listed holds no validator
        have hnone : c.validators a = none := by
          cases hv : c.validators a with
          | none => rfl
          | some v => exact absurd (List.mem_map.mpr ⟨(a, v), (hl.2 a v).mpr ⟨trivial, hv⟩, rfl⟩) ha
        simp [ha, hnone]
    rw [← hrestake]
    exact hw'

theorem endBlocker_voting_power_sample :
    let validator : Validator := { Validator.zero with operatorAddress := [1], stake := "5" }
    let ctx : Context := ⟨.root .deliver, .deliver, 1, 0, none⟩
    let c := Contents.ofCalls sampleEnv [.setValidator [1] validator]
    let nextStakeInfos := [("01", "2000000000000000000")]
    ∃ w, Runs sampleEnv ctx (World.init fun _ _ => ⟨[], by decide⟩) [.setValidator [1] validator] w ∧
      ∃ l w', Lists compare c.validators (fun _ => True) l ∧
        runOn w (getAllValidators ctx.root >>= fun validators =>
            if nextStakeInfos.length > 0 then updateValidators ctx nextStakeInfos validators
            else pure []) =
          some (.ok (stakeUpdates nextStakeInfos (l.map Prod.snd)), w') ∧
        Represents { c with validators := fun a =>
            (c.validators a).map fun v : Validator => { v with stake := reportedStake nextStakeInfos v } }.read
          (w'.stores ctx.root .contractHashmap) := by
  intro validator ctx c nextStakeInfos
  have hrun : Runs sampleEnv ctx (World.init fun _ _ => ⟨[], by decide⟩) [.setValidator [1] validator] _ :=
    .cons rfl (.nil _)
  have hc := hrun.represents sampleEnv rfl (Represents.empty rfl)
  have hkeyed : ∀ a v, c.validators a = some v → v.operatorAddress = a := by
    intro a v hv
    by_cases ha : a = [1]
    · subst ha
      simp only [c, Contents.ofCalls, List.foldl_cons, List.foldl_nil, Call.apply, Function.update_self,
        Option.some.injEq] at hv
      rw [← hv]
    · simp [c, Contents.ofCalls, Call.apply, Contents.empty, ha] at hv
  have hstakes : ∀ key stake, (key, stake) ∈ nextStakeInfos → StakeString stake := by
    intro key stake hmem
    rw [List.mem_singleton, Prod.mk.injEq] at hmem
    rw [hmem.2]
    exact ⟨List.all_eq_true.mp (by decide), by decide⟩
  exact ⟨_, hrun, endBlocker_voting_power rfl hc hkeyed (by decide) hstakes⟩

end Friday.ExecutionLayer
