import Friday.Lib.Ascii
import Friday.Types.Coin

/-! # Arithmetic of valid coin sets

`IsValid` asks of a set of coins that the denominations ascend strictly, that the amounts
are positive, that the first denomination matches `reDnm` and that no later one has an
upper case letter; `Valid` names the four facts and `isValid_iff` shows that they are what
`IsValid` computes. `ValidBy` and `isValidBy_iff` say the same of the check that `Coins`
and `DecCoins` share.

On valid sets `plus` is the sum of two finitely supported functions from denominations to
amounts. The sum is valid (`valid_plus`), `AmountOf` adds over it at every denomination
(`amountOf_plus`), and since a valid set is determined by its amounts, it is commutative
and associative there, with the empty set as identity. `Add` returns it when no
denomination's sum overflows (`add_eq_plus`).
-/

namespace Friday.Types

namespace Coins

/-- What `IsValid` checks of a set of coins. -/
structure Valid (coins : Coins) : Prop where
  sorted : Merge.Sorted Coin.denom coins
  pos : ∀ c ∈ coins, 0 < c.amount
  head : ∀ c ∈ coins.head?, isDenom c.denom = true
  lower : ∀ c ∈ coins, c.denom.toLower = c.denom

theorem isZero_eq_false_of_pos {c : Coin} (h : 0 < c.amount) : c.isZero = false := by
  simp only [Coin.isZero, beq_eq_false_iff_ne]
  omega

theorem isZero_plus_eq_false {c c' : Coin} (h : 0 < c.amount) (h' : 0 < c'.amount) : (c.plus c').isZero = false :=
  isZero_eq_false_of_pos (Int.add_pos h h')

theorem Valid.isZero_eq_false {coins : Coins} (h : Valid coins) : ∀ c ∈ coins, c.isZero = false :=
  fun c hc => isZero_eq_false_of_pos (h.pos c hc)

/-- A denomination that matches `reDnm` has no upper case letter. -/
theorem toLower_of_isDenom {denom : String} (h : isDenom denom = true) : denom.toLower = denom := by
  apply Ascii.toLower_eq_self
  unfold isDenom at h
  split at h
  · simp at h
  · rename_i c cs hcs
    simp only [Bool.and_eq_true, decide_eq_true_eq, List.all_eq_true] at h
    rw [hcs]
    intro x hx
    rcases List.mem_cons.mp hx with rfl | hx
    · simp [h.1.1.1]
    · exact h.2 x hx

/-- What `IsValid` checks of a list of coins of any kind, over their denomination and sign. -/
structure ValidBy {α : Type} (denom : α → String) (isPositive : α → Bool) (l : List α) : Prop where
  sorted : Merge.Sorted denom l
  pos : ∀ c ∈ l, isPositive c = true
  head : ∀ c ∈ l.head?, isDenom (denom c) = true
  lower : ∀ c ∈ l, (denom c).toLower = denom c

section ValidBy

variable {α : Type} {denom : α → String} {isPositive : α → Bool}

/-- The loop of `IsValid` over the coins after the first, from the denomination `low`. -/
theorem ascending_iff (low : String) (l : List α) :
    isValidBy.ascending denom isPositive low l = true ↔ (∀ c ∈ l, low < denom c) ∧ Merge.Sorted denom l ∧
      (∀ c ∈ l, isPositive c = true) ∧ ∀ c ∈ l, (denom c).toLower = denom c := by
  induction l generalizing low with
  | nil => simp [isValidBy.ascending, Merge.Sorted]
  | cons c l ih =>
    simp only [isValidBy.ascending, Bool.and_eq_true, beq_iff_eq, decide_eq_true_eq, ih, Merge.sorted_cons,
      List.forall_mem_cons]
    constructor
    · rintro ⟨⟨⟨hc, hlow⟩, hpos⟩, hbelow, hsorted, hposl, hlowerl⟩
      exact ⟨⟨hlow, fun x hx => lt_trans hlow (hbelow x hx)⟩, ⟨hbelow, hsorted⟩, ⟨hpos, hposl⟩, ⟨hc, hlowerl⟩⟩
    · rintro ⟨⟨hlow, -⟩, ⟨hbelow, hsorted⟩, ⟨hpos, hposl⟩, ⟨hc, hlowerl⟩⟩
      exact ⟨⟨⟨hc, hlow⟩, hpos⟩, hbelow, hsorted, hposl, hlowerl⟩

theorem isValidBy_cons (c : α) (l : List α) :
    isValidBy denom isPositive (c :: l) =
      (isDenom (denom c) && isPositive c && isValidBy.ascending denom isPositive (denom c) l) := by
  cases l <;> simp [isValidBy, isValidBy.ascending]

theorem isValidBy_iff (l : List α) : isValidBy denom isPositive l = true ↔ ValidBy denom isPositive l := by
  cases l with
  | nil => exact ⟨fun _ => ⟨List.Pairwise.nil, by simp, by simp, by simp⟩, fun _ => rfl⟩
  | cons c l =>
    rw [isValidBy_cons]
    simp only [Bool.and_eq_true, ascending_iff]
    constructor
    · rintro ⟨⟨hd, hpos⟩, hbelow, hsorted, hposl, hlowerl⟩
      exact ⟨Merge.sorted_cons.mpr ⟨hbelow, hsorted⟩, List.forall_mem_cons.mpr ⟨hpos, hposl⟩,
        fun x hx => Option.some.inj hx ▸ hd,
        List.forall_mem_cons.mpr ⟨toLower_of_isDenom hd, hlowerl⟩⟩
    · rintro ⟨hsorted, hpos, hhead, hlower⟩
      obtain ⟨hbelow, hsorted⟩ := Merge.sorted_cons.mp hsorted
      obtain ⟨hposc, hposl⟩ := List.forall_mem_cons.mp hpos
      exact ⟨⟨hhead c rfl, hposc⟩, hbelow, hsorted, hposl, (List.forall_mem_cons.mp hlower).2⟩

/-- Entries mapped to entries of the same denomination, some of them dropped, are valid when
every denomination matches `reDnm` and every entry kept is positive. -/
theorem validBy_filter_map {β : Type} {denom' : β → String} {isPositive' : β → Bool} (g : α → β) (p : β → Bool)
    (hkey : ∀ a, denom' (g a) = denom a) {l : List α} (hsorted : Merge.Sorted denom l)
    (hd : ∀ a ∈ l, isDenom (denom a) = true) (hpos : ∀ a ∈ l, p (g a) = true → isPositive' (g a) = true) :
    ValidBy denom' isPositive' ((l.map g).filter p) := by
  have hmem : ∀ b ∈ (l.map g).filter p, ∃ a ∈ l, b = g a ∧ p (g a) = true := by
    intro b hb
    obtain ⟨hb, hpb⟩ := List.mem_filter.mp hb
    obtain ⟨a, ha, rfl⟩ := List.mem_map.mp hb
    exact ⟨a, ha, rfl, hpb⟩
  have hdenom : ∀ b ∈ (l.map g).filter p, isDenom (denom' b) = true := by
    intro b hb
    obtain ⟨a, ha, rfl, -⟩ := hmem b hb
    rw [hkey]
    exact hd a ha
  refine ⟨?_, fun b hb => ?_, fun b hb => hdenom b (List.mem_of_mem_head? hb),
    fun b hb => toLower_of_isDenom (hdenom b hb)⟩
  · exact Merge.sorted_filter_map g p hkey hsorted
  · obtain ⟨a, ha, rfl, hpa⟩ := hmem b hb
    exact hpos a ha hpa

end ValidBy

theorem isValid_iff (coins : Coins) : isValid coins = true ↔ Valid coins := by
  rw [isValid_eq_isValidBy, isValidBy_iff]
  constructor
  · rintro ⟨hsorted, hpos, hhead, hlower⟩
    exact ⟨hsorted, fun c hc => by simpa [Coin.isPositive] using hpos c hc, hhead, hlower⟩
  · rintro ⟨hsorted, hpos, hhead, hlower⟩
    exact ⟨hsorted, fun c hc => by simpa [Coin.isPositive] using hpos c hc, hhead, hlower⟩

/-! ## Lookups on sorted sets -/

section Lookup

/-- `AmountOf` of a denomination that does not match `reDnm` panics, whatever the set. -/
theorem amountOf_of_not_isDenom {denom : String} (coins : Coins) (hd : isDenom denom = false) :
    amountOf coins denom = .error (.other ("invalid denom: " ++ denom)) := by
  rw [amountOf.eq_def]
  simp [mustValidateDenom, validateDenom, hd, bind, Except.bind]

/-- A sorted set whose amounts are `f` of the amounts of two others: so are its `AmountOf`,
and at a denomination that does not match `reDnm` all three panic alike. -/
theorem amountOf_of_amountAt {l l₁ l₂ : Coins} (f : Int → Int → Int) (h : Merge.Sorted Coin.denom l)
    (h₁ : Merge.Sorted Coin.denom l₁) (h₂ : Merge.Sorted Coin.denom l₂)
    (hamt : ∀ denom, amountAt l denom = f (amountAt l₁ denom) (amountAt l₂ denom)) (denom : String) :
    amountOf l denom = (do let x ← amountOf l₁ denom; let y ← amountOf l₂ denom; pure (f x y)) := by
  cases hd : isDenom denom
  · rw [amountOf_of_not_isDenom _ hd, amountOf_of_not_isDenom _ hd]
    rfl
  · rw [amountOf_eq_amountAt hd _ h, amountOf_eq_amountAt hd _ h₁, amountOf_eq_amountAt hd _ h₂, hamt]
    rfl

/-- `AmountOf` succeeds only on a denomination that matches `reDnm`, and there it is the amount. -/
theorem amountOf_eq_ok_iff {coins : Coins} {denom : String} {x : Int} (h : Merge.Sorted Coin.denom coins) :
    amountOf coins denom = .ok x ↔ isDenom denom = true ∧ amountAt coins denom = x := by
  cases hd : isDenom denom
  · simp [amountOf_of_not_isDenom _ hd]
  · simp [amountOf_eq_amountAt hd _ h]

theorem amountAt_of_mem {coins : Coins} {c : Coin} (h : Merge.Sorted Coin.denom coins) (hc : c ∈ coins) :
    amountAt coins c.denom = c.amount :=
  Merge.amountAt_of_mem h hc

theorem exists_mem_of_amountAt_ne_zero {coins : Coins} {denom : String} (h : amountAt coins denom ≠ 0) :
    ∃ c ∈ coins, c.denom = denom :=
  Merge.exists_mem_of_amountAt_ne_zero h

theorem amountAt_nonneg {coins : Coins} (h : ∀ c ∈ coins, 0 ≤ c.amount) (denom : String) : 0 ≤ amountAt coins denom := by
  induction coins with
  | nil => exact le_refl 0
  | cons c coins ih =>
    have hc := h c List.mem_cons_self
    have hrest := ih fun c' hc' => h c' (List.mem_cons_of_mem _ hc')
    rw [amountAt_cons]
    split <;> omega

/-- Sorted sets without zero coins that agree on every amount are equal. -/
theorem eq_of_amountAt_eq {l l' : Coins} (h : Merge.Sorted Coin.denom l) (h' : Merge.Sorted Coin.denom l')
    (hz : ∀ c ∈ l, c.isZero = false) (hz' : ∀ c ∈ l', c.isZero = false)
    (hamt : ∀ denom, amountAt l denom = amountAt l' denom) : l = l' :=
  Merge.eq_of_amountAt_eq (fun _ => amount_ne_zero) coin_ext h h' hz hz' hamt

theorem amountAt_perm {l l' : Coins} (h : l.Perm l') (denom : String) : amountAt l denom = amountAt l' denom :=
  (h.map _).sum_eq

/-- The loop of `IsEqual` finds two lists of one length equal only when they are. -/
theorem eq_of_isEqual_go : ∀ {l l' : Coins}, l.length = l'.length → isEqual.go l l' = .ok true → l = l'
  | [], [], _, _ => rfl
  | c :: l, c' :: l', hlen, h => by
    unfold isEqual.go at h
    by_cases hd : c.denom ≠ c'.denom
    · rw [if_pos hd] at h
      cases h
    rw [if_neg hd] at h
    by_cases ha : c.amount ≠ c'.amount
    · rw [if_pos ha] at h
      cases h
    rw [if_neg ha] at h
    have hc : c = c' := by
      cases c
      cases c'
      simp_all
    rw [hc, eq_of_isEqual_go (by simpa using hlen) h]

/-- Sets that `IsEqual` finds equal hold the same amount of every denomination. -/
theorem amountAt_of_isEqual {l l' : Coins} (h : isEqual l l' = .ok true) (denom : String) :
    amountAt l denom = amountAt l' denom := by
  unfold isEqual at h
  by_cases hlen : l.length ≠ l'.length
  · rw [if_pos hlen] at h
    cases h
  rw [if_neg hlen] at h
  have hsort := eq_of_isEqual_go (by simpa [sort, List.length_mergeSort] using hlen) h
  rw [amountAt_perm (List.mergeSort_perm l _).symm, amountAt_perm (List.mergeSort_perm l' _).symm]
  exact congrArg (amountAt · denom) hsort

theorem isEqual_go_self : ∀ l : Coins, isEqual.go l l = .ok true
  | [] => rfl
  | c :: l => by
    unfold isEqual.go
    rw [if_neg (not_not.mpr rfl), if_neg (not_not.mpr rfl)]
    exact isEqual_go_self l

theorem isEqual_self (l : Coins) : isEqual l l = .ok true := by
  unfold isEqual
  rw [if_neg (not_not.mpr rfl)]
  exact isEqual_go_self _

end Lookup

/-! ## Addition -/

section Add

variable {a b c : Coins}

theorem valid_plus (ha : Valid a) (hb : Valid b) : Valid (a.plus b) where
  sorted := Merge.sorted_merge lawful.key_plus ha.sorted hb.sorted
  pos := pos_of_mem_plus (fun c hc => (ha.pos c hc).le) (fun c hc => (hb.pos c hc).le)
  head := by
    intro c hc
    -- no first coin is zero, and nor is the sum of the two first coins
    have hsum : ∀ x ∈ a.head?, ∀ y ∈ b.head?, x.denom = y.denom → (x.plus y).isZero = false :=
      fun x hx y hy _ => isZero_plus_eq_false (ha.pos x (List.mem_of_mem_head? hx)) (hb.pos y (List.mem_of_mem_head? hy))
    rcases Merge.key_head_merge lawful.key_plus (fun x hx => ha.isZero_eq_false x (List.mem_of_mem_head? hx))
      (fun y hy => hb.isZero_eq_false y (List.mem_of_mem_head? hy)) hsum c hc with ⟨x, hx, hcx⟩ | ⟨y, hy, hcy⟩
    · rw [hcx]
      exact ha.head x hx
    · rw [hcy]
      exact hb.head y hy
  lower := by
    intro c hc
    rcases Merge.key_mem_of_mem_merge lawful.key_plus hc with h | h <;> obtain ⟨x, hx, hxc⟩ := List.mem_map.mp h
    · rw [← hxc]
      exact ha.lower x hx
    · rw [← hxc]
      exact hb.lower x hx

/-- `AmountOf` adds over the sum at every denomination; at one that does not match `reDnm`
all three panic alike. -/
theorem amountOf_plus (ha : Valid a) (hb : Valid b) (denom : String) :
    (a.plus b).amountOf denom = (do let x ← a.amountOf denom; let y ← b.amountOf denom; pure (x + y)) :=
  amountOf_of_amountAt (· + ·) (valid_plus ha hb).sorted ha.sorted hb.sorted (fun _ => amountAt_plus a b) denom

theorem plus_comm (ha : Valid a) (hb : Valid b) : a.plus b = b.plus a :=
  Merge.merge_comm lawful (fun _ => amount_ne_zero) coin_ext ha.sorted hb.sorted

theorem plus_assoc (ha : Valid a) (hb : Valid b) (hc : Valid c) : (a.plus b).plus c = a.plus (b.plus c) :=
  Merge.merge_assoc lawful (fun _ => amount_ne_zero) coin_ext ha.sorted hb.sorted hc.sorted

/-- Adding one coin above every denomination of a set without zero coins adds no two amounts,
so does not panic, and appends the coin. -/
theorem add_singleton_of_lt {coin : Coin} (h : ∀ c ∈ a, c.denom < coin.denom) (hz : ∀ c ∈ a, c.isZero = false) :
    a.add [coin] = .ok (a ++ (if coin.isZero then [] else [coin])) := by
  induction a with
  | nil => cases hc : coin.isZero <;> simp [add, safeAdd, removeZeroCoins, hc]
  | cons x a ih =>
    have hlt : compare x.denom coin.denom = .lt := compare_lt_iff_lt.mpr (h x List.mem_cons_self)
    have hrest := ih (fun c hc => h c (List.mem_cons_of_mem _ hc)) (fun c hc => hz c (List.mem_cons_of_mem _ hc))
    rw [add] at hrest ⊢
    rw [safeAdd, addFrom, hlt]
    simp [hz x List.mem_cons_self, hrest]

theorem sorted_plus (ha : Merge.Sorted Coin.denom a) (hb : Merge.Sorted Coin.denom b) :
    Merge.Sorted Coin.denom (a.plus b) :=
  Merge.sorted_merge lawful.key_plus ha hb

theorem amountAt_fits (ha : Merge.Sorted Coin.denom a) (hfa : ∀ c ∈ a, c.Fits) (denom : String) :
    (amountAt a denom).natAbs < 2 ^ maxBitLen := by
  by_cases hz : amountAt a denom = 0
  · rw [hz]
    exact Nat.two_pow_pos _
  · obtain ⟨c, hc, rfl⟩ := exists_mem_of_amountAt_ne_zero hz
    rw [amountAt_of_mem ha hc]
    exact hfa c hc

/-- Every coin of the sum of two sorted sets fits when the sum of every denomination does. -/
theorem fits_plus (ha : Merge.Sorted Coin.denom a) (hb : Merge.Sorted Coin.denom b)
    (hfit : ∀ denom, (amountAt a denom + amountAt b denom).natAbs < 2 ^ maxBitLen) : ∀ c ∈ a.plus b, c.Fits := by
  intro c hc
  have h := hfit c.denom
  rw [← amountAt_plus, amountAt_of_mem (sorted_plus ha hb) hc] at h
  exact h

/-- `Add` of two sorted sets returns their sum when no denomination's sum overflows. -/
theorem add_eq_plus (ha : Merge.Sorted Coin.denom a) (hb : Merge.Sorted Coin.denom b)
    (hfit : ∀ denom, (amountAt a denom + amountAt b denom).natAbs < 2 ^ maxBitLen) : a.add b = .ok (a.plus b) :=
  safeAdd_eq_plus (fits_plus ha hb hfit)

theorem add_eq_ok {s : Coins} (h : a.add b = .ok s) : s = a.plus b :=
  safeAdd_eq_ok h

theorem add_nil (ha : Valid a) : a.add [] = .ok a := by
  have hremove : ∀ l : Coins, l.add [] = .ok (removeZeroCoins l) := by
    intro l
    cases l <;> rfl
  rw [hremove]
  exact congrArg Except.ok (Merge.removeZero_eq_self ha.isZero_eq_false)

theorem nil_add (ha : Valid a) : add [] a = .ok a :=
  congrArg Except.ok (Merge.removeZero_eq_self ha.isZero_eq_false)

/-- Valid sets whose amounts, summed over all three, fit in 255 bits at every denomination:
`Add` does not panic, and is valid, additive in `AmountOf`, commutative and associative,
with the empty set as identity. -/
theorem add_valid_pointwise (a b c : Coins) (ha : isValid a = true) (hb : isValid b = true) (hc : isValid c = true)
    (hfit : ∀ denom, (amountAt a denom + amountAt b denom + amountAt c denom).natAbs < 2 ^ maxBitLen) :
    ∃ s, a.add b = .ok s ∧ isValid s = true ∧
      (∀ denom, s.amountOf denom = (do let x ← a.amountOf denom; let y ← b.amountOf denom; pure (x + y))) ∧
      a.add b = b.add a ∧ (a.add b >>= fun s => s.add c) = (b.add c >>= fun s => a.add s) ∧
      a.add [] = .ok a ∧ add [] a = .ok a := by
  rw [isValid_iff] at ha hb hc
  -- the amounts are not negative, so every partial sum is below the sum of all three
  have hna := amountAt_nonneg fun x hx => (ha.pos x hx).le
  have hnb := amountAt_nonneg fun x hx => (hb.pos x hx).le
  have hnc := amountAt_nonneg fun x hx => (hc.pos x hx).le
  have hab : ∀ d, (amountAt a d + amountAt b d).natAbs < 2 ^ maxBitLen := fun d => by
    have := hfit d; have := hna d; have := hnb d; have := hnc d; omega
  have hba : ∀ d, (amountAt b d + amountAt a d).natAbs < 2 ^ maxBitLen := fun d => by
    have := hab d; omega
  have hbc : ∀ d, (amountAt b d + amountAt c d).natAbs < 2 ^ maxBitLen := fun d => by
    have := hfit d; have := hna d; have := hnb d; have := hnc d; omega
  have hab_c : ∀ d, (amountAt (a.plus b) d + amountAt c d).natAbs < 2 ^ maxBitLen := fun d => by
    rw [amountAt_plus]
    exact hfit d
  have ha_bc : ∀ d, (amountAt a d + amountAt (b.plus c) d).natAbs < 2 ^ maxBitLen := fun d => by
    rw [amountAt_plus, ← Int.add_assoc]
    exact hfit d
  have hsum := add_eq_plus ha.sorted hb.sorted hab
  refine ⟨a.plus b, hsum, (isValid_iff _).mpr (valid_plus ha hb), amountOf_plus ha hb, ?_, ?_,
    add_nil ha, nil_add ha⟩
  · rw [hsum, add_eq_plus hb.sorted ha.sorted hba, plus_comm ha hb]
  · rw [hsum, add_eq_plus hb.sorted hc.sorted hbc, Except.ok_bind, Except.ok_bind,
      add_eq_plus (sorted_plus ha.sorted hb.sorted) hc.sorted hab_c,
      add_eq_plus ha.sorted (sorted_plus hb.sorted hc.sorted) ha_bc, plus_assoc ha hb hc]

theorem add_valid_pointwise_three :
    isValid [⟨"abc", 1⟩] = true ∧ isValid [⟨"abc", 2⟩, ⟨"def", 1⟩] = true ∧ isValid [⟨"xyz", 5⟩] = true ∧
      (∀ denom, (amountAt [⟨"abc", 1⟩] denom + amountAt [⟨"abc", 2⟩, ⟨"def", 1⟩] denom +
        amountAt [⟨"xyz", 5⟩] denom).natAbs < 2 ^ maxBitLen) ∧
      add [⟨"abc", 1⟩] [⟨"abc", 2⟩, ⟨"def", 1⟩] = .ok [⟨"abc", 3⟩, ⟨"def", 1⟩] ∧
      ∃ s, add [⟨"abc", 1⟩] [⟨"abc", 2⟩, ⟨"def", 1⟩] = .ok s ∧ isValid s = true ∧
        (∀ denom, s.amountOf denom =
          (do let x ← amountOf [⟨"abc", 1⟩] denom; let y ← amountOf [⟨"abc", 2⟩, ⟨"def", 1⟩] denom; pure (x + y))) ∧
        add [⟨"abc", 1⟩] [⟨"abc", 2⟩, ⟨"def", 1⟩] = add [⟨"abc", 2⟩, ⟨"def", 1⟩] [⟨"abc", 1⟩] ∧
        (add [⟨"abc", 1⟩] [⟨"abc", 2⟩, ⟨"def", 1⟩] >>= fun s => s.add [⟨"xyz", 5⟩]) =
          (add [⟨"abc", 2⟩, ⟨"def", 1⟩] [⟨"xyz", 5⟩] >>= fun s => add [⟨"abc", 1⟩] s) ∧
        add [⟨"abc", 1⟩] [] = .ok [⟨"abc", 1⟩] ∧ add [] [⟨"abc", 1⟩] = .ok [⟨"abc", 1⟩] := by
  have hfit : ∀ denom, (amountAt [⟨"abc", 1⟩] denom + amountAt [⟨"abc", 2⟩, ⟨"def", 1⟩] denom +
      amountAt [⟨"xyz", 5⟩] denom).natAbs < 2 ^ maxBitLen := by
    intro denom
    simp only [amountAt_cons, amountAt_nil]
    split_ifs <;> simp [maxBitLen]
  exact ⟨by decide, by decide +kernel, by decide, hfit, by decide +kernel,
    add_valid_pointwise _ _ _ (by decide) (by decide +kernel) (by decide) hfit⟩

/-- Two valid sets of coins that fit, whose sum of one denomination does not: `Add` panics
where `Int.Add` does. -/
theorem add_overflows :
    isValid [⟨"abc", 2 ^ 255 - 1⟩] = true ∧ isValid [⟨"abc", 1⟩] = true ∧
      (⟨"abc", 2 ^ 255 - 1⟩ : Coin).Fits ∧
      add [⟨"abc", 2 ^ 255 - 1⟩] [⟨"abc", 1⟩] = .error (.other "Int overflow") := by
  decide +kernel

end Add

/-! ## Subtraction and coverage

`SafeSub` decides whether `a` covers `b` by merging `a` with `-b` and looking for a
negative coin; `IsAllGTE` looks every coin of `b` up in `a`. On valid sets whose every
denomination matches `reDnm` the two agree, and a difference without negative coins is
valid and adds back to `a`.
-/

section Sub

variable {a b : Coins}

/-- Where `SafeSub` returns, it returns the sum with the negated set, and its flag. -/
theorem safeSub_eq_ok {d : Coins} {neg : Bool} (h : safeSub a b = .ok (d, neg)) :
    d = a.plus (negative b) ∧ neg = isAnyNegative d := by
  obtain ⟨diff, hdiff, h⟩ := Except.bind_eq_ok.mp h
  cases h
  exact ⟨safeAdd_eq_ok hdiff, rfl⟩

theorem safeSub_eq_plus (h : ∀ c ∈ a.plus (negative b), c.Fits) :
    safeSub a b = .ok (a.plus (negative b), isAnyNegative (a.plus (negative b))) := by
  rw [safeSub, safeAdd_eq_plus h]
  rfl

theorem sub_eq_ok {c : Coins} (h : a.sub b = .ok c) : c = a.plus (negative b) ∧ isAnyNegative c = false := by
  obtain ⟨⟨diff, neg⟩, hsafe, h⟩ := Except.bind_eq_ok.mp h
  obtain ⟨rfl, rfl⟩ := safeSub_eq_ok hsafe
  cases hneg : isAnyNegative (a.plus (negative b)) <;> simp only [hneg] at h
  · cases h
    exact ⟨rfl, hneg⟩
  · cases h

/-- A `Sub` that returns had `SafeSub` return the same difference, with no negative coin. -/
theorem safeSub_of_sub_eq_ok {c : Coins} (h : a.sub b = .ok c) : safeSub a b = .ok (c, false) := by
  obtain ⟨⟨diff, neg⟩, hsafe, -⟩ := Except.bind_eq_ok.mp h
  obtain ⟨rfl, hneg⟩ := sub_eq_ok h
  obtain ⟨rfl, rfl⟩ := safeSub_eq_ok hsafe
  rw [hsafe, hneg]

theorem sub_eq_plus (h : ∀ c ∈ a.plus (negative b), c.Fits) (hneg : isAnyNegative (a.plus (negative b)) = false) :
    a.sub b = .ok (a.plus (negative b)) := by
  rw [sub, safeSub_eq_plus h]
  simp [hneg]

theorem sorted_negative (h : Merge.Sorted Coin.denom b) : Merge.Sorted Coin.denom (negative b) := by
  have hmap : (negative b).map Coin.denom = b.map Coin.denom := by
    simp [negative, Function.comp_def]
  unfold Merge.Sorted
  rw [hmap]
  exact h

theorem isZero_of_mem_plus {c : Coin} (hc : c ∈ a.plus b) : c.isZero = false :=
  Merge.isZero_of_mem_merge hc

theorem isDenom_of_mem_plus (ha : ∀ c ∈ a, isDenom c.denom = true) (hb : ∀ c ∈ b, isDenom c.denom = true) :
    ∀ c ∈ a.plus b, isDenom c.denom = true := by
  have hplus : ∀ x y : Coin, x.denom = y.denom → isDenom x.denom = true → isDenom y.denom = true →
      isDenom (x.plus y).denom = true := fun _ _ _ hx _ => hx
  exact Merge.forall_mem_merge _ hplus ha hb

theorem isAnyNegative_iff {l : Coins} (h : Merge.Sorted Coin.denom l) :
    isAnyNegative l = true ↔ ∃ denom, amountAt l denom < 0 := by
  simp only [isAnyNegative, List.any_eq_true, Coin.isNegative, decide_eq_true_eq]
  constructor
  · rintro ⟨c, hc, hneg⟩
    exact ⟨c.denom, by rw [amountAt_of_mem h hc]; exact hneg⟩
  · rintro ⟨denom, hneg⟩
    obtain ⟨c, hc, rfl⟩ := exists_mem_of_amountAt_ne_zero (ne_of_lt hneg)
    exact ⟨c, hc, by rwa [amountAt_of_mem h hc] at hneg⟩

/-- The difference has a negative coin exactly where `b` has more of a denomination than `a`. -/
theorem isAnyNegative_plus_negative_iff (ha : Merge.Sorted Coin.denom a) (hb : Merge.Sorted Coin.denom b) :
    isAnyNegative (a.plus (negative b)) = true ↔ ∃ denom, amountAt a denom < amountAt b denom := by
  rw [isAnyNegative_iff (sorted_plus ha (sorted_negative hb))]
  simp only [amountAt_plus, amountAt_negative]
  constructor <;> rintro ⟨denom, h⟩ <;> exact ⟨denom, by omega⟩

/-- `b` covers no more than `a` of every denomination when it does so at its own coins. -/
theorem forall_le_iff (ha : ∀ c ∈ a, 0 ≤ c.amount) (hb : Merge.Sorted Coin.denom b) :
    (∀ c ∈ b, c.amount ≤ amountAt a c.denom) ↔ ∀ denom, amountAt b denom ≤ amountAt a denom := by
  constructor
  · intro h denom
    by_cases hz : amountAt b denom = 0
    · rw [hz]
      exact amountAt_nonneg ha denom
    · obtain ⟨c, hc, rfl⟩ := exists_mem_of_amountAt_ne_zero hz
      rw [amountAt_of_mem hb hc]
      exact h c hc
  · intro h c hc
    rw [← amountAt_of_mem hb hc]
    exact h c.denom

/-- `IsAllGTE` of a set of coins of valid denominations: the loop compares each coin with its
amount in `a`. -/
theorem isAllGTE_eq_ok (ha : Merge.Sorted Coin.denom a) (hb : ∀ c ∈ b, 0 < c.amount)
    (hd : ∀ c ∈ b, isDenom c.denom = true) :
    isAllGTE a b = .ok (b.all fun c => !decide (c.amount > amountAt a c.denom)) := by
  unfold isAllGTE
  split
  · rename_i hlen
    simp [List.length_eq_zero_iff.mp hlen]
  · split
    · -- no coins in `a`: the first coin of `b` is not covered
      rename_i hlen hlenA
      obtain ⟨c, l, rfl⟩ := List.exists_cons_of_ne_nil (List.ne_nil_of_length_pos (Nat.pos_of_ne_zero hlen))
      have hc := hb c List.mem_cons_self
      rw [List.length_eq_zero_iff.mp hlenA]
      simp [hc]
    · exact Except.allM_eq_ok b fun c hc => by rw [amountOf_eq_amountAt (hd c hc) a ha]; rfl

/-- A sorted set covers every denomination of `b` it has more of: the denominations where
`b` has more are denominations of `b`, which match `reDnm`, so `AmountOf` finds them. -/
theorem exists_lt_iff (ha : Valid a) (hb : Merge.Sorted Coin.denom b) (hd : ∀ c ∈ b, isDenom c.denom = true) :
    (∃ denom, amountAt a denom < amountAt b denom) ↔
      ∃ denom x y, amountOf a denom = .ok x ∧ amountOf b denom = .ok y ∧ x < y := by
  constructor
  · rintro ⟨denom, hlt⟩
    have hne : amountAt b denom ≠ 0 := by
      have := amountAt_nonneg (fun c hc => (ha.pos c hc).le) denom
      omega
    obtain ⟨c, hc, rfl⟩ := exists_mem_of_amountAt_ne_zero hne
    exact ⟨c.denom, _, _, amountOf_eq_amountAt (hd c hc) a ha.sorted, amountOf_eq_amountAt (hd c hc) b hb, hlt⟩
  · rintro ⟨denom, x, y, hx, hy, hlt⟩
    obtain ⟨-, rfl⟩ := (amountOf_eq_ok_iff ha.sorted).mp hx
    obtain ⟨-, rfl⟩ := (amountOf_eq_ok_iff hb).mp hy
    exact ⟨denom, hlt⟩

/-- `IsAllGTE` is the negation of the flag of `SafeSub`, when every denomination of `b`
matches `reDnm`. -/
theorem isAllGTE_eq_not_isAnyNegative (ha : Valid a) (hb : Valid b) (hd : ∀ c ∈ b, isDenom c.denom = true) :
    isAllGTE a b = .ok !isAnyNegative (a.plus (negative b)) := by
  rw [isAllGTE_eq_ok ha.sorted hb.pos hd]
  congr 1
  apply Bool.eq_iff_iff.mpr
  have hcover : (b.all fun c => !decide (c.amount > amountAt a c.denom)) = true ↔
      ∀ c ∈ b, c.amount ≤ amountAt a c.denom := by
    simp
  rw [hcover, forall_le_iff (fun c hc => (ha.pos c hc).le) hb.sorted, Bool.not_eq_true', ← Bool.not_eq_true,
    isAnyNegative_plus_negative_iff ha.sorted hb.sorted]
  constructor
  · rintro h ⟨denom, hlt⟩
    exact absurd (h denom) (not_le.mpr hlt)
  · intro h denom
    exact not_lt.mp fun hlt => h ⟨denom, hlt⟩

/-- Without negative coins the difference is valid, when every denomination matches `reDnm`. -/
theorem valid_plus_negative (ha : Valid a) (hb : Valid b) (hda : ∀ c ∈ a, isDenom c.denom = true)
    (hdb : ∀ c ∈ b, isDenom c.denom = true) (hneg : isAnyNegative (a.plus (negative b)) = false) :
    Valid (a.plus (negative b)) := by
  have hdneg : ∀ c ∈ negative b, isDenom c.denom = true := by
    intro c hc
    obtain ⟨c', hc', rfl⟩ := List.mem_map.mp hc
    exact hdb c' hc'
  have hdenom := isDenom_of_mem_plus hda hdneg
  refine ⟨sorted_plus ha.sorted (sorted_negative hb.sorted), fun c hc => ?_,
    fun c hc => hdenom c (List.mem_of_mem_head? hc), fun c hc => toLower_of_isDenom (hdenom c hc)⟩
  have hz := amount_ne_zero (isZero_of_mem_plus hc)
  have hnn : ¬c.amount < 0 := by
    rw [isAnyNegative, List.any_eq_false] at hneg
    simpa [Coin.isNegative] using hneg c hc
  omega

theorem plus_plus_negative (ha : Valid a) (hb : Merge.Sorted Coin.denom b) : (a.plus (negative b)).plus b = a := by
  have hdiff : Merge.Sorted Coin.denom (a.plus (negative b)) := sorted_plus ha.sorted (sorted_negative hb)
  refine eq_of_amountAt_eq (sorted_plus hdiff hb) ha.sorted (fun c hc => isZero_of_mem_plus hc)
    ha.isZero_eq_false fun denom => ?_
  rw [amountAt_plus, amountAt_plus_negative]
  omega

/-- The difference of two sets whose amounts fit in 255 bits fits: both amounts of a
denomination are between `0` and `2 ^ 255`. -/
theorem fits_plus_negative (ha : Merge.Sorted Coin.denom a) (hb : Merge.Sorted Coin.denom b)
    (hpa : ∀ c ∈ a, 0 ≤ c.amount) (hpb : ∀ c ∈ b, 0 ≤ c.amount) (hfa : ∀ c ∈ a, c.Fits) (hfb : ∀ c ∈ b, c.Fits) :
    ∀ c ∈ a.plus (negative b), c.Fits := by
  refine fits_plus ha (sorted_negative hb) fun denom => ?_
  have hxa := amountAt_fits ha hfa denom
  have hxb := amountAt_fits hb hfb denom
  have hna := amountAt_nonneg hpa denom
  have hnb := amountAt_nonneg hpb denom
  rw [amountAt_negative]
  omega

/-- On valid sets whose every denomination matches `reDnm` and whose amounts fit in 255 bits,
`SafeSub` does not panic; it finds a negative coin exactly where `a` has less of a denomination
than `b`, exactly where `IsAllGTE` fails, and otherwise its difference is valid, subtracts at
every denomination and adds back to `a`. -/
theorem safeSub_agrees_isAllGTE (a b : Coins) (ha : isValid a = true) (hb : isValid b = true)
    (hda : ∀ c ∈ a, isDenom c.denom = true) (hdb : ∀ c ∈ b, isDenom c.denom = true)
    (hfa : ∀ c ∈ a, c.Fits) (hfb : ∀ c ∈ b, c.Fits) :
    ∃ diff hasNeg, safeSub a b = .ok (diff, hasNeg) ∧
      (hasNeg = true ↔ ∃ denom x y, amountOf a denom = .ok x ∧ amountOf b denom = .ok y ∧ x < y) ∧
      isAllGTE a b = .ok !hasNeg ∧
      (hasNeg = false →
        isValid diff = true ∧
          (∀ denom, amountOf diff denom = (do let x ← amountOf a denom; let y ← amountOf b denom; pure (x - y))) ∧
          diff.add b = .ok a) := by
  rw [isValid_iff] at ha hb
  have hfit := fits_plus_negative ha.sorted hb.sorted (fun c hc => (ha.pos c hc).le) (fun c hc => (hb.pos c hc).le)
    hfa hfb
  refine ⟨_, _, safeSub_eq_plus hfit,
    (isAnyNegative_plus_negative_iff ha.sorted hb.sorted).trans (exists_lt_iff ha hb.sorted hdb),
    isAllGTE_eq_not_isAnyNegative ha hb hdb, fun hneg => ?_⟩
  have hvalid := valid_plus_negative ha hb hda hdb hneg
  have hback : ∀ denom, (amountAt (a.plus (negative b)) denom + amountAt b denom).natAbs < 2 ^ maxBitLen := by
    intro denom
    rw [← amountAt_plus, plus_plus_negative ha hb.sorted]
    exact amountAt_fits ha.sorted hfa denom
  refine ⟨(isValid_iff _).mpr hvalid,
    amountOf_of_amountAt (· - ·) hvalid.sorted ha.sorted hb.sorted (fun _ => amountAt_plus_negative a b), ?_⟩
  rw [add_eq_plus hvalid.sorted hb.sorted hback, plus_plus_negative ha hb.sorted]

theorem safeSub_agrees_isAllGTE_abc :
    isValid [⟨"abc", 10⟩, ⟨"def", 2⟩] = true ∧ isValid [⟨"abc", 3⟩] = true ∧
      (∀ c ∈ ([⟨"abc", 10⟩, ⟨"def", 2⟩] : Coins), isDenom c.denom = true) ∧
      (∀ c ∈ ([⟨"abc", 3⟩] : Coins), isDenom c.denom = true) ∧
      (∀ c ∈ ([⟨"abc", 10⟩, ⟨"def", 2⟩] : Coins), c.Fits) ∧ (∀ c ∈ ([⟨"abc", 3⟩] : Coins), c.Fits) ∧
      ∃ diff hasNeg, safeSub [⟨"abc", 10⟩, ⟨"def", 2⟩] [⟨"abc", 3⟩] = .ok (diff, hasNeg) ∧
        (hasNeg = true ↔
          ∃ denom x y, amountOf [⟨"abc", 10⟩, ⟨"def", 2⟩] denom = .ok x ∧ amountOf [⟨"abc", 3⟩] denom = .ok y ∧ x < y) ∧
        isAllGTE [⟨"abc", 10⟩, ⟨"def", 2⟩] [⟨"abc", 3⟩] = .ok !hasNeg ∧
        (hasNeg = false →
          isValid diff = true ∧
            (∀ denom, amountOf diff denom =
              (do let x ← amountOf [⟨"abc", 10⟩, ⟨"def", 2⟩] denom; let y ← amountOf [⟨"abc", 3⟩] denom; pure (x - y))) ∧
            diff.add [⟨"abc", 3⟩] = .ok [⟨"abc", 10⟩, ⟨"def", 2⟩]) :=
  ⟨by decide +kernel, by decide, by decide, by decide, by decide, by decide,
    safeSub_agrees_isAllGTE _ _ (by decide +kernel) (by decide) (by decide) (by decide) (by decide) (by decide)⟩

/-- `IsValid` checks only the first denomination against `reDnm`. A set with the later
denomination `b` makes `IsAllGTE` panic in `AmountOf` where `SafeSub` finds a negative coin,
and a difference that starts at that denomination is not valid. -/
theorem safeSub_short_denom :
    isValid [⟨"abc", 10⟩] = true ∧ isValid [⟨"abc", 1⟩, ⟨"b", 1⟩] = true ∧
      safeSub [⟨"abc", 10⟩] [⟨"abc", 1⟩, ⟨"b", 1⟩] = .ok ([⟨"abc", 9⟩, ⟨"b", -1⟩], true) ∧
      isAllGTE [⟨"abc", 10⟩] [⟨"abc", 1⟩, ⟨"b", 1⟩] = .error (.other "invalid denom: b") ∧
      safeSub [⟨"abc", 1⟩, ⟨"b", 1⟩] [⟨"abc", 1⟩] = .ok ([⟨"b", 1⟩], false) ∧ isValid [⟨"b", 1⟩] = false := by
  decide +kernel

end Sub

/-! ## Sets whose every denomination matches `reDnm` -/

section Sound

variable {a b : Coins}

/-- A valid set whose every denomination, not only the first that `IsValid` checks, matches
`reDnm`, and whose every amount an `sdk.Int` holds. -/
structure Sound (coins : Coins) : Prop where
  valid : Valid coins
  denom : ∀ c ∈ coins, isDenom c.denom = true
  fits : ∀ c ∈ coins, c.Fits

theorem sound_nil : Sound [] := ⟨(isValid_iff []).mp rfl, by simp, by simp⟩

theorem Sound.amountAt_fits (ha : Sound a) (denom : String) : (amountAt a denom).natAbs < 2 ^ maxBitLen :=
  Coins.amountAt_fits ha.valid.sorted ha.fits denom

theorem Sound.fits_plus_negative (ha : Sound a) (hb : Sound b) : ∀ c ∈ a.plus (negative b), c.Fits :=
  Coins.fits_plus_negative ha.valid.sorted hb.valid.sorted (fun c hc => (ha.valid.pos c hc).le)
    (fun c hc => (hb.valid.pos c hc).le) ha.fits hb.fits

/-- What a successful `Add` of sound sets returns: their sum, which is sound, since every sum
`Int.Add` returned fits. -/
theorem Sound.of_add_eq_ok {c : Coins} (ha : Sound a) (hb : Sound b) (h : a.add b = .ok c) :
    c = a.plus b ∧ Sound c := by
  have hc := add_eq_ok h
  refine ⟨hc, hc ▸ valid_plus ha.valid hb.valid, hc ▸ isDenom_of_mem_plus ha.denom hb.denom, ?_⟩
  rw [add, safeAdd_eq_mergeM] at h
  exact Merge.forall_of_mergeM_eq_ok Coin.Fits (fun _ _ _ => Coin.fits_of_add_eq_ok) a b c ha.fits hb.fits h

/-- `Add` of sound sets whose every denomination's sum fits returns the sum, which is sound. -/
theorem Sound.add_eq_plus (ha : Sound a) (hb : Sound b)
    (hfit : ∀ denom, (amountAt a denom + amountAt b denom).natAbs < 2 ^ maxBitLen) :
    a.add b = .ok (a.plus b) ∧ Sound (a.plus b) := by
  have h := Coins.add_eq_plus ha.valid.sorted hb.valid.sorted hfit
  exact ⟨h, (ha.of_add_eq_ok hb h).2⟩

/-- `Add` of sound sets panics only in `Int.Add`, and only where the sum of a denomination does
not fit. -/
theorem Sound.add_eq_error {e : Panic} (ha : Sound a) (hb : Sound b) (h : a.add b = .error e) :
    e = .other "Int overflow" ∧ ∃ denom, 2 ^ maxBitLen ≤ (amountAt a denom + amountAt b denom).natAbs := by
  refine ⟨?_, ?_⟩
  · rw [add, safeAdd_eq_mergeM] at h
    obtain ⟨x, y, hxy, hadd⟩ := Merge.error_of_mergeM_eq_error a b e h
    exact Coin.add_eq_error hxy hadd
  · by_contra hall
    have hfit : ∀ denom, (amountAt a denom + amountAt b denom).natAbs < 2 ^ maxBitLen :=
      fun denom => Nat.lt_of_not_le fun hle => hall ⟨denom, hle⟩
    rw [(ha.add_eq_plus hb hfit).1] at h
    cases h

/-- A valid set covered by a sound one is sound: each of its coins is positive, so the sound
set has some of its denomination, and at least as much. -/
theorem Sound.of_le (ha : Sound a) (hb : Valid b) (hcover : ∀ denom, amountAt b denom ≤ amountAt a denom) :
    Sound b := by
  have hpos : ∀ c ∈ b, 0 < c.amount ∧ c.amount ≤ amountAt a c.denom := fun c hc => by
    have := hcover c.denom
    rw [amountAt_of_mem hb.sorted hc] at this
    exact ⟨hb.pos c hc, this⟩
  refine ⟨hb, fun c hc => ?_, fun c hc => ?_⟩
  · obtain ⟨c', hc', hden⟩ := exists_mem_of_amountAt_ne_zero (ne_of_gt (lt_of_lt_of_le (hpos c hc).1 (hpos c hc).2))
    exact hden ▸ ha.denom c' hc'
  · have := ha.amountAt_fits c.denom
    have := hpos c hc
    unfold Coin.Fits
    omega

theorem Sound.plus_negative (ha : Sound a) (hb : Sound b) (hneg : isAnyNegative (a.plus (negative b)) = false) :
    Sound (a.plus (negative b)) := by
  have hdneg : ∀ c ∈ negative b, isDenom c.denom = true := by
    intro c hc
    obtain ⟨c', hc', rfl⟩ := List.mem_map.mp hc
    exact hb.denom c' hc'
  exact ⟨valid_plus_negative ha.valid hb.valid ha.denom hb.denom hneg, isDenom_of_mem_plus ha.denom hdneg,
    ha.fits_plus_negative hb⟩

/-- `SafeSub` of a valid set whose coins fit from sound coins does not panic. -/
theorem Sound.safeSub_eq_of_valid (ha : Sound a) (hb : Valid b) (hfb : ∀ c ∈ b, c.Fits) :
    safeSub a b = .ok (a.plus (negative b), isAnyNegative (a.plus (negative b))) :=
  safeSub_eq_plus (Coins.fits_plus_negative ha.valid.sorted hb.sorted (fun c hc => (ha.valid.pos c hc).le)
    (fun c hc => (hb.pos c hc).le) ha.fits hfb)

/-- The difference of a sound set and a sound set it covers has no negative coin, is what
`Sub` returns, and is sound. -/
theorem Sound.sub_eq (ha : Sound a) (hb : Sound b) (hcover : ∀ denom, amountAt b denom ≤ amountAt a denom) :
    isAnyNegative (a.plus (negative b)) = false ∧ a.sub b = .ok (a.plus (negative b)) ∧
      Sound (a.plus (negative b)) := by
  have hneg : isAnyNegative (a.plus (negative b)) = false := by
    rw [Bool.eq_false_iff, ne_eq, isAnyNegative_plus_negative_iff ha.valid.sorted hb.valid.sorted]
    rintro ⟨denom, hlt⟩
    exact absurd (hcover denom) (not_le.mpr hlt)
  exact ⟨hneg, sub_eq_plus (ha.fits_plus_negative hb) hneg, ha.plus_negative hb hneg⟩

/-- What a successful `Sub` of sound sets returns: a sound set holding the differences. -/
theorem Sound.of_sub_eq_ok {c : Coins} (ha : Sound a) (hb : Sound b) (h : a.sub b = .ok c) :
    Sound c ∧ ∀ d, amountAt c d = amountAt a d - amountAt b d := by
  obtain ⟨rfl, hneg⟩ := sub_eq_ok h
  exact ⟨ha.plus_negative hb hneg, fun d => amountAt_plus_negative a b⟩

theorem Sound.nonneg (h : Sound a) (denom : String) : 0 ≤ amountAt a denom :=
  amountAt_nonneg (fun c hc => le_of_lt (h.valid.pos c hc)) denom

/-- The coin a fold over a sound set has reached. -/
theorem Sound.of_eq_append {pre rest : Coins} {coin : Coin} (h : Sound a) (hl : pre ++ coin :: rest = a) :
    coin ∈ a ∧ isDenom coin.denom = true ∧ 0 < coin.amount ∧ coin.Fits := by
  have hmem : coin ∈ a := hl ▸ List.mem_append_right _ List.mem_cons_self
  exact ⟨hmem, h.denom coin hmem, h.valid.pos coin hmem, h.fits coin hmem⟩

theorem sound_singleton {coin : Coin} (hd : isDenom coin.denom = true) (hpos : 0 < coin.amount) (hfit : coin.Fits) :
    Sound [coin] :=
  ⟨(isValid_iff _).mp (by simp [isValid, Coin.isPositive, hd, hpos]), by simpa using hd, by simpa using hfit⟩

theorem amountAt_plus_singleton (coin : Coin) (denom : String) :
    amountAt (a.plus [coin]) denom = amountAt a denom + if coin.denom = denom then coin.amount else 0 := by
  simp [amountAt_plus]

/-- Adding one positive coin to sound coins, when its denomination's sum fits: no panic, and a
sound set with the coin's amount added. -/
theorem Sound.add_singleton (ha : Sound a) (coin : Coin) (hd : isDenom coin.denom = true) (hpos : 0 < coin.amount)
    (hfit : (amountAt a coin.denom + coin.amount).natAbs < 2 ^ maxBitLen) :
    a.add [coin] = .ok (a.plus [coin]) ∧ Sound (a.plus [coin]) ∧
      ∀ d, amountAt (a.plus [coin]) d = amountAt a d + if coin.denom = d then coin.amount else 0 := by
  have hcoin : coin.Fits := by
    have := ha.nonneg coin.denom
    show coin.amount.natAbs < 2 ^ maxBitLen
    omega
  have hsum : ∀ d, (amountAt a d + amountAt [coin] d).natAbs < 2 ^ maxBitLen := by
    intro d
    by_cases hcd : coin.denom = d
    · subst hcd
      simpa using hfit
    · simpa [hcd] using ha.amountAt_fits d
  obtain ⟨hadd, hsound⟩ := ha.add_eq_plus (sound_singleton hd hpos hcoin) hsum
  exact ⟨hadd, hsound, amountAt_plus_singleton coin⟩

/-- `NewCoins` of one coin that fits, when it does not panic: no coins for a zero amount,
otherwise the coin, which is then sound. -/
theorem newCoins_singleton {coin : Coin} {cs : Coins} (hfit : coin.Fits) (h : newCoins [coin] = .ok cs) :
    Sound cs ∧ ∀ denom, amountAt cs denom = if coin.denom = denom then coin.amount else 0 := by
  by_cases hz : coin.amount = 0
  · simp only [newCoins, removeZeroCoins, Coin.isZero, hz, List.filter_cons, beq_self_eq_true, Bool.not_true,
      Bool.false_eq_true, if_false, List.filter_nil, List.isEmpty_nil, if_true, pure, Except.pure] at h
    cases h
    exact ⟨sound_nil, fun denom => by simp [hz]⟩
  · have hne : (coin.amount == 0) = false := by simpa using hz
    simp only [newCoins, removeZeroCoins, Coin.isZero, hne, List.filter_cons, Bool.not_false, if_true,
      List.filter_nil, List.isEmpty_cons, Bool.false_eq_true, if_false, sort, List.mergeSort_singleton, findDup,
      findDup.go] at h
    cases hv : isValid [coin]
    · simp [hv] at h
    · simp only [hv, Bool.not_true, Bool.false_eq_true, if_false, pure, Except.pure] at h
      cases h
      refine ⟨⟨(isValid_iff _).mp hv, fun c hc => ?_, by simpa using hfit⟩, fun denom => by simp⟩
      simp only [isValid, Bool.and_eq_true] at hv
      rw [List.mem_singleton.mp hc]
      exact hv.1

/-- Taking a positive amount of one denomination, that the coins cover, out of sound coins. -/
theorem Sound.sub_singleton {denom : String} {x : Int} (ha : Sound a) (hd : isDenom denom = true)
    (hx : 0 < x) (hle : x ≤ amountAt a denom) :
    a.sub [⟨denom, x⟩] = .ok (a.plus (negative [⟨denom, x⟩])) ∧ Sound (a.plus (negative [⟨denom, x⟩])) ∧
      ∀ d, amountAt (a.plus (negative [⟨denom, x⟩])) d = amountAt a d - if denom = d then x else 0 := by
  have hcover : ∀ d, amountAt [⟨denom, x⟩] d ≤ amountAt a d := by
    intro d
    rw [amountAt_cons, amountAt_nil]
    split_ifs with hd'
    · rw [← hd']
      simpa using hle
    · exact ha.nonneg d
  have hfit : (⟨denom, x⟩ : Coin).Fits := by
    have := ha.amountAt_fits denom
    show x.natAbs < 2 ^ maxBitLen
    omega
  obtain ⟨-, hsub, hsound⟩ := ha.sub_eq (sound_singleton hd hx hfit) hcover
  exact ⟨hsub, hsound, fun d => by rw [amountAt_plus_negative]; simp⟩

/-- In coins that ascend strictly by denomination, a coin's denomination is not among those
    before it. -/
theorem amountAt_prefix_eq_zero {pre rest : Coins} {coin : Coin}
    (h : Merge.Sorted Coin.denom (pre ++ coin :: rest)) : amountAt pre coin.denom = 0 := by
  rw [Merge.Sorted, List.map_append, List.pairwise_append] at h
  refine amountAt_eq_zero fun c hc => ne_of_lt ?_
  exact h.2.2 _ (List.mem_map_of_mem hc) _ (List.mem_map_of_mem List.mem_cons_self)

end Sound

end Coins

end Friday.Types
