import Friday.App.Run

/-! # The nickname registry

`x/nickname/keeper.go` on a state's own multistore, where `Get` and `Set` reach the
store's listing at once. `runOn` runs keeper code against the shared state; each call
the keeper makes gets a lemma that says all it can do (`setNickname_inv`,
`changeKey_inv`), and `SetAccountIfNotExists` a frame lemma: it writes the account
store only.

Over whole runs of calls as the handlers make them (`Reachable`), every entry of the
nickname store holds a name that decodes to its key (`Registered`); a non-empty key,
once bound, is taken, and its address changes only by `ChangeKey` from the bound
address. A direct call with any other name breaks the first: `SetNickname("A", _)`
stores a name that decodes to `"a"`.
-/

namespace Friday.Nickname

open Friday.Types App Store Script

section Frame

/-- The events that leave every nickname store as it is: reads, and writes to other
    stores. -/
def KeepsNicknames : Event → Prop
  | .get .. => True
  | .set _ name _ _ => name ≠ .nickname
  | _ => False

theorem World.set_stores_nickname {w : World} {store : StoreRef} {name : StoreName} (hname : name ≠ .nickname)
    (key : List UInt8) (value : Value) (root : Root) :
    (w.set store name key value).stores root .nickname = w.stores root .nickname := by
  cases store with
  | root r =>
    simp only [World.set, World.setListing]
    rw [if_neg (by rintro ⟨-, h⟩; exact hname h.symm)]
  | cache parent tag => rfl

theorem answer_keeps_nicknames {e : Event} {w w' : World} {x : Answer e} (he : KeepsNicknames e)
    (h : World.answer e w = some (x, w')) (root : Root) : w'.stores root .nickname = w.stores root .nickname := by
  cases e with
  | get store name key =>
    rw [World.answer_get] at h
    cases h
    rw [World.get_stores]
  | set store name key value =>
    rw [World.answer_set] at h
    cases h
    exact World.set_stores_nickname he key value root
  | _ => exact absurd he id

variable {ctx : Context}

theorem always_kvGet (name : StoreName) (key : List UInt8) :
    Always (fun _ _ => True) (¬ KeepsNicknames ·) (fun _ => True) (kvGet ctx name key).run := by
  unfold kvGet
  exact Go.always_call (e := .get ctx.multiStore name key) (fun h => h trivial) fun _ _ => trivial

theorem always_kvSet {name : StoreName} (hname : name ≠ .nickname) (key : List UInt8) (value : Value) :
    Always (fun _ _ => True) (¬ KeepsNicknames ·) (fun _ => True) (kvSet ctx name key value).run := by
  unfold kvSet
  exact Go.always_call (e := .set ctx.multiStore name key value) (fun h => h hname) fun _ _ => trivial

theorem getAccount_keeps_nicknames (addr : Address) :
    Always (fun _ _ => True) (¬ KeepsNicknames ·) (fun _ => True) (Auth.getAccount ctx addr).run := by
  unfold Auth.getAccount
  refine (always_kvGet _ _).exceptT_seq fun v => ?_
  split <;> exact .pure trivial

theorem getNextAccountNumber_keeps_nicknames :
    Always (fun _ _ => True) (¬ KeepsNicknames ·) (fun _ => True) (Auth.getNextAccountNumber ctx).run := by
  unfold Auth.getNextAccountNumber
  refine (always_kvGet _ _).exceptT_seq fun v => ?_
  dsimp only
  -- every branch of the `match` goes on to the same write of the counter
  have hwrite : ∀ n : Nat, Always (fun _ _ => True) (¬ KeepsNicknames ·) (fun _ => True)
      (kvSet ctx .acc Auth.globalAccountNumberKey (.accountNumber (n + 1)) >>= fun _ => pure n).run :=
    fun n => (always_kvSet (by decide) _ _).exceptT_seq fun _ => .pure trivial
  split
  · exact hwrite 0
  · exact hwrite _
  · exact .pure trivial

/-- `SetAccountIfNotExists` writes the account store only. -/
theorem setAccountIfNotExists_keeps_nicknames (addr : Address) :
    Always (fun _ _ => True) (¬ KeepsNicknames ·) (fun _ => True) (setAccountIfNotExists ctx addr).run := by
  unfold setAccountIfNotExists Auth.newAccountWithAddress Auth.setAccount
  refine (getAccount_keeps_nicknames addr).exceptT_seq fun found => ?_
  split
  · exact (getNextAccountNumber_keeps_nicknames.exceptT_seq fun _ => .pure trivial).exceptT_seq fun _ =>
      always_kvSet (by decide) _ _
  · exact .pure trivial

theorem runOn_setAccountIfNotExists {w w' : World} {addr : Address} {r : Except Panic Unit}
    (h : runOn w (setAccountIfNotExists ctx addr) = some (r, w')) (root : Root) :
    w'.stores root .nickname = w.stores root .nickname :=
  ((setAccountIfNotExists_keeps_nicknames addr).runWith
    (I := fun w' : World => w'.stores root .nickname = w.stores root .nickname)
    (fun _ _ _ _ he hans hs => (answer_keeps_nicknames (of_not_not he) hans root).trans hs) h rfl).1

end Frame

section Keeper

variable (root : Root) (w : World)

/-- What the nickname store of `root` holds under a key. -/
def entry (key : List UInt8) : Option Value := sortedStore.get (w.stores root .nickname) key

/-- `GetUnitAccount`'s reading of what the store holds. -/
def unitAccountOf : Option Value → Except Panic UnitAccount
  | none => .ok .zero
  | some (.unitAccount acc) => .ok acc
  | some _ => .error Auth.decodePanic

variable {root w} {ctx : Context} (hroot : ctx.multiStore = .root root)
include hroot

theorem runOn_getUnitAccount (name : String) :
    runOn w (getUnitAccount ctx name) = some (unitAccountOf (entry root w (nameKey name)), w) := by
  simp only [getUnitAccount, runOn_bind, runOn_kvGet hroot, Option.bind_some, entry]
  cases h : sortedStore.get (w.stores root .nickname) (nameKey name) with
  | none => rfl
  | some v =>
    simp only [Option.isNone_some, Bool.false_eq_true, if_false, runOn_bind, runOn_kvGet hroot, h, Option.bind_some]
    cases v <;> rfl

variable (env : Env)

/-- What a call of `SetNickname` can do: nothing but return `false` or panic, or bind
    the name, when the name it finds decodes to `""`. -/
theorem setNickname_inv {name : String} {address : Address} {r : Except Panic Bool} {w' : World}
    (h : runOn w (setNickname env ctx name address) = some (r, w')) :
    (w' = w ∧ r ≠ .ok true) ∨
      ∃ acc n, unitAccountOf (entry root w (nameKey name)) = .ok acc ∧ acc.nickname.mustToString = .ok "" ∧
        newName env.unicodeToLower name = .ok n ∧ r = .ok true ∧
        w' = w.set (.root root) .nickname (nameKey name) (.unitAccount ⟨n, address⟩) := by
  simp only [setNickname, runOn_bind, runOn_getUnitAccount hroot, Option.bind_some] at h
  cases hacc : unitAccountOf (entry root w (nameKey name)) with
  | error p =>
    simp only [hacc, Option.some.injEq, Prod.mk.injEq] at h
    exact .inl ⟨h.2.symm, by rw [← h.1]; simp⟩
  | ok acc =>
    simp only [hacc, runOn_liftExcept, Option.bind_some] at h
    cases hm : acc.nickname.mustToString with
    | error p =>
      simp only [hm, Option.some.injEq, Prod.mk.injEq] at h
      exact .inl ⟨h.2.symm, by rw [← h.1]; simp⟩
    | ok t =>
      simp only [hm] at h
      by_cases ht : t = ""
      · subst ht
        simp only [ne_eq, not_true_eq_false, if_false, runOn_bind, runOn_liftExcept, Option.bind_some] at h
        cases hn : newName env.unicodeToLower name with
        | error p =>
          simp only [hn, Option.some.injEq, Prod.mk.injEq] at h
          exact .inl ⟨h.2.symm, by rw [← h.1]; simp⟩
        | ok n =>
          simp only [hn, runOn_kvSet hroot, Option.bind_some, runOn_pure, Option.some.injEq, Prod.mk.injEq] at h
          exact .inr ⟨acc, n, rfl, hm, rfl, h.1.symm, h.2.symm⟩
      · simp only [ne_eq, ht, not_false_eq_true, if_true, runOn_pure, Option.some.injEq, Prod.mk.injEq] at h
        exact .inl ⟨h.2.symm, by rw [← h.1]; simp⟩

/-- What a call of `ChangeKey` can do to the nickname store: nothing, or bind the name
    to the new address, when the address it finds has the string of the old one. -/
theorem changeKey_inv {name : String} {old new : Address} {r : Except Panic Bool} {w' : World}
    (h : runOn w (changeKey env ctx name old new) = some (r, w')) :
    (w'.stores root .nickname = w.stores root .nickname ∧ r ≠ .ok true) ∨
      ∃ acc n, unitAccountOf (entry root w (nameKey name)) = .ok acc ∧
        env.accAddressString acc.address = env.accAddressString old ∧
        newName env.unicodeToLower name = .ok n ∧ r = .ok true ∧
        w'.stores root .nickname = sortedStore.set (w.stores root .nickname) (nameKey name) (.unitAccount ⟨n, new⟩) := by
  simp only [changeKey, runOn_bind, runOn_getUnitAccount hroot, Option.bind_some] at h
  cases hacc : unitAccountOf (entry root w (nameKey name)) with
  | error p =>
    simp only [hacc, Option.some.injEq, Prod.mk.injEq] at h
    exact .inl ⟨by rw [← h.2], by rw [← h.1]; simp⟩
  | ok acc =>
    simp only [hacc] at h
    by_cases haddr : env.accAddressString acc.address = env.accAddressString old
    · simp only [ne_eq, haddr, not_true_eq_false, if_false, runOn_bind] at h
      cases hset : runOn w (setAccountIfNotExists ctx new) with
      | none => simp [hset] at h
      | some res =>
        obtain ⟨r₁, w₁⟩ := res
        have hw₁ := runOn_setAccountIfNotExists hset root
        simp only [hset, Option.bind_some] at h
        cases r₁ with
        | error p =>
          simp only [Option.some.injEq, Prod.mk.injEq] at h
          exact .inl ⟨by rw [← h.2, hw₁], by rw [← h.1]; simp⟩
        | ok u =>
          simp only [runOn_liftExcept, Option.bind_some] at h
          cases hn : newName env.unicodeToLower name with
          | error p =>
            simp only [hn, Option.some.injEq, Prod.mk.injEq] at h
            exact .inl ⟨by rw [← h.2, hw₁], by rw [← h.1]; simp⟩
          | ok n =>
            simp only [hn, runOn_kvSet hroot, Option.bind_some, runOn_pure, Option.some.injEq, Prod.mk.injEq] at h
            refine .inr ⟨acc, n, rfl, haddr, rfl, h.1.symm, ?_⟩
            rw [← h.2, World.set_root_stores, hw₁]
    · simp only [ne_eq, haddr, not_false_eq_true, if_true, runOn_pure, Option.some.injEq, Prod.mk.injEq] at h
      exact .inl ⟨by rw [← h.2], by rw [← h.1]; simp⟩

theorem runOn_setNickname_taken {name t : String} {acc : UnitAccount} (address : Address)
    (hacc : unitAccountOf (entry root w (nameKey name)) = .ok acc) (ht : acc.nickname.mustToString = .ok t)
    (hne : t ≠ "") : runOn w (setNickname env ctx name address) = some (.ok false, w) := by
  simp only [setNickname, runOn_bind, runOn_getUnitAccount hroot, hacc, Option.bind_some, runOn_liftExcept, ht]
  rw [if_pos hne]
  rfl

end Keeper

theorem nameKey_inj {s t : String} (h : nameKey s = nameKey t) : s = t := by
  have hbytes : s.toUTF8 = t.toUTF8 := ByteArray.ext (Array.toList_inj.mp h)
  rwa [String.toUTF8_eq_toByteArray, String.toUTF8_eq_toByteArray, String.toByteArray_inj] at hbytes

/-! ## The registry over whole runs -/

/-- The calls of the keeper that write the nickname store. -/
inductive Call
  | setNickname (name : String) (address : Address)
  | changeKey (name : String) (oldAddr newAddr : Address)
  deriving DecidableEq, Repr

def Call.run (env : Env) (ctx : Context) : Call → Go Bool
  | .setNickname name address => Nickname.setNickname env ctx name address
  | .changeKey name oldAddr newAddr => Nickname.changeKey env ctx name oldAddr newAddr

/-- The calls as the handlers make them: `SetNickname` of what a message's name
    decodes to, and `ChangeKey` with the two addresses `MsgChangeKey.ValidateBasic`
    requires to be non-empty. -/
def Call.FromHandler : Call → Prop
  | .setNickname name _ => ∃ n : Name, n.mustToString = .ok name
  | .changeKey _ oldAddr newAddr => oldAddr ≠ [] ∧ newAddr ≠ []

/-- The states that calls as the handlers make them reach from `w₀`; a call may end in
    a panic. -/
inductive Reachable (env : Env) (ctx : Context) (w₀ : World) : World → Prop
  | init : Reachable env ctx w₀ w₀
  | step {w w' : World} {c : Call} {r : Except Panic Bool} : Reachable env ctx w₀ w → c.FromHandler →
      runOn w (c.run env ctx) = some (r, w') → Reachable env ctx w₀ w'

/-- Every entry of the nickname store is a `UnitAccount` whose name decodes, without a
    panic, to the entry's key. -/
def Registered (root : Root) (w : World) : Prop :=
  ∀ key v, entry root w key = some v →
    ∃ acc t, v = .unitAccount acc ∧ acc.nickname.mustToString = .ok t ∧ key = nameKey t

section Invariant

variable {env : Env} {ctx : Context} {root : Root} (hinj : Function.Injective env.accAddressString)
  (hroot : ctx.multiStore = .root root)

theorem entry_set {w w' : World} {key : List UInt8} {v : Value}
    (h : w'.stores root .nickname = sortedStore.set (w.stores root .nickname) key v) :
    entry root w' = Function.update (entry root w) key (some v) := by
  funext k
  change sortedStore.get (w'.stores root .nickname) k = _
  rw [h, sortedStore_lawful.get_set]
  rfl

theorem entry_of_stores {w w' : World} (h : w'.stores root .nickname = w.stores root .nickname) :
    entry root w' = entry root w := by
  funext key
  exact congrArg (sortedStore.get · key) h

theorem registered_of_nil {w : World} (h : (w.stores root .nickname).1 = []) : Registered root w := by
  intro key v hv
  simp [entry, sortedStore, h] at hv

theorem Registered.set {w w' : World} {acc : UnitAccount} {t : String} (hw : Registered root w)
    (h : w'.stores root .nickname = sortedStore.set (w.stores root .nickname) (nameKey t) (.unitAccount acc))
    (ht : acc.nickname.mustToString = .ok t) : Registered root w' := by
  intro key v hv
  rw [entry_set h] at hv
  by_cases hkey : key = nameKey t
  · subst hkey
    rw [Function.update_self] at hv
    cases hv
    exact ⟨acc, t, rfl, ht, rfl⟩
  · rw [Function.update_of_ne hkey] at hv
    exact hw key v hv

include hinj hroot in
/-- One call as the handlers make it keeps every entry's name decoding to its key. -/
theorem Registered.step {w w' : World} {c : Call} {r : Except Panic Bool} (hw : Registered root w)
    (hc : c.FromHandler) (h : runOn w (c.run env ctx) = some (r, w')) : Registered root w' := by
  cases c with
  | setNickname name address =>
    obtain ⟨m, hm⟩ := hc
    rcases setNickname_inv hroot env (show runOn w (setNickname env ctx name address) = _ from h) with ⟨rfl, -⟩ | ⟨acc, n, -, -, hn, -, rfl⟩
    · exact hw
    · -- the name bound is `NewName(name)`, which decodes back to `name`
      obtain ⟨n', hn', ht⟩ := mustToString_newName env.unicodeToLower hm
      rw [hn, Except.ok.injEq] at hn'
      subst hn'
      exact hw.set (World.set_root_stores w root .nickname _ _) ht
  | changeKey name old new =>
    obtain ⟨hold, -⟩ := hc
    rcases changeKey_inv hroot env (show runOn w (changeKey env ctx name old new) = _ from h) with ⟨hsame, -⟩ | ⟨acc, n, hacc, haddr, hn, -, hset⟩
    · intro key v hv
      rw [entry_of_stores hsame] at hv
      exact hw key v hv
    · -- the old address is not empty, so the name was bound, to a name that decodes to it
      have hbound : entry root w (nameKey name) = some (.unitAccount acc) := by
        cases hv : entry root w (nameKey name) with
        | none =>
          rw [hv] at hacc
          cases hacc
          exact absurd (hinj haddr).symm hold
        | some v =>
          rw [hv] at hacc
          cases v <;> cases hacc
          rfl
      obtain ⟨acc', t, hacc', ht, hkey⟩ := hw _ _ hbound
      cases hacc'
      cases nameKey_inj hkey
      obtain ⟨n', hn', ht'⟩ := mustToString_newName env.unicodeToLower ht
      rw [hn, Except.ok.injEq] at hn'
      subst hn'
      exact hw.set hset ht'

include hinj hroot in
theorem Registered.reachable {w₀ w : World} (h₀ : Registered root w₀) (hw : Reachable env ctx w₀ w) :
    Registered root w := by
  induction hw with
  | init => exact h₀
  | step _ hc hrun ih => exact ih.step hinj hroot hc hrun

include hroot in
/-- A name bound under a non-empty key is taken: `SetNickname` of the key changes
    nothing and returns `false`. -/
theorem Registered.setNickname_bound {w : World} (hw : Registered root w) {k : String} {acc : UnitAccount}
    (hk : k ≠ "") (hbound : entry root w (nameKey k) = some (.unitAccount acc)) (address : Address) :
    runOn w (setNickname env ctx k address) = some (.ok false, w) := by
  obtain ⟨acc', t, hacc, ht, hkey⟩ := hw _ _ hbound
  cases hacc
  cases nameKey_inj hkey
  exact runOn_setNickname_taken hroot env address (by rw [hbound]; rfl) ht hk

include hinj hroot in
/-- The address bound to a non-empty key changes only by `ChangeKey` of that key from
    the bound address, and then to the new one. -/
theorem Registered.rebind {w w' : World} {c : Call} {r : Except Panic Bool} (hw : Registered root w)
    (h : runOn w (c.run env ctx) = some (r, w')) {k : String} (hk : k ≠ "") {a₀ a₁ : UnitAccount}
    (h₀ : entry root w (nameKey k) = some (.unitAccount a₀)) (h₁ : entry root w' (nameKey k) = some (.unitAccount a₁))
    (hne : a₁.address ≠ a₀.address) : c = .changeKey k a₀.address a₁.address := by
  cases c with
  | setNickname name address =>
    rcases setNickname_inv hroot env (show runOn w (setNickname env ctx name address) = _ from h) with
      ⟨rfl, -⟩ | ⟨acc, n, hacc, hempty, -, -, rfl⟩
    · rw [h₀] at h₁
      cases h₁
      exact absurd rfl hne
    · have hset := entry_set (World.set_root_stores w root .nickname (nameKey name) (.unitAccount ⟨n, address⟩))
      by_cases hkey : nameKey name = nameKey k
      · -- the key was bound, to a name that decodes to `k`, not to `""`
        cases nameKey_inj hkey
        rw [h₀] at hacc
        cases hacc
        obtain ⟨_, t, hacc', ht, hkey'⟩ := hw _ _ h₀
        cases hacc'
        cases nameKey_inj hkey'
        rw [hempty, Except.ok.injEq] at ht
        exact absurd ht.symm hk
      · rw [hset, Function.update_of_ne (Ne.symm hkey), h₀] at h₁
        cases h₁
        exact absurd rfl hne
  | changeKey name old new =>
    rcases changeKey_inv hroot env (show runOn w (changeKey env ctx name old new) = _ from h) with
      ⟨hsame, -⟩ | ⟨acc, n, hacc, haddr, -, -, hset⟩
    · rw [entry_of_stores hsame, h₀] at h₁
      cases h₁
      exact absurd rfl hne
    · by_cases hkey : nameKey name = nameKey k
      · cases nameKey_inj hkey
        rw [h₀] at hacc
        cases hacc
        rw [entry_set hset, Function.update_self] at h₁
        cases h₁
        rw [hinj haddr]
      · rw [entry_set hset, Function.update_of_ne (Ne.symm hkey), h₀] at h₁
        cases h₁
        exact absurd rfl hne

end Invariant

section Registry

variable {env : Env} {ctx : Context} {root : Root}

theorem registry_of_handler_calls (hinj : Function.Injective env.accAddressString)
    (hroot : ctx.multiStore = .root root) {w₀ w : World} (h₀ : (w₀.stores root .nickname).1 = [])
    (hw : Reachable env ctx w₀ w) :
    Registered root w ∧
      (∀ k acc address, k ≠ "" → entry root w (nameKey k) = some (.unitAccount acc) →
        runOn w (setNickname env ctx k address) = some (.ok false, w)) ∧
      (∀ (c : Call) r w', runOn w (c.run env ctx) = some (r, w') → ∀ k a₀ a₁, k ≠ "" →
        entry root w (nameKey k) = some (.unitAccount a₀) → entry root w' (nameKey k) = some (.unitAccount a₁) →
        a₁.address ≠ a₀.address → c = .changeKey k a₀.address a₁.address) := by
  have hreg := (registered_of_nil h₀).reachable hinj hroot hw
  refine ⟨hreg, fun k acc address hk hbound => hreg.setNickname_bound hroot hk hbound address, ?_⟩
  intro c r w' h k a₀ a₁ hk h₀ h₁ hne
  exact hreg.rebind hinj hroot h hk h₀ h₁ hne

theorem sampleEnv_accAddressString_injective : Function.Injective sampleEnv.accAddressString := by
  intro a b h
  have hlist := congrArg String.toList h
  simp only [sampleEnv, sampleBech32, apply_ite String.toList, String.toList_append] at hlist
  split_ifs at hlist with ha hb hb
  · rw [ha, hb]
  · simp at hlist
  · simp at hlist
  · exact Hex.encodeToString_injective (String.toList_inj.mp (List.append_cancel_left hlist))

/-- The empty stores of a fresh chain. -/
def emptyWorld : World := World.init fun _ _ => Listing.empty

def deliverCtx : Context :=
  { multiStore := .root .deliver, root := .deliver, blockHeight := 1, blockTime := 0, consensusParams := none }

/-- Two calls as the handlers make them on a fresh chain: `alice` bound to `[1]`, then moved
    to `[2]` by its owner. -/
theorem registry_of_handler_calls_alice :
    ∃ w, Reachable sampleEnv deliverCtx emptyWorld w ∧
      entry .deliver w (nameKey "alice") = some (.unitAccount ⟨⟨190395215, 0⟩, [2]⟩) ∧
      Registered .deliver w ∧
      (∀ k acc address, k ≠ "" → entry .deliver w (nameKey k) = some (.unitAccount acc) →
        runOn w (setNickname sampleEnv deliverCtx k address) = some (.ok false, w)) ∧
      (∀ (c : Call) r w', runOn w (c.run sampleEnv deliverCtx) = some (r, w') → ∀ k a₀ a₁, k ≠ "" →
        entry .deliver w (nameKey k) = some (.unitAccount a₀) →
        entry .deliver w' (nameKey k) = some (.unitAccount a₁) →
        a₁.address ≠ a₀.address → c = .changeKey k a₀.address a₁.address) := by
  have hsome : ∀ (x : Option (Except Panic Bool × World)), x.isSome = true → x = some (x.getD (.ok false, emptyWorld)) := by
    intro x hx
    cases x <;> simp_all
  have hname : Call.FromHandler (.setNickname "alice" [1]) := ⟨⟨190395215, 0⟩, by decide +kernel⟩
  have h₁ := hsome _ (show (runOn emptyWorld ((Call.setNickname "alice" [1]).run sampleEnv deliverCtx)).isSome = true by
    decide +kernel)
  have h₂ := hsome _ (show (runOn ((runOn emptyWorld ((Call.setNickname "alice" [1]).run sampleEnv deliverCtx)).getD
      (.ok false, emptyWorld)).2 ((Call.changeKey "alice" [1] [2]).run sampleEnv deliverCtx)).isSome = true by
    decide +kernel)
  have hreach := Reachable.step (Reachable.step Reachable.init hname h₁) (c := .changeKey "alice" [1] [2])
    ⟨by decide, by decide⟩ h₂
  exact ⟨_, hreach, by decide +kernel, registry_of_handler_calls sampleEnv_accAddressString_injective rfl rfl hreach⟩

/-- A direct call with a name that is not lower case binds it to a name that decodes to
    its lower case. -/
theorem setNickname_upper_case :
    ∃ w, runOn emptyWorld (setNickname sampleEnv deliverCtx "A" [1]) = some (.ok true, w) ∧
      entry .deliver w (nameKey "A") = some (.unitAccount ⟨⟨11, 0⟩, [1]⟩) ∧
      (⟨11, 0⟩ : Name).mustToString = .ok "a" := by
  have hroot : deliverCtx.multiStore = .root .deliver := rfl
  have hentry : unitAccountOf (entry .deliver emptyWorld (nameKey "A")) = .ok .zero := rfl
  have hzero : UnitAccount.zero.nickname.mustToString = .ok "" := by decide +kernel
  have hname : newName sampleEnv.unicodeToLower "A" = .ok ⟨11, 0⟩ := by decide +kernel
  refine ⟨emptyWorld.set (.root .deliver) .nickname (nameKey "A") (.unitAccount ⟨⟨11, 0⟩, [1]⟩), ?_, ?_,
    by decide +kernel⟩
  · simp only [setNickname, runOn_bind, runOn_getUnitAccount hroot, hentry, Option.bind_some, runOn_liftExcept,
      hzero, ne_eq, not_true_eq_false, if_false, hname, runOn_kvSet hroot, runOn_pure]
  · decide +kernel

end Registry

end Friday.Nickname
