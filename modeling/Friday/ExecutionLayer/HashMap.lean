import Friday.App.Run
import Friday.ExecutionLayer.Keeper
import Friday.Lib.Ascii

/-! # The `contract_hashmap` store

The execution-layer keeper keeps all its values in one store, under keys of four
shapes: fixed ASCII words, `0x11` and a little-endian height, `0x21` and an operator
address, `0x22` and a consensus address. A `Slot` is one place a getter reads, and
`Slot.key` the key the keeper builds for it; distinct slots have distinct keys
(`Slot.key_inj`), for addresses of any length.

`Contents` says what the store is for: one value per slot, which each setter
replaces at its own slot (`Call.apply`). Over any sequence of setter calls on a
state's own store (`Runs`) the store holds exactly the contents (`Represents`), so
each getter reads back what its own setter last wrote, and the prefix iterator over
`0x21` lists the validators and nothing else, by ascending address.
-/

namespace Friday.ExecutionLayer

open Friday.Types App Store SortedKV

inductive Slot
  | eeState (height : Int64)
  | genesisConf
  | genesisAccounts
  | chainName
  | proxyContractHash
  | protocolVersion
  | validator (operatorAddr : Address)
  | validatorByConsAddr (consAddr : List UInt8)
  deriving DecidableEq

namespace Slot

def key : Slot → List UInt8
  | eeState height => getEEStateKey height
  | genesisConf => genesisConfigKey
  | genesisAccounts => genesisAccountKey
  | chainName => chainNameKey
  | proxyContractHash => proxyContractHashKey
  | protocolVersion => protoclVersionKey
  | validator operatorAddr => getValidatorKey operatorAddr
  | validatorByConsAddr consAddr => getValidatorByConsAddrKey consAddr

/-- The first byte of a slot's key: the prefix, or the word's first letter. -/
def tag : Slot → UInt8
  | eeState _ => 0x11
  | genesisConf | genesisAccounts => 0x67
  | chainName => 0x63
  | proxyContractHash | protocolVersion => 0x70
  | validator _ => 0x21
  | validatorByConsAddr _ => 0x22

theorem head?_key (s : Slot) : s.key.head? = some s.tag := by
  cases s <;> rfl

theorem key_inj {s t : Slot} (h : s.key = t.key) : s = t := by
  have htag : s.tag = t.tag := by
    have hhead := congrArg List.head? h
    rwa [head?_key, head?_key, Option.some.injEq] at hhead
  -- slots of different tags are told apart by `htag`; the rest by their payload
  cases s <;> cases t <;> simp [tag] at htag ⊢
  case eeState.eeState => exact getEEStateKey_inj h
  case validator.validator => exact List.append_cancel_left h
  case validatorByConsAddr.validatorByConsAddr => exact List.append_cancel_left h
  all_goals exact absurd h (by decide)

theorem key_eq_cons (s : Slot) : ∃ rest, s.key = s.tag :: rest := by
  have hhead := head?_key s
  cases hkey : s.key with
  | nil => simp [hkey] at hhead
  | cons b rest =>
    rw [hkey, List.head?_cons, Option.some.injEq] at hhead
    exact ⟨rest, by rw [hhead]⟩

/-- `KVStorePrefixIterator(store, ValidatorKey)` visits the validator slots only. -/
theorem isKeyInDomain_key (s : Slot) :
    isKeyInDomain s.key (some validatorKey) (prefixEndBytes validatorKey) = true ↔ ∃ a, s = validator a := by
  obtain ⟨rest, hrest⟩ := key_eq_cons s
  rw [hrest, validatorKey, isKeyInDomain_cons_prefix (by decide)]
  cases s <;> simp [tag]

end Slot

theorem compare_getValidatorKey (a b : Address) :
    compare (getValidatorKey a) (getValidatorKey b) = compare a b := by
  simp [getValidatorKey, validatorKey, List.compare_cons_cons]

theorem drop_getValidatorKey (a : Address) : (getValidatorKey a).drop 1 = a := rfl

/-- What the store means: the value of each slot. -/
structure Contents where
  unitHashMaps : Int64 → Option UnitHashMap
  genesisConf : Option GenesisConf
  genesisAccounts : Option (List Account)
  chainName : Option String
  proxyContractHash : Option (List UInt8)
  protocolVersion : Option ProtocolVersion
  validators : Address → Option Validator
  validatorsByConsAddr : List UInt8 → Option Address

namespace Contents

def empty : Contents :=
  ⟨fun _ => none, none, none, none, none, none, fun _ => none, fun _ => none⟩

/-- The value a slot's key holds, as its setter stores it. -/
def read (c : Contents) : Slot → Option Value
  | .eeState height => (c.unitHashMaps height).map .unitHashMap
  | .genesisConf => c.genesisConf.map .genesisConf
  | .genesisAccounts => c.genesisAccounts.map .genesisAccounts
  | .chainName => c.chainName.map fun chainName => .bytes chainName.toUTF8.data.toList
  | .proxyContractHash => c.proxyContractHash.map .bytes
  | .protocolVersion => c.protocolVersion.map .protocolVersion
  | .validator operatorAddr => (c.validators operatorAddr).map .validator
  | .validatorByConsAddr consAddr => (c.validatorsByConsAddr consAddr).map .bytes

@[simp] theorem read_empty (s : Slot) : empty.read s = none := by
  cases s <;> rfl

end Contents

/-- A call of one of the keeper's setters. -/
inductive Call
  | setUnitHashMap (height : Int64) (unitHash : UnitHashMap)
  | setGenesisConf (genesisConf : GenesisConf)
  | setGenesisAccounts (accounts : List Account)
  | setChainName (chainName : String)
  | setProxyContractHash (contractHash : List UInt8)
  | setProtocolVersion (protocolVersion : ProtocolVersion)
  | setValidator (accAddress : Address) (validator : Validator)
  | setValidatorByConsAddr (validator : Validator)

namespace Call

variable (env : Env)

/-- The call on the keeper; `SetUnitHashMap` runs at the call's height. -/
def run (ctx : Context) : Call → Go Unit
  | setUnitHashMap height unitHash =>
      ExecutionLayer.setUnitHashMap { ctx with blockHeight := height } unitHash >>= fun _ => pure ()
  | setGenesisConf genesisConf => ExecutionLayer.setGenesisConf ctx genesisConf
  | setGenesisAccounts accounts => ExecutionLayer.setGenesisAccounts ctx accounts
  | setChainName chainName => ExecutionLayer.setChainName ctx chainName
  | setProxyContractHash contractHash => ExecutionLayer.setProxyContractHash ctx contractHash
  | setProtocolVersion protocolVersion => ExecutionLayer.setProtocolVersion ctx protocolVersion
  | setValidator accAddress validator => ExecutionLayer.setValidator ctx accAddress validator
  | setValidatorByConsAddr validator => ExecutionLayer.setValidatorByConsAddr env ctx validator

/-- What a setter is for: it replaces the value of its own slot. A state that is
    not 32 bytes is not kept, and an empty list of accounts or chain name is
    refused. -/
def apply : Call → Contents → Contents
  | setUnitHashMap height unitHash, c =>
      if unitHash.eeState.length = 32 then
        { c with unitHashMaps := Function.update c.unitHashMaps height (some unitHash) }
      else c
  | setGenesisConf genesisConf, c => { c with genesisConf := some genesisConf }
  | setGenesisAccounts accounts, c => if accounts = [] then c else { c with genesisAccounts := some accounts }
  | setChainName chainName, c => if chainName = "" then c else { c with chainName := some chainName }
  | setProxyContractHash contractHash, c => { c with proxyContractHash := some contractHash }
  | setProtocolVersion protocolVersion, c => { c with protocolVersion := some protocolVersion }
  | setValidator accAddress validator, c =>
      { c with validators := Function.update c.validators accAddress (some validator) }
  | setValidatorByConsAddr validator, c =>
      let consAddr := env.pubKeyAddress validator.consPubKey
      { c with validatorsByConsAddr := Function.update c.validatorsByConsAddr consAddr (some validator.operatorAddress) }

/-- The slot a call writes and the value it stores there, `none` if it writes
    nothing. -/
def write : Call → Option (Slot × Value)
  | setUnitHashMap height unitHash =>
      if unitHash.eeState.length = 32 then some (.eeState height, .unitHashMap unitHash) else none
  | setGenesisConf genesisConf => some (.genesisConf, .genesisConf genesisConf)
  | setGenesisAccounts accounts => if accounts = [] then none else some (.genesisAccounts, .genesisAccounts accounts)
  | setChainName chainName => if chainName = "" then none else some (.chainName, .bytes chainName.toUTF8.data.toList)
  | setProxyContractHash contractHash => some (.proxyContractHash, .bytes contractHash)
  | setProtocolVersion protocolVersion => some (.protocolVersion, .protocolVersion protocolVersion)
  | setValidator accAddress validator => some (.validator accAddress, .validator validator)
  | setValidatorByConsAddr validator =>
      some (.validatorByConsAddr (env.pubKeyAddress validator.consPubKey), .bytes validator.operatorAddress)

/-- A setter changes the store's meaning at the slot it writes, and nowhere else. -/
theorem read_apply (call : Call) (c : Contents) :
    (call.apply env c).read = match call.write env with
      | some (s, v) => Function.update c.read s (some v)
      | none => c.read := by
  funext t
  -- a setter with a guard writes nothing when it fails; one with an argument
  -- changes the slot of that argument only
  cases call with
  | setUnitHashMap height unitHash =>
    simp only [apply, write]
    split_ifs
    · cases t with
      | eeState h => by_cases hh : h = height <;> simp [Contents.read, hh]
      | _ => simp [Contents.read]
    · rfl
  | setGenesisAccounts accounts =>
    simp only [apply, write]
    split_ifs
    · rfl
    · cases t <;> simp [Contents.read]
  | setChainName chainName =>
    simp only [apply, write]
    split_ifs
    · rfl
    · cases t <;> simp [Contents.read]
  | setValidator accAddress validator =>
    cases t with
    | validator a => by_cases ha : a = accAddress <;> simp [apply, write, Contents.read, ha]
    | _ => simp [apply, write, Contents.read]
  | setValidatorByConsAddr validator =>
    cases t with
    | validatorByConsAddr a =>
      by_cases ha : a = env.pubKeyAddress validator.consPubKey <;> simp [apply, write, Contents.read, ha]
    | _ => simp [apply, write, Contents.read]
  | _ => cases t <;> simp [apply, write, Contents.read]

end Call

/-- The contents after a sequence of calls from the empty store. -/
def Contents.ofCalls (env : Env) (calls : List Call) : Contents :=
  calls.foldl (fun c call => call.apply env c) .empty

theorem Contents.ofCalls_snoc (env : Env) (calls : List Call) (call : Call) :
    Contents.ofCalls env (calls ++ [call]) = call.apply env (Contents.ofCalls env calls) := by
  simp [Contents.ofCalls]

/-- A slot holds what the last call that wrote it wrote, if any call did. -/
theorem Contents.read_ofCalls (env : Env) (calls : List Call) (s : Slot) :
    (Contents.ofCalls env calls).read s =
      ((calls.filterMap (Call.write env)).reverse.find? (·.1 = s)).map (·.2) := by
  induction calls using List.reverseRec with
  | nil => simp [Contents.ofCalls]
  | append_singleton calls call ih =>
    rw [Contents.ofCalls_snoc, Call.read_apply, List.filterMap_append]
    cases hw : call.write env with
    | none => simp [hw, ih]
    | some sv =>
      obtain ⟨t, v⟩ := sv
      by_cases hst : s = t
      · subst hst
        simp [hw]
      · simp [hw, hst, ih, Ne.symm hst]

/-- The listing holds exactly `m`: a slot's key holds the slot's value, and a key of
    no slot holds nothing. -/
structure Represents (m : Slot → Option Value) (p : Listing) : Prop where
  get_key : ∀ s : Slot, sortedStore.get p s.key = m s
  key_of_get : ∀ k v, sortedStore.get p k = some v → ∃ s : Slot, s.key = k

namespace Represents

variable {m : Slot → Option Value} {p : Listing}

theorem empty (hp : p.1 = []) : Represents Contents.empty.read p where
  get_key s := by simp [sortedStore, hp]
  key_of_get k v h := by simp [sortedStore, hp] at h

/-- A write at a slot's key is a write of that slot. -/
theorem set (h : Represents m p) (s : Slot) (v : Value) :
    Represents (Function.update m s (some v)) (sortedStore.set p s.key v) where
  get_key t := by
    rw [sortedStore_lawful.get_set]
    by_cases hts : t = s
    · subst hts
      simp
    · have hkey : t.key ≠ s.key := fun hk => hts (Slot.key_inj hk)
      rw [Function.update_of_ne hkey, Function.update_of_ne hts, h.get_key t]
  key_of_get k v' hk := by
    rw [sortedStore_lawful.get_set] at hk
    by_cases hks : k = s.key
    · exact ⟨s, hks.symm⟩
    · rw [Function.update_of_ne hks] at hk
      exact h.key_of_get k v' hk

end Represents

section Run

variable (env : Env) {root : Root} {ctx : Context} (hroot : ctx.multiStore = .root root)
include hroot

/-- A call does what `Call.write` says to the state's store, and nothing else. -/
theorem runOn_run (w : World) (call : Call) :
    ∃ r, runOn w (call.run env ctx) = some (r, match call.write env with
      | some (s, v) => w.set (.root root) .contractHashmap s.key v
      | none => w) := by
  cases call with
  | setUnitHashMap height unitHash =>
    have hroot' : ({ ctx with blockHeight := height } : Context).multiStore = .root root := hroot
    simp only [Call.run, Call.write, ExecutionLayer.setUnitHashMap]
    by_cases hlen : unitHash.eeState.length = 32
    · have hcond : ¬ (unitHash.eeState.length = 0 ∨ unitHash.eeState.length ≠ 32) := by omega
      simp only [hcond, if_false, if_pos hlen, runOn_bind, runOn_kvSet hroot', runOn_pure, Option.bind_some]
      exact ⟨_, rfl⟩
    · have hcond : unitHash.eeState.length = 0 ∨ unitHash.eeState.length ≠ 32 := .inr hlen
      simp only [hcond, if_true, if_neg hlen, runOn_bind, runOn_pure, Option.bind_some]
      exact ⟨_, rfl⟩
  | setGenesisAccounts accounts =>
    simp only [Call.run, Call.write, ExecutionLayer.setGenesisAccounts]
    by_cases hnil : accounts = []
    · simp only [hnil, if_true, runOn_bind, runOn_throw, Option.bind_some]
      exact ⟨_, rfl⟩
    · simp only [hnil, if_false, runOn_kvSet hroot]
      exact ⟨_, rfl⟩
  | setChainName chainName =>
    simp only [Call.run, Call.write, ExecutionLayer.setChainName]
    by_cases hempty : chainName = ""
    · simp only [hempty, if_true, runOn_bind, runOn_throw, Option.bind_some]
      exact ⟨_, rfl⟩
    · simp only [hempty, if_false, runOn_kvSet hroot]
      exact ⟨_, rfl⟩
  | setGenesisConf genesisConf => exact ⟨_, runOn_kvSet hroot _ _ _⟩
  | setProxyContractHash contractHash => exact ⟨_, runOn_kvSet hroot _ _ _⟩
  | setProtocolVersion protocolVersion => exact ⟨_, runOn_kvSet hroot _ _ _⟩
  | setValidator accAddress validator => exact ⟨_, runOn_kvSet hroot _ _ _⟩
  | setValidatorByConsAddr validator => exact ⟨_, runOn_kvSet hroot _ _ _⟩

theorem represents_run {w w' : World} {call : Call} {r : Except Panic Unit} {c : Contents}
    (hcall : runOn w (call.run env ctx) = some (r, w'))
    (hc : Represents c.read (w.stores root .contractHashmap)) :
    Represents (call.apply env c).read (w'.stores root .contractHashmap) := by
  obtain ⟨r', hr⟩ := runOn_run env hroot w call
  rw [hcall, Option.some.injEq, Prod.mk.injEq] at hr
  rw [hr.2, Call.read_apply]
  cases call.write env with
  | none => exact hc
  | some sv =>
    obtain ⟨s, v⟩ := sv
    rw [World.set_root_stores]
    exact hc.set s v

/-- Setter calls made one after another: each runs to its end or to its panic, and
    the next starts from the state it left. -/
inductive Runs (ctx : Context) : World → List Call → World → Prop
  | nil (w : World) : Runs ctx w [] w
  | cons {w w₁ w' : World} {call : Call} {calls : List Call} {r : Except Panic Unit} :
      runOn w (call.run env ctx) = some (r, w₁) → Runs ctx w₁ calls w' → Runs ctx w (call :: calls) w'

theorem Runs.represents {w w' : World} {calls : List Call} {c : Contents} (h : Runs env ctx w calls w')
    (hc : Represents c.read (w.stores root .contractHashmap)) :
    Represents (calls.foldl (fun c call => call.apply env c) c).read (w'.stores root .contractHashmap) := by
  induction h generalizing c with
  | nil => exact hc
  | cons hcall _ ih => exact ih (represents_run env hroot hcall hc)

end Run

section Getters

variable {root : Root} {ctx : Context} (hroot : ctx.multiStore = .root root) {c : Contents} {w : World}
  (h : Represents c.read (w.stores root .contractHashmap))
include hroot h

theorem runOn_getUnitHashMap (height : Int64) :
    runOn w (getUnitHashMap ctx height) = some (.ok ((c.unitHashMaps height).getD { eeState := [] }), w) := by
  have hget : sortedStore.get (w.stores root .contractHashmap) (getEEStateKey height) =
      (c.unitHashMaps height).map .unitHashMap := h.get_key (.eeState height)
  simp only [getUnitHashMap, runOn_bind, runOn_kvGet hroot, hget, Option.bind_some]
  cases c.unitHashMaps height <;> rfl

theorem runOn_getGenesisConf : runOn w (getGenesisConf ctx) = some (.ok (c.genesisConf.getD .zero), w) := by
  have hget : sortedStore.get (w.stores root .contractHashmap) genesisConfigKey =
      c.genesisConf.map .genesisConf := h.get_key .genesisConf
  simp only [getGenesisConf, runOn_bind, runOn_kvGet hroot, hget, Option.bind_some]
  cases c.genesisConf <;> rfl

theorem runOn_getGenesisAccounts : runOn w (getGenesisAccounts ctx) = some (.ok (c.genesisAccounts.getD []), w) := by
  have hget : sortedStore.get (w.stores root .contractHashmap) genesisAccountKey =
      c.genesisAccounts.map .genesisAccounts := h.get_key .genesisAccounts
  simp only [getGenesisAccounts, runOn_bind, runOn_kvGet hroot, hget, Option.bind_some]
  cases c.genesisAccounts <;> rfl

theorem runOn_getChainName : runOn w (getChainName ctx) = some (.ok (c.chainName.getD ""), w) := by
  have hget : sortedStore.get (w.stores root .contractHashmap) chainNameKey =
      c.chainName.map fun chainName => .bytes chainName.toUTF8.data.toList := h.get_key .chainName
  simp only [getChainName, runOn_bind, runOn_kvGet hroot, hget, Option.bind_some]
  cases c.chainName with
  | none => rfl
  | some chainName =>
    -- `string(chainNameBytes)` gives back the name that was stored
    simp only [Option.map_some, Ascii.fromUTF8_toUTF8_data, Option.getD_some]
    rfl

theorem runOn_getProxyContractHash :
    runOn w (getProxyContractHash ctx) = some (.ok c.proxyContractHash, w) := by
  have hget : sortedStore.get (w.stores root .contractHashmap) proxyContractHashKey =
      c.proxyContractHash.map .bytes := h.get_key .proxyContractHash
  simp only [getProxyContractHash, runOn_bind, runOn_kvGet hroot, hget, Option.bind_some]
  cases c.proxyContractHash <;> rfl

theorem runOn_getProtocolVersion :
    runOn w (getProtocolVersion ctx) = some (.ok (c.protocolVersion.getD ⟨0, 0, 0⟩), w) := by
  have hget : sortedStore.get (w.stores root .contractHashmap) protoclVersionKey =
      c.protocolVersion.map .protocolVersion := h.get_key .protocolVersion
  simp only [getProtocolVersion, runOn_bind, runOn_kvGet hroot, hget, Option.bind_some]
  cases c.protocolVersion <;> rfl

theorem runOn_getValidator (accAddress : Address) :
    runOn w (getValidator ctx accAddress) =
      some (.ok (((c.validators accAddress).map (·, true)).getD (.zero, false)), w) := by
  have hget : sortedStore.get (w.stores root .contractHashmap) (getValidatorKey accAddress) =
      (c.validators accAddress).map .validator := h.get_key (.validator accAddress)
  simp only [getValidator, runOn_bind, runOn_kvGet hroot, hget, Option.bind_some]
  cases c.validators accAddress <;> rfl

/-- The index gives the operator last written for the consensus address, whose
    validator is read. -/
theorem runOn_getValidatorByConsAddr (consAddr : List UInt8) :
    runOn w (getValidatorByConsAddr ctx consAddr) =
      some (.ok (match c.validatorsByConsAddr consAddr with
        | some opAddr => ((c.validators opAddr).map (·, true)).getD (.zero, false)
        | none => (.zero, false)), w) := by
  have hget : sortedStore.get (w.stores root .contractHashmap) (getValidatorByConsAddrKey consAddr) =
      (c.validatorsByConsAddr consAddr).map .bytes := h.get_key (.validatorByConsAddr consAddr)
  simp only [getValidatorByConsAddr, runOn_bind, runOn_kvGet hroot, hget, Option.bind_some]
  cases c.validatorsByConsAddr consAddr with
  | none => rfl
  | some opAddr => exact runOn_getValidator hroot h opAddr

end Getters

section AllValidators

variable {root : Root} {c : Contents} {w : World} (h : Represents c.read (w.stores root .contractHashmap))
include h

/-- The entries `KVStorePrefixIterator(store, ValidatorKey)` yields: the validators,
    and nothing any other setter wrote. -/
theorem mem_validatorEntries {e : List UInt8 × Value} :
    e ∈ sortedStore.iterator (w.stores root .contractHashmap) (some validatorKey) (prefixEndBytes validatorKey) ↔
      ∃ a v, c.validators a = some v ∧ e = (getValidatorKey a, .validator v) := by
  obtain ⟨k, x⟩ := e
  have hmem : (k, x) ∈ (w.stores root .contractHashmap).1 ↔
      sortedStore.get (w.stores root .contractHashmap) k = some x :=
    (Ascending.lookup_eq_some_iff (w.stores root .contractHashmap).2).symm
  change (k, x) ∈ (w.stores root .contractHashmap).1.filter (isKeyInDomain ·.1 _ _) ↔ _
  rw [List.mem_filter, hmem]
  constructor
  · rintro ⟨hk, hdom⟩
    obtain ⟨s, rfl⟩ := h.key_of_get k x hk
    obtain ⟨a, rfl⟩ := (Slot.isKeyInDomain_key s).mp hdom
    rw [h.get_key] at hk
    obtain ⟨v, hv, rfl⟩ := Option.map_eq_some_iff.mp hk
    exact ⟨a, v, hv, rfl⟩
  · rintro ⟨a, v, hv, he⟩
    obtain ⟨rfl, rfl⟩ := Prod.mk.inj he
    refine ⟨?_, (Slot.isKeyInDomain_key (.validator a)).mpr ⟨a, rfl⟩⟩
    rw [show getValidatorKey a = (Slot.validator a).key from rfl, h.get_key]
    simp [Contents.read, hv]

/-- `GetAllValidators` returns the validators last written, one for each operator
    address, by ascending address. -/
theorem runOn_getAllValidators :
    ∃ l, Lists compare c.validators (fun _ => True) l ∧
      runOn w (getAllValidators root) = some (.ok (l.map Prod.snd), w) := by
  let entries :=
    sortedStore.iterator (w.stores root .contractHashmap) (some validatorKey) (prefixEndBytes validatorKey)
  let validatorOf : List UInt8 × Value → Validator := fun e => (c.validators (e.1.drop 1)).getD .zero
  have hof : ∀ a v, c.validators a = some v → validatorOf (getValidatorKey a, .validator v) = v := by
    intro a v hv
    simp only [validatorOf, drop_getValidatorKey, hv, Option.getD_some]
  refine ⟨entries.map fun e => (e.1.drop 1, validatorOf e), ⟨?_, ?_⟩, ?_⟩
  · -- the keys share their first byte, so the addresses keep the keys' order
    have hasc : Ascending compare entries :=
      (w.stores root .contractHashmap).2.sublist List.filter_sublist
    unfold Ascending at hasc ⊢
    rw [List.pairwise_map]
    refine hasc.imp_of_mem ?_
    intro e₁ e₂ he₁ he₂ hlt
    obtain ⟨a₁, v₁, -, rfl⟩ := (mem_validatorEntries h).mp he₁
    obtain ⟨a₂, v₂, -, rfl⟩ := (mem_validatorEntries h).mp he₂
    rwa [drop_getValidatorKey, drop_getValidatorKey, ← compare_getValidatorKey]
  · intro a v
    simp only [List.mem_map, true_and]
    constructor
    · rintro ⟨e, he, hae⟩
      obtain ⟨a', v', hv', rfl⟩ := (mem_validatorEntries h).mp he
      simp only [hof a' v' hv', drop_getValidatorKey, Prod.mk.injEq] at hae
      obtain ⟨rfl, rfl⟩ := hae
      exact hv'
    · intro hv
      refine ⟨(getValidatorKey a, .validator v), (mem_validatorEntries h).mpr ⟨a, v, hv, rfl⟩, ?_⟩
      simp only [hof a v hv, drop_getValidatorKey]
  · simp only [getAllValidators, runOn_bind, runOn_iterator, Option.bind_some]
    refine (runOn_mapM (g := validatorOf) entries fun e he => ?_).trans ?_
    · obtain ⟨a, v, hv, rfl⟩ := (mem_validatorEntries h).mp he
      rw [hof a v hv]
    · rw [List.map_map]
      rfl

end AllValidators

/-- After any sequence of setter calls on a state's own store, from an empty store,
    every getter reads what its own setter last wrote for the same argument, or its
    default, and `GetAllValidators` lists the validators last written, by ascending
    address. -/
theorem getters_of_setter_runs {env : Env} {root : Root} {ctx : Context} {w₀ w : World} {calls : List Call}
    (hroot : ctx.multiStore = .root root) (h₀ : (w₀.stores root .contractHashmap).1 = [])
    (hrun : Runs env ctx w₀ calls w) :
    let c := Contents.ofCalls env calls
    (∀ height, runOn w (getUnitHashMap ctx height) =
        some (.ok ((c.unitHashMaps height).getD { eeState := [] }), w)) ∧
      runOn w (getGenesisConf ctx) = some (.ok (c.genesisConf.getD .zero), w) ∧
      runOn w (getGenesisAccounts ctx) = some (.ok (c.genesisAccounts.getD []), w) ∧
      runOn w (getChainName ctx) = some (.ok (c.chainName.getD ""), w) ∧
      runOn w (getProxyContractHash ctx) = some (.ok c.proxyContractHash, w) ∧
      runOn w (getProtocolVersion ctx) = some (.ok (c.protocolVersion.getD ⟨0, 0, 0⟩), w) ∧
      (∀ accAddress, runOn w (getValidator ctx accAddress) =
        some (.ok (((c.validators accAddress).map (·, true)).getD (.zero, false)), w)) ∧
      (∀ consAddr, runOn w (getValidatorByConsAddr ctx consAddr) =
        some (.ok (match c.validatorsByConsAddr consAddr with
          | some opAddr => ((c.validators opAddr).map (·, true)).getD (.zero, false)
          | none => (.zero, false)), w)) ∧
      ∃ l, Lists compare c.validators (fun _ => True) l ∧
        runOn w (getAllValidators root) = some (.ok (l.map Prod.snd), w) := by
  intro c
  have h : Represents c.read (w.stores root .contractHashmap) :=
    hrun.represents env hroot (Represents.empty h₀)
  exact ⟨runOn_getUnitHashMap hroot h, runOn_getGenesisConf hroot h, runOn_getGenesisAccounts hroot h,
    runOn_getChainName hroot h, runOn_getProxyContractHash hroot h, runOn_getProtocolVersion hroot h,
    runOn_getValidator hroot h, runOn_getValidatorByConsAddr hroot h, runOn_getAllValidators h⟩

theorem getters_of_setter_runs_sample :
    ∃ w, Runs sampleEnv ⟨.root .deliver, .deliver, 1, 0, none⟩ (World.init fun _ _ => ⟨[], by decide⟩)
        [.setValidator [2] .zero, .setChainName "friday", .setValidator [1] .zero] w ∧
      let c := Contents.ofCalls sampleEnv [.setValidator [2] .zero, .setChainName "friday", .setValidator [1] .zero]
      let ctx : Context := ⟨.root .deliver, .deliver, 1, 0, none⟩
      (∀ height, runOn w (getUnitHashMap ctx height) =
          some (.ok ((c.unitHashMaps height).getD { eeState := [] }), w)) ∧
        runOn w (getGenesisConf ctx) = some (.ok (c.genesisConf.getD .zero), w) ∧
        runOn w (getGenesisAccounts ctx) = some (.ok (c.genesisAccounts.getD []), w) ∧
        runOn w (getChainName ctx) = some (.ok (c.chainName.getD ""), w) ∧
        runOn w (getProxyContractHash ctx) = some (.ok c.proxyContractHash, w) ∧
        runOn w (getProtocolVersion ctx) = some (.ok (c.protocolVersion.getD ⟨0, 0, 0⟩), w) ∧
        (∀ accAddress, runOn w (getValidator ctx accAddress) =
          some (.ok (((c.validators accAddress).map (·, true)).getD (.zero, false)), w)) ∧
        (∀ consAddr, runOn w (getValidatorByConsAddr ctx consAddr) =
          some (.ok (match c.validatorsByConsAddr consAddr with
            | some opAddr => ((c.validators opAddr).map (·, true)).getD (.zero, false)
            | none => (.zero, false)), w)) ∧
        ∃ l, Lists compare c.validators (fun _ => True) l ∧
          runOn w (getAllValidators .deliver) = some (.ok (l.map Prod.snd), w) := by
  have hrun : Runs sampleEnv ⟨.root .deliver, .deliver, 1, 0, none⟩ (World.init fun _ _ => ⟨[], by decide⟩)
      [.setValidator [2] .zero, .setChainName "friday", .setValidator [1] .zero] _ :=
    .cons rfl (.cons rfl (.cons rfl (.nil _)))
  exact ⟨_, hrun, getters_of_setter_runs rfl rfl hrun⟩

end Friday.ExecutionLayer
