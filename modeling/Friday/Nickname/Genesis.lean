import Friday.Nickname.Registry

/-! # The nickname genesis

`x/nickname/genesis.go`. `ExportGenesis` walks the store and writes each entry's
`UnitAccount` as a `MsgSetAccount`; `InitGenesis` rebinds each record under what its
name decodes to; `ValidateGenesis` rejects a record whose name is the zero name or
whose address is empty. A name that does not decode is bound under `""` to the zero
name, so a state that the handlers reach can export a genesis that fails validation.
-/

namespace Friday.Nickname

open Friday.Types App

/-- `GetUnitAccount(ctx, string(key))`: Go's `[]byte(string(key))` is `key` again. -/
def getUnitAccountAt (ctx : Context) (key : List UInt8) : Go UnitAccount := do
  if (← kvGet ctx .nickname key).isNone then return .zero
  match ← kvGet ctx .nickname key with
  | some (.unitAccount acc) => return acc
  | _ => throw Auth.decodePanic

/-- `ExportGenesis`: a `MsgSetAccount` for each key of the store, in key order. -/
def exportGenesis (ctx : Context) : Go (List MsgSetNickname) := do
  let entries ← Go.call (.iterator ctx.root .nickname none none)
  entries.mapM fun entry => do
    let acc ← getUnitAccountAt ctx entry.1
    return { nickname := acc.nickname, address := acc.address }

variable (env : Env)

/-- `ValidateGenesis`: the error of the first record without a name or an address. -/
def validateGenesis : List MsgSetNickname → Except Panic (Option String)
  | [] => .ok none
  | record :: records => do
    if newName env.unicodeToLower "" = .ok record.nickname then
      return some ("Invalid UnitAccount!\nName: " ++ (← record.nickname.mustToString) ++ ". Error: Missing id")
    if env.accAddressString record.address = "" then
      return some ("Invalid UnitAccount: Address: " ++ env.accAddressString record.address ++ ". Error: Missing Address")
    validateGenesis records

/-- `InitGenesis`: `SetNickname` of each record's decoded name, whatever it returns. -/
def initGenesis (ctx : Context) : List MsgSetNickname → Go Unit
  | [] => pure ()
  | record :: records => do
    let _ ← setNickname env ctx (← liftExcept record.nickname.mustToString) record.address
    initGenesis ctx records

/-- A name that does not decode passes `MsgSetNickname.ValidateBasic` and is bound under
    the empty key, to the zero name; `ExportGenesis` writes that record, and
    `ValidateGenesis` rejects it. -/
theorem exportGenesis_rejected :
    (⟨0, 5⟩ : Name).mustToString = .ok "" ∧ Msg.validateBasic sampleEnv (.setNickname ⟨⟨0, 5⟩, [1]⟩) = none ∧
      ∃ w, Reachable sampleEnv deliverCtx emptyWorld w ∧
        runOn emptyWorld (setNickname sampleEnv deliverCtx "" [1]) = some (.ok true, w) ∧
        runOn w (exportGenesis deliverCtx) = some (.ok [⟨⟨0, 0⟩, [1]⟩], w) ∧
        validateGenesis sampleEnv [⟨⟨0, 0⟩, [1]⟩] = .ok (some "Invalid UnitAccount!\nName: . Error: Missing id") := by
  have hroot : deliverCtx.multiStore = .root .deliver := rfl
  have hentry : unitAccountOf (entry .deliver emptyWorld (nameKey "")) = .ok .zero := rfl
  have hzero : UnitAccount.zero.nickname.mustToString = .ok "" := by decide +kernel
  have hname : newName sampleEnv.unicodeToLower "" = .ok ⟨0, 0⟩ := by decide +kernel
  have hrun : runOn emptyWorld (setNickname sampleEnv deliverCtx "" [1]) =
      some (.ok true, emptyWorld.set (.root .deliver) .nickname (nameKey "") (.unitAccount ⟨⟨0, 0⟩, [1]⟩)) := by
    simp only [setNickname, runOn_bind, runOn_getUnitAccount hroot, hentry, Option.bind_some, runOn_liftExcept,
      hzero, ne_eq, not_true_eq_false, if_false, hname, runOn_kvSet hroot, runOn_pure]
  have hcall : (Call.setNickname "" [1]).FromHandler := ⟨⟨0, 5⟩, by decide +kernel⟩
  refine ⟨by decide +kernel, by decide +kernel, _, .step .init hcall hrun, hrun, ?_, by decide +kernel⟩
  rfl

end Friday.Nickname
