import Friday.Types.Block
import Friday.Types.Coin
import Friday.Types.Result

/-! # What the multistore holds

`app.go` mounts one `KVStore` per store key. The modelled keepers use three of
them: `acc` (auth), `contract_hashmap` (executionlayer) and `nickname`. Keys are
the bytes the keepers build. A value is kept decoded: the amino codec is not part
of the repository, and a keeper reads back the Go value it marshalled, so a stored
value is that Go value. Raw byte values (`store.Set(key, bytes)`) stay bytes.
-/

namespace Friday

open Friday.Types

/-- `crypto.PubKey`: its amino type name and its key bytes. -/
structure PubKey where
  keyType : String
  bytes : List UInt8
  deriving DecidableEq, Repr

namespace Auth

/-- `auth.BaseAccount`, with the fields the modelled code reads or sets. -/
structure BaseAccount where
  address : Address
  accountNumber : Nat
  sequence : Nat
  coins : Coins := []
  deriving DecidableEq, Repr

end Auth

namespace ExecutionLayer

/-- `types.Description`. -/
structure Description where
  moniker : String
  identity : String
  website : String
  details : String
  deriving DecidableEq, Repr

/-- `types.Validator`. -/
structure Validator where
  operatorAddress : Address
  consPubKey : PubKey
  description : Description
  stake : String
  deriving DecidableEq, Repr

/-- `types.UnitHashMap`: the execution engine's state after a block. -/
structure UnitHashMap where
  eeState : Hash
  deriving DecidableEq, Repr

/-- `types.Genesis`: the chain's genesis information handed to the engine. -/
structure Genesis where
  timestamp : Nat
  mintWasm : List UInt8
  posWasm : List UInt8
  standardPaymentWasm : List UInt8
  protocolVersion : String
  deriving DecidableEq, Repr

/-- `types.GenesisConf`, with its `Genesis` part. -/
structure GenesisConf where
  genesis : Genesis
  deriving DecidableEq, Repr

/-- The zero `GenesisConf`, what `GetGenesisConf` reads from a missing key. -/
def GenesisConf.zero : GenesisConf :=
  { genesis := { timestamp := 0, mintWasm := [], posWasm := [], standardPaymentWasm := [], protocolVersion := "" } }

/-- `types.Account`: a genesis account of the execution engine. -/
structure Account where
  address : Address
  initialBalance : String
  initialBondedAmount : String
  deriving DecidableEq, Repr

end ExecutionLayer

namespace Nickname

/-- `types.Name`: a nickname packed in two words. -/
structure Name where
  h : UInt64
  l : UInt64
  deriving DecidableEq, Repr

/-- `types.UnitAccount`. -/
structure UnitAccount where
  nickname : Name
  address : Address
  deriving DecidableEq, Repr

end Nickname

namespace App

/-- The store keys of `app.go`. -/
inductive StoreName
  | main
  | acc
  | staking
  | supply
  | mint
  | distr
  | slashing
  | gov
  | params
  | nickname
  | contractHashmap
  deriving DecidableEq, Repr

/-- A stored value. -/
inductive Value
  | account (acc : Auth.BaseAccount)
  /-- The global account number counter. -/
  | accountNumber (n : Nat)
  | validator (validator : ExecutionLayer.Validator)
  | unitHashMap (unitHash : ExecutionLayer.UnitHashMap)
  | protocolVersion (protocolVersion : ProtocolVersion)
  | unitAccount (unitAccount : Nickname.UnitAccount)
  | genesisConf (genesisConf : ExecutionLayer.GenesisConf)
  | genesisAccounts (accounts : List ExecutionLayer.Account)
  | bytes (bytes : List UInt8)
  deriving DecidableEq, Repr

end App

end Friday
