import Friday.Lib.SortedKV
import Friday.Lib.WriteBack
import Friday.Lib.Script
import Friday.Lib.Threads
import Friday.Store.Types
import Friday.Store.CacheKV.MemIterator
import Friday.Store.CacheKV.MergeIterator
import Friday.Store.CacheKV.Store
import Friday.Store.CacheKV.Refinement
import Friday.Store.CacheKV.Flush
import Friday.Types.Block
import Friday.Types.Result
import Friday.App.Store
import Friday.Lib.Ascii
import Friday.Nickname.Name
import Friday.App.Runtime
import Friday.ExecutionLayer.Types
import Friday.ExecutionLayer.Util
import Friday.App.Env
import Friday.Auth.Keeper
import Friday.Lib.LittleEndian
import Friday.ExecutionLayer.Keeper
import Friday.Nickname.Handler
import Friday.ExecutionLayer.Handler
import Friday.ExecutionLayer.ABCI
import Friday.Baseapp.RunTx
import Friday.App.World
import Friday.App.Run
import Friday.Nickname.Registry
import Friday.Nickname.Genesis
import Friday.ExecutionLayer.HashMap
import Friday.ExecutionLayer.VotingPower
import Friday.Types.Coin
import Friday.Types.Dec
import Friday.Auth.Account
import Friday.Auth.Delegation
import Friday.GenAccounts.GenesisAccount
import Friday.Lib.Rounding
import Friday.Lib.BigInt
import Friday.Types.Int
import Friday.Lib.Strconv
import Friday.Crypto.HdPath
import Friday.Staking.Validator
import Friday.Lib.Merge
import Friday.Types.CoinArithmetic
import Friday.Lib.Json
import Friday.Types.DecString
import Friday.Lib.Search
import Friday.Types.DecCoin
import Friday.Bank.Keeper
import Friday.Bank.Send
import Friday.Bank.Delegate
import Friday.Supply.Supply
import Friday.Supply.Keeper
import Friday.Mint.Minter
import Friday.Mint.BeginBlocker
import Friday.Lib.Lex
import Friday.Lib.Metered
import Friday.Store.Prefix
import Friday.Store.GasKV
import Friday.ExecutionLayer.Genesis
import Friday.ExecutionLayer.Querier
import Friday.Lib.Base64
import Friday.Lib.Hex
import Friday.Lib.Strings
import Friday.Types.Address
import Friday.ExecutionLayer.Bech32Args
