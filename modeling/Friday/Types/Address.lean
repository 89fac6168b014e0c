import Friday.Auth.Account

/-! # Bech32 addresses

`types/address.go`, with the default configuration: account addresses are bech32 texts of the
human-readable part `friday`, contract hashes and contract references of `fridaycontracthash`
and `fridaycontracturef`. `GetFromBech32` decodes a text and checks its part; an account
address must also have `AddrLen` bytes. A text of white space (`strings.TrimSpace`) decodes to no
address at all.

`bech32.DecodeAndConvert` belongs to tendermint's `libs/bech32`, which is not part of the
repository: it is a parameter, and a result that needs what it returns on some text says so in
its hypotheses.
-/

namespace Friday.Types

/-- `Bech32MainPrefix`. -/
def bech32MainPrefix : String := "friday"

/-- `PrefixContract`. -/
def prefixContract : String := "contract"

/-- `PrefixHash`. -/
def prefixHash : String := "hash"

/-- `PrefixURef`. -/
def prefixURef : String := "uref"

/-- `Bech32PrefixAccAddr`. -/
def bech32PrefixAccAddr : String := bech32MainPrefix

/-- `Bech32PrefixContractHash`. -/
def bech32PrefixContractHash : String := bech32MainPrefix ++ prefixContract ++ prefixHash

/-- `Bech32PrefixContractURef`. -/
def bech32PrefixContractURef : String := bech32MainPrefix ++ prefixContract ++ prefixURef

/-- `AddrLen`. -/
def addrLen : Nat := 32

/-- The errors of the address decoders: one of the `bech32` package, or one of their own, each
    by its text. -/
inductive AddressError
  | bech32 (err : String)
  | msg (text : String)
  deriving DecidableEq, Repr

/-- `err.Error()`. -/
def AddressError.error : AddressError → String
  | .bech32 err => err
  | .msg text => text

section Decode

-- `bech32.DecodeAndConvert`: the human-readable part and the bytes of a text, or an error
variable (decodeAndConvert : String → Except String (String × List UInt8))

/-- `GetFromBech32`. -/
def getFromBech32 (bech32str pre : String) : Except AddressError (List UInt8) := do
  if bech32str.utf8ByteSize = 0 then throw (.msg "decoding Bech32 address failed: must provide an address")
  let decoded ← (decodeAndConvert bech32str).mapError .bech32
  if decoded.1 ≠ pre then throw (.msg ("invalid Bech32 prefix; expected " ++ pre ++ ", got " ++ decoded.1))
  return decoded.2

/-- `VerifyAddressFormat`, with no address verifier configured. -/
def verifyAddressFormat (bz : List UInt8) : Except AddressError Unit :=
  if bz.length ≠ addrLen then throw (.msg "Incorrect address length") else pure ()

/-- `AccAddressFromBech32`. -/
def accAddressFromBech32 (address : String) : Except AddressError Address := do
  if Auth.isBlank address then return []
  let bz ← getFromBech32 decodeAndConvert address bech32PrefixAccAddr
  verifyAddressFormat bz
  return bz

/-- The decoder of contract addresses, for their human-readable part. -/
def contractAddressFromBech32 (pre address : String) : Except AddressError (List UInt8) := do
  if Auth.isBlank address then return []
  getFromBech32 decodeAndConvert address pre

/-- `ContractHashAddressFromBech32`. -/
def contractHashAddressFromBech32 (address : String) : Except AddressError (List UInt8) :=
  contractAddressFromBech32 decodeAndConvert bech32PrefixContractHash address

/-- `ContractUrefAddressFromBech32`. -/
def contractUrefAddressFromBech32 (address : String) : Except AddressError (List UInt8) :=
  contractAddressFromBech32 decodeAndConvert bech32PrefixContractURef address

/-- A contract hash text, not blank, that the decoder reads with the contract hash prefix
    decodes to its bytes. -/
theorem contractHashAddressFromBech32_eq_ok {address : String} {bytes : List UInt8}
    (hblank : Auth.isBlank address = false) (hsize : address.utf8ByteSize ≠ 0)
    (h : decodeAndConvert address = .ok (bech32PrefixContractHash, bytes)) :
    contractHashAddressFromBech32 decodeAndConvert address = .ok bytes := by
  simp [contractHashAddressFromBech32, contractAddressFromBech32, getFromBech32, hblank, hsize, h, Except.mapError]

end Decode

end Friday.Types
