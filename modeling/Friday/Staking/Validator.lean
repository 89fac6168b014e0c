import Friday.Types.Dec

/-! # Validator shares

`x/staking/types/validator.go`. A validator holds `Tokens` and has issued
`DelegatorShares`; a delegation is a number of shares, worth
`shares * Tokens / DelegatorShares` tokens. Shares are issued with a truncating `QuoInt`
and redeemed with `TokensFromShares`, a `Quo` rounded half to even, truncated afterwards
by `TruncateInt`. The rounding half to even comes first: a redemption just below a whole
token pays the whole token (`removeDelShares_pays_over_share`), more than the shares are
worth, and the tokens per share fall.

The model keeps the two fields the share accounting reads.
-/

namespace Friday.Staking

open Friday.Types

/-- `DefaultCodespace`. -/
def defaultCodespace : String := "staking"

/-- `ErrInsufficientShares`. -/
def errInsufficientShares : SdkError :=
  { codespace := defaultCodespace, code := 102, message := "insufficient delegation shares" }

/-- `Validator`, with the fields of the share accounting. -/
structure Validator where
  tokens : Int
  delegatorShares : Dec
  deriving DecidableEq, Repr

namespace Validator

/-- `InvalidExRate`: no tokens left for shares that are still out. -/
def invalidExRate (v : Validator) : Bool := v.tokens == 0 && decide (0 < v.delegatorShares.int)

def tokensFromShares (v : Validator) (shares : Dec) : Except Panic Dec := do
  (← shares.mulInt v.tokens).quo v.delegatorShares

def tokensFromSharesTruncated (v : Validator) (shares : Dec) : Except Panic Dec := do
  (← shares.mulInt v.tokens).quoTruncate v.delegatorShares

def tokensFromSharesRoundUp (v : Validator) (shares : Dec) : Except Panic Dec := do
  (← shares.mulInt v.tokens).quoRoundUp v.delegatorShares

/-- `SharesFromTokens`: an error when the validator has no tokens. -/
def sharesFromTokens (v : Validator) (amt : Int) : Except Panic (Except SdkError Dec) := do
  if v.tokens = 0 then return .error errInsufficientShares
  return .ok (← (← v.delegatorShares.mulInt amt).quoInt v.tokens)

/-- `AddTokensFromDel`: the first delegation sets the exchange rate to one. -/
def addTokensFromDel (v : Validator) (amount : Int) : Except Panic (Validator × Dec) := do
  let issuedShares ←
    if v.delegatorShares.int = 0 then pure (newDecFromInt amount)
    else
      match ← v.sharesFromTokens amount with
      | .error err => throw (.other err.error)
      | .ok shares => pure shares
  let tokens ← SdkInt.add v.tokens amount
  let delegatorShares ← v.delegatorShares.add issuedShares
  return ({ tokens, delegatorShares }, issuedShares)

def removeTokens (v : Validator) (tokens : Int) : Except Panic Validator := do
  if tokens < 0 then
    throw (.other ("should not happen: trying to remove negative tokens " ++ toString tokens))
  if v.tokens < tokens then
    throw (.other ("should not happen: only have " ++ toString v.tokens ++ " tokens, trying to remove " ++
      toString tokens))
  return { v with tokens := ← SdkInt.sub v.tokens tokens }

/-- `RemoveDelShares`: the last share takes all the tokens left; otherwise the shares'
worth is truncated, and the fractions stay with the validator. -/
def removeDelShares (v : Validator) (delShares : Dec) : Except Panic (Validator × Int) := do
  let remainingShares ← v.delegatorShares.sub delShares
  if remainingShares.int = 0 then
    return ({ tokens := 0, delegatorShares := remainingShares }, v.tokens)
  let issuedTokens ← (← v.tokensFromShares delShares).truncateInt
  let tokens ← SdkInt.sub v.tokens issuedTokens
  if tokens < 0 then throw (.other "attempting to remove more tokens than available in validator")
  return ({ tokens, delegatorShares := remainingShares }, issuedTokens)

/-- Shares of `10^-18` from a validator with `2 * 10^18 - 1` tokens and `2` shares are worth
`1 - 1/2 * 10^-18` tokens; `Quo` rounds that tie to `1`, and the redemption pays one
token. Afterwards the tokens per share are lower. -/
theorem removeDelShares_pays_over_share :
    let v : Validator := ⟨2 * 10 ^ 18 - 1, ⟨2 * 10 ^ 18⟩⟩
    let s : Dec := ⟨1⟩
    v.invalidExRate = false ∧ 0 < s.int ∧ s.int ≤ v.delegatorShares.int ∧
      v.removeDelShares s = .ok (⟨2 * 10 ^ 18 - 2, ⟨2 * 10 ^ 18 - 1⟩⟩, 1) ∧
      -- the tokens paid, against the exact worth `s * Tokens / DelegatorShares`
      s.int * v.tokens < 1 * v.delegatorShares.int ∧
      -- the exchange rate `Tokens / DelegatorShares` falls
      (2 * 10 ^ 18 - 2) * v.delegatorShares.int < v.tokens * (2 * 10 ^ 18 - 1) := by
  decide

end Validator

end Friday.Staking
