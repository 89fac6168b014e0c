import Friday.Lib.Base64
import Friday.Lib.Except
import Friday.Lib.Strings
import Friday.Types.Address

/-! # Bech32 tokens in session arguments

`ReplaceFromBech32ToHex` of `x/executionlayer/util.go` rewrites the bech32 tokens of a deploy's
session arguments as the base64 of the bytes they stand for, in three passes: contract hashes
after `"hash":{"hash":"`, contract references after `"uref":{"uref":"`, and the account addresses
of the arguments named `address` of type list of `U8`; the last pass also collects the addresses.
Each pass finds its tokens by a regular expression in the input, and rewrites with
`strings.Replace` of the text before the token and the token, without the quote after it, in
what the earlier rewrites left. A token that is a prefix of a later one is rewritten inside the
later one as well, which the later one's rewrite then no longer finds
(`replaceFromBech32ToHex_rewrites_prefix`).

What does hold: a token that does not decode gives back the input and the error
(`replaceFromBech32ToHex_of_error`); the addresses are the decoded address tokens in order
(`replaceFromBech32ToHex_addresses`); a text with none of the leads is kept
(`replaceFromBech32ToHex_of_no_lead`); and a lone hash argument whose text occurs once is
rewritten exactly (`replaceFromBech32ToHex_single_hash`).
-/

namespace Friday.ExecutionLayer

open Friday.Types

-- `bech32.DecodeAndConvert`, which is not part of the repository
variable (decodeAndConvert : String → Except String (String × List UInt8))

/-- The class `[a-zA-Z0-9+/]` of the tokens. -/
def isTokenChar (c : Char) : Bool :=
  c.isAlphanum || c == '+' || c == '/'

/-- `"hash":{"hash":"`. -/
def hashLead : List Char := "\"hash\":\x7b\"hash\":\"".toList

/-- `"uref":{"uref":"`. -/
def urefLead : List Char := "\"uref\":\x7b\"uref\":\"".toList

/-- The text of an argument named `address` of type list of `U8` up to its bytes value. -/
def addressLead : List Char :=
  ("\x7b\"name\":\"address\",\"value\":\x7b\"cl_type\":\x7b\"list_type\":\x7b\"inner\":" ++
    "\x7b\"simple_type\":\"U8\"\x7d\x7d\x7d,\"value\":\x7b\"bytes_value\":\"").toList

theorem isTokenChar_quote : ∀ c ∈ ['"'].head?, isTokenChar c = false := by
  intro c hc
  cases hc
  rfl

/-- `\"hash\":\{\"hash\":\"(fridaycontracthash[a-zA-Z0-9+/]+)\"`. -/
def hashPattern : Regexp.Pattern :=
  ⟨hashLead, Types.bech32PrefixContractHash.toList, isTokenChar, ['"'], isTokenChar_quote⟩

theorem hashPattern_lead : hashPattern.lead = hashLead := rfl

/-- `\"uref\":\{\"uref\":\"(fridaycontracturef[a-zA-Z0-9+/]+)\"`. -/
def urefPattern : Regexp.Pattern :=
  ⟨urefLead, Types.bech32PrefixContractURef.toList, isTokenChar, ['"'], isTokenChar_quote⟩

/-- The pattern of the address arguments, `(friday[a-zA-Z0-9+/]+)` between `addressLead` and
    `"}}}`. -/
def addressPattern : Regexp.Pattern :=
  ⟨addressLead, Types.bech32PrefixAccAddr.toList, isTokenChar, ['"', '\x7d', '\x7d', '\x7d'], isTokenChar_quote⟩

/-- The base64 text of a token's bytes. -/
def base64Chars (bytes : List UInt8) : List Char :=
  (Base64.encodeToString bytes).toList

/-- The loop of the hash pass and of the reference pass: each token the pattern finds in the
    input is decoded, and the text before it and the token are replaced, in what the earlier
    tokens left, by the text before it and the base64 of its bytes. -/
def replacePass (p : Regexp.Pattern) (decode : String → Except AddressError (List UInt8))
    (valueStr res : List Char) : Except AddressError (List Char) :=
  (p.findAll valueStr).foldlM (fun res token => do
    let bytes ← decode (String.ofList token)
    return Strings.replace res (p.lead ++ token) (p.lead ++ base64Chars bytes)) res

/-- The loop of the address pass, which also collects the addresses in the order it meets them. -/
def addressPass (valueStr res : List Char) : Except AddressError (List Char × List Address) :=
  (addressPattern.findAll valueStr).foldlM (fun acc token => do
    let accountAddr ← accAddressFromBech32 decodeAndConvert (String.ofList token)
    return (Strings.replace acc.1 (addressLead ++ token) (addressLead ++ base64Chars accountAddr),
      acc.2 ++ [accountAddr])) (res, [])

/-- `ReplaceFromBech32ToHex`: the rewritten text and the account addresses met, or, at the first
    token that does not decode, the input unchanged, no address and the error. -/
def replaceFromBech32ToHex (valueStr : String) : String × List Address × Option AddressError :=
  let s := valueStr.toList
  let rewritten : Except AddressError (List Char × List Address) := do
    let res ← replacePass hashPattern (contractHashAddressFromBech32 decodeAndConvert) s s
    let res ← replacePass urefPattern (contractUrefAddressFromBech32 decodeAndConvert) s res
    addressPass decodeAndConvert s res
  match rewritten with
  | .ok r => (String.ofList r.1, r.2, none)
  | .error err => (valueStr, [], some err)

/-! ## What the passes return -/

theorem replacePass_error {p : Regexp.Pattern} {decode : String → Except AddressError (List UInt8)}
    {valueStr token : List Char} (ht : token ∈ p.findAll valueStr) {e : AddressError}
    (he : decode (String.ofList token) = .error e) (res : List Char) :
    ∃ e', replacePass p decode valueStr res = .error e' :=
  Except.foldlM_error_of_mem (fun _ => ⟨e, by simp [he]⟩) _ ht res

theorem addressPass_error {valueStr token : List Char} (ht : token ∈ addressPattern.findAll valueStr)
    {e : AddressError} (he : accAddressFromBech32 decodeAndConvert (String.ofList token) = .error e) (res : List Char) :
    ∃ e', addressPass decodeAndConvert valueStr res = .error e' :=
  Except.foldlM_error_of_mem (fun _ => ⟨e, by simp [he]⟩) _ ht (res, [])

/-- The address pass collects the decoded addresses of the tokens it finds, in their order. -/
theorem addressPass_addresses {valueStr res : List Char} {r : List Char × List Address}
    (h : addressPass decodeAndConvert valueStr res = .ok r) :
    (addressPattern.findAll valueStr).mapM (fun token => accAddressFromBech32 decodeAndConvert (String.ofList token)) = .ok r.2 := by
  -- the invariant: the addresses so far are the decoded tokens so far
  refine Except.foldlM_ok_inv (fun pre acc => pre.mapM (fun token => accAddressFromBech32 decodeAndConvert (String.ofList token)) =
    .ok acc.2) ?_ [] _ (res, []) r (List.nil_append _) rfl h
  intro pre token rest acc acc' _ hpre hstep
  obtain ⟨accountAddr, hdecode, hacc'⟩ := Except.bind_eq_ok.mp hstep
  cases hacc'
  simp [List.mapM_append, hpre, hdecode]

/-- When a token that one of the passes finds does not decode, the input comes back unchanged,
    with no address and the error. -/
theorem replaceFromBech32ToHex_of_error (valueStr : String)
    (h : (∃ token ∈ hashPattern.findAll valueStr.toList, ∃ e,
          contractHashAddressFromBech32 decodeAndConvert (String.ofList token) = .error e) ∨
      (∃ token ∈ urefPattern.findAll valueStr.toList, ∃ e,
          contractUrefAddressFromBech32 decodeAndConvert (String.ofList token) = .error e) ∨
      (∃ token ∈ addressPattern.findAll valueStr.toList, ∃ e,
          accAddressFromBech32 decodeAndConvert (String.ofList token) = .error e)) :
    ∃ e, replaceFromBech32ToHex decodeAndConvert valueStr = (valueStr, [], some e) := by
  rcases h with ⟨token, ht, e, he⟩ | ⟨token, ht, e, he⟩ | ⟨token, ht, e, he⟩
  · -- the hash pass fails
    obtain ⟨e', h1⟩ := replacePass_error ht he valueStr.toList
    exact ⟨e', by simp [replaceFromBech32ToHex, h1]⟩
  · -- the hash pass succeeds and the reference pass fails
    cases h1 : replacePass hashPattern (contractHashAddressFromBech32 decodeAndConvert) valueStr.toList valueStr.toList with
    | error e' => exact ⟨e', by simp [replaceFromBech32ToHex, h1]⟩
    | ok res =>
      obtain ⟨e', h2⟩ := replacePass_error ht he res
      exact ⟨e', by simp [replaceFromBech32ToHex, h1, h2]⟩
  · -- the first two passes succeed and the address pass fails
    cases h1 : replacePass hashPattern (contractHashAddressFromBech32 decodeAndConvert) valueStr.toList valueStr.toList with
    | error e' => exact ⟨e', by simp [replaceFromBech32ToHex, h1]⟩
    | ok res =>
      cases h2 : replacePass urefPattern (contractUrefAddressFromBech32 decodeAndConvert) valueStr.toList res with
      | error e' => exact ⟨e', by simp [replaceFromBech32ToHex, h1, h2]⟩
      | ok res' =>
        obtain ⟨e', h3⟩ := addressPass_error decodeAndConvert ht he res'
        exact ⟨e', by simp [replaceFromBech32ToHex, h1, h2, h3]⟩

/-- On success the addresses returned are the decoded tokens of the address arguments, in the
    order of the text. -/
theorem replaceFromBech32ToHex_addresses {valueStr res : String} {addrList : List Address}
    (h : replaceFromBech32ToHex decodeAndConvert valueStr = (res, addrList, none)) :
    (addressPattern.findAll valueStr.toList).mapM (fun token => accAddressFromBech32 decodeAndConvert (String.ofList token)) =
      .ok addrList := by
  unfold replaceFromBech32ToHex at h
  cases h1 : replacePass hashPattern (contractHashAddressFromBech32 decodeAndConvert) valueStr.toList valueStr.toList with
  | error e => simp [h1] at h
  | ok res₁ =>
    cases h2 : replacePass urefPattern (contractUrefAddressFromBech32 decodeAndConvert) valueStr.toList res₁ with
    | error e => simp [h1, h2] at h
    | ok res₂ =>
      cases h3 : addressPass decodeAndConvert valueStr.toList res₂ with
      | error e => simp [h1, h2, h3] at h
      | ok r =>
        simp only [h1, h2, h3, Except.ok_bind, Prod.mk.injEq] at h
        rw [← h.2.1]
        exact addressPass_addresses decodeAndConvert h3

/-- A text in which none of the three patterns' leads occurs comes back unchanged, with no
    address and no error. -/
theorem replaceFromBech32ToHex_of_no_lead (valueStr : String) (hhash : ¬hashLead <:+: valueStr.toList)
    (huref : ¬urefLead <:+: valueStr.toList) (haddress : ¬addressLead <:+: valueStr.toList) :
    replaceFromBech32ToHex decodeAndConvert valueStr = (valueStr, [], none) := by
  have h1 : hashPattern.findAll valueStr.toList = [] := hashPattern.findAll_eq_nil_of_not_infix hhash
  have h2 : urefPattern.findAll valueStr.toList = [] := urefPattern.findAll_eq_nil_of_not_infix huref
  have h3 : addressPattern.findAll valueStr.toList = [] := addressPattern.findAll_eq_nil_of_not_infix haddress
  simp [replaceFromBech32ToHex, replacePass, addressPass, h1, h2, h3]

/-- One contract hash argument, whose text occurs first at the argument and not after it, and no
    reference or address argument: the token is replaced by the base64 of its bytes and nothing
    else changes. -/
theorem replaceFromBech32ToHex_single_hash {x token y : List Char} {bytes : List UInt8}
    (hfind : hashPattern.findAll (x ++ (hashLead ++ token) ++ y) = [token])
    (huref : urefPattern.findAll (x ++ (hashLead ++ token) ++ y) = [])
    (haddress : addressPattern.findAll (x ++ (hashLead ++ token) ++ y) = [])
    (hdecode : contractHashAddressFromBech32 decodeAndConvert (String.ofList token) = .ok bytes)
    (hfirst : ∀ i < x.length, ¬hashLead ++ token <+: (x ++ (hashLead ++ token) ++ y).drop i)
    (hy : ¬hashLead ++ token <:+: y) :
    replaceFromBech32ToHex decodeAndConvert (String.ofList (x ++ (hashLead ++ token) ++ y)) =
      (String.ofList (x ++ (hashLead ++ base64Chars bytes) ++ y), [], none) := by
  have hold : hashLead ++ token ≠ [] := List.append_ne_nil_of_left_ne_nil (by decide) token
  have hpass : replacePass hashPattern (contractHashAddressFromBech32 decodeAndConvert) (x ++ (hashLead ++ token) ++ y)
      (x ++ (hashLead ++ token) ++ y) = .ok (x ++ (hashLead ++ base64Chars bytes) ++ y) := by
    have hrewrite : Strings.replace (x ++ (hashLead ++ token) ++ y) (hashLead ++ token)
        (hashLead ++ base64Chars bytes) = x ++ (hashLead ++ base64Chars bytes) ++ y := by
      rw [Strings.replace_append_of_first hold _ y x hfirst, Strings.replace_of_not_infix hold _ y hy]
    simp only [replacePass, hfind, List.foldlM_cons, List.foldlM_nil, hdecode, Except.ok_bind]
    rw [hashPattern_lead, hrewrite]
    rfl
  simp only [replaceFromBech32ToHex, String.toList_ofList, hpass, Except.ok_bind]
  simp only [replacePass, addressPass, huref, haddress, List.foldlM_nil]
  rfl

/-- A contract hash token and a longer one that starts with it, both of which `DecodeAndConvert`
    reads as contract hashes: the pattern finds both, but the rewrite of the first also rewrites
    the start of the second, so the second argument comes out as the base64 of the first one's
    bytes followed by the rest of its token, not as the base64 of its own bytes, and no error is
    returned. The two decodings are what tendermint's `bech32` returns on the two texts. -/
theorem replaceFromBech32ToHex_rewrites_prefix
    (hshort : decodeAndConvert "fridaycontracthash1qypqxpq97tkhrn" = .ok (Types.bech32PrefixContractHash, [1, 2, 3, 4, 5]))
    (hlong : decodeAndConvert "fridaycontracthash1qypqxpq97tkhrnqqzzfhee" =
      .ok (Types.bech32PrefixContractHash, [1, 2, 3, 4, 5, 242, 237, 113, 204, 0])) :
    hashPattern.findAll ("[\x7b\"hash\":\x7b\"hash\":\"fridaycontracthash1qypqxpq97tkhrn\"\x7d\x7d," ++
        "\x7b\"hash\":\x7b\"hash\":\"fridaycontracthash1qypqxpq97tkhrnqqzzfhee\"\x7d\x7d]").toList =
      ["fridaycontracthash1qypqxpq97tkhrn".toList, "fridaycontracthash1qypqxpq97tkhrnqqzzfhee".toList] ∧
    Base64.encodeToString [1, 2, 3, 4, 5] = "AQIDBAU=" ∧
    Base64.encodeToString [1, 2, 3, 4, 5, 242, 237, 113, 204, 0] = "AQIDBAXy7XHMAA==" ∧
    replaceFromBech32ToHex decodeAndConvert ("[\x7b\"hash\":\x7b\"hash\":\"fridaycontracthash1qypqxpq97tkhrn\"\x7d\x7d," ++
        "\x7b\"hash\":\x7b\"hash\":\"fridaycontracthash1qypqxpq97tkhrnqqzzfhee\"\x7d\x7d]") =
      ("[\x7b\"hash\":\x7b\"hash\":\"AQIDBAU=\"\x7d\x7d,\x7b\"hash\":\x7b\"hash\":\"AQIDBAU=qqzzfhee\"\x7d\x7d]",
        [], none) := by
  obtain ⟨hfind, huref, haddress⟩ :
      let s := ("[\x7b\"hash\":\x7b\"hash\":\"fridaycontracthash1qypqxpq97tkhrn\"\x7d\x7d," ++
        "\x7b\"hash\":\x7b\"hash\":\"fridaycontracthash1qypqxpq97tkhrnqqzzfhee\"\x7d\x7d]").toList
      hashPattern.findAll s =
          ["fridaycontracthash1qypqxpq97tkhrn".toList, "fridaycontracthash1qypqxpq97tkhrnqqzzfhee".toList] ∧
        urefPattern.findAll s = [] ∧ addressPattern.findAll s = [] := by
    decide +kernel
  obtain ⟨hbshort, hsshort, hblong, hslong⟩ :
      Auth.isBlank "fridaycontracthash1qypqxpq97tkhrn" = false ∧
        "fridaycontracthash1qypqxpq97tkhrn".utf8ByteSize ≠ 0 ∧
        Auth.isBlank "fridaycontracthash1qypqxpq97tkhrnqqzzfhee" = false ∧
        "fridaycontracthash1qypqxpq97tkhrnqqzzfhee".utf8ByteSize ≠ 0 := by
    decide +kernel
  have hdshort := contractHashAddressFromBech32_eq_ok decodeAndConvert hbshort hsshort hshort
  have hdlong := contractHashAddressFromBech32_eq_ok decodeAndConvert hblong hslong hlong
  refine ⟨hfind, by decide +kernel, by decide +kernel, ?_⟩
  simp only [replaceFromBech32ToHex, replacePass, addressPass, hfind, huref, haddress, List.foldlM_cons,
    List.foldlM_nil, String.ofList_toList, hdshort, hdlong, Except.ok_bind]
  decide +kernel

/-- A decoder that reads the two texts as tendermint's `bech32` does. -/
def prefixDecoder (text : String) : Except String (String × List UInt8) :=
  if text = "fridaycontracthash1qypqxpq97tkhrn" then .ok (Types.bech32PrefixContractHash, [1, 2, 3, 4, 5])
  else if text = "fridaycontracthash1qypqxpq97tkhrnqqzzfhee" then
    .ok (Types.bech32PrefixContractHash, [1, 2, 3, 4, 5, 242, 237, 113, 204, 0])
  else .error "invalid bech32 string"

theorem replaceFromBech32ToHex_rewrites_prefix_decoded :
    replaceFromBech32ToHex prefixDecoder ("[\x7b\"hash\":\x7b\"hash\":\"fridaycontracthash1qypqxpq97tkhrn\"\x7d\x7d," ++
        "\x7b\"hash\":\x7b\"hash\":\"fridaycontracthash1qypqxpq97tkhrnqqzzfhee\"\x7d\x7d]") =
      ("[\x7b\"hash\":\x7b\"hash\":\"AQIDBAU=\"\x7d\x7d,\x7b\"hash\":\x7b\"hash\":\"AQIDBAU=qqzzfhee\"\x7d\x7d]",
        [], none) :=
  ( replaceFromBech32ToHex_rewrites_prefix prefixDecoder (by decide) (by decide)).2.2.2

end Friday.ExecutionLayer
