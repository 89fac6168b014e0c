import Mathlib.Data.List.Basic

/-! # JSON string literals

`encoding/json` on a string, as Go 1.13 has it. `Marshal` writes a literal: the characters
that are safe in HTML as they are; `\"`, `\\`, `\n`, `\r` and `\t`; every other ASCII
character (the controls, `<`, `>` and `&`) as `\u00XX`; and the separators U+2028 and
U+2029 as ` ` and ` `. `Unmarshal` into a string reads one literal between white
space and decodes its escapes, a surrogate pair as one character and a lone surrogate as
U+FFFD; on `null` it leaves the string as it was. The checks of the scanner (`checkValid`)
and those of `unquote` are one pass here.

Decoding undoes encoding, for every string (`unmarshalString_marshalString`).
-/

namespace Json

/-- `hex`, the digits `0123456789abcdef`. -/
def hexDigit (n : Nat) : Char := if n < 10 then Char.ofNat (48 + n) else Char.ofNat (87 + n)

/-- The value of a hexadecimal digit, in either case. -/
def hexVal (c : Char) : Option Nat :=
  if '0' ≤ c ∧ c ≤ '9' then some (c.toNat - 48)
  else if 'a' ≤ c ∧ c ≤ 'f' then some (c.toNat - 87)
  else if 'A' ≤ c ∧ c ≤ 'F' then some (c.toNat - 55)
  else none

/-- `getu4`: the code unit of four hexadecimal digits. -/
def getu4 (a b c d : Char) : Option Nat := do
  let a ← hexVal a
  let b ← hexVal b
  let c ← hexVal c
  let d ← hexVal d
  pure (((a * 16 + b) * 16 + c) * 16 + d)

/-- `htmlSafeSet`: the printable ASCII characters but `"`, `\`, `<`, `>` and `&`. -/
def htmlSafe (c : Char) : Bool :=
  decide (0x20 ≤ c.toNat) && decide (c.toNat < 0x80) && c != '"' && c != '\\' && c != '<' && c != '>' && c != '&'

/-- What `encodeState.string` writes for one character. -/
def escapeChar (c : Char) : List Char :=
  if c.toNat < 0x80 then
    if htmlSafe c then [c]
    else if c = '\\' ∨ c = '"' then ['\\', c]
    else if c = '\n' then ['\\', 'n']
    else if c = '\r' then ['\\', 'r']
    else if c = '\t' then ['\\', 't']
    else ['\\', 'u', '0', '0', hexDigit (c.toNat / 16), hexDigit (c.toNat % 16)]
  else if c.toNat = 0x2028 ∨ c.toNat = 0x2029 then ['\\', 'u', '2', '0', '2', hexDigit (c.toNat % 16)]
  else [c]

/-- `json.Marshal` of a string. -/
def marshalString (s : String) : String := String.ofList ('"' :: s.toList.flatMap escapeChar ++ ['"'])

/-- The character of a one-letter escape. -/
def escapeOf : Char → Option Char
  | '"' => some '"'
  | '\\' => some '\\'
  | '/' => some '/'
  | 'b' => some (Char.ofNat 8)
  | 'f' => some (Char.ofNat 12)
  | 'n' => some '\n'
  | 'r' => some '\r'
  | 't' => some '\t'
  | _ => none

def replacementChar : Char := Char.ofNat 0xFFFD

def isSurrogate (r : Nat) : Bool := 0xD800 ≤ r && r < 0xE000

/-- `utf16.DecodeRune` of two code units, `U+FFFD` unless they are a surrogate pair. -/
def decodePair (r r' : Nat) : Char :=
  if 0xD800 ≤ r ∧ r < 0xDC00 ∧ 0xDC00 ≤ r' ∧ r' < 0xE000 then Char.ofNat ((r - 0xD800) * 0x400 + (r' - 0xDC00) + 0x10000)
  else replacementChar

/-- One more decoded character in front. -/
def consChar (c : Char) : Option (List Char × List Char) → Option (List Char × List Char) :=
  Option.map fun p => (c :: p.1, p.2)

/-- The escape after a backslash: the character it stands for, and what follows it. A
surrogate takes the next `\u` escape along when the two are a pair, and stands for U+FFFD
otherwise. -/
def unescape : List Char → Option (Char × List Char)
  | 'u' :: a :: b :: c :: d :: rest =>
    match getu4 a b c d with
    | none => none
    | some r =>
      if isSurrogate r then
        match rest with
        | '\\' :: 'u' :: a' :: b' :: c' :: d' :: rest' =>
          match getu4 a' b' c' d' with
          | none => none
          | some r' =>
            if decodePair r r' = replacementChar then some (replacementChar, rest)
            else some (decodePair r r', rest')
        | _ => some (replacementChar, rest)
      else some (Char.ofNat r, rest)
  | e :: rest => (escapeOf e).map fun ch => (ch, rest)
  | [] => none

theorem length_unescape {l l' : List Char} {ch : Char} (h : unescape l = some (ch, l')) : l'.length < l.length := by
  unfold unescape at h
  split at h
  · -- a `\u` escape, alone or with the next one
    split at h
    · simp at h
    · split at h
      · split at h
        · split at h
          · simp at h
          · split at h <;> simp only [Option.some.injEq, Prod.mk.injEq] at h <;> obtain ⟨-, rfl⟩ := h <;>
              simp only [List.length_cons] <;> omega
        · simp only [Option.some.injEq, Prod.mk.injEq] at h
          obtain ⟨-, rfl⟩ := h
          simp only [List.length_cons]
          omega
      · simp only [Option.some.injEq, Prod.mk.injEq] at h
        obtain ⟨-, rfl⟩ := h
        simp only [List.length_cons]
        omega
  · simp only [Option.map_eq_some_iff, Prod.mk.injEq] at h
    obtain ⟨_, _, _, rfl⟩ := h
    simp
  · simp at h

/-- The body of a literal after its opening quote: the decoded characters, and what follows
the closing quote. A control character or an unknown escape is an error. -/
def unquoteBody : List Char → Option (List Char × List Char)
  | [] => none
  | c :: rest =>
    if c = '"' then some ([], rest)
    else if c = '\\' then
      match h : unescape rest with
      | some (ch, rest') =>
        have : rest'.length < rest.length := length_unescape h
        consChar ch (unquoteBody rest')
      | none => none
    else if c.toNat < 0x20 then none
    else consChar c (unquoteBody rest)
termination_by l => l.length

def isWhite (c : Char) : Bool := c = ' ' || c = '\t' || c = '\n' || c = '\r'

def skipWhite : List Char → List Char
  | [] => []
  | c :: rest => if isWhite c then skipWhite rest else c :: rest

/-- `json.Unmarshal(data, &text)` for a string `text`: its new value, or `none` for an
error. -/
def unmarshalString (data text : String) : Option String :=
  match skipWhite data.toList with
  | '"' :: body =>
    match unquoteBody body with
    | some (s, rest) => if skipWhite rest = [] then some (String.ofList s) else none
    | none => none
  | 'n' :: 'u' :: 'l' :: 'l' :: rest => if skipWhite rest = [] then some text else none
  | _ => none

/-! ## Decoding undoes encoding -/

theorem hexVal_hexDigit : ∀ n, n < 16 → hexVal (hexDigit n) = some n := by
  decide

theorem getu4_escape {c : Char} (h : c.toNat < 0x80) :
    getu4 '0' '0' (hexDigit (c.toNat / 16)) (hexDigit (c.toNat % 16)) = some c.toNat := by
  have hhi := hexVal_hexDigit (c.toNat / 16) (by omega)
  have hlo := hexVal_hexDigit (c.toNat % 16) (by omega)
  simp only [getu4, hhi, hlo]
  simp [hexVal]
  omega

theorem getu4_separator {c : Char} (h : c.toNat = 0x2028 ∨ c.toNat = 0x2029) :
    getu4 '2' '0' '2' (hexDigit (c.toNat % 16)) = some c.toNat := by
  have hlo := hexVal_hexDigit (c.toNat % 16) (by omega)
  simp only [getu4, hlo]
  simp [hexVal]
  omega

theorem unquoteBody_plain {c : Char} (rest : List Char) (hq : c ≠ '"') (hb : c ≠ '\\') (hc : 0x20 ≤ c.toNat) :
    unquoteBody (c :: rest) = consChar c (unquoteBody rest) := by
  rw [unquoteBody, if_neg hq, if_neg hb, if_neg (by omega)]

theorem unquoteBody_backslash {rest rest' : List Char} {ch : Char} (h : unescape rest = some (ch, rest')) :
    unquoteBody ('\\' :: rest) = consChar ch (unquoteBody rest') := by
  rw [unquoteBody, if_neg (by decide), if_pos rfl]
  split
  · rename_i heq
    rw [h] at heq
    obtain ⟨rfl, rfl⟩ := Prod.mk.inj (Option.some.inj heq)
    rfl
  · rename_i heq
    rw [h] at heq
    exact absurd heq (by simp)

theorem unescape_u {a b c d : Char} {r : Nat} (rest : List Char) (h : getu4 a b c d = some r)
    (hs : isSurrogate r = false) : unescape ('u' :: a :: b :: c :: d :: rest) = some (Char.ofNat r, rest) := by
  simp [unescape, h, hs]

theorem unescape_letter {e ch : Char} (rest : List Char) (he : e ≠ 'u') (h : escapeOf e = some ch) :
    unescape (e :: rest) = some (ch, rest) := by
  unfold unescape
  split
  · rename_i heq
    exact absurd (List.cons.inj heq).1 he
  · rename_i heq
    obtain ⟨rfl, rfl⟩ := List.cons.inj heq
    simp [h]
  · simp_all

theorem unquoteBody_escapeChar (c : Char) (rest : List Char) :
    unquoteBody (escapeChar c ++ rest) = consChar c (unquoteBody rest) := by
  unfold escapeChar
  split
  · rename_i hascii
    split
    · -- safe in HTML: the character itself
      rename_i hsafe
      simp only [htmlSafe, Bool.and_eq_true, decide_eq_true_eq, bne_iff_ne, ne_eq] at hsafe
      exact unquoteBody_plain rest hsafe.1.1.1.1.2 hsafe.1.1.1.2 hsafe.1.1.1.1.1.1
    split
    · rename_i hq
      rcases hq with rfl | rfl <;> exact unquoteBody_backslash (unescape_letter rest (by decide) rfl)
    split
    · subst_vars
      exact unquoteBody_backslash (unescape_letter rest (by decide) rfl)
    split
    · subst_vars
      exact unquoteBody_backslash (unescape_letter rest (by decide) rfl)
    split
    · subst_vars
      exact unquoteBody_backslash (unescape_letter rest (by decide) rfl)
    · -- the other ASCII characters, as `\u00XX`
      have hs : isSurrogate c.toNat = false := by
        simp only [isSurrogate, Bool.and_eq_false_iff, decide_eq_false_iff_not]
        omega
      have hu := unescape_u rest (getu4_escape hascii) hs
      rw [Char.ofNat_toNat] at hu
      exact unquoteBody_backslash hu
  · split
    · -- the line and paragraph separators, as `\u2028` and `\u2029`
      rename_i hsep
      have hs : isSurrogate c.toNat = false := by
        simp only [isSurrogate, Bool.and_eq_false_iff, decide_eq_false_iff_not]
        omega
      have hu := unescape_u rest (getu4_separator hsep) hs
      rw [Char.ofNat_toNat] at hu
      exact unquoteBody_backslash hu
    · -- any other character stands for itself
      rename_i hascii _
      refine unquoteBody_plain rest ?_ ?_ (by omega) <;> rintro rfl <;> simp at hascii

theorem unquoteBody_flatMap (cs rest : List Char) :
    unquoteBody (cs.flatMap escapeChar ++ '"' :: rest) = some (cs, rest) := by
  induction cs with
  | nil => simp [unquoteBody]
  | cons c cs ih =>
    rw [List.flatMap_cons, List.append_assoc, unquoteBody_escapeChar, ih]
    rfl

/-- `json.Unmarshal` of `json.Marshal(s)` into a string gives `s`, whatever the string held. -/
theorem unmarshalString_marshalString (s text : String) : unmarshalString (marshalString s) text = some s := by
  have hlist : (marshalString s).toList = '"' :: (s.toList.flatMap escapeChar ++ ['"']) := by
    simp [marshalString]
  have hskip : skipWhite (marshalString s).toList = '"' :: (s.toList.flatMap escapeChar ++ ['"']) := by
    rw [hlist, skipWhite, if_neg (by decide)]
  simp only [unmarshalString, hskip, unquoteBody_flatMap, skipWhite, if_true, String.ofList_toList]

end Json
