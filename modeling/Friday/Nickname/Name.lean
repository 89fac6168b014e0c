import Friday.App.Store
import Friday.Types.Result
import Friday.Lib.Ascii
import Mathlib.Data.List.Induction
import Mathlib.Data.Nat.Digits.Defs

/-! # Readable names

`x/nickname/types/name.go`. A name is up to 20 characters of `charmap`, six bits a
character: the first ten in `H`, the rest in `L`. The code of a character is its
place in `charmap` plus one, so `partialCodeToString` reads a half from its low six
bits up until nothing is left, and `^uint64(0)` marks a half that does not encode.

A Go string is its bytes. `charmap` is ASCII, so a rune of a name that has a byte of
`0x80` or more is never in it: the loop over the runes of a half fails exactly where
a loop over its bytes does, and the model loops over bytes. `strings.ToLower` maps
each rune by `unicode.ToLower`, which is `Char.toLower` on ASCII and the parameter
`unicodeToLower` elsewhere.
-/

namespace Friday.Nickname

open Friday.Types

/-- `charmap`, by its bytes. -/
def charmap : List UInt8 := "0123456789abcdefghijklmnopqrstuvwxyz-._".toUTF8.toList

/-- `^uint64(0)`. -/
def invalidCode : UInt64 := ~~~0

/-- `charToCode`, on one byte; `none` is its error. -/
def charToCode (letter : UInt8) : Option UInt64 :=
  if letter ∉ charmap then none
  else if '0'.toUInt8 ≤ letter ∧ letter ≤ '9'.toUInt8 then some (letter.toUInt64 - '0'.toUInt8.toUInt64 + 1)
  else if 'a'.toUInt8 ≤ letter ∧ letter ≤ 'z'.toUInt8 then
    some (letter.toUInt64 - 'a'.toUInt8.toUInt64 + 10 + 1)
  else some ((charmap.drop 36).idxOf letter + 36 + 1).toUInt64

def partialStringNameToCode (partialStringName : List UInt8) : UInt64 :=
  if partialStringName.length > 10 then invalidCode
  else (partialStringName.foldlM (fun (result : UInt64) letter => (charToCode letter).map (result <<< 6 + ·)) 0).getD
    invalidCode

/-- The loop of `partialCodeToString` from the pass after `cnt` on, with `fuel` passes
    left; the pass with `cnt = 11` always ends it, so eleven are enough. -/
def partialCodeLoop : (fuel cnt : Nat) → UInt64 → List UInt8 → Except Panic (List UInt8)
  | 0, _, _, result => .ok result
  | fuel + 1, cnt, intermediateDiv, result => do
      let cnt := cnt + 1
      let intermediateDiv2 := intermediateDiv >>> 6
      let index := intermediateDiv % 64 - 1
      let some letter := charmap[index.toNat]? | throw (.indexOutOfRange index.toNat charmap.length)
      if 10 < cnt then throw (.negativeIndex (10 - cnt))
      let result := result.set (10 - cnt) letter
      if intermediateDiv2 = 0 ∨ cnt > 10 then return result
      partialCodeLoop fuel cnt intermediateDiv2 result

/-- `bytes.Trim(result, "\x00")`. -/
def trimNul (result : List UInt8) : List UInt8 :=
  ((result.dropWhile (· == 0)).reverse.dropWhile (· == 0)).reverse

/-- `partialCodeToString`: a panic, or the half's bytes or error. -/
def partialCodeToString (partialName : UInt64) : Except Panic (Except String (List UInt8)) :=
  if partialName = invalidCode then .ok (.error "Invalid name")
  else if partialName = 0 then .ok (.ok [])
  else (fun result => .ok (trimNul result)) <$> partialCodeLoop 11 0 partialName (List.replicate 10 0)

/-- `strings.ToLower`. -/
def toLower (unicodeToLower : Char → Char) (s : String) : String :=
  s.map fun c => if c.toNat < 128 then c.toLower else unicodeToLower c

/-- `Init`: the name it leaves and its error. -/
def Name.init (N : Name) (unicodeToLower : Char → Char) (stringName : String) :
    Except Panic (Name × Option String) := do
  if stringName.utf8ByteSize > 20 then return (N, some "Name cannot exceed more than 20 characters")
  let lowerCasedStringName := (toLower unicodeToLower stringName).toUTF8.toList
  if stringName.utf8ByteSize ≤ 10 then
    let result := partialStringNameToCode lowerCasedStringName
    if result = invalidCode then return (N, some "Name can only contain 0-9 a-z .-_")
    return ({ N with h := result }, none)
  -- `lowerCasedStringName[:10]`
  if lowerCasedStringName.length < 10 then
    throw (.sliceBoundsOutOfRange 10 lowerCasedStringName.length)
  let result1 := partialStringNameToCode (lowerCasedStringName.take 10)
  let result2 := partialStringNameToCode (lowerCasedStringName.drop 10)
  if result1 = invalidCode ∨ result2 = invalidCode then return (N, some "Name can only contain 0-9 a-z .-_")
  return ({ h := result1, l := result2 }, none)

/-- `NewName`: the error of `Init` is dropped. -/
def newName (unicodeToLower : Char → Char) (stringName : String) : Except Panic Name :=
  (·.1) <$> Name.init ⟨0, 0⟩ unicodeToLower stringName

/-- The string of bytes that are ASCII. -/
def asciiString (bytes : List UInt8) : String := String.ofList (bytes.map fun b => Char.ofNat b.toNat)

def Name.toString (N : Name) : Except Panic (Except String String) := do
  let upperString ← partialCodeToString N.h
  let lowerString ← partialCodeToString N.l
  match upperString, lowerString with
  | .ok upper, .ok lower =>
      if upper ≠ [] then return .ok (asciiString (upper ++ lower)) else return .error "Name object is not initialized"
  | _, _ => return .error "Name object is not initialized"

def Name.mustToString (N : Name) : Except Panic String := do
  match ← N.toString with
  | .ok res => return res
  | .error _ => return ""


/-! ## The round trip

Decoding and encoding are compared through the codes of the bytes: `code` and `letter`
are the two directions of `charmap`, and `pack` is the number that codes pack into, six
bits each with the last code lowest.
-/

/-- The code of a byte of `charmap`. -/
def code (letter : UInt8) : Nat := charmap.idxOf letter + 1

/-- The byte of a code. -/
def letter (c : Nat) : UInt8 := charmap.getD (c - 1) 0

/-- Codes in base `64`, the last one lowest. -/
def pack (codes : List Nat) : Nat := Nat.ofDigits 64 codes.reverse

/-- All the facts about the bytes of `charmap` at once, so that the table is evaluated once. -/
theorem charmap_bytes : charmap.length = 39 ∧ ∀ b ∈ charmap, charToCode b = some (code b).toUInt64 ∧
    1 ≤ code b ∧ code b ≤ 39 ∧ letter (code b) = b ∧ b ≠ 0 ∧ (Char.ofNat b.toNat).toNat < 128 ∧
    (Char.ofNat b.toNat).toUInt8 = b ∧ (Char.ofNat b.toNat).toLower = Char.ofNat b.toNat := by
  decide +kernel
theorem charToCode_of_mem : ∀ b ∈ charmap, charToCode b = some (code b).toUInt64 :=
  fun b hb => (charmap_bytes.2 b hb).1
theorem code_bounds : ∀ b ∈ charmap, 1 ≤ code b ∧ code b ≤ 39 :=
  fun b hb => ⟨(charmap_bytes.2 b hb).2.1, (charmap_bytes.2 b hb).2.2.1⟩
theorem letter_code : ∀ b ∈ charmap, letter (code b) = b :=
  fun b hb => (charmap_bytes.2 b hb).2.2.2.1
theorem charmap_ne_zero : ∀ b ∈ charmap, b ≠ 0 :=
  fun b hb => (charmap_bytes.2 b hb).2.2.2.2.1
theorem length_charmap : charmap.length = 39 := charmap_bytes.1
theorem charmap_char : ∀ b ∈ charmap, (Char.ofNat b.toNat).toNat < 128 ∧ (Char.ofNat b.toNat).toUInt8 = b ∧
    (Char.ofNat b.toNat).toLower = Char.ofNat b.toNat :=
  fun b hb => (charmap_bytes.2 b hb).2.2.2.2.2
theorem getElem?_charmap {c : Nat} (h1 : 1 ≤ c) (h2 : c ≤ 39) : charmap[c - 1]? = some (letter c) := by
  rw [letter, List.getD_eq_getElem?_getD, List.getElem?_eq_getElem (by rw [length_charmap]; omega)]
  rfl

theorem toNat_shiftLeft_add {r c : UInt64} (h : r.toNat * 64 + c.toNat < 2 ^ 64) :
    (r <<< 6 + c).toNat = r.toNat * 64 + c.toNat := by
  rw [UInt64.toNat_add, UInt64.toNat_shiftLeft, Nat.shiftLeft_eq]
  have : (6 : UInt64).toNat % 64 = 6 := by decide
  rw [this]
  omega

theorem toNat_shiftRight_six (v : UInt64) : (v >>> 6).toNat = v.toNat / 64 := by
  rw [UInt64.toNat_shiftRight]
  simp [Nat.shiftRight_eq_div_pow]

theorem toNat_mod_sub_one {v : UInt64} (h : v.toNat % 64 ≠ 0) : (v % 64 - 1).toNat = v.toNat % 64 - 1 := by
  have hmod : (v % 64).toNat = v.toNat % 64 := by simp
  rw [UInt64.toNat_sub_of_le]
  · simp [hmod]
  · rw [UInt64.le_iff_toNat_le]
    simp only [hmod, UInt64.toNat_one]
    omega

theorem pack_append (cs : List Nat) (c : Nat) : pack (cs ++ [c]) = pack cs * 64 + c := by
  rw [pack, List.reverse_append, List.reverse_singleton, List.singleton_append, Nat.ofDigits_cons, ← pack]
  omega

theorem pack_lt (cs : List Nat) (h : ∀ c ∈ cs, c < 64) : pack cs < 64 ^ cs.length := by
  rw [pack, ← List.length_reverse]
  exact Nat.ofDigits_lt_base_pow_length (by omega) fun c hc => h c (List.mem_reverse.mp hc)

theorem foldl_pack (cs : List Nat) : cs.foldl (fun result c => result * 64 + c) 0 = pack cs := by
  induction cs using List.reverseRec with
  | nil => rfl
  | append_singleton cs c ih => rw [List.foldl_append, ih, pack_append, List.foldl_cons, List.foldl_nil]

theorem pack_pos (cs : List Nat) (hne : cs ≠ []) (h : ∀ c ∈ cs, 1 ≤ c) : 0 < pack cs := by
  induction cs using List.reverseRec with
  | nil => exact absurd rfl hne
  | append_singleton cs c _ =>
    rw [pack_append]
    have := h c (by simp)
    omega

theorem foldlM_charToCode (bs : List UInt8) (hbs : ∀ b ∈ bs, b ∈ charmap) :
    ∀ r : UInt64, (r.toNat + 1) * 64 ^ bs.length ≤ 2 ^ 60 →
      bs.foldlM (fun (result : UInt64) letter => (charToCode letter).map (result <<< 6 + ·)) r =
        some (UInt64.ofNat ((bs.map code).foldl (fun result c => result * 64 + c) r.toNat)) := by
  induction bs with
  | nil => intro r _; simp
  | cons b bs ih =>
    intro r hr
    have hb := code_bounds b (hbs b (by simp))
    have hpow : 64 ≤ 64 ^ (bs.length + 1) := Nat.le_self_pow (by omega) 64
    have hr64 : (r.toNat + 1) * 64 ≤ 2 ^ 60 :=
      Nat.le_trans (Nat.mul_le_mul_left _ hpow) (by simpa using hr)
    have hcode : (code b).toUInt64.toNat = code b := by simp; omega
    have hnext : (r <<< 6 + (code b).toUInt64).toNat = r.toNat * 64 + code b := by
      rw [toNat_shiftLeft_add (by omega), hcode]
    have hbound : ((r <<< 6 + (code b).toUInt64).toNat + 1) * 64 ^ bs.length ≤ 2 ^ 60 := by
      rw [hnext]
      calc (r.toNat * 64 + code b + 1) * 64 ^ bs.length
          ≤ (r.toNat + 1) * 64 * 64 ^ bs.length := Nat.mul_le_mul_right _ (by omega)
        _ = (r.toNat + 1) * 64 ^ (bs.length + 1) := by rw [Nat.pow_succ, Nat.mul_assoc, Nat.mul_comm 64]
        _ ≤ 2 ^ 60 := by simpa using hr
    simp only [List.foldlM_cons, charToCode_of_mem b (hbs b (by simp)), Option.map_some, Option.bind_eq_bind, Option.bind_some,
      List.map_cons, List.foldl_cons]
    rw [ih (fun d hd => hbs d (by simp [hd])) _ hbound, hnext]

theorem partialStringNameToCode_of_mem {bs : List UInt8} (hlen : bs.length ≤ 10) (hbs : ∀ b ∈ bs, b ∈ charmap) :
    (partialStringNameToCode bs).toNat = pack (bs.map code) := by
  have hpow : 64 ^ bs.length ≤ 2 ^ 60 := by
    calc 64 ^ bs.length ≤ 64 ^ 10 := Nat.pow_le_pow_right (by omega) hlen
      _ = 2 ^ 60 := rfl
  have hlt := pack_lt (bs.map code) fun c hc => by
    obtain ⟨b, hb, rfl⟩ := List.mem_map.mp hc
    have := code_bounds b (hbs b hb)
    omega
  rw [List.length_map] at hlt
  rw [partialStringNameToCode, if_neg (by omega), foldlM_charToCode bs hbs 0 (by simpa using hpow)]
  simp only [Option.getD_some, UInt64.toNat_zero]
  have hsize : UInt64.size = 2 ^ 64 := rfl
  rw [foldl_pack, UInt64.toNat_ofNat_of_lt' (by omega)]

theorem partialCodeLoop_pack (cs : List Nat) (hcs : ∀ c ∈ cs, 1 ≤ c ∧ c ≤ 39) (hne : cs ≠ []) :
    ∀ (cnt : Nat) (v : UInt64) (result : List UInt8), cnt + cs.length ≤ 10 → result.length = 10 →
      v.toNat = pack cs →
      partialCodeLoop (11 - cnt) cnt v result =
        .ok (result.take (10 - cnt - cs.length) ++ cs.map letter ++ result.drop (10 - cnt)) := by
  induction cs using List.reverseRec with
  | nil => exact absurd rfl hne
  | append_singleton cs c ih =>
    intro cnt v result hcnt hlen hv
    have hc := hcs c (by simp)
    rw [pack_append] at hv
    simp only [List.length_append, List.length_singleton] at hcnt
    have hfuel : 11 - cnt = (10 - cnt) + 1 := by omega
    have hmod : v.toNat % 64 = c := by omega
    have hdiv : (v >>> 6).toNat = pack cs := by rw [toNat_shiftRight_six]; omega
    have hindex : (v % 64 - 1).toNat = c - 1 := by rw [toNat_mod_sub_one (by omega), hmod]
    rw [hfuel, partialCodeLoop]
    simp only [hindex, getElem?_charmap hc.1 hc.2, if_neg (show ¬ 10 < cnt + 1 by omega)]
    have hset : result.set (10 - (cnt + 1)) (letter c) =
        result.take (9 - cnt) ++ letter c :: result.drop (10 - cnt) := by
      rw [show 10 - (cnt + 1) = 9 - cnt by omega, List.set_eq_take_cons_drop _ (by omega),
        show 9 - cnt + 1 = 10 - cnt by omega]
    by_cases hnil : cs = []
    · -- the last group: nothing is left above it
      subst hnil
      have hzero : v >>> 6 = 0 := by
        apply UInt64.toNat_inj.mp
        rw [hdiv]
        rfl
      simp only [hzero, true_or, if_true, hset, List.nil_append, List.length_singleton, List.map_singleton,
        List.append_assoc, List.singleton_append, show 10 - cnt - 1 = 9 - cnt by omega]
      rfl
    · have hpos := pack_pos cs hnil fun d hd => (hcs d (List.mem_append_left _ hd)).1
      have hnz : ¬ (v >>> 6 = 0 ∨ cnt + 1 > 10) := by
        rintro (h | h)
        · have := congrArg UInt64.toNat h
          rw [hdiv, UInt64.toNat_zero] at this
          omega
        · omega
      rw [if_neg hnz, show 10 - cnt = 11 - (cnt + 1) by omega,
        ih (fun d hd => hcs d (List.mem_append_left _ hd)) hnil (cnt + 1) (v >>> 6) _ (by omega)
          (by simp [hlen]) hdiv]
      rw [List.take_set_of_le (by omega), hset, List.drop_append_of_le_length (by simp; omega)]
      -- the rest of the window already ended at `9 - cnt`
      rw [show 10 - (cnt + 1) = 9 - cnt by omega, List.drop_take, Nat.sub_self, List.take_zero,
        List.nil_append, List.map_append, List.map_singleton,
        show 9 - cnt - cs.length = 10 - cnt - (cs.length + 1) by omega]
      simp only [List.append_assoc, List.singleton_append, List.length_append, List.length_singleton,
        show 11 - (cnt + 1) = 10 - cnt by omega]

theorem dropWhile_zero_of_ne {l : List UInt8} (hl : ∀ b ∈ l, b ≠ 0) : l.dropWhile (· == 0) = l := by
  cases l with
  | nil => rfl
  | cons b l =>
    have hb : (b == 0) = false := by simpa using hl b (by simp)
    rw [List.dropWhile_cons, if_neg (by simp [hb])]

/-- `bytes.Trim` drops the padding in front of bytes that have no zero. -/
theorem trimNul_replicate_append (k : Nat) {l : List UInt8} (hl : ∀ b ∈ l, b ≠ 0) :
    trimNul (List.replicate k 0 ++ l) = l := by
  have hrev : ∀ b ∈ l.reverse, b ≠ 0 := fun b hb => hl b (List.mem_reverse.mp hb)
  rw [trimNul, List.dropWhile_append_of_pos (by simp), dropWhile_zero_of_ne hl, dropWhile_zero_of_ne hrev,
    List.reverse_reverse]

theorem map_letter_code {bs : List UInt8} (hbs : ∀ b ∈ bs, b ∈ charmap) : (bs.map code).map letter = bs := by
  rw [List.map_map]
  conv => rhs; rw [← List.map_id bs]
  exact List.map_congr_left fun b hb => letter_code b (hbs b hb)

/-- Decoding undoes `partialStringNameToCode` on up to ten bytes of `charmap`. -/
theorem partialCodeToString_of_mem {bs : List UInt8} (hlen : bs.length ≤ 10) (hbs : ∀ b ∈ bs, b ∈ charmap) :
    partialCodeToString (partialStringNameToCode bs) = .ok (.ok bs) := by
  by_cases hnil : bs = []
  · subst hnil
    rfl
  have hcodes : ∀ c ∈ bs.map code, 1 ≤ c ∧ c ≤ 39 := by
    intro c hc
    obtain ⟨b, hb, rfl⟩ := List.mem_map.mp hc
    exact code_bounds b (hbs b hb)
  have hv := partialStringNameToCode_of_mem hlen hbs
  have hpos := pack_pos (bs.map code) (by simpa using hnil) fun c hc => (hcodes c hc).1
  have hlt := pack_lt (bs.map code) fun c hc => by have := hcodes c hc; omega
  have hpow : 64 ^ bs.length ≤ 64 ^ 10 := Nat.pow_le_pow_right (by omega) hlen
  rw [List.length_map] at hlt
  have hne0 : partialStringNameToCode bs ≠ 0 := by
    intro h
    rw [h, UInt64.toNat_zero] at hv
    omega
  have hneinv : partialStringNameToCode bs ≠ invalidCode := by
    intro h
    rw [h] at hv
    have : invalidCode.toNat = 2 ^ 64 - 1 := rfl
    have : (64 : Nat) ^ 10 = 2 ^ 60 := rfl
    omega
  rw [partialCodeToString, if_neg hneinv, if_neg hne0, partialCodeLoop_pack (bs.map code) hcodes (by simpa using hnil)
    0 _ _ (by simpa using hlen) (by simp) hv]
  simp only [List.length_map, Nat.sub_zero, List.take_replicate, List.drop_replicate, Nat.sub_self,
    List.replicate_zero, List.append_nil, map_letter_code hbs]
  change Except.ok (Except.ok (trimNul _)) = _
  rw [trimNul_replicate_append _ fun b hb => charmap_ne_zero b (hbs b hb)]

theorem set_replicate_append {n : Nat} {w : List UInt8} (b : UInt8) :
    (List.replicate (n + 1) 0 ++ w).set n b = List.replicate n 0 ++ b :: w := by
  rw [List.replicate_succ', List.append_assoc, List.singleton_append, List.set_append_right _ _ (by simp)]
  simp

/-- What the decoding loop leaves: zeros, then the bytes of `charmap` it wrote. -/
theorem partialCodeLoop_ok (fuel : Nat) :
    ∀ (cnt : Nat) (v : UInt64) (w r : List UInt8), cnt ≤ 10 → w.length = cnt → (∀ b ∈ w, b ∈ charmap) →
      partialCodeLoop fuel cnt v (List.replicate (10 - cnt) 0 ++ w) = .ok r →
      ∃ w', r = List.replicate (10 - w'.length) 0 ++ w' ∧ w'.length ≤ 10 ∧ ∀ b ∈ w', b ∈ charmap := by
  induction fuel with
  | zero =>
    intro cnt v w r hcnt hw hmem h
    rw [partialCodeLoop] at h
    cases h
    exact ⟨w, by rw [hw], by omega, hmem⟩
  | succ fuel ih =>
    intro cnt v w r hcnt hw hmem h
    rw [partialCodeLoop] at h
    dsimp only at h
    split at h
    · rename_i letter hletter
      have hl : letter ∈ charmap := List.mem_of_getElem? hletter
      split at h
      · cases h
      · rename_i hle
        have hset : (List.replicate (10 - cnt) 0 ++ w).set (10 - (cnt + 1)) letter =
            List.replicate (10 - (cnt + 1)) 0 ++ letter :: w := by
          rw [show 10 - cnt = 10 - (cnt + 1) + 1 by omega]
          exact set_replicate_append letter
        have hmem' : ∀ b ∈ letter :: w, b ∈ charmap := by
          intro b hb
          rcases List.mem_cons.mp hb with rfl | hb
          · exact hl
          · exact hmem b hb
        rw [hset] at h
        split at h
        · cases h
          exact ⟨letter :: w, by simp [hw], by simp [hw]; omega, hmem'⟩
        · exact ih (cnt + 1) _ (letter :: w) r (by omega) (by simp [hw]) hmem' h
    · cases h

/-- Whatever a half decodes to is up to ten bytes of `charmap`. -/
theorem partialCodeToString_ok {v : UInt64} {bs : List UInt8} (h : partialCodeToString v = .ok (.ok bs)) :
    bs.length ≤ 10 ∧ ∀ b ∈ bs, b ∈ charmap := by
  rw [partialCodeToString] at h
  split at h
  · cases h
  split at h
  · cases h
    simp
  cases hloop : partialCodeLoop 11 0 v (List.replicate 10 0) with
  | error p =>
    rw [hloop] at h
    cases h
  | ok r =>
    rw [hloop] at h
    cases h
    obtain ⟨w, rfl, hlen, hmem⟩ :=
      partialCodeLoop_ok 11 0 v [] r (by omega) rfl (by simp) (by simpa using hloop)
    rw [trimNul_replicate_append _ fun b hb => charmap_ne_zero b (hmem b hb)]
    exact ⟨hlen, hmem⟩

theorem charToCode_of_not_mem {b : UInt8} (hb : b ∉ charmap) : charToCode b = none := by
  rw [charToCode, if_pos hb]

theorem foldlM_charToCode_none {bs : List UInt8} (hbs : ∃ b ∈ bs, b ∉ charmap) (r : UInt64) :
    bs.foldlM (fun (result : UInt64) letter => (charToCode letter).map (result <<< 6 + ·)) r = none := by
  induction bs generalizing r with
  | nil => simp at hbs
  | cons b bs ih =>
    rw [List.foldlM_cons]
    by_cases hb : b ∈ charmap
    · obtain ⟨d, hd, hdm⟩ := hbs
      have hd' : d ∈ bs := by
        rcases List.mem_cons.mp hd with rfl | hd'
        · exact absurd hb hdm
        · exact hd'
      simp only [charToCode_of_mem b hb, Option.map_some, Option.bind_eq_bind, Option.bind_some]
      exact ih ⟨d, hd', hdm⟩ _
    · simp [charToCode_of_not_mem hb]

theorem partialStringNameToCode_of_not_mem {bs : List UInt8} (hbs : ∃ b ∈ bs, b ∉ charmap) :
    partialStringNameToCode bs = invalidCode := by
  rw [partialStringNameToCode]
  split
  · rfl
  · rw [foldlM_charToCode_none hbs, Option.getD_none]

theorem partialStringNameToCode_ne_invalid {bs : List UInt8} (hlen : bs.length ≤ 10) (hbs : ∀ b ∈ bs, b ∈ charmap) :
    partialStringNameToCode bs ≠ invalidCode := by
  intro h
  have hv := partialStringNameToCode_of_mem hlen hbs
  have hlt := pack_lt (bs.map code) fun c hc => by
    obtain ⟨b, hb, rfl⟩ := List.mem_map.mp hc
    have := code_bounds b (hbs b hb)
    omega
  have hpow : 64 ^ bs.length ≤ 64 ^ 10 := Nat.pow_le_pow_right (by omega) hlen
  rw [List.length_map] at hlt
  rw [h] at hv
  have : invalidCode.toNat = 2 ^ 64 - 1 := rfl
  have : (64 : Nat) ^ 10 = 2 ^ 60 := rfl
  omega

/-- A name whose halves encode the first ten bytes and the rest reads back as the bytes. -/
theorem toString_of_mem {bs : List UInt8} (h1 : 1 ≤ bs.length) (h2 : bs.length ≤ 20) (hbs : ∀ b ∈ bs, b ∈ charmap) :
    (⟨partialStringNameToCode (bs.take 10), partialStringNameToCode (bs.drop 10)⟩ : Name).toString =
      .ok (.ok (asciiString bs)) := by
  have hupper : partialCodeToString (partialStringNameToCode (bs.take 10)) = .ok (.ok (bs.take 10)) :=
    partialCodeToString_of_mem (by simp) fun b hb => hbs b (List.mem_of_mem_take hb)
  have hlower : partialCodeToString (partialStringNameToCode (bs.drop 10)) = .ok (.ok (bs.drop 10)) :=
    partialCodeToString_of_mem (by simp; omega) fun b hb => hbs b (List.mem_of_mem_drop hb)
  have hne : bs.take 10 ≠ [] := List.ne_nil_of_length_pos (by simp; omega)
  rw [Name.toString, hupper, hlower]
  simp only [bind, Except.bind, if_pos hne, List.take_append_drop]
  rfl

example : (⟨(12 * 64 + 13) * 64 + 14, 0⟩ : Name).toString = .ok (.ok "bcd") := by decide +kernel

/-- Whatever a name decodes to is the string of one to twenty bytes of `charmap`. -/
theorem toString_ok {N : Name} {t : String} (h : N.toString = .ok (.ok t)) :
    ∃ bs : List UInt8, t = asciiString bs ∧ 1 ≤ bs.length ∧ bs.length ≤ 20 ∧ ∀ b ∈ bs, b ∈ charmap := by
  rw [Name.toString] at h
  cases hh : partialCodeToString N.h with
  | error p => simp [hh, bind, Except.bind] at h
  | ok upper =>
    cases hl : partialCodeToString N.l with
    | error p => simp [hh, hl, bind, Except.bind] at h
    | ok lower =>
      cases upper with
      | error e => simp [hh, hl, bind, Except.bind, pure, Except.pure] at h
      | ok upper =>
        cases lower with
        | error e => simp [hh, hl, bind, Except.bind, pure, Except.pure] at h
        | ok lower =>
          have hu := partialCodeToString_ok hh
          have hlo := partialCodeToString_ok hl
          simp only [hh, hl, bind, Except.bind] at h
          split at h
          · cases h
            refine ⟨upper ++ lower, rfl, ?_, by simp; omega, ?_⟩
            · simp only [List.length_append]
              have := List.length_pos_of_ne_nil ‹upper ≠ []›
              omega
            · intro b hb
              rcases List.mem_append.mp hb with hb | hb
              · exact hu.2 b hb
              · exact hlo.2 b hb
          · cases h

theorem init_of_mem (f : Char → Char) (s : String) (hsize : s.utf8ByteSize = (toLower f s).toUTF8.toList.length)
    (hlen : s.utf8ByteSize ≤ 20) (hbs : ∀ b ∈ (toLower f s).toUTF8.toList, b ∈ charmap) :
    Name.init ⟨0, 0⟩ f s = .ok (⟨partialStringNameToCode ((toLower f s).toUTF8.toList.take 10),
      partialStringNameToCode ((toLower f s).toUTF8.toList.drop 10)⟩, none) := by
  generalize hls : (toLower f s).toUTF8.toList = ls at hsize hbs ⊢
  have hvalid : ∀ bs : List UInt8, bs.length ≤ 10 → (∀ b ∈ bs, b ∈ ls) → partialStringNameToCode bs ≠ invalidCode :=
    fun bs hbl hsub => partialStringNameToCode_ne_invalid hbl fun b hb => hbs b (hsub b hb)
  simp only [Name.init, hls, if_neg (show ¬ s.utf8ByteSize > 20 by omega)]
  by_cases hshort : s.utf8ByteSize ≤ 10
  · -- one half: the low word stays `0`, the code of no bytes
    rw [if_pos hshort, if_neg (hvalid ls (by omega) fun _ hb => hb), List.take_of_length_le (by omega),
      List.drop_of_length_le (by omega)]
    rfl
  · have hhigh := hvalid (ls.take 10) (by simp) fun _ hb => List.mem_of_mem_take hb
    have hlow := hvalid (ls.drop 10) (by simp; omega) fun _ hb => List.mem_of_mem_drop hb
    rw [if_neg hshort, if_neg (show ¬ ls.length < 10 by omega), if_neg (not_or.mpr ⟨hhigh, hlow⟩)]
    rfl

example : newName id "Hello_World.01" =
    .ok ⟨partialStringNameToCode "hello_worl".toUTF8.toList, partialStringNameToCode "d.01".toUTF8.toList⟩ := by
  decide +kernel

theorem init_of_not_mem (f : Char → Char) (s : String) (hsize : s.utf8ByteSize = (toLower f s).toUTF8.toList.length)
    (hlen : s.utf8ByteSize ≤ 20) (hbad : ∃ b ∈ (toLower f s).toUTF8.toList, b ∉ charmap) :
    Name.init ⟨0, 0⟩ f s = .ok (⟨0, 0⟩, some "Name can only contain 0-9 a-z .-_") := by
  generalize hls : (toLower f s).toUTF8.toList = ls at hsize hbad ⊢
  simp only [Name.init, hls, if_neg (show ¬ s.utf8ByteSize > 20 by omega)]
  by_cases hshort : s.utf8ByteSize ≤ 10
  · rw [if_pos hshort, if_pos (partialStringNameToCode_of_not_mem hbad)]
    rfl
  · -- the byte outside `charmap` is in one of the halves
    obtain ⟨b, hb, hbm⟩ := hbad
    have hhalf : partialStringNameToCode (ls.take 10) = invalidCode ∨ partialStringNameToCode (ls.drop 10) = invalidCode := by
      rw [← List.take_append_drop 10 ls, List.mem_append] at hb
      rcases hb with hb | hb
      · exact .inl (partialStringNameToCode_of_not_mem ⟨b, hb, hbm⟩)
      · exact .inr (partialStringNameToCode_of_not_mem ⟨b, hb, hbm⟩)
    rw [if_neg hshort, if_neg (show ¬ ls.length < 10 by omega), if_pos hhalf]
    rfl

theorem init_empty (f : Char → Char) : Name.init ⟨0, 0⟩ f "" = .ok (⟨0, 0⟩, none) := by
  have hbytes : (toLower f "").toUTF8.toList = [] := by
    rw [Ascii.toUTF8_toList, toLower, String.toList_map]
    rfl
  simp only [Name.init, hbytes]
  rfl

section Ascii

open Ascii

variable (f : Char → Char) {s : String}

theorem toLower_of_ascii (hs : IsAscii s) : toLower f s = s.map Char.toLower := by
  rw [← String.toList_inj, toLower, String.toList_map, String.toList_map]
  exact List.map_congr_left fun c hc => if_pos (hs c hc)

theorem isAscii_toLower (hs : IsAscii s) : IsAscii (toLower f s) := by
  rw [toLower_of_ascii f hs]
  exact isAscii_map toNat_toLower_lt hs

theorem toUTF8_toLower (hs : IsAscii s) : (toLower f s).toUTF8.toList = s.toList.map fun c => c.toLower.toUInt8 := by
  rw [toUTF8_toList_of_ascii (isAscii_toLower f hs), toLower_of_ascii f hs, String.toList_map, List.map_map]
  rfl

theorem toLower_idem (hs : IsAscii s) : toLower f (toLower f s) = toLower f s := by
  rw [toLower_of_ascii f (isAscii_toLower f hs), toLower_of_ascii f hs, ← String.toList_inj, String.toList_map,
    String.toList_map, List.map_map]
  exact List.map_congr_left fun c hc => Ascii.toLower_toLower c (hs c hc)

theorem utf8ByteSize_eq_length_toUTF8_toLower (hs : IsAscii s) :
    s.utf8ByteSize = (toLower f s).toUTF8.toList.length := by
  rw [utf8ByteSize_of_ascii hs, toUTF8_toLower f hs, List.length_map, String.length_toList]

theorem init_of_ascii (s : String) (hs : IsAscii s) (h1 : 1 ≤ s.length) (h2 : s.length ≤ 20) :
    ((∀ c ∈ s.toList, c.toLower.toUInt8 ∈ charmap) →
      ∃ n, Name.init ⟨0, 0⟩ f s = .ok (n, none) ∧ n.toString = .ok (.ok (toLower f s)) ∧
        newName f (toLower f s) = .ok n) ∧
    ((∃ c ∈ s.toList, c.toLower.toUInt8 ∉ charmap) →
      Name.init ⟨0, 0⟩ f s = .ok (⟨0, 0⟩, some "Name can only contain 0-9 a-z .-_") ∧
        (⟨0, 0⟩ : Name).toString = .ok (.error "Name object is not initialized")) := by
  have hbytes := toUTF8_toLower f hs
  have hsize := utf8ByteSize_eq_length_toUTF8_toLower f hs
  have hlen : (toLower f s).toUTF8.toList.length = s.length := by rw [hbytes, List.length_map, String.length_toList]
  constructor
  · intro hmem
    have hbs : ∀ b ∈ (toLower f s).toUTF8.toList, b ∈ charmap := by
      rw [hbytes]
      intro b hb
      obtain ⟨c, hc, rfl⟩ := List.mem_map.mp hb
      exact hmem c hc
    refine ⟨_, init_of_mem f s hsize (by omega) hbs, ?_, ?_⟩
    · rw [toString_of_mem (by omega) (by omega) hbs, asciiString, ofList_ofNat_toUTF8 (isAscii_toLower f hs)]
    · -- the lower-cased string lower-cases to itself, so it encodes to the same halves
      have hs' := isAscii_toLower f hs
      have hinit := init_of_mem f (toLower f s) (utf8ByteSize_eq_length_toUTF8_toLower f hs')
        (by rw [utf8ByteSize_eq_length_toUTF8_toLower f hs', toLower_idem f hs]; omega)
        (by rw [toLower_idem f hs]; exact hbs)
      rw [newName, hinit, toLower_idem f hs]
      rfl
  · intro hbad
    refine ⟨init_of_not_mem f s hsize (by omega) ?_, by decide +kernel⟩
    obtain ⟨c, hc, hcm⟩ := hbad
    exact ⟨c.toLower.toUInt8, by rw [hbytes]; exact List.mem_map_of_mem hc, hcm⟩

end Ascii

theorem init_of_ascii_hello_world :
    ∃ n, Name.init ⟨0, 0⟩ id "Hello_World.01" = .ok (n, none) ∧ n.toString = .ok (.ok (toLower id "Hello_World.01")) ∧
      newName id (toLower id "Hello_World.01") = .ok n :=
  (init_of_ascii id "Hello_World.01" (by decide +kernel) (by decide +kernel) (by decide +kernel)).1
    fun c hc => of_decide_eq_true (List.all_eq_true.mp
      (by decide +kernel : "Hello_World.01".toList.all (fun c => decide (c.toLower.toUInt8 ∈ charmap)) = true) c hc)

theorem init_empty_no_error : Name.init ⟨0, 0⟩ Char.toLower "" = .ok (⟨0, 0⟩, none) :=
  init_empty Char.toLower

theorem toString_panics :
    (⟨40, 0⟩ : Name).mustToString = .error (.indexOutOfRange 39 39) ∧
      Name.init ⟨0, 0⟩ (fun c => if c = '\u212A' then 'k' else c) "\u212Aaaaaaaaa" =
        .error (.sliceBoundsOutOfRange 10 9) := by
  constructor <;> decide +kernel

section Decoded

open Ascii

variable (f : Char → Char) {bs : List UInt8}

theorem isAscii_asciiString (hbs : ∀ b ∈ bs, b ∈ charmap) : IsAscii (asciiString bs) := by
  intro c hc
  rw [asciiString, String.toList_ofList, List.mem_map] at hc
  obtain ⟨b, hb, rfl⟩ := hc
  exact (charmap_char b (hbs b hb)).1

theorem toUTF8_asciiString (hbs : ∀ b ∈ bs, b ∈ charmap) : (asciiString bs).toUTF8.toList = bs := by
  rw [toUTF8_toList_of_ascii (isAscii_asciiString hbs), asciiString, String.toList_ofList, List.map_map]
  conv => rhs; rw [← List.map_id bs]
  exact List.map_congr_left fun b hb => (charmap_char b (hbs b hb)).2.1

theorem toLower_asciiString (hbs : ∀ b ∈ bs, b ∈ charmap) : toLower f (asciiString bs) = asciiString bs := by
  rw [toLower_of_ascii f (isAscii_asciiString hbs), ← String.toList_inj, String.toList_map, asciiString,
    String.toList_ofList, List.map_map]
  exact List.map_congr_left fun b hb => (charmap_char b (hbs b hb)).2.2

theorem newName_asciiString (h1 : 1 ≤ bs.length) (h2 : bs.length ≤ 20) (hbs : ∀ b ∈ bs, b ∈ charmap) :
    newName f (asciiString bs) = .ok ⟨partialStringNameToCode (bs.take 10), partialStringNameToCode (bs.drop 10)⟩ := by
  have hbytes : (toLower f (asciiString bs)).toUTF8.toList = bs := by
    rw [toLower_asciiString f hbs, toUTF8_asciiString hbs]
  have hsize : (asciiString bs).utf8ByteSize = bs.length := by
    rw [utf8ByteSize_of_ascii (isAscii_asciiString hbs), ← String.length_toList, asciiString, String.toList_ofList,
      List.length_map]
  have hinit := init_of_mem f (asciiString bs) (by rw [hsize, hbytes]) (by omega) (by rw [hbytes]; exact hbs)
  rw [newName, hinit, hbytes]
  rfl

theorem mustToString_of_toString {N : Name} {t : String} (h : N.toString = .ok (.ok t)) : N.mustToString = .ok t := by
  simp only [Name.mustToString, h, bind, Except.bind]
  rfl

/-- Encoding what a name decodes to gives a name that decodes to the same string. -/
theorem mustToString_newName {N : Name} {t : String} (h : N.mustToString = .ok t) :
    ∃ n, newName f t = .ok n ∧ n.mustToString = .ok t := by
  rw [Name.mustToString] at h
  cases hN : N.toString with
  | error p => simp [hN, bind, Except.bind] at h
  | ok res =>
    cases res with
    | ok res =>
      simp only [hN, bind, Except.bind] at h
      cases h
      obtain ⟨bs, rfl, h1, h2, hbs⟩ := toString_ok hN
      exact ⟨_, newName_asciiString f h1 h2 hbs, mustToString_of_toString (toString_of_mem h1 h2 hbs)⟩
    | error e =>
      simp only [hN, bind, Except.bind] at h
      cases h
      exact ⟨⟨0, 0⟩, by rw [newName, init_empty f]; rfl, by decide⟩

end Decoded

end Friday.Nickname
