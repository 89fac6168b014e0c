import Mathlib

/-! # ASCII strings and their bytes

Go sees a string as its UTF-8 bytes. On ASCII the bytes are the characters one for one,
so byte lengths, byte-wise loops and byte-wise decoding agree with the characters; this
module proves that once, together with what `Char.toLower` does to an ASCII character.
-/

namespace Ascii

/-- Every character is below `128`. -/
def IsAscii (s : String) : Prop := ∀ c ∈ s.toList, c.toNat < 128

-- The list instance is named: with Batteries in scope a quantifier over `Char` would otherwise
-- be decided over every character.
instance (s : String) : Decidable (IsAscii s) := List.decidableBAll _ s.toList

theorem char_all_lt {P : Char → Prop} (h : ∀ n, n < 128 → P (Char.ofNat n)) :
    ∀ c : Char, c.toNat < 128 → P c := by
  intro c hc
  have hp := h c.toNat hc
  rwa [Char.ofNat_toNat] at hp

theorem utf8Size_eq_one {c : Char} (hc : c.toNat < 128) : c.utf8Size = 1 := by
  rw [Char.utf8Size_eq_one_iff, UInt32.le_iff_toNat_le]
  have h1 : c.toNat = c.val.toNat := rfl
  have h2 : (127 : UInt32).toNat = 127 := rfl
  omega

theorem toList_loop_eq (bs : ByteArray) (i : Nat) (r : List UInt8) :
    ByteArray.toList.loop bs i r = r.reverse ++ bs.data.toList.drop i := by
  fun_induction ByteArray.toList.loop bs i r with
  | case1 i r h ih =>
    have hi : i < bs.data.toList.length := by simpa using h
    rw [ih, List.drop_eq_getElem_cons hi]
    simp [ByteArray.get!, h]
  | case2 i r h =>
    rw [List.drop_eq_nil_of_le (by simpa using Nat.le_of_not_lt h)]
    simp

theorem toList_eq_data_toList (bs : ByteArray) : bs.toList = bs.data.toList := by
  simp [ByteArray.toList, toList_loop_eq]

theorem length_toList (bs : ByteArray) : bs.toList.length = bs.size := by
  simp [toList_eq_data_toList]

theorem fromUTF8_toUTF8_data (t : String) : String.fromUTF8? ⟨t.toUTF8.data.toList.toArray⟩ = some t := by
  have hbytes : (⟨t.toUTF8.data.toList.toArray⟩ : ByteArray) = t.toByteArray := by
    simp
  rw [hbytes, String.fromUTF8?, dif_pos t.isValidUTF8]
  rfl

theorem toUTF8_toList (t : String) : t.toUTF8.toList = t.toList.flatMap String.utf8EncodeChar := by
  conv => lhs; rw [← String.ofList_toList (s := t)]
  rw [String.toUTF8_eq_toByteArray, String.toByteArray_ofList, toList_eq_data_toList]
  exact List.toList_data_toByteArray

theorem flatMap_utf8EncodeChar_of_ascii (l : List Char) (h : ∀ c ∈ l, c.toNat < 128) :
    l.flatMap String.utf8EncodeChar = l.map Char.toUInt8 := by
  induction l with
  | nil => rfl
  | cons c l ih =>
    rw [List.flatMap_cons, String.utf8EncodeChar_eq_singleton (utf8Size_eq_one (h c (by simp))),
      Char.toUInt8_val, List.map_cons, ih fun d hd => h d (by simp [hd])]
    rfl

theorem toUTF8_toList_of_ascii {t : String} (h : IsAscii t) : t.toUTF8.toList = t.toList.map Char.toUInt8 := by
  rw [toUTF8_toList, flatMap_utf8EncodeChar_of_ascii _ h]

theorem utf8ByteSize_of_ascii {t : String} (h : IsAscii t) : t.utf8ByteSize = t.length := by
  rw [← String.size_toByteArray, ← String.toUTF8_eq_toByteArray, ← length_toList, toUTF8_toList_of_ascii h,
    List.length_map, String.length_toList]

theorem toNat_toLower_lt : ∀ c : Char, c.toNat < 128 → c.toLower.toNat < 128 :=
  char_all_lt (by decide)

theorem toLower_toLower : ∀ c : Char, c.toNat < 128 → c.toLower.toLower = c.toLower :=
  char_all_lt (by decide)

theorem ofNat_toUInt8 : ∀ c : Char, c.toNat < 128 → Char.ofNat c.toUInt8.toNat = c :=
  char_all_lt (by decide)

theorem isAscii_map {g : Char → Char} (hg : ∀ c : Char, c.toNat < 128 → (g c).toNat < 128) {s : String}
    (hs : IsAscii s) : IsAscii (s.map g) := by
  intro c hc
  rw [String.toList_map, List.mem_map] at hc
  obtain ⟨d, hd, rfl⟩ := hc
  exact hg d (hs d hd)

theorem ofList_ofNat_toUTF8 {t : String} (h : IsAscii t) :
    String.ofList (t.toUTF8.toList.map fun b => Char.ofNat b.toNat) = t := by
  rw [toUTF8_toList_of_ascii h, List.map_map]
  conv => rhs; rw [← String.ofList_toList (s := t)]
  congr 1
  conv => rhs; rw [← List.map_id t.toList]
  exact List.map_congr_left fun c hc => ofNat_toUInt8 c (h c hc)

theorem toNat_lt_of_isLower_or_isDigit {c : Char} (h : (c.isLower || c.isDigit) = true) : c.toNat < 128 := by
  have hz : c.toNat ≤ 'z'.toNat := by
    simp only [Char.isLower, Char.isDigit, Bool.or_eq_true, Bool.and_eq_true, decide_eq_true_eq,
      UInt32.le_iff_toNat_le] at h
    have h1 : c.toNat = c.val.toNat := rfl
    have h2 : 'z'.toNat = 'z'.val.toNat := rfl
    have h3 : ('9'.val.toNat : Nat) = 57 := rfl
    have h4 : ('z'.val.toNat : Nat) = 122 := rfl
    omega
  exact Nat.lt_of_le_of_lt hz (by decide)

theorem toLower_eq_self_of_lt : ∀ c : Char, c.toNat < 128 → (c.isLower || c.isDigit) = true → c.toLower = c :=
  char_all_lt (by decide)

theorem toLower_eq_self {s : String} (h : ∀ c ∈ s.toList, (c.isLower || c.isDigit) = true) : s.toLower = s := by
  rw [← String.toList_inj, String.toLower, String.toList_map]
  conv => rhs; rw [← List.map_id s.toList]
  exact List.map_congr_left fun c hc => toLower_eq_self_of_lt c (toNat_lt_of_isLower_or_isDigit (h c hc)) (h c hc)

end Ascii
