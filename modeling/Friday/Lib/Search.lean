import Friday.Lib.Merge

/-! # Binary search in a sorted association list

`search` finds the value of a key in a list sorted by key, as the `AmountOf` of the coin
sets does: a check of the key at every level, the middle entry, then one half. On a sorted
list it finds the value of the entry of that key (`search_of_mem`), and `zero` when there is
none (`search_of_not_mem`).
-/

namespace Search

open Merge

variable {α K M ε : Type} [LinearOrder K]

/-- The binary search, with `check` on the key at every level and `zero` for a key that is
not there. -/
def search (check : K → Except ε Unit) (key : α → K) (val : α → M) (zero : M) (l : List α) (k : K) :
    Except ε M := do
  check k
  match h : l with
  | [] => pure zero
  | [a] => pure (if key a = k then val a else zero)
  | a₀ :: a₁ :: as =>
    let midIdx := l.length / 2
    let a := l.get ⟨midIdx, by simp only [midIdx, h, List.length_cons]; omega⟩
    if k < key a then search check key val zero (l.take midIdx) k
    else if k = key a then pure (val a)
    else search check key val zero (l.drop (midIdx + 1)) k
termination_by l.length
decreasing_by
  all_goals simp only [h, List.length_take, List.length_drop, List.length_cons]
  all_goals omega

variable {key : α → K}

theorem eq_of_key_eq {l : List α} {a b : α} (h : Sorted key l) (ha : a ∈ l) (hb : b ∈ l) (hk : key a = key b) :
    a = b := by
  induction l with
  | nil => simp at ha
  | cons c l ih =>
    obtain ⟨hlow, hsorted⟩ := sorted_cons.mp h
    rcases List.mem_cons.mp ha with ha | ha <;> rcases List.mem_cons.mp hb with hb | hb
    · rw [ha, hb]
    · rw [ha] at hk
      exact absurd hk (ne_of_lt (hlow b hb))
    · rw [hb] at hk
      exact absurd hk.symm (ne_of_lt (hlow a ha))
    · exact ih hsorted ha hb

/-- A sorted list around its entry at `m`: both sides sorted, the keys of one side below
that entry's key and those of the other above it. -/
theorem sorted_split {l : List α} {m : Nat} (hm : m < l.length) (h : Sorted key l) :
    (∀ a, a ∈ l ↔ a ∈ l.take m ∨ a = l.get ⟨m, hm⟩ ∨ a ∈ l.drop (m + 1)) ∧
      (∀ a ∈ l.take m, key a < key (l.get ⟨m, hm⟩)) ∧ (∀ a ∈ l.drop (m + 1), key (l.get ⟨m, hm⟩) < key a) ∧
      Sorted key (l.take m) ∧ Sorted key (l.drop (m + 1)) := by
  have hl : l = l.take m ++ l.get ⟨m, hm⟩ :: l.drop (m + 1) := by simp
  have hs := h
  rw [hl, Sorted, List.map_append, List.map_cons, List.pairwise_append, List.pairwise_cons] at hs
  obtain ⟨htake, ⟨hhigh, hdrop⟩, hcross⟩ := hs
  refine ⟨fun a => ?_, fun a ha => hcross _ (List.mem_map_of_mem ha) _ List.mem_cons_self,
    fun a ha => hhigh _ (List.mem_map_of_mem ha), htake, hdrop⟩
  conv_lhs => rw [hl]
  simp only [List.mem_append, List.mem_cons]

variable {check : K → Except ε Unit} {val : α → M} {zero : M}

/-- What `search` finds: the value of an entry of the key, and `zero` when there is none. -/
def Finds (key : α → K) (val : α → M) (zero : M) (l : List α) (k : K) (v : M) : Prop :=
  (∀ a ∈ l, key a = k → v = val a) ∧ ((∀ a ∈ l, key a ≠ k) → v = zero)

theorem search_finds (l : List α) (k : K) (hsorted : Sorted key l) (hk : check k = .ok ()) :
    ∃ v, search check key val zero l k = .ok v ∧ Finds key val zero l k v := by
  -- strong induction on the length, which each level of the search halves
  induction hlen : l.length using Nat.strong_induction_on generalizing l with
  | _ n ih =>
  match l, hsorted with
  | [], _ =>
    refine ⟨zero, by rw [search, hk]; rfl, fun a ha => by simp at ha, fun _ => rfl⟩
  | [a], _ =>
    refine ⟨if key a = k then val a else zero, by rw [search, hk]; rfl, fun b hb hbk => ?_, fun hne => ?_⟩
    · rw [List.mem_singleton.mp hb] at hbk ⊢
      rw [if_pos hbk]
    · rw [if_neg (hne a (List.mem_singleton_self a))]
  | a₀ :: a₁ :: as, hsorted =>
    rw [search, hk]
    simp only [bind, Except.bind]
    set l := a₀ :: a₁ :: as
    have hm : l.length / 2 < l.length := by simp only [l, List.length_cons]; omega
    obtain ⟨hmem, hlow, hhigh, htake, hdrop⟩ := sorted_split hm hsorted
    set mid := l.get ⟨l.length / 2, hm⟩
    have htakeLen : (l.take (l.length / 2)).length < n := by
      rw [List.length_take, ← hlen]; omega
    have hdropLen : (l.drop (l.length / 2 + 1)).length < n := by
      rw [List.length_drop, ← hlen]; omega
    by_cases hleft : k < key mid
    · -- the key can only be left of the middle entry
      obtain ⟨v, hv, hfind, hnone⟩ := ih _ htakeLen _ htake rfl
      refine ⟨v, by rw [if_pos hleft]; exact hv, fun a ha hak => ?_, fun hne => hnone fun a ha => ?_⟩
      · rcases (hmem a).mp ha with ha | rfl | ha
        · exact hfind a ha hak
        · exact absurd hak (ne_of_lt hleft).symm
        · exact absurd hak (ne_of_gt (lt_trans hleft (hhigh a ha)))
      · exact hne a ((hmem a).mpr (.inl ha))
    · by_cases hmid : k = key mid
      · -- the middle entry is the only entry of the key
        refine ⟨val mid, by rw [if_neg hleft, if_pos hmid]; rfl, fun a ha hak => ?_, fun hne => ?_⟩
        · rw [eq_of_key_eq hsorted ha ((hmem mid).mpr (.inr (.inl rfl))) (hak.trans hmid)]
        · exact absurd hmid.symm (hne mid ((hmem mid).mpr (.inr (.inl rfl))))
      · -- the key can only be right of the middle entry
        have hright : key mid < k := lt_of_le_of_ne (not_lt.mp hleft) (Ne.symm hmid)
        obtain ⟨v, hv, hfind, hnone⟩ := ih _ hdropLen _ hdrop rfl
        refine ⟨v, by rw [if_neg hleft, if_neg hmid]; exact hv, fun a ha hak => ?_, fun hne => hnone fun a ha => ?_⟩
        · rcases (hmem a).mp ha with ha | rfl | ha
          · exact absurd hak (ne_of_lt (lt_trans (hlow a ha) hright))
          · exact absurd hak (ne_of_gt hright).symm
          · exact hfind a ha hak
        · exact hne a ((hmem a).mpr (.inr (.inr ha)))

theorem search_of_mem {l : List α} {k : K} {a : α} (hsorted : Sorted key l) (hk : check k = .ok ()) (ha : a ∈ l)
    (hak : key a = k) : search check key val zero l k = .ok (val a) := by
  obtain ⟨v, hv, hfind, -⟩ : ∃ v, search check key val zero l k = .ok v ∧ Finds key val zero l k v :=
    search_finds l k hsorted hk
  rw [hv, hfind a ha hak]

theorem search_of_not_mem {l : List α} {k : K} (hsorted : Sorted key l) (hk : check k = .ok ())
    (hne : ∀ a ∈ l, key a ≠ k) : search check key val zero l k = .ok zero := by
  obtain ⟨v, hv, -, hnone⟩ : ∃ v, search check key val zero l k = .ok v ∧ Finds key val zero l k v :=
    search_finds l k hsorted hk
  rw [hv, hnone hne]

/-- The linear scan: the value of the first entry of the key, `zero` when there is none. -/
def scan (key : α → K) (val : α → M) (zero : M) (l : List α) (k : K) : M :=
  ((l.find? fun a => key a = k).map val).getD zero

theorem search_eq_scan {l : List α} {k : K} (hsorted : Sorted key l) (hk : check k = .ok ()) :
    search check key val zero l k = .ok (scan key val zero l k) := by
  cases hfind : l.find? fun a => key a = k with
  | none =>
    have hne : ∀ a ∈ l, key a ≠ k := fun a ha hak => by
      simpa [hak] using List.find?_eq_none.mp hfind a ha
    rw [search_of_not_mem hsorted hk hne, scan, hfind]
    rfl
  | some a =>
    have ha : a ∈ l := List.mem_of_find?_eq_some hfind
    have hak : key a = k := by simpa using List.find?_some hfind
    rw [search_of_mem hsorted hk ha hak, scan, hfind]
    rfl

theorem search_of_check {l : List α} {k : K} {e : ε} (hk : check k = .error e) :
    search check key val zero l k = .error e := by
  rw [search.eq_def, hk]
  rfl

theorem search_comp {N : Type} (f : M → N) {l : List α} {k : K} (hsorted : Sorted key l) :
    search check key (f ∘ val) (f zero) l k = f <$> search check key val zero l k := by
  cases hk : check k with
  | error e =>
    rw [search_of_check hk, search_of_check hk]
    rfl
  | ok u =>
    by_cases hex : ∃ a ∈ l, key a = k
    · obtain ⟨a, ha, hak⟩ := hex
      rw [search_of_mem hsorted hk ha hak, search_of_mem hsorted hk ha hak]
      rfl
    · have hne : ∀ a ∈ l, key a ≠ k := fun a ha h => hex ⟨a, ha, h⟩
      rw [search_of_not_mem hsorted hk hne, search_of_not_mem hsorted hk hne]
      rfl

/-- Mapping the entries to entries of the same key and dropping some whose value is `zero`
changes nothing that a search finds. -/
theorem search_filter_map {β : Type} {key' : β → K} {val' : β → M} (g : α → β) (p : β → Bool)
    (hkey : ∀ a, key' (g a) = key a) (hzero : ∀ a, p (g a) = false → val' (g a) = zero) {l : List α} {k : K}
    (hsorted : Sorted key l) : search check key' val' zero ((l.map g).filter p) k = search check key (val' ∘ g) zero l k := by
  have hsorted' : Sorted key' ((l.map g).filter p) := sorted_filter_map g p hkey hsorted
  cases hk : check k with
  | error e =>
    rw [search_of_check hk, search_of_check hk]
  | ok u =>
    by_cases hex : ∃ a ∈ l, key a = k
    · obtain ⟨a, ha, hak⟩ := hex
      rw [search_of_mem hsorted hk ha hak]
      cases hp : p (g a)
      · -- the entry of the key is dropped, and its value is `zero`
        have hne : ∀ b ∈ (l.map g).filter p, key' b ≠ k := by
          intro b hb hbk
          obtain ⟨hb, hpb⟩ := List.mem_filter.mp hb
          obtain ⟨c, hc, rfl⟩ := List.mem_map.mp hb
          rw [eq_of_key_eq hsorted hc ha ((hkey c).symm.trans (hbk.trans hak.symm)), hp] at hpb
          exact absurd hpb (by simp)
        rw [search_of_not_mem hsorted' hk hne, Function.comp_apply, hzero a hp]
      · exact search_of_mem hsorted' hk (List.mem_filter.mpr ⟨List.mem_map_of_mem ha, hp⟩) ((hkey a).trans hak)
    · have hne : ∀ a ∈ l, key a ≠ k := fun a ha h => hex ⟨a, ha, h⟩
      have hne' : ∀ b ∈ (l.map g).filter p, key' b ≠ k := by
        intro b hb hbk
        obtain ⟨c, hc, rfl⟩ := List.mem_map.mp (List.mem_filter.mp hb).1
        exact hne c hc ((hkey c).symm.trans hbk)
      rw [search_of_not_mem hsorted hk hne, search_of_not_mem hsorted' hk hne']

/-- Mapping the entries to entries of the same key whose values are the images under `f`,
some of them dropped at the image of `zero`, maps what a search finds by `f`. -/
theorem search_filter_map_comp {β N : Type} {key' : β → K} {val' : β → N} {zero' : N} (g : α → β) (p : β → Bool)
    (f : M → N) (hkey : ∀ a, key' (g a) = key a) (hval : ∀ a, val' (g a) = f (val a)) (hzero : f zero = zero')
    (hdrop : ∀ a, p (g a) = false → val' (g a) = zero') {l : List α} {k : K} (hsorted : Sorted key l) :
    search check key' val' zero' ((l.map g).filter p) k = f <$> search check key val zero l k := by
  have hcomp : val' ∘ g = f ∘ val := funext hval
  rw [search_filter_map g p hkey hdrop hsorted, hcomp, ← hzero]
  exact search_comp f hsorted

end Search
