import Friday.Lib.Except
import Mathlib

/-! # Merging sorted association lists

Two lists of entries sorted by a key, merged in key order, where two entries of one key
are combined with `plus` and the entries that `isZero` holds of are dropped: the sum of
two sparse vectors. `mergeFrom` is the loop while the first list has an entry left, `rest`
the loop from its next entry on.

Read through `amountAt`, the sum of the values of one key, the merge adds the values of
every key, whatever the lists hold (`amountAt_merge`). On sorted lists it is sorted
(`sorted_merge`), and two sorted lists without zero entries that agree on every key are
equal (`eq_of_amountAt_eq`), which makes the merge commutative and associative there.
-/

namespace Merge

variable {α K M : Type} [LinearOrder K] [AddCommMonoid M]

section Defs

variable (key : α → K) (plus : α → α → α) (isZero : α → Bool)

/-- The entries that are not zero. -/
def removeZero (l : List α) : List α := l.filter fun a => !isZero a

/-- The loop of the merge while the first list has `a` left, followed by `as`: it walks
the second list up to `a`'s key, and `rest` merges from the next entry of the first list
on. -/
def mergeFrom (a : α) (as : List α) (rest : List α → List α) : List α → List α
  | [] => removeZero isZero (a :: as)
  | b :: bs =>
    match compare (key a) (key b) with
    | .lt => (if isZero a then [] else [a]) ++ rest (b :: bs)
    | .eq => (if isZero (plus a b) then [] else [plus a b]) ++ rest bs
    | .gt => (if isZero b then [] else [b]) ++ mergeFrom a as rest bs

def merge : List α → List α → List α
  | [], bs => removeZero isZero bs
  | a :: as, bs => mergeFrom key plus isZero a as (merge as) bs

end Defs

/-- The sum of the values of `l`'s entries of key `k`. -/
def amountAt (key : α → K) (val : α → M) (l : List α) (k : K) : M :=
  (l.map fun a => if key a = k then val a else 0).sum

/-- Keys strictly ascending. -/
def Sorted (key : α → K) (l : List α) : Prop := (l.map key).Pairwise (· < ·)

instance (key : α → K) (l : List α) : Decidable (Sorted key l) :=
  inferInstanceAs (Decidable ((l.map key).Pairwise (· < ·)))

/-- What the merge needs of `plus` and `isZero`: a sum keeps the key and adds the values,
and a zero entry has no value. -/
structure Lawful (key : α → K) (plus : α → α → α) (isZero : α → Bool) (val : α → M) : Prop where
  key_plus : ∀ a b, key a = key b → key (plus a b) = key a
  val_plus : ∀ a b, key a = key b → val (plus a b) = val a + val b
  val_zero : ∀ a, isZero a = true → val a = 0

variable {key : α → K} {plus : α → α → α} {isZero : α → Bool} {val : α → M}

section Amounts

variable {k : K}

@[simp] theorem amountAt_nil : amountAt key val [] k = 0 := rfl

@[simp] theorem amountAt_cons (a : α) (l : List α) :
    amountAt key val (a :: l) k = (if key a = k then val a else 0) + amountAt key val l k := by
  simp [amountAt]

@[simp] theorem amountAt_append (l l' : List α) :
    amountAt key val (l ++ l') k = amountAt key val l k + amountAt key val l' k := by
  simp [amountAt]

theorem removeZero_cons (a : α) (l : List α) :
    removeZero isZero (a :: l) = (if isZero a then [] else [a]) ++ removeZero isZero l := by
  cases ha : isZero a <;> simp [removeZero, ha]

theorem amountAt_eq_zero {l : List α} (h : ∀ a ∈ l, key a ≠ k) : amountAt key val l k = 0 := by
  induction l with
  | nil => rfl
  | cons a l ih =>
    rw [amountAt_cons, if_neg (h a List.mem_cons_self), ih fun b hb => h b (List.mem_cons_of_mem _ hb), zero_add]

theorem exists_mem_of_amountAt_ne_zero {l : List α} (h : amountAt key val l k ≠ 0) : ∃ a ∈ l, key a = k :=
  Classical.byContradiction fun hne => h (amountAt_eq_zero fun a ha hk => hne ⟨a, ha, hk⟩)

variable (hl : Lawful key plus isZero val)
include hl

theorem amountAt_kept (a : α) :
    amountAt key val (if isZero a then [] else [a]) k = if key a = k then val a else 0 := by
  by_cases hz : isZero a
  · simp [hz, hl.val_zero a hz]
  · simp [hz]

@[simp] theorem amountAt_removeZero (l : List α) :
    amountAt key val (removeZero isZero l) k = amountAt key val l k := by
  induction l with
  | nil => rfl
  | cons a l ih =>
    rw [removeZero_cons, amountAt_append, amountAt_kept hl, ih, amountAt_cons]

/-- The walk over the second list adds `a`, `as` and the second list, given that `rest`
adds `as` to what it is given. -/
theorem amountAt_mergeFrom (a : α) (as : List α) (rest : List α → List α)
    (hrest : ∀ bs, amountAt key val (rest bs) k = amountAt key val as k + amountAt key val bs k) :
    ∀ bs, amountAt key val (mergeFrom key plus isZero a as rest bs) k =
      amountAt key val (a :: as) k + amountAt key val bs k
  | [] => by simp [mergeFrom, amountAt_removeZero hl]
  | b :: bs => by
    rw [mergeFrom]
    split
    · simp only [amountAt_append, amountAt_kept hl, hrest, amountAt_cons]
      abel
    · -- equal keys: the entry of the sum
      rename_i heq
      have hk : key a = key b := compare_eq_iff_eq.mp heq
      simp only [amountAt_append, amountAt_kept hl, hrest, amountAt_cons, hl.key_plus a b hk, ← hk]
      split
      · rw [hl.val_plus a b hk]
        abel
      · simp
    · simp only [amountAt_append, amountAt_kept hl, amountAt_mergeFrom a as rest hrest bs, amountAt_cons]
      abel

theorem amountAt_merge (as bs : List α) :
    amountAt key val (merge key plus isZero as bs) k = amountAt key val as k + amountAt key val bs k := by
  induction as generalizing bs with
  | nil => simp [merge, amountAt_removeZero hl]
  | cons a as ih => exact amountAt_mergeFrom hl a as (merge key plus isZero as) ih bs

end Amounts

/-! ## What the merge keeps -/

section Entries

theorem mem_kept {a c : α} (h : c ∈ if isZero a then [] else [a]) : c = a ∧ isZero a = false := by
  by_cases hz : isZero a
  · simp [hz] at h
  · simp only [hz, Bool.false_eq_true, if_false, List.mem_singleton] at h
    exact ⟨h, by simpa using hz⟩

/-- Where an entry of a merge comes from: an entry of `as`, an entry of `bs`, or the sum of
one entry of each with one key. -/
def Source (key : α → K) (plus : α → α → α) (as bs : List α) (c : α) : Prop :=
  c ∈ as ∨ c ∈ bs ∨ ∃ a ∈ as, ∃ b ∈ bs, key a = key b ∧ c = plus a b

omit [LinearOrder K] in
theorem Source.mono {as bs as' bs' : List α} {c : α} (h : Source key plus as bs c) (has : as ⊆ as')
    (hbs : bs ⊆ bs') : Source key plus as' bs' c := by
  rcases h with h | h | ⟨a, ha, b, hb, hab, rfl⟩
  · exact .inl (has h)
  · exact .inr (.inl (hbs h))
  · exact .inr (.inr ⟨a, has ha, b, hbs hb, hab, rfl⟩)

/-- What the merge can emit: an entry that is not zero, from one list or the sum of one
entry of each. -/
theorem mem_merge : ∀ {as bs : List α} {c : α}, c ∈ merge key plus isZero as bs →
    isZero c = false ∧ Source key plus as bs c
  | [], _, c, h => by
    simp only [merge, removeZero, List.mem_filter, Bool.not_eq_true'] at h
    exact ⟨h.2, .inr (.inl h.1)⟩
  | a :: as, bs, c, h => by
    induction bs with
    | nil =>
      simp only [merge, mergeFrom, removeZero, List.mem_filter, Bool.not_eq_true'] at h
      exact ⟨h.2, .inl h.1⟩
    | cons b bs ih =>
      simp only [merge, mergeFrom] at h ih
      cases hc : compare (key a) (key b) <;> simp only [hc] at h <;> rcases List.mem_append.mp h with h | h
      · obtain ⟨rfl, hz⟩ := mem_kept h
        exact ⟨hz, .inl List.mem_cons_self⟩
      · obtain ⟨hz, hsrc⟩ := mem_merge h
        exact ⟨hz, hsrc.mono (List.subset_cons_self a as) (List.Subset.refl _)⟩
      · -- equal keys: the sum of the two first entries
        obtain ⟨rfl, hz⟩ := mem_kept h
        exact ⟨hz, .inr (.inr ⟨a, List.mem_cons_self, b, List.mem_cons_self, compare_eq_iff_eq.mp hc, rfl⟩)⟩
      · obtain ⟨hz, hsrc⟩ := mem_merge h
        exact ⟨hz, hsrc.mono (List.subset_cons_self a as) (List.subset_cons_self b bs)⟩
      · obtain ⟨rfl, hz⟩ := mem_kept h
        exact ⟨hz, .inr (.inl List.mem_cons_self)⟩
      · obtain ⟨hz, hsrc⟩ := ih h
        exact ⟨hz, hsrc.mono (List.Subset.refl _) (List.subset_cons_self b bs)⟩

theorem isZero_of_mem_merge {as bs : List α} {c : α} (h : c ∈ merge key plus isZero as bs) : isZero c = false :=
  (mem_merge h).1

theorem forall_mem_merge (P : α → Prop) (hplus : ∀ a b, key a = key b → P a → P b → P (plus a b))
    {as bs : List α} (has : ∀ a ∈ as, P a) (hbs : ∀ b ∈ bs, P b) : ∀ c ∈ merge key plus isZero as bs, P c := by
  intro c hc
  rcases (mem_merge hc).2 with h | h | ⟨a, ha, b, hb, hab, rfl⟩
  · exact has c h
  · exact hbs c h
  · exact hplus a b hab (has a ha) (hbs b hb)

theorem key_mem_of_mem_merge (hkey : ∀ a b, key a = key b → key (plus a b) = key a) {as bs : List α} {c : α}
    (h : c ∈ merge key plus isZero as bs) : key c ∈ as.map key ∨ key c ∈ bs.map key := by
  rcases (mem_merge h).2 with h | h | ⟨a, ha, b, hb, hab, rfl⟩
  · exact .inl (List.mem_map_of_mem h)
  · exact .inr (List.mem_map_of_mem h)
  · rw [hkey a b hab]
    exact .inl (List.mem_map_of_mem ha)

/-- The first entry of a merge of lists whose first entries, and their sum, are not zero:
it has the key of one of the two first entries. -/
theorem key_head_merge (hkey : ∀ a b, key a = key b → key (plus a b) = key a) {as bs : List α}
    (has : ∀ a ∈ as.head?, isZero a = false) (hbs : ∀ b ∈ bs.head?, isZero b = false)
    (hsum : ∀ a ∈ as.head?, ∀ b ∈ bs.head?, key a = key b → isZero (plus a b) = false) :
    ∀ c ∈ (merge key plus isZero as bs).head?, (∃ a ∈ as.head?, key c = key a) ∨ ∃ b ∈ bs.head?, key c = key b := by
  intro c hc
  match as, bs with
  | [], [] => simp [merge, removeZero] at hc
  | [], b :: bs =>
    have hb : isZero b = false := hbs b rfl
    simp only [merge, removeZero, List.filter_cons, hb, Bool.not_false, if_true, List.head?_cons,
      Option.mem_def, Option.some.injEq] at hc
    exact .inr ⟨b, rfl, by rw [hc]⟩
  | a :: as, [] =>
    have ha : isZero a = false := has a rfl
    simp only [merge, mergeFrom, removeZero, List.filter_cons, ha, Bool.not_false, if_true, List.head?_cons,
      Option.mem_def, Option.some.injEq] at hc
    exact .inl ⟨a, rfl, by rw [hc]⟩
  | a :: as, b :: bs =>
    have ha : isZero a = false := has a rfl
    have hb : isZero b = false := hbs b rfl
    simp only [merge, mergeFrom] at hc
    cases hcmp : compare (key a) (key b) <;> simp only [hcmp] at hc
    · simp only [ha, Bool.false_eq_true, if_false, List.singleton_append, List.head?_cons, Option.mem_def,
        Option.some.injEq] at hc
      exact .inl ⟨a, rfl, by rw [hc]⟩
    · have hab : key a = key b := compare_eq_iff_eq.mp hcmp
      simp only [hsum a rfl b rfl hab, Bool.false_eq_true, if_false, List.singleton_append, List.head?_cons,
        Option.mem_def, Option.some.injEq] at hc
      exact .inl ⟨a, rfl, by rw [← hc, hkey a b hab]⟩
    · simp only [hb, Bool.false_eq_true, if_false, List.singleton_append, List.head?_cons, Option.mem_def,
        Option.some.injEq] at hc
      exact .inr ⟨b, rfl, by rw [hc]⟩

end Entries

/-! ## Order -/

section Order

theorem sorted_cons {a : α} {l : List α} : Sorted key (a :: l) ↔ (∀ b ∈ l, key a < key b) ∧ Sorted key l := by
  simp [Sorted, List.pairwise_cons]

theorem sorted_append_of_lt {l l' : List α} (hl : Sorted key l) (hl' : Sorted key l')
    (hlt : ∀ a ∈ l, ∀ b ∈ l', key a < key b) : Sorted key (l ++ l') := by
  simp only [Sorted, List.map_append, List.pairwise_append]
  refine ⟨hl, hl', ?_⟩
  intro x hx y hy
  obtain ⟨a, ha, rfl⟩ := List.mem_map.mp hx
  obtain ⟨b, hb, rfl⟩ := List.mem_map.mp hy
  exact hlt a ha b hb

theorem sorted_kept (a : α) : Sorted key (if isZero a then [] else [a]) := by
  split <;> simp [Sorted]

theorem sorted_removeZero {l : List α} (h : Sorted key l) : Sorted key (removeZero isZero l) :=
  List.Pairwise.sublist ((List.filter_sublist).map key) h

theorem sorted_filter_map {β : Type} {key' : β → K} (g : α → β) (p : β → Bool) (hkey : ∀ a, key' (g a) = key a)
    {l : List α} (h : Sorted key l) : Sorted key' ((l.map g).filter p) := by
  have hmap : (l.map g).map key' = l.map key := by
    simp only [List.map_map]
    exact List.map_congr_left fun a _ => hkey a
  unfold Sorted
  exact List.Pairwise.sublist ((List.filter_sublist).map key') (hmap ▸ h)

/-- On sorted lists the merge is sorted: each entry it emits has a key below all that the
rest of the merge can emit. -/
theorem sorted_merge (hkey : ∀ a b, key a = key b → key (plus a b) = key a) :
    ∀ {as bs : List α}, Sorted key as → Sorted key bs → Sorted key (merge key plus isZero as bs)
  | [], _, _, hb => sorted_removeZero hb
  | a :: as, bs, ha, hb => by
    induction bs with
    | nil => exact sorted_removeZero ha
    | cons b bs ih =>
      obtain ⟨hlowA, has⟩ := sorted_cons.mp ha
      obtain ⟨hlowB, hbs⟩ := sorted_cons.mp hb
      simp only [merge, mergeFrom] at ih ⊢
      split
      · -- `a` comes first, before `as` and all of `b :: bs`
        rename_i hlt
        have hab : key a < key b := compare_lt_iff_lt.mp hlt
        refine sorted_append_of_lt (sorted_kept a) (sorted_merge hkey has hb) ?_
        intro x hx y hy
        rw [(mem_kept hx).1]
        rcases key_mem_of_mem_merge hkey hy with hy | hy <;> obtain ⟨z, hz, hzy⟩ := List.mem_map.mp hy <;> rw [← hzy]
        · exact hlowA z hz
        · rcases List.mem_cons.mp hz with rfl | hz
          · exact hab
          · exact lt_trans hab (hlowB z hz)
      · -- the sum of `a` and `b` comes first, before `as` and `bs`
        rename_i heq
        have hab : key a = key b := compare_eq_iff_eq.mp heq
        refine sorted_append_of_lt (sorted_kept (plus a b)) (sorted_merge hkey has hbs) ?_
        intro x hx y hy
        rw [(mem_kept hx).1, hkey a b hab]
        rcases key_mem_of_mem_merge hkey hy with hy | hy <;> obtain ⟨z, hz, hzy⟩ := List.mem_map.mp hy <;> rw [← hzy]
        · exact hlowA z hz
        · exact hab ▸ hlowB z hz
      · -- `b` comes first, before `a :: as` and `bs`
        rename_i hgt
        have hba : key b < key a := compare_gt_iff_gt.mp hgt
        refine sorted_append_of_lt (sorted_kept b) (ih hbs) ?_
        intro x hx y hy
        rw [(mem_kept hx).1]
        have hy' : y ∈ merge key plus isZero (a :: as) bs := by simpa [merge] using hy
        rcases key_mem_of_mem_merge hkey hy' with hy | hy <;> obtain ⟨z, hz, hzy⟩ := List.mem_map.mp hy <;> rw [← hzy]
        · rcases List.mem_cons.mp hz with rfl | hz
          · exact hba
          · exact lt_trans hba (hlowA z hz)
        · exact hlowB z hz

end Order

/-! ## Equality from the amounts -/

section Ext

theorem amountAt_head {a : α} {l : List α} (h : Sorted key (a :: l)) :
    amountAt key val (a :: l) (key a) = val a := by
  have hzero : amountAt key val l (key a) = 0 :=
    amountAt_eq_zero fun b hb => ne_of_gt ((sorted_cons.mp h).1 b hb)
  simp [hzero]

theorem amountAt_of_lt {a : α} {l : List α} {k : K} (h : Sorted key (a :: l)) (hk : k < key a) :
    amountAt key val (a :: l) k = 0 := by
  refine amountAt_eq_zero fun b hb => ?_
  rcases List.mem_cons.mp hb with rfl | hb
  · exact ne_of_gt hk
  · exact ne_of_gt (lt_trans hk ((sorted_cons.mp h).1 b hb))

theorem amountAt_of_mem {l : List α} {c : α} (h : Sorted key l) (hc : c ∈ l) : amountAt key val l (key c) = val c := by
  induction l with
  | nil => simp at hc
  | cons a l ih =>
    obtain ⟨hlow, hsorted⟩ := sorted_cons.mp h
    rcases List.mem_cons.mp hc with rfl | hc
    · exact amountAt_head h
    · rw [amountAt_cons, if_neg (ne_of_lt (hlow c hc)), zero_add, ih hsorted hc]

variable [IsLeftCancelAdd M] (hzero : ∀ a, isZero a = false → val a ≠ 0) (hext : ∀ a b, key a = key b → val a = val b → a = b)
include hzero hext

/-- Two sorted lists without zero entries that have the same amount of every key are
equal. -/
theorem eq_of_amountAt_eq :
    ∀ {l l' : List α}, Sorted key l → Sorted key l' → (∀ a ∈ l, isZero a = false) →
      (∀ a ∈ l', isZero a = false) → (∀ k, amountAt key val l k = amountAt key val l' k) → l = l'
  | [], [], _, _, _, _, _ => rfl
  | [], b :: l', _, hs', _, hz', heq => by
    have h := heq (key b)
    rw [amountAt_nil, amountAt_head hs'] at h
    exact absurd h.symm (hzero b (hz' b List.mem_cons_self))
  | a :: l, [], hs, _, hz, _, heq => by
    have h := heq (key a)
    rw [amountAt_nil, amountAt_head hs] at h
    exact absurd h (hzero a (hz a List.mem_cons_self))
  | a :: l, b :: l', hs, hs', hz, hz', heq => by
    -- the first keys agree: the lower one would have an amount in one list only
    have hkey : key a = key b := by
      rcases lt_trichotomy (key a) (key b) with hlt | hkey | hgt
      · have h := heq (key a)
        rw [amountAt_head hs, amountAt_of_lt hs' hlt] at h
        exact absurd h (hzero a (hz a List.mem_cons_self))
      · exact hkey
      · have h := heq (key b)
        rw [amountAt_head hs', amountAt_of_lt hs hgt] at h
        exact absurd h.symm (hzero b (hz' b List.mem_cons_self))
    have hval : val a = val b := by
      have h := heq (key a)
      rwa [amountAt_head hs, hkey, amountAt_head hs'] at h
    have hab := hext a b hkey hval
    subst hab
    have htail : ∀ k, amountAt key val l k = amountAt key val l' k := by
      intro k
      have h := heq k
      rw [amountAt_cons, amountAt_cons] at h
      exact add_left_cancel h
    rw [eq_of_amountAt_eq (sorted_cons.mp hs).2 (sorted_cons.mp hs').2
      (fun c hc => hz c (List.mem_cons_of_mem _ hc)) (fun c hc => hz' c (List.mem_cons_of_mem _ hc)) htail]

end Ext

/-! ## Sums of sorted lists

With a cancellative monoid of values that determines the entries of each key, the merge of
sorted lists is commutative and associative, and the empty list is its identity on lists
without zero entries.
-/

section Algebra

variable [IsLeftCancelAdd M] (hl : Lawful key plus isZero val) (hzero : ∀ a, isZero a = false → val a ≠ 0)
  (hext : ∀ a b, key a = key b → val a = val b → a = b)
include hl hzero hext

theorem merge_eq_merge {as bs as' bs' : List α} (has : Sorted key as) (hbs : Sorted key bs)
    (has' : Sorted key as') (hbs' : Sorted key bs')
    (hsum : ∀ k, amountAt key val as k + amountAt key val bs k = amountAt key val as' k + amountAt key val bs' k) :
    merge key plus isZero as bs = merge key plus isZero as' bs' := by
  refine eq_of_amountAt_eq hzero hext (sorted_merge hl.key_plus has hbs) (sorted_merge hl.key_plus has' hbs')
    (fun c hc => isZero_of_mem_merge hc) (fun c hc => isZero_of_mem_merge hc) fun k => ?_
  rw [amountAt_merge hl, amountAt_merge hl]
  exact hsum k

theorem merge_comm {as bs : List α} (has : Sorted key as) (hbs : Sorted key bs) :
    merge key plus isZero as bs = merge key plus isZero bs as :=
  merge_eq_merge hl hzero hext has hbs hbs has fun _ => add_comm _ _

theorem merge_assoc {as bs cs : List α} (has : Sorted key as) (hbs : Sorted key bs) (hcs : Sorted key cs) :
    merge key plus isZero (merge key plus isZero as bs) cs = merge key plus isZero as (merge key plus isZero bs cs) := by
  refine merge_eq_merge hl hzero hext (sorted_merge hl.key_plus has hbs) hcs has (sorted_merge hl.key_plus hbs hcs)
    fun k => ?_
  rw [amountAt_merge hl, amountAt_merge hl, add_assoc]

end Algebra

theorem removeZero_eq_self {l : List α} (h : ∀ a ∈ l, isZero a = false) : removeZero isZero l = l :=
  List.filter_eq_self.mpr fun a ha => by simp [h a ha]

/-! ## The checked merge

A merge whose sum of two entries of one key can fail, as an addition that checks for
overflow does. Where it succeeds it returns the merge (`mergeM_eq_ok`), and it succeeds
whenever every entry of the merge passes the check (`mergeM_eq_merge`).
-/

section Checked

variable {ε : Type} (key : α → K) (add : α → α → Except ε α) (isZero : α → Bool)

/-- `mergeFrom`, with the sum of two entries of one key made by `add`. -/
def mergeFromM (a : α) (as : List α) (rest : List α → Except ε (List α)) : List α → Except ε (List α)
  | [] => pure (removeZero isZero (a :: as))
  | b :: bs =>
    match compare (key a) (key b) with
    | .lt => do return (if isZero a then [] else [a]) ++ (← rest (b :: bs))
    | .eq => do
      let c ← add a b
      return (if isZero c then [] else [c]) ++ (← rest bs)
    | .gt => do return (if isZero b then [] else [b]) ++ (← mergeFromM a as rest bs)

def mergeM : List α → List α → Except ε (List α)
  | [], bs => pure (removeZero isZero bs)
  | a :: as, bs => mergeFromM key add isZero a as (mergeM as) bs

variable {key add isZero} {a : α} {as : List α} {rest : List α → Except ε (List α)} {rest' : List α → List α}

theorem mergeFromM_eq_ok (hadd : ∀ a b c, add a b = .ok c → c = plus a b)
    (hrest : ∀ l l', rest l = .ok l' → l' = rest' l) :
    ∀ bs l, mergeFromM key add isZero a as rest bs = .ok l → l = mergeFrom key plus isZero a as rest' bs
  | [], l, h => by
    cases h
    rfl
  | b :: bs, l, h => by
    rw [mergeFromM] at h
    rw [mergeFrom]
    cases hcmp : compare (key a) (key b) <;> simp only [hcmp] at h ⊢
    · obtain ⟨l', hl', h⟩ := Except.bind_eq_ok.mp h
      cases h
      rw [hrest _ _ hl']
    · obtain ⟨c, hc, h⟩ := Except.bind_eq_ok.mp h
      obtain ⟨l', hl', h⟩ := Except.bind_eq_ok.mp h
      cases h
      rw [hadd _ _ _ hc, hrest _ _ hl']
    · obtain ⟨l', hl', h⟩ := Except.bind_eq_ok.mp h
      cases h
      rw [mergeFromM_eq_ok hadd hrest bs l' hl']

/-- Where the checked merge succeeds, it returns the merge. -/
theorem mergeM_eq_ok (hadd : ∀ a b c, add a b = .ok c → c = plus a b) :
    ∀ as bs l, mergeM key add isZero as bs = .ok l → l = merge key plus isZero as bs
  | [], _, _, h => by
    cases h
    rfl
  | _ :: as, bs, l, h => mergeFromM_eq_ok hadd (mergeM_eq_ok hadd as) bs l h

variable (P : α → Prop)

theorem mergeFromM_eq_mergeFrom (hzero : ∀ c, isZero c = true → P c)
    (hadd : ∀ a b, key a = key b → P (plus a b) → add a b = .ok (plus a b))
    (hrest : ∀ l, (∀ c ∈ rest' l, P c) → rest l = .ok (rest' l)) :
    ∀ bs, (∀ c ∈ mergeFrom key plus isZero a as rest' bs, P c) →
      mergeFromM key add isZero a as rest bs = .ok (mergeFrom key plus isZero a as rest' bs)
  | [], _ => rfl
  | b :: bs, h => by
    rw [mergeFrom] at h ⊢
    rw [mergeFromM]
    cases hcmp : compare (key a) (key b) <;> simp only [hcmp] at h ⊢
    · rw [hrest _ fun c hc => h c (List.mem_append_right _ hc)]
      rfl
    · -- the sum of the two entries passes the check: it is either zero or kept
      have hplus : P (plus a b) := by
        cases hz : isZero (plus a b)
        · exact h _ (List.mem_append_left _ (by simp [hz]))
        · exact hzero _ hz
      rw [hadd a b (compare_eq_iff_eq.mp hcmp) hplus, hrest _ fun c hc => h c (List.mem_append_right _ hc)]
      rfl
    · rw [mergeFromM_eq_mergeFrom hzero hadd hrest bs fun c hc => h c (List.mem_append_right _ hc)]
      rfl

/-- The checked merge succeeds, with the merge, when every entry of the merge passes the
check that `add` makes. -/
theorem mergeM_eq_merge (hzero : ∀ c, isZero c = true → P c)
    (hadd : ∀ a b, key a = key b → P (plus a b) → add a b = .ok (plus a b)) :
    ∀ as bs, (∀ c ∈ merge key plus isZero as bs, P c) → mergeM key add isZero as bs = .ok (merge key plus isZero as bs)
  | [], _, _ => rfl
  | _ :: as, bs, h => mergeFromM_eq_mergeFrom P hzero hadd (mergeM_eq_merge hzero hadd as) bs h

theorem forall_of_mergeFromM_eq_ok (hadd : ∀ a b c, add a b = .ok c → P c) (ha : P a) (has : ∀ x ∈ as, P x)
    (hrest : ∀ l l', (∀ x ∈ l, P x) → rest l = .ok l' → ∀ x ∈ l', P x) :
    ∀ bs l, (∀ x ∈ bs, P x) → mergeFromM key add isZero a as rest bs = .ok l → ∀ x ∈ l, P x
  | [], l, _, h => by
    cases h
    intro x hx
    rcases List.mem_cons.mp (List.mem_of_mem_filter hx) with rfl | hx
    · exact ha
    · exact has x hx
  | b :: bs, l, hbs, h => by
    rw [mergeFromM] at h
    have hbs' : ∀ x ∈ bs, P x := fun x hx => hbs x (List.mem_cons_of_mem _ hx)
    cases hcmp : compare (key a) (key b) <;> simp only [hcmp] at h
    · obtain ⟨l', hl', h⟩ := Except.bind_eq_ok.mp h
      cases h
      intro x hx
      rcases List.mem_append.mp hx with hx | hx
      · exact (mem_kept hx).1 ▸ ha
      · exact hrest _ _ hbs hl' x hx
    · obtain ⟨c, hc, h⟩ := Except.bind_eq_ok.mp h
      obtain ⟨l', hl', h⟩ := Except.bind_eq_ok.mp h
      cases h
      intro x hx
      rcases List.mem_append.mp hx with hx | hx
      · exact (mem_kept hx).1 ▸ hadd a b c hc
      · exact hrest _ _ hbs' hl' x hx
    · obtain ⟨l', hl', h⟩ := Except.bind_eq_ok.mp h
      cases h
      intro x hx
      rcases List.mem_append.mp hx with hx | hx
      · exact (mem_kept hx).1 ▸ hbs b List.mem_cons_self
      · exact forall_of_mergeFromM_eq_ok hadd ha has hrest bs l' hbs' hl' x hx

theorem error_of_mergeFromM_eq_error
    (hrest : ∀ l e, rest l = .error e → ∃ x y, key x = key y ∧ add x y = .error e) :
    ∀ bs e, mergeFromM key add isZero a as rest bs = .error e → ∃ x y, key x = key y ∧ add x y = .error e
  | [], _, h => by cases h
  | b :: bs, e, h => by
    rw [mergeFromM] at h
    cases hcmp : compare (key a) (key b) <;> simp only [hcmp] at h
    · rcases Except.bind_eq_error.mp h with h | ⟨_, -, h⟩
      · exact hrest _ _ h
      · cases h
    · rcases Except.bind_eq_error.mp h with h | ⟨_, -, h⟩
      · exact ⟨a, b, compare_eq_iff_eq.mp hcmp, h⟩
      · rcases Except.bind_eq_error.mp h with h | ⟨_, -, h⟩
        · exact hrest _ _ h
        · cases h
    · rcases Except.bind_eq_error.mp h with h | ⟨_, -, h⟩
      · exact error_of_mergeFromM_eq_error hrest bs e h
      · cases h

theorem error_of_mergeM_eq_error :
    ∀ as bs e, mergeM key add isZero as bs = .error e → ∃ x y, key x = key y ∧ add x y = .error e
  | [], _, _, h => by cases h
  | _ :: as, bs, e, h => error_of_mergeFromM_eq_error (error_of_mergeM_eq_error as) bs e h

/-- What the entries of both lists and every successful sum satisfy, every entry of a
successful checked merge satisfies. -/
theorem forall_of_mergeM_eq_ok (hadd : ∀ a b c, add a b = .ok c → P c) :
    ∀ as bs l, (∀ x ∈ as, P x) → (∀ x ∈ bs, P x) → mergeM key add isZero as bs = .ok l → ∀ x ∈ l, P x
  | [], _, _, _, hbs, h => by
    cases h
    exact fun x hx => hbs x (List.mem_of_mem_filter hx)
  | a :: as, bs, l, has, hbs, h =>
    forall_of_mergeFromM_eq_ok P hadd (has a List.mem_cons_self) (fun x hx => has x (List.mem_cons_of_mem _ hx))
      (fun l l' hl h => forall_of_mergeM_eq_ok hadd as l l' (fun x hx => has x (List.mem_cons_of_mem _ hx)) hl h)
      bs l hbs h

end Checked

end Merge
