import Mathlib.Algebra.BigOperators.Group.List.Basic
import Mathlib.Data.List.Basic

/-! # Ascending key-value listings

Ordered key-value stores hand out their contents as listings: lists of entries
whose keys are strictly ascending under a three-way comparison `cmp`. This
module is the general theory of such listings: when a listing is unique, how a
listing of a shadowing overlay is merged from two listings, how a listing takes
a batch of updates, and how listings behave under reversal. The comparison is any lawful total order in the sense of
`Std.TransCmp` and `Std.LawfulEqCmp`, so the descending direction is the same
theory at the opposite comparison.
-/

namespace SortedKV

variable {K V : Type*}

/-- Keys strictly ascending under `cmp`. -/
def Ascending (cmp : K → K → Ordering) (l : List (K × V)) : Prop :=
  l.Pairwise fun a b => cmp a.1 b.1 = .lt

instance (cmp : K → K → Ordering) (l : List (K × V)) : Decidable (Ascending cmp l) :=
  inferInstanceAs (Decidable (l.Pairwise _))

/-- `l` lists exactly the entries of the map `m` whose keys satisfy `d`, in
    ascending key order. -/
def Lists (cmp : K → K → Ordering) (m : K → Option V) (d : K → Prop)
    (l : List (K × V)) : Prop :=
  Ascending cmp l ∧ ∀ k v, (k, v) ∈ l ↔ d k ∧ m k = some v

section Shape

variable {cmp : K → K → Ordering}

@[simp] theorem ascending_nil : Ascending cmp ([] : List (K × V)) := List.Pairwise.nil

theorem ascending_cons {a : K × V} {l : List (K × V)} :
    Ascending cmp (a :: l) ↔ (∀ b ∈ l, cmp a.1 b.1 = .lt) ∧ Ascending cmp l :=
  List.pairwise_cons

theorem Ascending.tail {a : K × V} {l : List (K × V)} (h : Ascending cmp (a :: l)) :
    Ascending cmp l :=
  (ascending_cons.mp h).2

theorem Ascending.head_lt {a b : K × V} {l : List (K × V)} (h : Ascending cmp (a :: l))
    (hb : b ∈ l) : cmp a.1 b.1 = .lt :=
  (ascending_cons.mp h).1 b hb

theorem Ascending.sublist {l₁ l₂ : List (K × V)} (h : Ascending cmp l₂) (hs : l₁.Sublist l₂) :
    Ascending cmp l₁ :=
  List.Pairwise.sublist hs h

/-- Reading an ascending listing backwards gives a listing ascending in the opposite
    comparison. -/
theorem Ascending.reverse {l : List (K × V)} (h : Ascending cmp l) :
    Ascending (fun a b => cmp b a) l.reverse :=
  List.pairwise_reverse.mpr h

theorem Lists.reverse {m : K → Option V} {d : K → Prop} {l : List (K × V)}
    (h : Lists cmp m d l) : Lists (fun a b => cmp b a) m d l.reverse :=
  ⟨h.1.reverse, fun k v => by rw [List.mem_reverse, h.2 k v]⟩

end Shape

theorem mem_of_lookup_eq_some {_ : BEq K} [LawfulBEq K] {l : List (K × V)} {k : K} {v : V}
    (h : l.lookup k = some v) : (k, v) ∈ l := by
  induction l with
  | nil => simp at h
  | cons a l ih =>
    obtain ⟨k', v'⟩ := a
    by_cases hk : k = k'
    · subst hk
      simp only [List.lookup_cons, beq_self_eq_true, Option.some.injEq] at h
      simp [h]
    · have hkk' : (k == k') = false := beq_false_of_ne hk
      simp only [List.lookup_cons, hkk'] at h
      exact List.mem_cons_of_mem _ (ih h)

section Order

variable {cmp : K → K → Ordering} [Std.TransCmp cmp] [Std.LawfulEqCmp cmp]

omit [Std.TransCmp cmp] in
theorem Ascending.nodup_keys {l : List (K × V)} (h : Ascending cmp l) : (l.map Prod.fst).Nodup := by
  rw [List.Nodup, List.pairwise_map]
  refine h.imp fun {a b} hab heq => ?_
  have hself : cmp b.1 b.1 = .eq := Std.ReflCmp.compare_self
  rw [heq, hself] at hab
  cases hab

theorem Ascending.not_mem_of_lt {a : K × V} {l : List (K × V)} {k : K}
    (h : Ascending cmp (a :: l)) (hk : cmp k a.1 = .lt) (v : V) : (k, v) ∉ a :: l := by
  intro hmem
  rcases List.mem_cons.mp hmem with rfl | hmem
  · simp [Std.ReflCmp.compare_self] at hk
  · have hlt := Std.TransCmp.lt_trans hk (h.head_lt hmem)
    simp [Std.ReflCmp.compare_self] at hlt

omit [Std.TransCmp cmp] in
theorem Ascending.head_not_mem {a : K × V} {l : List (K × V)} (h : Ascending cmp (a :: l))
    (v : V) : (a.1, v) ∉ l := by
  intro hmem
  have hlt := h.head_lt hmem
  simp [Std.ReflCmp.compare_self] at hlt

theorem Ascending.eq_of_mem_iff {l₁ l₂ : List (K × V)} (h₁ : Ascending cmp l₁)
    (h₂ : Ascending cmp l₂) (hmem : ∀ x, x ∈ l₁ ↔ x ∈ l₂) : l₁ = l₂ := by
  induction l₁ generalizing l₂ with
  | nil =>
      cases l₂ with
      | nil => rfl
      | cons b l₂ => simpa using (hmem b).mpr (by simp)
  | cons a l₁ ih =>
      cases l₂ with
      | nil => simpa using (hmem a).mp (by simp)
      | cons b l₂ =>
          -- the heads are the least entries of both listings, so they agree
          have hab : a = b := by
            rcases List.mem_cons.mp ((hmem a).mp (by simp)) with hab | ha
            · exact hab
            rcases List.mem_cons.mp ((hmem b).mpr (by simp)) with hba | hb
            · exact hba.symm
            have h1 := h₂.head_lt ha
            have h2 := h₁.head_lt hb
            exact absurd (Std.TransCmp.lt_trans h1 h2) (by simp [Std.ReflCmp.compare_self])
          subst hab
          congr 1
          refine ih h₁.tail h₂.tail fun x => ⟨fun hx => ?_, fun hx => ?_⟩
          · rcases List.mem_cons.mp ((hmem x).mp (List.mem_cons_of_mem a hx)) with rfl | hx'
            · exact absurd hx (h₁.head_not_mem x.2)
            · exact hx'
          · rcases List.mem_cons.mp ((hmem x).mpr (List.mem_cons_of_mem a hx)) with rfl | hx'
            · exact absurd hx (h₂.head_not_mem x.2)
            · exact hx'

theorem ascending_mergeSort {l : List (K × V)} (hl : (l.map Prod.fst).Nodup) :
    Ascending cmp (l.mergeSort fun a b => (cmp a.1 b.1).isLE) := by
  have hle := @List.pairwise_mergeSort _ (fun a b : K × V => (cmp a.1 b.1).isLE)
    (fun _ _ _ hab hbc => Std.TransCmp.isLE_trans hab hbc)
    (fun a b => by
      have hba : cmp b.1 a.1 = (cmp a.1 b.1).swap := Std.OrientedCmp.eq_swap
      rw [hba, Ordering.isLE_swap]
      cases cmp a.1 b.1 <;> rfl) l
  have hne : (l.mergeSort fun a b => (cmp a.1 b.1).isLE).Pairwise fun a b => a.1 ≠ b.1 :=
    List.pairwise_map.mp (((List.mergeSort_perm l _).map Prod.fst).nodup_iff.mpr hl)
  refine (hle.and hne).imp fun ⟨hab, hne⟩ => ?_
  cases h : cmp _ _
  · rfl
  · exact absurd (Std.LawfulEqCmp.eq_of_compare h) hne
  · simp [h] at hab

theorem Lists.unique {m : K → Option V} {d : K → Prop} {l₁ l₂ : List (K × V)}
    (h₁ : Lists cmp m d l₁) (h₂ : Lists cmp m d l₂) : l₁ = l₂ :=
  h₁.1.eq_of_mem_iff h₂.1 fun x => by rw [h₁.2 x.1 x.2, h₂.2 x.1 x.2]

section Lookup

variable [DecidableEq K]

omit [Std.TransCmp cmp] in
theorem Ascending.lookup_eq_some_iff {l : List (K × V)} (h : Ascending cmp l) {k : K} {v : V} :
    l.lookup k = some v ↔ (k, v) ∈ l := by
  induction l with
  | nil => simp
  | cons a l ih =>
      obtain ⟨k', v'⟩ := a
      by_cases hk : k = k'
      · subst hk
        have hfresh : (k, v) ∉ l := h.head_not_mem v
        simp only [List.lookup_cons, beq_self_eq_true, Option.some.injEq, List.mem_cons,
          Prod.mk.injEq, true_and]
        tauto
      · have hkk' : (k == k') = false := beq_false_of_ne hk
        simp [List.lookup_cons, hkk', hk, ih h.tail]

omit [Std.TransCmp cmp] in
theorem Lists.lookup_eq {m : K → Option V} {l : List (K × V)} (h : Lists cmp m (fun _ => True) l)
    (k : K) : l.lookup k = m k := by
  apply Option.ext
  intro v
  rw [h.1.lookup_eq_some_iff, h.2 k v]
  simp

end Lookup

end Order

section Overlay

variable (cmp : K → K → Ordering)

/-- Merge of a listing `ps` with a shadowing listing `cs` whose `none` entries are
    tombstones: an entry of `cs` replaces the entry of `ps` with the same key, and a
    tombstone removes it. -/
def overlay : List (K × V) → List (K × Option V) → List (K × V)
  | [], cs => cs.filterMap fun c => c.2.map (c.1, ·)
  | p :: ps, [] => p :: ps
  | p :: ps, c :: cs =>
      match cmp p.1 c.1 with
      | .lt => p :: overlay ps (c :: cs)
      | .eq =>
          match c.2 with
          | none => overlay ps cs
          | some v => (c.1, v) :: overlay ps cs
      | .gt =>
          match c.2 with
          | none => overlay (p :: ps) cs
          | some v => (c.1, v) :: overlay (p :: ps) cs
termination_by ps cs => ps.length + cs.length

variable {cmp}

@[simp] theorem overlay_nil_left (cs : List (K × Option V)) :
    overlay cmp [] cs = cs.filterMap fun c => c.2.map (c.1, ·) := by
  rw [overlay]

@[simp] theorem overlay_nil_right (ps : List (K × V)) : overlay cmp ps [] = ps := by
  cases ps with
  | nil => rw [overlay]; rfl
  | cons p ps => rw [overlay]

theorem overlay_of_lt {p : K × V} {c : K × Option V} (ps : List (K × V)) (cs : List (K × Option V))
    (h : cmp p.1 c.1 = .lt) : overlay cmp (p :: ps) (c :: cs) = p :: overlay cmp ps (c :: cs) := by
  rw [overlay, h]

theorem overlay_of_eq_none {p : K × V} {k : K} (ps : List (K × V)) (cs : List (K × Option V))
    (h : cmp p.1 k = .eq) : overlay cmp (p :: ps) ((k, none) :: cs) = overlay cmp ps cs := by
  rw [overlay, h]

theorem overlay_of_eq_some {p : K × V} {k : K} {v : V} (ps : List (K × V))
    (cs : List (K × Option V)) (h : cmp p.1 k = .eq) :
    overlay cmp (p :: ps) ((k, some v) :: cs) = (k, v) :: overlay cmp ps cs := by
  rw [overlay, h]

theorem overlay_of_gt_none {p : K × V} {k : K} (ps : List (K × V)) (cs : List (K × Option V))
    (h : cmp p.1 k = .gt) : overlay cmp (p :: ps) ((k, none) :: cs) = overlay cmp (p :: ps) cs := by
  rw [overlay, h]

theorem overlay_of_gt_some {p : K × V} {k : K} {v : V} (ps : List (K × V))
    (cs : List (K × Option V)) (h : cmp p.1 k = .gt) :
    overlay cmp (p :: ps) ((k, some v) :: cs) = (k, v) :: overlay cmp (p :: ps) cs := by
  rw [overlay, h]

variable (cmp) in
/-- One write in place: the entry of `key` takes `value`, or `(key, value)` is
    inserted where key order puts it. -/
def setEntry (key : K) (value : V) : List (K × V) → List (K × V)
  | [] => [(key, value)]
  | p :: ps =>
      match cmp p.1 key with
      | .lt => p :: setEntry key value ps
      | .eq => (key, value) :: ps
      | .gt => (key, value) :: p :: ps

variable (cmp) in
/-- One delete in place. -/
def deleteEntry (key : K) : List (K × V) → List (K × V)
  | [] => []
  | p :: ps =>
      match cmp p.1 key with
      | .lt => p :: deleteEntry key ps
      | .eq => ps
      | .gt => p :: ps

/-- `setEntry` is the overlay of a one-entry listing, computed by structural
    recursion. -/
theorem setEntry_eq_overlay (key : K) (value : V) (ps : List (K × V)) :
    setEntry cmp key value ps = overlay cmp ps [(key, some value)] := by
  induction ps with
  | nil => simp [setEntry]
  | cons p ps ih =>
      cases h : cmp p.1 key with
      | lt => rw [setEntry, h, overlay_of_lt ps [] h, ih]
      | eq => rw [setEntry, h, overlay_of_eq_some ps [] h, overlay_nil_right]
      | gt => rw [setEntry, h, overlay_of_gt_some ps [] h, overlay_nil_right]

theorem deleteEntry_eq_overlay (key : K) (ps : List (K × V)) :
    deleteEntry cmp key ps = overlay cmp ps [(key, none)] := by
  induction ps with
  | nil => simp [deleteEntry]
  | cons p ps ih =>
      cases h : cmp p.1 key with
      | lt => rw [deleteEntry, h, overlay_of_lt ps [] h, ih]
      | eq => rw [deleteEntry, h, overlay_of_eq_none ps [] h, overlay_nil_right]
      | gt => rw [deleteEntry, h, overlay_of_gt_none ps [] h, overlay_nil_right]

theorem mem_overlay_source {ps : List (K × V)} {cs : List (K × Option V)} {x : K × V}
    (hx : x ∈ overlay cmp ps cs) : (x.1, some x.2) ∈ cs ∨ x ∈ ps := by
  fun_induction overlay cmp ps cs with
  | case1 cs =>
      obtain ⟨k, v, hmem, rfl⟩ : ∃ k v, (k, some v) ∈ cs ∧ (k, v) = x := by simpa using hx
      exact .inl hmem
  | case2 p ps => exact .inr hx
  | case3 p ps c cs _ ih => grind
  | case4 p ps c cs _ _ ih => grind
  | case5 p ps c cs _ v _ ih => grind
  | case6 p ps c cs _ _ ih => grind
  | case7 p ps c cs _ v _ ih => grind

theorem overlay_lt_of_lt {ps : List (K × V)} {cs : List (K × Option V)} {k : K}
    (hp : ∀ y ∈ ps, cmp k y.1 = .lt) (hc : ∀ y ∈ cs, cmp k y.1 = .lt) :
    ∀ x ∈ overlay cmp ps cs, cmp k x.1 = .lt := by
  intro x hx
  rcases mem_overlay_source hx with h | h
  · exact hc _ h
  · exact hp _ h

section OverlayOrder

variable [Std.TransCmp cmp] [Std.LawfulEqCmp cmp]

theorem overlay_ascending {ps : List (K × V)} {cs : List (K × Option V)}
    (hp : Ascending cmp ps) (hc : Ascending cmp cs) : Ascending cmp (overlay cmp ps cs) := by
  fun_induction overlay cmp ps cs with
  | case1 cs =>
      refine List.Pairwise.filterMap _ ?_ hc
      intro a b hab x hx y hy
      cases ha : a.2 <;> cases hb : b.2 <;> simp_all
      grind
  | case2 p ps => exact hp
  | case3 p ps c cs hlt ih =>
      refine ascending_cons.mpr ⟨overlay_lt_of_lt (fun y hy => hp.head_lt hy) ?_, ih hp.tail hc⟩
      intro y hy
      rcases List.mem_cons.mp hy with rfl | hy
      · exact hlt
      · exact Std.TransCmp.lt_trans hlt (hc.head_lt hy)
  | case4 p ps c cs _ _ ih => exact ih hp.tail hc.tail
  | case5 p ps c cs heq v _ ih =>
      have hpc : p.1 = c.1 := Std.LawfulEqCmp.eq_of_compare heq
      refine ascending_cons.mpr ⟨overlay_lt_of_lt (fun y hy => ?_) (fun y hy => hc.head_lt hy),
        ih hp.tail hc.tail⟩
      simpa [← hpc] using hp.head_lt hy
  | case6 p ps c cs _ _ ih => exact ih hp hc.tail
  | case7 p ps c cs hgt v _ ih =>
      have hcp : cmp c.1 p.1 = .lt := Std.OrientedCmp.gt_iff_lt.mp hgt
      refine ascending_cons.mpr ⟨overlay_lt_of_lt (fun y hy => ?_) (fun y hy => hc.head_lt hy),
        ih hp hc.tail⟩
      rcases List.mem_cons.mp hy with rfl | hy
      · exact hcp
      · exact Std.TransCmp.lt_trans hcp (hp.head_lt hy)

/-- What an overlay holds: the live entries of the shadowing listing, and the entries of
    the base listing whose key the shadowing listing does not mention. -/
theorem mem_overlay {ps : List (K × V)} {cs : List (K × Option V)}
    (hp : Ascending cmp ps) (hc : Ascending cmp cs) (x : K × V) :
    x ∈ overlay cmp ps cs ↔ (x.1, some x.2) ∈ cs ∨ (x ∈ ps ∧ ∀ o, (x.1, o) ∉ cs) := by
  fun_induction overlay cmp ps cs with
  | case1 cs => cases x; simp
  | case2 p ps => simp
  | case3 p ps c cs hlt ih =>
      have hfresh : ∀ o, (p.1, o) ∉ c :: cs := hc.not_mem_of_lt hlt
      have ih := ih hp.tail hc
      grind
  | case4 p ps c cs heq hnone ih =>
      have hpc : p.1 = c.1 := Std.LawfulEqCmp.eq_of_compare heq
      have hfresh : ∀ w, (p.1, w) ∉ ps := hp.head_not_mem
      have ih := ih hp.tail hc.tail
      grind
  | case5 p ps c cs heq v hsome ih =>
      have hpc : p.1 = c.1 := Std.LawfulEqCmp.eq_of_compare heq
      have hfresh : ∀ w, (p.1, w) ∉ ps := hp.head_not_mem
      have ih := ih hp.tail hc.tail
      grind
  | case6 p ps c cs hgt hnone ih =>
      have hfresh : ∀ w, (c.1, w) ∉ p :: ps :=
        hp.not_mem_of_lt (Std.OrientedCmp.gt_iff_lt.mp hgt)
      have ih := ih hp hc.tail
      grind
  | case7 p ps c cs hgt v hsome ih =>
      have hfresh : ∀ w, (c.1, w) ∉ p :: ps :=
        hp.not_mem_of_lt (Std.OrientedCmp.gt_iff_lt.mp hgt)
      have ih := ih hp hc.tail
      grind

/-- The overlay of a listing of `mp` by a listing of `mc`, in which `some none` is a
    tombstone, lists the overlaid map. -/
theorem Lists.overlay {mp : K → Option V} {mc : K → Option (Option V)} {d : K → Prop}
    {ps : List (K × V)} {cs : List (K × Option V)} (hp : Lists cmp mp d ps)
    (hc : Lists cmp mc d cs) :
    Lists cmp (fun k => (mc k).getD (mp k)) d (SortedKV.overlay cmp ps cs) := by
  refine ⟨overlay_ascending hp.1 hc.1, fun k v => ?_⟩
  rw [mem_overlay hp.1 hc.1]
  simp only [hp.2, hc.2]
  cases hk : mc k <;> simp
  tauto

theorem Ascending.setEntry {ps : List (K × V)} (h : Ascending cmp ps) (key : K) (value : V) :
    Ascending cmp (setEntry cmp key value ps) := by
  rw [setEntry_eq_overlay]
  exact overlay_ascending h (by simp [Ascending])

end OverlayOrder

theorem mem_setEntry {key : K} {value : V} {ps : List (K × V)} {x : K × V} (hx : x ∈ setEntry cmp key value ps) :
    x = (key, value) ∨ x ∈ ps := by
  rw [setEntry_eq_overlay] at hx
  rcases mem_overlay_source hx with h | h
  · left
    simpa [Prod.ext_iff] using h
  · exact .inr h

section Write

variable [Std.LawfulEqCmp cmp] [BEq K] [LawfulBEq K]

omit [BEq K] [LawfulBEq K] in
theorem ne_of_cmp_lt {k k' : K} (h : cmp k k' = .lt) : k ≠ k' := by
  rintro rfl
  have hself : cmp k k = .eq := Std.ReflCmp.compare_self
  rw [hself] at h
  cases h

/-- A lookup after a write finds the value written at its key and the value from before
at every other key. -/
theorem lookup_setEntry (key k : K) (value : V) (ps : List (K × V)) :
    (setEntry cmp key value ps).lookup k = if k == key then some value else ps.lookup k := by
  induction ps with
  | nil => cases hk : k == key <;> simp [setEntry, List.lookup_cons, hk]
  | cons p ps ih =>
    cases hc : cmp p.1 key with
    | lt =>
      rw [setEntry, hc, List.lookup_cons, List.lookup_cons, ih]
      cases hk : k == key
      · simp
      · have hkp : (k == p.1) = false := beq_false_of_ne ((beq_iff_eq.mp hk) ▸ (ne_of_cmp_lt hc).symm)
        simp [hkp]
    | eq =>
      have hpk : p.1 = key := Std.LawfulEqCmp.eq_of_compare hc
      rw [setEntry, hc, List.lookup_cons, List.lookup_cons, hpk]
      cases k == key <;> rfl
    | gt =>
      rw [setEntry, hc, List.lookup_cons]
      cases k == key <;> rfl

/-- Over an ascending listing, a write changes a sum over the entries by the value written
less the value it replaces. -/
theorem sum_setEntry [Std.TransCmp cmp] {M : Type*} [AddCommMonoid M] (f : V → M) (key : K) (value : V)
    {ps : List (K × V)} (h : Ascending cmp ps) :
    ((setEntry cmp key value ps).map (f ·.2)).sum + ((ps.lookup key).map f).getD 0 =
      (ps.map (f ·.2)).sum + f value := by
  induction ps with
  | nil => simp [setEntry]
  | cons p ps ih =>
    cases hc : cmp p.1 key with
    | lt =>
      have hne : (key == p.1) = false := beq_false_of_ne (ne_of_cmp_lt hc).symm
      rw [setEntry, hc, List.lookup_cons, hne]
      simp only [List.map_cons, List.sum_cons, add_assoc, ih h.tail]
    | eq =>
      have hpk : p.1 = key := Std.LawfulEqCmp.eq_of_compare hc
      rw [setEntry, hc, List.lookup_cons, hpk, beq_self_eq_true]
      simp only [List.map_cons, List.sum_cons, Option.map_some, Option.getD_some]
      ac_rfl
    | gt =>
      have hnone : (p :: ps).lookup key = none := by
        rw [List.lookup_eq_none_iff]
        intro x hx
        have hlt : cmp key x.1 = .lt := by
          rcases List.mem_cons.mp hx with rfl | hx
          · exact Std.OrientedCmp.lt_of_gt hc
          · exact Std.TransCmp.lt_trans (Std.OrientedCmp.lt_of_gt hc) (h.head_lt hx)
        exact bne_iff_ne.mpr (ne_of_cmp_lt hlt)
      rw [setEntry, hc, hnone]
      simp only [List.map_cons, List.sum_cons, Option.map_none, Option.getD_none, add_zero]
      rw [add_comm]

end Write

end Overlay

section MergeReplace

variable {W : Type*} (cmp : K → K → Ordering)

/-- Merge of an ascending listing `ss` with an ascending listing `us` of updates: an
    entry of `us` replaces the entry of `ss` with the same key. -/
def mergeReplace : List (K × W) → List (K × W) → List (K × W)
  | ss, [] => ss
  | [], u :: us => u :: us
  | s :: ss, u :: us =>
      match cmp u.1 s.1 with
      | .lt => u :: mergeReplace (s :: ss) us
      | .eq => u :: mergeReplace ss us
      | .gt => s :: mergeReplace ss (u :: us)
termination_by ss us => ss.length + us.length

variable {cmp}

theorem mem_mergeReplace_source {ss us : List (K × W)} {x : K × W}
    (hx : x ∈ mergeReplace cmp ss us) : x ∈ us ∨ x ∈ ss := by
  fun_induction mergeReplace cmp ss us with
  | case1 ss => exact .inr hx
  | case2 u us => exact .inl hx
  | case3 s ss u us _ ih => grind
  | case4 s ss u us _ ih => grind
  | case5 s ss u us _ ih => grind

theorem mergeReplace_lt_of_lt {ss us : List (K × W)} {k : K}
    (hs : ∀ y ∈ ss, cmp k y.1 = .lt) (hu : ∀ y ∈ us, cmp k y.1 = .lt) :
    ∀ x ∈ mergeReplace cmp ss us, cmp k x.1 = .lt := by
  intro x hx
  rcases mem_mergeReplace_source hx with h | h
  · exact hu _ h
  · exact hs _ h

section MergeReplaceOrder

variable [Std.TransCmp cmp] [Std.LawfulEqCmp cmp]

theorem mergeReplace_ascending {ss us : List (K × W)} (hs : Ascending cmp ss)
    (hu : Ascending cmp us) : Ascending cmp (mergeReplace cmp ss us) := by
  fun_induction mergeReplace cmp ss us with
  | case1 ss => exact hs
  | case2 u us => exact hu
  | case3 s ss u us hlt ih =>
      refine ascending_cons.mpr ⟨mergeReplace_lt_of_lt (fun y hy => ?_) (fun y hy => hu.head_lt hy),
        ih hs hu.tail⟩
      rcases List.mem_cons.mp hy with rfl | hy
      · exact hlt
      · exact Std.TransCmp.lt_trans hlt (hs.head_lt hy)
  | case4 s ss u us heq ih =>
      have hus : u.1 = s.1 := Std.LawfulEqCmp.eq_of_compare heq
      refine ascending_cons.mpr ⟨mergeReplace_lt_of_lt (fun y hy => ?_) (fun y hy => hu.head_lt hy),
        ih hs.tail hu.tail⟩
      simpa [hus] using hs.head_lt hy
  | case5 s ss u us hgt ih =>
      have hsu : cmp s.1 u.1 = .lt := Std.OrientedCmp.gt_iff_lt.mp hgt
      refine ascending_cons.mpr ⟨mergeReplace_lt_of_lt (fun y hy => hs.head_lt hy) (fun y hy => ?_),
        ih hs.tail hu⟩
      rcases List.mem_cons.mp hy with rfl | hy
      · exact hsu
      · exact Std.TransCmp.lt_trans hsu (hu.head_lt hy)

/-- What a merge holds: the updates, and the entries of `ss` whose key no update
    mentions. -/
theorem mem_mergeReplace {ss us : List (K × W)} (hs : Ascending cmp ss)
    (hu : Ascending cmp us) (x : K × W) :
    x ∈ mergeReplace cmp ss us ↔ x ∈ us ∨ (x ∈ ss ∧ ∀ w, (x.1, w) ∉ us) := by
  fun_induction mergeReplace cmp ss us with
  | case1 ss => simp
  | case2 u us => simp
  | case3 s ss u us hlt ih =>
      have hfresh : ∀ w, (u.1, w) ∉ s :: ss := hs.not_mem_of_lt hlt
      have ih := ih hs hu.tail
      grind
  | case4 s ss u us heq ih =>
      have hus : u.1 = s.1 := Std.LawfulEqCmp.eq_of_compare heq
      have hfresh : ∀ w, (s.1, w) ∉ ss := hs.head_not_mem
      have hfresh' : ∀ w, (u.1, w) ∉ us := hu.head_not_mem
      have ih := ih hs.tail hu.tail
      grind
  | case5 s ss u us hgt ih =>
      have hfresh : ∀ w, (s.1, w) ∉ u :: us :=
        hu.not_mem_of_lt (Std.OrientedCmp.gt_iff_lt.mp hgt)
      have ih := ih hs.tail hu
      grind

end MergeReplaceOrder

end MergeReplace

end SortedKV
