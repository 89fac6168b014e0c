import Mathlib

/-! # Replacing and matching in text

Go's `strings.Replace(s, old, new, -1)` and `regexp`'s `FindAllStringSubmatch(s, -1)`, on texts
as lists of characters. `Replace` scans from the left and replaces each occurrence of `old` that
does not overlap one already replaced (`replace_cons`), so the text before the first
occurrence is kept (`replace_append_of_first`). The regular expressions are of the one
shape `lead(pre[class]+)trail`, with a `trail` that starts outside the class: at each position
the run of class characters can then only end where the text's run ends, so the match there is
decided by the run, and `FindAll` takes the leftmost match, then the matches after its end.
Every group it returns is the group of a match in the text (`mem_findAll`).
-/

namespace Strings

/-- The loop of `Replace` for a non-empty `old`; the counter skips the rest of an occurrence
    just replaced. -/
def replaceFrom (old new : List Char) : Nat → List Char → List Char
  | _, [] => []
  | skip + 1, _ :: cs => replaceFrom old new skip cs
  | 0, c :: cs =>
    if old.isPrefixOf (c :: cs) then new ++ replaceFrom old new (old.length - 1) cs
    else c :: replaceFrom old new 0 cs

/-- `strings.Replace(s, old, new, -1)`, for a non-empty `old`. -/
def replace (s old new : List Char) : List Char :=
  replaceFrom old new 0 s

theorem replaceFrom_eq_drop (old new : List Char) (skip : Nat) (s : List Char) :
    replaceFrom old new skip s = replace (s.drop skip) old new := by
  induction s generalizing skip with
  | nil => cases skip <;> rfl
  | cons c cs ih =>
    cases skip with
    | zero => rfl
    | succ skip => simp only [replaceFrom, ih, List.drop_succ_cons]

/-- One step of `Replace`: an occurrence at the start is replaced and skipped, otherwise the
    first character is kept. -/
theorem replace_cons {old : List Char} (hold : old ≠ []) (new : List Char) (c : Char) (cs : List Char) :
    replace (c :: cs) old new =
      if old <+: c :: cs then new ++ replace ((c :: cs).drop old.length) old new
      else c :: replace cs old new := by
  obtain ⟨o, os, rfl⟩ := List.exists_cons_of_ne_nil hold
  by_cases h : o :: os <+: c :: cs
  · rw [replace, replaceFrom, if_pos (List.isPrefixOf_iff_prefix.mpr h), if_pos h, replaceFrom_eq_drop,
      List.length_cons, Nat.add_sub_cancel, List.drop_succ_cons]
  · have hb : (o :: os).isPrefixOf (c :: cs) = false := by
      rw [Bool.eq_false_iff]
      exact fun hp => h (List.isPrefixOf_iff_prefix.mp hp)
    simp only [replace, replaceFrom, hb, if_neg h, Bool.false_eq_true, if_false]

theorem replace_of_not_infix {old : List Char} (hold : old ≠ []) (new : List Char) :
    ∀ s : List Char, ¬old <:+: s → replace s old new = s
  | [], _ => rfl
  | c :: cs, h => by
    have hpre : ¬old <+: c :: cs := fun hp => h hp.isInfix
    have hcs : ¬old <:+: cs := fun hi => h (hi.trans (List.suffix_cons c cs).isInfix)
    rw [replace_cons hold, if_neg hpre, replace_of_not_infix hold new cs hcs]

/-- Up to the first occurrence of `old`, `Replace` keeps the text; it replaces that occurrence
    and goes on after it. -/
theorem replace_append_of_first {old : List Char} (hold : old ≠ []) (new : List Char) (y : List Char) :
    ∀ x : List Char, (∀ i < x.length, ¬old <+: (x ++ old ++ y).drop i) →
      replace (x ++ old ++ y) old new = x ++ new ++ replace y old new
  | [], _ => by
    obtain ⟨o, os, rfl⟩ := List.exists_cons_of_ne_nil hold
    have hp : o :: os <+: o :: (os ++ y) := List.prefix_append (o :: os) y
    rw [List.nil_append, List.cons_append, replace_cons hold, if_pos hp, ← List.cons_append, List.drop_left,
      List.nil_append]
  | c :: x, hfirst => by
    have hc : ¬old <+: c :: (x ++ old ++ y) := by simpa using hfirst 0 (by simp)
    have hx : ∀ i < x.length, ¬old <+: (x ++ old ++ y).drop i := fun i hi => by
      simpa using hfirst (i + 1) (by simpa using hi)
    rw [List.cons_append, List.cons_append, replace_cons hold, if_neg hc, replace_append_of_first hold new y x hx]
    rfl

end Strings

namespace Regexp

/-- A pattern `lead(pre[class]+)trail` whose `trail` starts with a character outside the class. -/
structure Pattern where
  lead : List Char
  pre : List Char
  isClass : Char → Bool
  trail : List Char
  trail_head : ∀ c ∈ trail.head?, isClass c = false

namespace Pattern

variable (p : Pattern)

/-- The match at the start of a text, by its group and its length: the literal part, the run of
    class characters, which must not be empty, and the trail right after the run. -/
def matchPrefix (s : List Char) : Option (List Char × Nat) :=
  if (p.lead ++ p.pre).isPrefixOf s then
    let rest := s.drop (p.lead ++ p.pre).length
    let run := rest.takeWhile p.isClass
    if run ≠ [] ∧ p.trail.isPrefixOf (rest.drop run.length) then
      some (p.pre ++ run, (p.lead ++ p.pre).length + run.length + p.trail.length)
    else none
  else none

/-- The loop of `FindAllStringSubmatch(s, -1)`, by the group of each match; the counter skips
    the rest of a match just found, so that the next match starts after its end. -/
def findFrom : Nat → List Char → List (List Char)
  | _, [] => []
  | skip + 1, _ :: cs => findFrom skip cs
  | 0, c :: cs =>
    match p.matchPrefix (c :: cs) with
    | some (group, length) => group :: findFrom (length - 1) cs
    | none => findFrom 0 cs

/-- `FindAllStringSubmatch(s, -1)`, by the first group of each match. -/
def findAll (s : List Char) : List (List Char) :=
  p.findFrom 0 s

/-- A match starts with the literal part, and its group is the literal prefix and a non-empty
    run of class characters, followed by the trail. -/
theorem matchPrefix_eq_some {s group : List Char} {length : Nat} (h : p.matchPrefix s = some (group, length)) :
    ∃ run, run ≠ [] ∧ (∀ c ∈ run, p.isClass c) ∧ group = p.pre ++ run ∧
      p.lead ++ group ++ p.trail <+: s ∧ length = (p.lead ++ group ++ p.trail).length := by
  simp only [matchPrefix] at h
  split_ifs at h with hlit hrun
  obtain ⟨hne, htrail⟩ := hrun
  simp only [Option.some.injEq, Prod.mk.injEq] at h
  obtain ⟨rfl, rfl⟩ := h
  refine ⟨_, hne, fun c hc => List.mem_takeWhile_imp hc, rfl, ?_, by simp; omega⟩
  obtain ⟨rest, hrest⟩ := List.isPrefixOf_iff_prefix.mp hlit
  obtain ⟨after, hafter⟩ := List.isPrefixOf_iff_prefix.mp htrail
  subst hrest
  rw [List.drop_left] at hafter
  refine ⟨after, ?_⟩
  rw [List.drop_left]
  calc p.lead ++ (p.pre ++ rest.takeWhile p.isClass) ++ p.trail ++ after
      = p.lead ++ p.pre ++ (rest.takeWhile p.isClass ++ (p.trail ++ after)) := by simp
    _ = p.lead ++ p.pre ++ (rest.takeWhile p.isClass ++ rest.drop (rest.takeWhile p.isClass).length) := by
      rw [hafter]
    _ = p.lead ++ p.pre ++ rest := by rw [List.prefix_iff_eq_append.mp (List.takeWhile_prefix _)]

theorem mem_findFrom {skip : Nat} {s g : List Char} (hg : g ∈ p.findFrom skip s) :
    ∃ run, run ≠ [] ∧ (∀ c ∈ run, p.isClass c) ∧ g = p.pre ++ run ∧ p.lead ++ g ++ p.trail <:+: s := by
  induction s generalizing skip with
  | nil => simp [findFrom] at hg
  | cons c cs ih =>
    have htail : ∀ {skip'}, g ∈ p.findFrom skip' cs →
        ∃ run, run ≠ [] ∧ (∀ c ∈ run, p.isClass c) ∧ g = p.pre ++ run ∧ p.lead ++ g ++ p.trail <:+: c :: cs := by
      intro skip' hg'
      obtain ⟨run, hne, hclass, hgroup, hinfix⟩ := ih hg'
      exact ⟨run, hne, hclass, hgroup, hinfix.trans (List.suffix_cons c cs).isInfix⟩
    cases skip with
    | succ skip => exact htail hg
    | zero =>
      simp only [findFrom] at hg
      split at hg
      next group length hm =>
        rcases List.mem_cons.mp hg with rfl | hg'
        · obtain ⟨run, hne, hclass, hgroup, hprefix, -⟩ := p.matchPrefix_eq_some hm
          exact ⟨run, hne, hclass, hgroup, hprefix.isInfix⟩
        · exact htail hg'
      next => exact htail hg

theorem mem_findAll {s g : List Char} (hg : g ∈ p.findAll s) :
    ∃ run, run ≠ [] ∧ (∀ c ∈ run, p.isClass c) ∧ g = p.pre ++ run ∧ p.lead ++ g ++ p.trail <:+: s :=
  p.mem_findFrom hg

theorem findAll_eq_nil_of_not_infix {s : List Char} (h : ¬p.lead <:+: s) : p.findAll s = [] := by
  refine List.eq_nil_iff_forall_not_mem.mpr fun g hg => h ?_
  obtain ⟨-, -, -, -, hinfix⟩ := p.mem_findAll hg
  have hlead : p.lead <:+: p.lead ++ g ++ p.trail := ⟨[], g ++ p.trail, by simp⟩
  exact hlead.trans hinfix

end Pattern

end Regexp
