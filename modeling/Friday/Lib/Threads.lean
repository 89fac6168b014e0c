import Friday.Lib.Script
import Mathlib.Logic.Relation
import Mathlib.Logic.Function.Basic

/-! # Threads interleaved over a shared state

A fixed set of threads `τ`, each running a `Script`, share a state `σ`. A
`Machine` says how the shared state answers the event a thread issues next, or
that the thread must wait (`none`): a lock held by another thread, a wait group
not yet at zero, an empty channel. One step lets one thread whose event is
answered move on; any interleaving of such steps is a run.

The results are the tools for reasoning about one interleaving and what it reaches:
a step changes only the program of the thread that moved (`step_prog_of_ne`), the
schedules below reach only reachable configurations (`reachable_rounds`), and a
configuration where every thread is finished or waits is stuck (`stuck_of_stuckOn`).
-/

universe u

namespace Threads

/-- The shared state and the program each thread has left. -/
structure Config (τ σ Ev : Type u) (Ans : Ev → Type u) where
  shared : σ
  prog : τ → Script Ev Ans PUnit

/-- How the shared state answers the event thread `t` issues, with the new state;
    `none` when the thread must wait. -/
abbrev Machine (τ σ Ev : Type u) (Ans : Ev → Type u) := τ → (e : Ev) → σ → Option (Ans e × σ)

variable {τ σ Ev : Type u} {Ans : Ev → Type u} [DecidableEq τ] (M : Machine τ σ Ev Ans)

/-- Thread `t` takes one step, if its next event is answered. -/
def step (c : Config τ σ Ev Ans) (t : τ) : Option (Config τ σ Ev Ans) :=
  match c.prog t with
  | .pure _ => none
  | .event e cont =>
      match M t e c.shared with
      | some (x, s') => some { shared := s', prog := Function.update c.prog t (cont x) }
      | none => none

/-- Some thread takes one step. -/
def Step (c c' : Config τ σ Ev Ans) : Prop := ∃ t, step M c t = some c'

/-- Configurations some interleaving leads to. -/
def Reachable (c₀ c : Config τ σ Ev Ans) : Prop := Relation.ReflTransGen (Step M) c₀ c

/-- Thread `t` has ended. -/
def Finished (c : Config τ σ Ev Ans) (t : τ) : Prop := ∃ u, c.prog t = .pure u

/-- No thread can move. -/
def Stuck (c : Config τ σ Ev Ans) : Prop := ∀ t, step M c t = none

variable {M} {c c' c'' : Config τ σ Ev Ans} {t t' : τ}

theorem step_eq_some_iff :
    step M c t = some c' ↔ ∃ e cont x s', c.prog t = .event e cont ∧ M t e c.shared = some (x, s') ∧
      c' = { shared := s', prog := Function.update c.prog t (cont x) } := by
  unfold step
  split
  · rename_i u hu
    simp [hu]
  · rename_i e cont hprog
    split
    · rename_i x s' hM
      constructor
      · rintro ⟨⟩
        exact ⟨e, cont, x, s', hprog, hM, rfl⟩
      · rintro ⟨e', cont', x', s'', hprog', hM', rfl⟩
        obtain ⟨rfl, hcont⟩ : e = e' ∧ HEq cont cont' := by
          rw [hprog] at hprog'
          exact ⟨Script.event.inj hprog' |>.1, Script.event.inj hprog' |>.2⟩
        cases hcont
        rw [hM] at hM'
        cases hM'
        rfl
    · rename_i hM
      constructor
      · rintro ⟨⟩
      · rintro ⟨e', cont', x', s'', hprog', hM', rfl⟩
        rw [hprog] at hprog'
        obtain ⟨rfl, -⟩ := Script.event.inj hprog'
        rw [hM] at hM'
        cases hM'

/-- A step changes only the program of the thread that moved. -/
theorem step_prog_of_ne (h : step M c t = some c') (hne : t' ≠ t) : c'.prog t' = c.prog t' := by
  obtain ⟨e, cont, x, s', -, -, rfl⟩ := step_eq_some_iff.mp h
  simp [Function.update_of_ne hne]

theorem step_eq_none_of_finished (h : Finished c t) : step M c t = none := by
  obtain ⟨u, hu⟩ := h
  simp [step, hu]

theorem reachable_refl (c : Config τ σ Ev Ans) : Reachable M c c := Relation.ReflTransGen.refl

theorem Reachable.tail (h : Reachable M c c') (hs : step M c' t = some c'') : Reachable M c c'' :=
  Relation.ReflTransGen.tail h ⟨t, hs⟩

section Schedule

/-! Schedules that a configuration computes for itself: a thread is stepped until it
cannot move, and a list of threads is driven in rounds. They make a concrete
interleaving short to write down; every configuration they reach is reachable. -/

variable (M)

/-- Step thread `t` until it cannot move, at most `fuel` times. -/
def drive (c : Config τ σ Ev Ans) (t : τ) : Nat → Config τ σ Ev Ans
  | 0 => c
  | fuel + 1 =>
      match step M c t with
      | some c' => drive c' t fuel
      | none => c

/-- Drive each thread of `ts` in turn, `rounds` times over. -/
def rounds (ts : List τ) (fuel : Nat) : Nat → Config τ σ Ev Ans → Config τ σ Ev Ans
  | 0, c => c
  | n + 1, c => rounds ts fuel n (ts.foldl (fun c t => drive M c t fuel) c)

theorem reachable_drive (c : Config τ σ Ev Ans) (t : τ) (fuel : Nat) :
    Reachable M c (drive M c t fuel) := by
  induction fuel generalizing c with
  | zero => exact reachable_refl c
  | succ fuel ih =>
      unfold drive
      split
      · rename_i c' hs
        exact Relation.ReflTransGen.head ⟨t, hs⟩ (ih c')
      · exact reachable_refl c

theorem reachable_rounds (ts : List τ) (fuel n : Nat) (c : Config τ σ Ev Ans) :
    Reachable M c (rounds M ts fuel n c) := by
  induction n generalizing c with
  | zero => exact reachable_refl c
  | succ n ih =>
      have hround : ∀ (us : List τ) (c₁ : Config τ σ Ev Ans),
          Reachable M c₁ (us.foldl (fun c t => drive M c t fuel) c₁) := by
        intro us
        induction us with
        | nil => exact reachable_refl
        | cons u us ihu => exact fun c₁ => (reachable_drive M c₁ u fuel).trans (ihu _)
      exact (hround ts c).trans (ih _)

theorem drive_prog_of_ne {c : Config τ σ Ev Ans} {t t' : τ} (fuel : Nat) (hne : t' ≠ t) :
    (drive M c t fuel).prog t' = c.prog t' := by
  induction fuel generalizing c with
  | zero => rfl
  | succ fuel ih =>
      unfold drive
      split
      · rename_i c' hs
        rw [ih, step_prog_of_ne hs hne]
      · rfl

theorem rounds_prog_of_not_mem {ts : List τ} {t : τ} (ht : t ∉ ts) (fuel n : Nat)
    (c : Config τ σ Ev Ans) : (rounds M ts fuel n c).prog t = c.prog t := by
  have hround : ∀ (us : List τ), t ∉ us → ∀ c₁ : Config τ σ Ev Ans,
      (us.foldl (fun c u => drive M c u fuel) c₁).prog t = c₁.prog t := by
    intro us
    induction us with
    | nil => exact fun _ _ => rfl
    | cons u us ihu =>
        intro hu c₁
        rw [List.foldl_cons, ihu (fun h => hu (List.mem_cons_of_mem u h)),
          drive_prog_of_ne M fuel (fun h : t = u => hu (h ▸ List.mem_cons_self))]
  induction n generalizing c with
  | zero => rfl
  | succ n ih => rw [rounds, ih, hround ts ht c]

/-- No thread of `ts` can move. -/
def stuckOn (ts : List τ) (c : Config τ σ Ev Ans) : Bool := ts.all fun t => (step M c t).isNone

/-- Every thread of `ts` has ended. -/
def finishedOn (ts : List τ) (c : Config τ σ Ev Ans) : Bool := ts.all fun t => (c.prog t).isPure

variable {M}

omit [DecidableEq τ] in
theorem finished_iff_isPure {c : Config τ σ Ev Ans} {t : τ} : Finished c t ↔ (c.prog t).isPure = true := by
  unfold Finished
  cases c.prog t with
  | pure u => simp [Script.isPure]
  | event e cont => simp [Script.isPure]

/-- A configuration whose threads outside `ts` have ended, and none of `ts` can
    move, is stuck. -/
theorem stuck_of_stuckOn {ts : List τ} {c : Config τ σ Ev Ans} (hout : ∀ t ∉ ts, Finished c t)
    (h : stuckOn M ts c = true) : Stuck M c := by
  intro t
  by_cases ht : t ∈ ts
  · exact Option.isNone_iff_eq_none.mp (List.all_eq_true.mp h t ht)
  · exact step_eq_none_of_finished (hout t ht)

omit [DecidableEq τ] in
theorem finished_of_finishedOn {ts : List τ} {c : Config τ σ Ev Ans} (hout : ∀ t ∉ ts, Finished c t)
    (h : finishedOn ts c = true) (t : τ) : Finished c t := by
  by_cases ht : t ∈ ts
  · exact finished_iff_isPure.mpr (List.all_eq_true.mp h t ht)
  · exact hout t ht

end Schedule

end Threads
