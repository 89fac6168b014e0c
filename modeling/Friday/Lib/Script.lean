import Mathlib.Control.Basic

/-! # Programs over an event signature

A `Script Ev Ans α` is a program that talks to its environment only through
events: it issues an event `e : Ev`, waits for the answer `Ans e`, and goes on
with a continuation, until it ends with a value of `α`. The program fixes no
meaning for its events; a machine that answers them does, one event at a time,
so that the same program can run alone against a state or interleaved with other
programs over a shared state.

Scripts form a lawful monad, so programs are written in `do` notation and follow
the control flow of the code they model. `runWith` runs a script against a
deterministic machine, with `none` when the machine refuses to answer (the
program would wait forever).
-/

universe u

/-- A program that issues events and ends with a value. -/
inductive Script (Ev : Type u) (Ans : Ev → Type u) (α : Type u) : Type u where
  /-- End with a value. -/
  | pure (a : α)
  /-- Issue `e` and go on with its answer. -/
  | event (e : Ev) (cont : Ans e → Script Ev Ans α)

namespace Script

variable {Ev : Type u} {Ans : Ev → Type u} {α β γ : Type u}

/-- Sequencing: run the first program, then the second on its value. -/
def bind : Script Ev Ans α → (α → Script Ev Ans β) → Script Ev Ans β
  | pure a, f => f a
  | event e cont, f => event e fun x => bind (cont x) f

instance : Monad (Script Ev Ans) where
  pure := pure
  bind := bind

/-- Issue one event and return its answer. -/
def call (e : Ev) : Script Ev Ans (Ans e) := event e pure

@[simp] theorem pure_eq (a : α) : (Pure.pure a : Script Ev Ans α) = pure a := rfl

@[simp] theorem pure_bind' (a : α) (f : α → Script Ev Ans β) : (pure a >>= f) = f a := rfl

@[simp] theorem event_bind (e : Ev) (cont : Ans e → Script Ev Ans α) (f : α → Script Ev Ans β) :
    (event e cont >>= f) = event e fun x => cont x >>= f := rfl

@[simp] theorem call_bind (e : Ev) (f : Ans e → Script Ev Ans β) : (call e >>= f) = event e f :=
  rfl

theorem bind_pure' (p : Script Ev Ans α) : p >>= pure = p := by
  induction p with
  | pure a => rfl
  | event e cont ih =>
      show event e (fun x => cont x >>= pure) = event e cont
      simp only [ih]

theorem bind_assoc' (p : Script Ev Ans α) (f : α → Script Ev Ans β) (g : β → Script Ev Ans γ) :
    p >>= f >>= g = p >>= fun x => f x >>= g := by
  induction p with
  | pure a => rfl
  | event e cont ih =>
      show event e (fun x => cont x >>= f >>= g) = event e (fun x => cont x >>= fun y => f y >>= g)
      simp only [ih]

instance : LawfulMonad (Script Ev Ans) :=
  LawfulMonad.mk' _ (fun p => bind_pure' p) (fun _ _ => rfl) bind_assoc'

section Run

variable {σ : Type u}

/-- Run against a machine that answers each event from the state, or refuses with
    `none`; the run is `none` if the machine refuses some event. -/
def runWith (answer : (e : Ev) → σ → Option (Ans e × σ)) : Script Ev Ans α → σ → Option (α × σ)
  | pure a, s => some (a, s)
  | event e cont, s =>
      match answer e s with
      | some (x, s') => runWith answer (cont x) s'
      | none => none

variable {answer : (e : Ev) → σ → Option (Ans e × σ)}

@[simp] theorem runWith_pure (a : α) (s : σ) : runWith answer (pure a) s = some (a, s) := rfl

theorem runWith_event {e : Ev} {cont : Ans e → Script Ev Ans α} {s s' : σ} {x : Ans e}
    (h : answer e s = some (x, s')) : runWith answer (event e cont) s = runWith answer (cont x) s' := by
  simp [runWith, h]

/-- Running a sequence runs its first part, then the second from where the first
    ended. -/
theorem runWith_bind (p : Script Ev Ans α) (f : α → Script Ev Ans β) (s : σ) :
    runWith answer (p >>= f) s = (runWith answer p s).bind fun r => runWith answer (f r.1) r.2 := by
  induction p generalizing s with
  | pure a => rfl
  | event e cont ih =>
      show runWith answer (event e fun x => cont x >>= f) s = _
      cases h : answer e s with
      | none => simp [runWith, h]
      | some r =>
          obtain ⟨x, s'⟩ := r
          rw [runWith_event h, runWith_event h, ih]

end Run

/-! ## What a script may do

The answers an event may get are restricted by `A`: a machine whose state keeps an
invariant answers only some of them. `Always A P R p`: `p` issues no event of `P`
and ends with a value of `R`, for every answer `A` allows; every path of a script is
finite, so this is a total-correctness triple with `P` as the frame. -/

section Logic

variable (A : (e : Ev) → Ans e → Prop) (P : Ev → Prop)

inductive Always (R : α → Prop) : Script Ev Ans α → Prop
  | pure {a : α} : R a → Always R (pure a)
  | event {e : Ev} {cont : Ans e → Script Ev Ans α} :
      ¬ P e → (∀ x, A e x → Always R (cont x)) → Always R (event e cont)

variable {A P}

theorem Always.bind {R : α → Prop} {S : β → Prop} {p : Script Ev Ans α} {f : α → Script Ev Ans β}
    (hp : Always A P R p) (hf : ∀ a, R a → Always A P S (f a)) : Always A P S (p >>= f) := by
  induction hp with
  | pure ha => exact hf _ ha
  | event he _ ih => exact .event he ih

@[simp] theorem always_pure_iff {R : α → Prop} {a : α} : Always A P R (Script.pure a : Script Ev Ans α) ↔ R a :=
  ⟨fun | .pure h => h, .pure⟩

@[simp] theorem always_event_iff {R : α → Prop} {e : Ev} {cont : Ans e → Script Ev Ans α} :
    Always A P R (Script.event e cont) ↔ ¬ P e ∧ ∀ x, A e x → Always A P R (cont x) :=
  ⟨fun | .event he h => ⟨he, h⟩, fun ⟨he, h⟩ => .event he h⟩

/-- The rule of sequencing as an equivalence: `p >>= f` keeps the frame and ends in `S`
    exactly when `p` keeps the frame and ends where `f` does. -/
theorem always_bind_iff {S : β → Prop} {p : Script Ev Ans α} {f : α → Script Ev Ans β} :
    Always A P S (p >>= f) ↔ Always A P (fun a => Always A P S (f a)) p := by
  induction p with
  | pure a => simp
  | event e cont ih => simp [ih]

theorem always_map_iff {R : β → Prop} {p : Script Ev Ans α} {f : α → β} :
    Always A P R (f <$> p) ↔ Always A P (fun a => R (f a)) p := by
  rw [← bind_pure_comp, always_bind_iff]
  simp

theorem always_call {e : Ev} (he : ¬ P e) :
    Always A P (fun _ => True) (call e : Script Ev Ans (Ans e)) :=
  .event he fun _ _ => .pure trivial

section ExceptT

/-! Programs with exceptions, `ExceptT ε (Script Ev Ans)`, are scripts that end
with an `Except`; the rules lift through its bind. -/

variable {ε : Type u} {x : ExceptT ε (Script Ev Ans) α} {f : α → ExceptT ε (Script Ev Ans) β}

theorem Always.exceptT_bind {R : Except ε α → Prop} {S : Except ε β → Prop}
    (hx : Always A P R x.run) (hf : ∀ a, R (.ok a) → Always A P S (f a).run)
    (herr : ∀ e, R (.error e) → S (.error e)) : Always A P S (x >>= f).run := by
  rw [ExceptT.run_bind]
  refine hx.bind fun r hr => ?_
  cases r with
  | error e => exact .pure (herr e hr)
  | ok a => exact hf a hr

theorem Always.exceptT_lift {x : Script Ev Ans α} {R : Except ε α → Prop}
    (hx : Always A P (fun a => R (.ok a)) x) : Always A P R (ExceptT.lift x : ExceptT ε (Script Ev Ans) α).run := by
  rw [ExceptT.run_lift]
  exact always_map_iff.mpr hx

theorem Always.exceptT_seq (hx : Always A P (fun _ => True) x.run)
    (hf : ∀ a, Always A P (fun _ => True) (f a).run) : Always A P (fun _ => True) (x >>= f).run :=
  hx.exceptT_bind (fun a _ => hf a) fun _ _ => trivial

/-- A one-armed `if` followed by the rest of its block, as `do` writes it: the rest is
    the join point `f`, run after `x` or at once. -/
theorem Always.exceptT_ite_seq {c : Prop} [Decidable c] {u : α}
    (hx : Always A P (fun _ => True) x.run) (hf : ∀ a, Always A P (fun _ => True) (f a).run) :
    Always A P (fun _ => True) (if c then x >>= f else f u).run := by
  split
  · exact hx.exceptT_seq hf
  · exact hf u

end ExceptT

end Logic

/-! ## Runs

`Runs p tr a`: `p` can issue the events of `tr` in order, get the answers recorded
there, and end with `a`. Every finished run of `p` against any machine, alone or
interleaved with other programs, is one of these. -/

section Runs

inductive Runs : Script Ev Ans α → List (Σ e, Ans e) → α → Prop
  | pure (a : α) : Runs (pure a) [] a
  | event {e : Ev} {cont : Ans e → Script Ev Ans α} {x : Ans e} {tr : List (Σ e, Ans e)} {a : α} :
      Runs (cont x) tr a → Runs (event e cont) (⟨e, x⟩ :: tr) a

variable {tr : List (Σ e, Ans e)}

theorem Runs.pure_inv {a b : α} (h : Runs (Script.pure a : Script Ev Ans α) tr b) : tr = [] ∧ b = a := by
  cases h
  exact ⟨rfl, rfl⟩

theorem Runs.call_inv {e : Ev} {x : Ans e} (h : Runs (call e : Script Ev Ans (Ans e)) tr x) :
    tr = [⟨e, x⟩] := by
  cases h with
  | event h => obtain ⟨rfl, rfl⟩ := h.pure_inv; rfl

theorem Runs.bind_inv {p : Script Ev Ans α} {f : α → Script Ev Ans β} {b : β} (h : Runs (p >>= f) tr b) :
    ∃ tr₁ tr₂ a, tr = tr₁ ++ tr₂ ∧ Runs p tr₁ a ∧ Runs (f a) tr₂ b := by
  induction p generalizing tr with
  | pure a => exact ⟨[], tr, a, rfl, .pure a, h⟩
  | event e cont ih =>
    rw [event_bind] at h
    cases h with
    | event hcont =>
      obtain ⟨tr₁, tr₂, a, rfl, h₁, h₂⟩ := ih _ hcont
      exact ⟨_ :: tr₁, tr₂, a, rfl, .event h₁, h₂⟩

/-- What `Always` says of every run: no event of `P`, and a value of `R`. -/
theorem Always.runs {P : Ev → Prop} {R : α → Prop} {p : Script Ev Ans α} {a : α}
    (hp : Always (fun _ _ => True) P R p) (h : Runs p tr a) : (∀ q ∈ tr, ¬ P q.1) ∧ R a := by
  induction h with
  | pure a => cases hp with
    | pure ha => exact ⟨by simp, ha⟩
  | event _ ih => cases hp with
    | event he hcont =>
      obtain ⟨hevents, ha⟩ := ih (hcont _ trivial)
      refine ⟨?_, ha⟩
      intro q hq
      rcases List.mem_cons.mp hq with rfl | hq
      · exact he
      · exact hevents q hq

/-- A machine that keeps `I` on every event outside `P` keeps it over a whole run of a
    script that issues no event of `P`. -/
theorem Always.runWith {σ : Type u} {answer : (e : Ev) → σ → Option (Ans e × σ)} {I : σ → Prop}
    {P : Ev → Prop} {R : α → Prop} {p : Script Ev Ans α} (hp : Always (fun _ _ => True) P R p)
    (hstep : ∀ e s x s', ¬ P e → answer e s = some (x, s') → I s → I s') :
    ∀ {s s' : σ} {a : α}, runWith answer p s = some (a, s') → I s → I s' ∧ R a := by
  induction hp with
  | pure ha =>
    intro s s' a h hs
    cases h
    exact ⟨hs, ha⟩
  | @event e cont he _ ih =>
    intro s s' a h hs
    cases hans : answer e s with
    | none => simp [Script.runWith, hans] at h
    | some r =>
      obtain ⟨x, s₁⟩ := r
      rw [runWith_event hans] at h
      exact ih x trivial h (hstep e s x s₁ he hans hs)

variable {ε : Type u} {x : ExceptT ε (Script Ev Ans) α} {f : α → ExceptT ε (Script Ev Ans) β}

/-- A run of a sequence with exceptions: the first part returns and the second runs,
    or the first part throws and so does the whole. -/
theorem Runs.exceptT_bind_inv {r : Except ε β} (h : Runs (x >>= f).run tr r) :
    (∃ tr₁ tr₂ a, tr = tr₁ ++ tr₂ ∧ Runs x.run tr₁ (.ok a) ∧ Runs (f a).run tr₂ r) ∨
      ∃ e, Runs x.run tr (.error e) ∧ r = .error e := by
  rw [ExceptT.run_bind] at h
  obtain ⟨tr₁, tr₂, a, rfl, h₁, h₂⟩ := h.bind_inv
  cases a with
  | ok a => exact .inl ⟨tr₁, tr₂, a, rfl, h₁, h₂⟩
  | error e =>
    obtain ⟨rfl, rfl⟩ := Runs.pure_inv h₂
    exact .inr ⟨e, by simpa using h₁, rfl⟩

theorem Runs.exceptT_lift_inv {x : Script Ev Ans α} {r : Except ε α}
    (h : Runs (ExceptT.lift x : ExceptT ε (Script Ev Ans) α).run tr r) : ∃ a, Runs x tr a ∧ r = .ok a := by
  rw [ExceptT.run_lift, ← bind_pure_comp] at h
  obtain ⟨tr₁, tr₂, a, rfl, h₁, h₂⟩ := h.bind_inv
  obtain ⟨rfl, rfl⟩ := Runs.pure_inv h₂
  exact ⟨a, by simpa using h₁, rfl⟩

end Runs

/-- Whether the script has ended. -/
def isPure : Script Ev Ans α → Bool
  | pure _ => true
  | event _ _ => false

end Script
