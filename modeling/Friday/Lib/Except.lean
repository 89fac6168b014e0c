import Mathlib.Data.List.Basic

/-! # Loops in the exception monad

Rules for `List.foldlM`, `List.mapM`, `List.anyM` and `List.allM` in `Except ε`: a loop whose every
step succeeds, and keeps an invariant, succeeds with a result that satisfies it; a fold with an
element whose step always fails fails.
-/

namespace Except

variable {ε α β : Type}

@[simp] theorem pure_eq_ok (a : α) : (pure a : Except ε α) = .ok a := rfl

@[simp] theorem throw_eq_error (e : ε) : (throw e : Except ε α) = .error e := rfl

@[simp] theorem error_bind (e : ε) (f : α → Except ε β) : (Except.error e >>= f) = .error e := rfl

@[simp] theorem ok_bind (a : α) (f : α → Except ε β) : (Except.ok a >>= f) = f a := rfl

theorem bind_eq_ok {x : Except ε α} {f : α → Except ε β} {b : β} : x >>= f = .ok b ↔ ∃ a, x = .ok a ∧ f a = .ok b := by
  cases x with
  | error e => simp
  | ok a => simp

theorem bind_eq_error {x : Except ε α} {f : α → Except ε β} {e : ε} :
    x >>= f = .error e ↔ x = .error e ∨ ∃ a, x = .ok a ∧ f a = .error e := by
  cases x with
  | error e' => simp [eq_comm]
  | ok a => simp

/-- The rule of a left fold that succeeded, with an invariant of the elements done: a step
from a state that satisfies `P` after `pre` gives a state that satisfies it after one
element more. -/
theorem foldlM_ok_inv (P : List α → β → Prop) {f : β → α → Except ε β} {l : List α}
    (hstep : ∀ pre a rest b b', pre ++ a :: rest = l → P pre b → f b a = .ok b' → P (pre ++ [a]) b') :
    ∀ (pre rest : List α) (b r : β), pre ++ rest = l → P pre b → rest.foldlM f b = .ok r → P l r
  | pre, [], b, r, hl, hP, h => by
    rw [List.append_nil] at hl
    rw [List.foldlM_nil] at h
    cases h
    exact hl ▸ hP
  | pre, a :: rest, b, r, hl, hP, h => by
    rw [List.foldlM_cons] at h
    obtain ⟨b', hb', hrest⟩ := bind_eq_ok.mp h
    exact foldlM_ok_inv P hstep (pre ++ [a]) rest b' r (by simpa using hl) (hstep pre a rest b b' hl hP hb') hrest

/-- The invariant rule of a left fold: every step from a state that satisfies `P`
succeeds with a state that satisfies `P`. -/
theorem foldlM_inv (P : β → Prop) {f : β → α → Except ε β} :
    ∀ (l : List α), (∀ b, ∀ a ∈ l, P b → ∃ b', f b a = .ok b' ∧ P b') →
      ∀ init, P init → ∃ b, l.foldlM f init = .ok b ∧ P b
  | [], _, init, hinit => ⟨init, rfl, hinit⟩
  | a :: l, hstep, init, hinit => by
    obtain ⟨b', hb', hP⟩ := hstep init a List.mem_cons_self hinit
    have hrest : ∀ b, ∀ a ∈ l, P b → ∃ b', f b a = .ok b' ∧ P b' :=
      fun b a' ha' => hstep b a' (List.mem_cons_of_mem a ha')
    obtain ⟨b, hb, hPb⟩ := foldlM_inv P l hrest b' hP
    refine ⟨b, ?_, hPb⟩
    rw [List.foldlM_cons, hb']
    exact hb

/-- The invariant rule of a left fold, with an invariant of the elements done: every step from a
state that satisfies `P` after `pre` succeeds with a state that satisfies it after one element
more. -/
theorem foldlM_prefix_inv (P : List α → β → Prop) {f : β → α → Except ε β} (l : List α)
    (hstep : ∀ pre a rest b, pre ++ a :: rest = l → P pre b → ∃ b', f b a = .ok b' ∧ P (pre ++ [a]) b')
    (init : β) (hinit : P [] init) : ∃ b, l.foldlM f init = .ok b ∧ P l b := by
  -- the fold of what is left of `l` after `pre`, from a state that satisfies `P` after `pre`
  suffices h : ∀ rest pre b, pre ++ rest = l → P pre b → ∃ r, rest.foldlM f b = .ok r ∧ P l r from
    h l [] init rfl hinit
  intro rest
  induction rest with
  | nil =>
    intro pre b hl hb
    rw [List.append_nil] at hl
    exact ⟨b, rfl, hl ▸ hb⟩
  | cons a rest ih =>
    intro pre b hl hb
    obtain ⟨b', hb', hP⟩ := hstep pre a rest b hl hb
    obtain ⟨r, hr, hPr⟩ := ih (pre ++ [a]) b' (by simpa using hl) hP
    refine ⟨r, ?_, hPr⟩
    rw [List.foldlM_cons, hb']
    exact hr

theorem foldlM_error_of_mem {f : β → α → Except ε β} {a : α} (hfail : ∀ b, ∃ e, f b a = .error e)
    (l : List α) (ha : a ∈ l) (init : β) : ∃ e, l.foldlM f init = .error e := by
  induction l generalizing init with
  | nil => exact absurd ha List.not_mem_nil
  | cons x l ih =>
    rw [List.foldlM_cons]
    cases hx : f init x with
    | error e => exact ⟨e, rfl⟩
    | ok b =>
      -- the step at `x` succeeded, so the failing element comes later
      have hmem : a ∈ l := by
        rcases List.mem_cons.mp ha with rfl | h
        · obtain ⟨e, he⟩ := hfail init
          rw [he] at hx
          cases hx
        · exact h
      exact ih hmem b

theorem mapM_eq_ok {f : α → Except ε β} {g : α → β} :
    ∀ (l : List α), (∀ a ∈ l, f a = .ok (g a)) → l.mapM f = .ok (l.map g)
  | [], _ => rfl
  | a :: l, h => by
    have hl := mapM_eq_ok l fun b hb => h b (List.mem_cons_of_mem a hb)
    rw [List.mapM_cons, h a List.mem_cons_self, List.map_cons]
    simp only [bind, Except.bind, hl]
    rfl

theorem anyM_eq_ok {p : α → Except ε Bool} {q : α → Bool} :
    ∀ (l : List α), (∀ a ∈ l, p a = .ok (q a)) → l.anyM p = .ok (l.any q)
  | [], _ => rfl
  | a :: l, h => by
    have hl := anyM_eq_ok l fun b hb => h b (List.mem_cons_of_mem a hb)
    rw [List.anyM, h a List.mem_cons_self, List.any_cons]
    cases q a
    · simpa [bind, Except.bind] using hl
    · rfl

theorem allM_eq_ok {p : α → Except ε Bool} {q : α → Bool} :
    ∀ (l : List α), (∀ a ∈ l, p a = .ok (q a)) → l.allM p = .ok (l.all q)
  | [], _ => rfl
  | a :: l, h => by
    have hl := allM_eq_ok l fun b hb => h b (List.mem_cons_of_mem a hb)
    rw [List.allM, h a List.mem_cons_self, List.all_cons]
    cases q a
    · rfl
    · simpa [bind, Except.bind] using hl

end Except
