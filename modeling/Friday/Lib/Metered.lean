import Mathlib

/-! # Metered runs

A machine whose operations each pay a list of charges before they act, against a budget.
A charge that would take the amount used past the budget stops the run, before its
operation acts. `Machine.run` is that run, `Machine.plain` the run with no budget, and
`Machine.cost` the total of the plain run's charges. A run that the budget covers is the
plain run, with its cost added to the amount used (`run_eq_ok_of_le`); any other run stops at
the first operation whose charges do not fit, in the state the operations before it left
(`run_eq_error_of_lt`).
-/

namespace Metered

/-- Charges paid in order from `used` under `bound`: the amount used after them all, or
    `none` at the first one that does not fit. -/
def pay (bound : Nat) : Nat → List Nat → Option Nat
  | used, [] => some used
  | used, c :: cs => if used + c ≤ bound then pay bound (used + c) cs else none

theorem pay_of_le {bound : Nat} (cs : List Nat) {used : Nat} (h : used + cs.sum ≤ bound) :
    pay bound used cs = some (used + cs.sum) := by
  induction cs generalizing used with
  | nil => simp [pay]
  | cons c cs ih =>
    have hc : used + c ≤ bound := by simp only [List.sum_cons] at h; omega
    have hcs : used + c + cs.sum ≤ bound := by simp only [List.sum_cons] at h; omega
    rw [pay, if_pos hc, ih hcs, List.sum_cons, Nat.add_assoc]

theorem pay_of_lt {bound : Nat} (cs : List Nat) {used : Nat} (hused : used ≤ bound)
    (h : bound < used + cs.sum) : pay bound used cs = none := by
  induction cs generalizing used with
  | nil => simp at h; omega
  | cons c cs ih =>
    rw [pay]
    split_ifs with hc
    · exact ih hc (by simp only [List.sum_cons] at h; omega)
    · rfl

/-- A machine over states `σ`, with operations `α` that return `β`. -/
structure Machine (σ α β : Type*) where
  /-- The charges of an operation in a state, in the order it pays them. -/
  charges : α → σ → List Nat
  /-- What an operation returns and the state it leaves. -/
  step : α → σ → β × σ

namespace Machine

variable {σ α β : Type*} (m : Machine σ α β)

/-- The run with no budget: the outputs and the final state. -/
def plain : List α → σ → List β × σ
  | [], s => ([], s)
  | op :: ops, s => ((m.step op s).1 :: (plain ops (m.step op s).2).1, (plain ops (m.step op s).2).2)

/-- The total of the charges along the run with no budget. -/
def cost : List α → σ → Nat
  | [], _ => 0
  | op :: ops, s => (m.charges op s).sum + cost ops (m.step op s).2

/-- The run against the budget `bound` from `used`: the outputs, the final state and the
    amount used; or the state and the amount used before the operation whose charges do not
    fit. -/
def run (bound : Nat) : List α → σ → Nat → Except (σ × Nat) (List β × σ × Nat)
  | [], s, used => .ok ([], s, used)
  | op :: ops, s, used =>
    match pay bound used (m.charges op s) with
    | none => .error (s, used)
    | some used' => (run bound ops (m.step op s).2 used').map fun r => ((m.step op s).1 :: r.1, r.2)

/-- A run that the budget covers is the plain run, with its cost added to the amount used. -/
theorem run_eq_ok_of_le {bound : Nat} (ops : List α) (s : σ) {used : Nat}
    (h : used + m.cost ops s ≤ bound) :
    m.run bound ops s used = .ok ((m.plain ops s).1, (m.plain ops s).2, used + m.cost ops s) := by
  induction ops generalizing s used with
  | nil => rfl
  | cons op ops ih =>
    have hop : used + (m.charges op s).sum ≤ bound := by simp only [cost] at h; omega
    have hrest : used + (m.charges op s).sum + m.cost ops (m.step op s).2 ≤ bound := by
      simp only [cost] at h; omega
    simp only [run, pay_of_le _ hop, ih _ hrest, plain, cost, Nat.add_assoc]
    rfl

/-- A run that the budget does not cover stops at the first operation whose charges do not
    fit, in the state and with the amount used that the operations before it left. -/
theorem run_eq_error_of_lt {bound : Nat} (ops : List α) (s : σ) {used : Nat} (hused : used ≤ bound)
    (h : bound < used + m.cost ops s) :
    ∃ pre op post, ops = pre ++ op :: post ∧ used + m.cost pre s ≤ bound ∧
      bound < used + m.cost pre s + (m.charges op (m.plain pre s).2).sum ∧
      m.run bound ops s used = .error ((m.plain pre s).2, used + m.cost pre s) := by
  induction ops generalizing s used with
  | nil => simp [cost] at h; omega
  | cons op ops ih =>
    by_cases hop : used + (m.charges op s).sum ≤ bound
    · -- the first operation is paid for, and the rest stops somewhere
      have hrest : bound < used + (m.charges op s).sum + m.cost ops (m.step op s).2 := by
        simp only [cost] at h; omega
      obtain ⟨pre, op', post, rfl, hpre, hop', hrun⟩ := ih (m.step op s).2 hop hrest
      refine ⟨op :: pre, op', post, rfl, ?_, ?_, ?_⟩
      · simp only [cost]; omega
      · simp only [cost, plain]; omega
      · simp only [run, pay_of_le _ hop, hrun, plain, cost, Nat.add_assoc]
        rfl
    · -- the first operation does not fit
      refine ⟨[], op, ops, rfl, by simpa [cost] using hused, by simpa [cost, plain] using hop, ?_⟩
      simp only [run, pay_of_lt _ hused (Nat.lt_of_not_le hop)]
      rfl

end Machine

end Metered
