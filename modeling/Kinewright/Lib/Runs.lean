import Mathlib.Logic.Basic

/-!
# Runs whose steps are as they should be

A machine takes actions that are possible in its state, and a run is told apart by a condition on the state
and the action of each of its steps. What every step of that kind keeps is kept by the run.
-/

namespace Runs

variable {σ α : Type*} {step : σ → α → Option σ} {P : σ → α → Prop} {start s s' : σ}

/-- What is reached from a state by actions that meet the condition. -/
inductive Run (step : σ → α → Option σ) (P : σ → α → Prop) (start : σ) : σ → Prop
  | refl : Run step P start start
  | step {s s' : σ} (action : α) (hrun : Run step P start s) (hP : P s action)
      (hstep : step s action = some s') : Run step P start s'

/-- A run keeps what every one of its steps keeps. -/
theorem Run.invariant {I : σ → Prop}
    (hstep : ∀ s s' action, I s → P s action → step s action = some s' → I s') (hstart : I start)
    (hrun : Run step P start s) : I s := by
  induction hrun with
  | refl => exact hstart
  | step action _ hP hnext ih => exact hstep _ _ action ih hP hnext

/-- The state after the actions, if all of them are possible. -/
def after (step : σ → α → Option σ) (s : σ) : List α → Option σ
  | [] => some s
  | action :: actions => (step s action).bind fun next => after step next actions

/-- Actions that are possible make a run, if nothing more is asked of them. -/
theorem Run.after {actions : List α} (hrun : Run step (fun _ _ => True) start s)
    (hafter : after step s actions = some s') : Run step (fun _ _ => True) start s' := by
  induction actions generalizing s with
  | nil =>
    cases hafter
    exact hrun
  | cons action actions ih =>
    obtain ⟨next, hstep, hrest⟩ := Option.bind_eq_some_iff.mp hafter
    exact ih (hrun.step action trivial hstep) hrest

/-- A run with the state and the action of each of its steps. -/
inductive Trail (step : σ → α → Option σ) (start : σ) : List (σ × α) → σ → Prop
  | refl : Trail step start [] start
  | step {log : List (σ × α)} {s s' : σ} (action : α) (htrail : Trail step start log s)
      (hstep : step s action = some s') : Trail step start (log ++ [(s, action)]) s'

/-- What holds of a trail, when every step extends it. -/
theorem Trail.invariant {I : List (σ × α) → σ → Prop}
    (hstep : ∀ log s s' action, I log s → step s action = some s' → I (log ++ [(s, action)]) s')
    (hstart : I [] start) {log : List (σ × α)} (htrail : Trail step start log s) : I log s := by
  induction htrail with
  | refl => exact hstart
  | step action _ hnext ih => exact hstep _ _ _ action ih hnext

end Runs
