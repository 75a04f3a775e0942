import Mathlib.Data.List.Basic
import Mathlib.Data.Prod.Lex

/-!
# Traces of a state machine, and clocks on them

A machine `next` and a list of inputs give a trace: the state after the first `k` inputs. An
invariant holds along the trace, and a reflexive and transitive relation that every step obeys holds
between any two of its states.

A clock tells the states of a trace apart as far as an observation goes: a step either leaves both
the clock and the observation alone or advances the clock.
-/

namespace Trace

variable {σ ι : Type*}

section Traces

variable (next : σ → ι → σ)

/-- The state after the first `k` inputs. -/
def trace (s : σ) (inputs : List ι) (k : ℕ) : σ := (inputs.take k).foldl next s

variable {next} {s : σ} {inputs : List ι}

/-- The next state of a trace is a step away. -/
theorem trace_succ {k : ℕ} {x : ι} (h : inputs[k]? = some x) :
    trace next s inputs (k + 1) = next (trace next s inputs k) x := by
  rw [trace, List.take_add_one, h, List.foldl_append]
  rfl

/-- Past the last input the trace stays where it is. -/
theorem trace_succ_of_none {k : ℕ} (h : inputs[k]? = none) : trace next s inputs (k + 1) = trace next s inputs k := by
  rw [trace, List.take_add_one, h, Option.toList_none, List.append_nil]
  rfl

/-- An invariant holds along a trace. -/
theorem invariant {I : σ → Prop} (hstep : ∀ s x, I s → I (next s x)) (hs : I s) (k : ℕ) :
    I (trace next s inputs k) := by
  induction k with
  | zero => exact hs
  | succ k ih =>
    rcases hx : inputs[k]? with _ | x
    · rw [trace_succ_of_none hx]
      exact ih
    · rw [trace_succ hx]
      exact hstep _ x ih

/-- A relation that every step obeys, from states of the invariant, holds between any two states of
a trace. -/
theorem relation {I : σ → Prop} {R : σ → σ → Prop} (hI : ∀ s x, I s → I (next s x)) (hs : I s)
    (hrefl : ∀ s, R s s) (htrans : ∀ s t u, R s t → R t u → R s u)
    (hstep : ∀ s x, I s → R s (next s x)) {i j : ℕ} (hij : i ≤ j) :
    R (trace next s inputs i) (trace next s inputs j) := by
  induction j, hij using Nat.le_induction with
  | base => exact hrefl _
  | succ j hij ih =>
    rcases hx : inputs[j]? with _ | x
    · rw [trace_succ_of_none hx]
      exact ih
    · rw [trace_succ hx]
      exact htrans _ _ _ ih (hstep _ x (invariant hI hs j))

end Traces

/-! ## Clocks -/

section Clocks

variable {τ ω : Type*} [LinearOrder τ] (clock : σ → τ) (obs : σ → ω)

/-- Nothing that is observed changes without the clock. -/
def Ticks (s s' : σ) : Prop := (clock s' = clock s ∧ obs s' = obs s) ∨ clock s < clock s'

variable {clock obs} {s t u : σ}

theorem Ticks.refl (s : σ) : Ticks clock obs s s := Or.inl ⟨rfl, rfl⟩

section

variable (h : Ticks clock obs s t)

include h

theorem Ticks.le : clock s ≤ clock t := by
  rcases h with ⟨heq, -⟩ | hlt
  · exact heq.ge
  · exact hlt.le

theorem Ticks.trans (h' : Ticks clock obs t u) : Ticks clock obs s u := by
  rcases h with ⟨heq, hobs⟩ | hlt
  · rcases h' with ⟨heq', hobs'⟩ | hlt'
    · exact Or.inl ⟨heq'.trans heq, hobs'.trans hobs⟩
    · exact Or.inr (heq ▸ hlt')
  · exact Or.inr (hlt.trans_le h'.le)

/-- Two states with one clock value are observed alike. -/
theorem Ticks.obs_eq (hclock : clock t = clock s) : obs t = obs s := by
  rcases h with ⟨-, hobs⟩ | hlt
  · exact hobs
  · exact absurd hclock hlt.ne'

/-- Between two states with one clock value nothing is observed to change. -/
theorem Ticks.between (h' : Ticks clock obs t u) (hclock : clock u = clock s) : clock t = clock s ∧ obs t = obs s := by
  have heq : clock t = clock s := le_antisymm (h'.le.trans hclock.le) h.le
  exact ⟨heq, h.obs_eq heq⟩

end

end Clocks

/-! ## Runs that may stop -/

section Runs

variable {step : σ → ι → Option σ}

/-- An invariant that every step on an input of a kind keeps holds after a run of such inputs. -/
theorem run_invariant {I : σ → Prop} {P : ι → Prop}
    (hstep : ∀ s x s', I s → P x → step s x = some s' → I s') {s s' : σ} {inputs : List ι}
    (hs : I s) (hinputs : ∀ x ∈ inputs, P x) (hrun : inputs.foldlM step s = some s') : I s' := by
  induction inputs generalizing s with
  | nil =>
    cases hrun
    exact hs
  | cons x inputs ih =>
    obtain ⟨t, hfirst, hrest⟩ := Option.bind_eq_some_iff.mp hrun
    refine ih (hstep s x t hs (hinputs x List.mem_cons_self) hfirst) ?_ hrest
    exact fun y hy => hinputs y (List.mem_cons_of_mem _ hy)

end Runs

/-! ## Runs of a relation -/

section Reach

open Relation (ReflTransGen)

variable {step : σ → σ → Prop} {I : σ → Prop} {s t : σ}

/-- An invariant of the steps holds in every state that is reached. -/
theorem reach_invariant (hstep : ∀ s t, I s → step s t → I t) (hs : I s) (h : ReflTransGen step s t) : I t := by
  induction h with
  | refl => exact hs
  | tail _ hlast ih => exact hstep _ _ ih hlast

end Reach

end Trace
