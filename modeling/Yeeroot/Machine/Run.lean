import Mathlib

/-!
# Runs of a step function

A system that takes one input per step, `step : σ → ι → σ`, fed from an input stream
`input : ℕ → ι`, visits the states `run step init input n`.  Two rules reason about whole
runs from facts about one step:

* `run_invariant`: a property of the start that every step preserves, for the inputs the
  environment may supply in that state, holds after every prefix of the run;
* `run_stable`: a property that every step preserves holds from the first state that has it;
* `run_simulates`: a map to an abstract machine under which the steps of a stretch of the
  run are abstract steps sends that stretch to a run of the abstract machine.

Both take the environment's assumption as a predicate `Adm n s i` ("input `i` may be fed at
step `n` in state `s`"), which may mention the run itself: an environment that depends on
the history is stated that way.
-/

namespace Machine

variable {σ ι τ κ : Type}

/-- The state after the first `n` inputs of the stream `input`, from `init`. -/
def run (step : σ → ι → σ) (init : σ) (input : ℕ → ι) : ℕ → σ
  | 0 => init
  | n + 1 => step (run step init input n) (input n)

section Rules

variable (step : σ → ι → σ) (init : σ) (input : ℕ → ι)

@[simp] lemma run_zero : run step init input 0 = init := rfl

@[simp] lemma run_succ (n : ℕ) :
    run step init input (n + 1) = step (run step init input n) (input n) := rfl

/-- **Invariant rule.**  An invariant of the start, preserved by every admitted step, holds
along a run whose inputs are admitted. -/
theorem run_invariant (Inv : ℕ → σ → Prop) (Adm : ℕ → σ → ι → Prop) (h0 : Inv 0 init)
    (hstep : ∀ n s, Inv n s → Adm n s (input n) → Inv (n + 1) (step s (input n)))
    (hadm : ∀ n, Adm n (run step init input n) (input n)) :
    ∀ n, Inv n (run step init input n) := by
  intro n
  induction n with
  | zero => exact h0
  | succ n ih => exact hstep n _ ih (hadm n)

/-- **Stability rule.**  A property every step preserves holds for the rest of the run once
it holds. -/
theorem run_stable (P : σ → Prop) (hstep : ∀ s i, P s → P (step s i)) (m : ℕ)
    (hm : P (run step init input m)) : ∀ k, P (run step init input (m + k)) := by
  intro k
  induction k with
  | zero => exact hm
  | succ k ih =>
    rw [← Nat.add_assoc, run_succ]
    exact hstep _ _ ih

/-- **Simulation rule.**  If from step `m` on, for `J` steps, each step of the run is mapped
by `abs` to a step of `astep` on the abstracted input, then the abstraction of the run over
those steps is the run of the abstract machine from the abstraction of state `m`. -/
theorem run_simulates (abs : σ → τ) (astep : τ → κ → τ) (ainput : ℕ → κ) (m J : ℕ)
    (hsim : ∀ j < J, abs (step (run step init input (m + j)) (input (m + j))) =
      astep (abs (run step init input (m + j))) (ainput (m + j))) :
    ∀ j ≤ J, abs (run step init input (m + j)) =
      run astep (abs (run step init input m)) (fun j => ainput (m + j)) j := by
  intro j hj
  induction j with
  | zero => rfl
  | succ j ih =>
    rw [← Nat.add_assoc, run_succ, hsim j (by omega), ih (by omega), run_succ]

end Rules

end Machine
