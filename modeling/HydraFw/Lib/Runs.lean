import Mathlib.Algebra.Order.Ring.Nat
import Mathlib.Algebra.Order.Ring.Int
import Mathlib.Data.List.Basic
import Mathlib.Data.List.Range

/-!
# Runs of a deterministic machine

A machine is a function `step : σ → ι → σ` from a state and an input to the next state.

* `run step s is`          the state after the inputs `is`;
* `StepsOk P step s is`    every step of that run meets the condition `P` (state before, input);
* `outs out step s is`     the outputs `out` of the steps, in order;
* `inv_run`                an invariant that every step meeting `P` keeps holds of the whole run;
* `sim_run`                a step-by-step simulation carries over to whole runs;
* `outs_eq_of_coupled`     states coupled step by step have the same outputs;
* `monitor_run`            a monitor that reads the outputs step by step accepts those of the run.

A monitor is itself a machine, over the outputs: it accepts them when `StepsOk` holds of its run.
-/

namespace Runs

variable {σ ι ο τ κ : Type*}

/-- the state after the inputs `is` -/
def run (step : σ → ι → σ) (s : σ) (is : List ι) : σ := is.foldl step s

/-- every step of the run meets `P` -/
def StepsOk (P : σ → ι → Prop) (step : σ → ι → σ) : σ → List ι → Prop
  | _, [] => True
  | s, i :: is => P s i ∧ StepsOk P step (step s i) is

instance decidableStepsOk {P : σ → ι → Prop} [∀ s i, Decidable (P s i)] (step : σ → ι → σ) :
    ∀ s is, Decidable (StepsOk P step s is)
  | _, [] => isTrue trivial
  | s, i :: is =>
    have := decidableStepsOk (P := P) step (step s i) is
    inferInstanceAs (Decidable (P s i ∧ _))

/-- the outputs of the steps of the run, in order -/
def outs (out : σ → ι → List ο) (step : σ → ι → σ) : σ → List ι → List ο
  | _, [] => []
  | s, i :: is => out s i ++ outs out step (step s i) is

section
variable (step : σ → ι → σ)

@[simp] theorem run_nil (s : σ) : run step s [] = s := rfl
@[simp] theorem run_cons (s : σ) (i : ι) (is : List ι) :
    run step s (i :: is) = run step (step s i) is := rfl
theorem run_append (s : σ) (a b : List ι) :
    run step s (a ++ b) = run step (run step s a) b := List.foldl_append
theorem run_concat (s : σ) (a : List ι) (i : ι) :
    run step s (a ++ [i]) = step (run step s a) i := by
  rw [run_append]; rfl

@[simp] theorem outs_cons (out : σ → ι → List ο) (s : σ) (i : ι) (is : List ι) :
    outs out step s (i :: is) = out s i ++ outs out step (step s i) is := rfl

end

section
variable {P Q : σ → ι → Prop} {step : σ → ι → σ}

theorem stepsOk_append (s : σ) (a b : List ι) :
    StepsOk P step s (a ++ b) ↔ StepsOk P step s a ∧ StepsOk P step (run step s a) b := by
  induction a generalizing s with
  | nil => simp [StepsOk]
  | cons i a ih => simp only [List.cons_append, StepsOk, ih, run_cons, and_assoc]

/-- the last step of a run whose steps all meet `P` -/
theorem StepsOk.last {s : σ} {a : List ι} {i : ι} (h : StepsOk P step s (a ++ [i])) :
    StepsOk P step s a ∧ P (run step s a) i := by
  obtain ⟨h1, h2⟩ := (stepsOk_append s a [i]).mp h
  exact ⟨h1, h2.1⟩

/-- a condition that holds of all steps holds of each of them -/
theorem StepsOk.at {s : σ} {a b : List ι} {i : ι} (h : StepsOk P step s (a ++ i :: b)) :
    P (run step s a) i := ((stepsOk_append s a (i :: b)).mp h).2.1

/-- a condition that holds after every prefix holds of the run -/
theorem stepsOk_of_prefixes {s : σ} {is : List ι}
    (h : ∀ pre i post, is = pre ++ i :: post → P (run step s pre) i) : StepsOk P step s is := by
  induction is generalizing s with
  | nil => trivial
  | cons i is ih =>
    refine ⟨h [] i is rfl, ih fun pre j post heq => ?_⟩
    exact h (i :: pre) j post (by rw [heq]; rfl)

/-- **The invariant rule.**  What every step meeting `P` keeps holds after every run whose
steps all meet `P`. -/
theorem inv_run {I : σ → Prop} (hstep : ∀ s i, I s → P s i → I (step s i)) {s : σ} {is : List ι}
    (h0 : I s) (hok : StepsOk P step s is) : I (run step s is) := by
  induction is generalizing s with
  | nil => exact h0
  | cons i is ih => exact ih (hstep s i h0 hok.1) hok.2

/-- the invariant rule for a machine without a condition on its steps -/
theorem inv_run_all {I : σ → Prop} (hstep : ∀ s i, I s → I (step s i)) {s : σ} (is : List ι)
    (h0 : I s) : I (run step s is) := by
  induction is generalizing s with
  | nil => exact h0
  | cons i is ih => exact ih (hstep s i h0)

/-- a condition may be replaced by one that follows from it and an invariant -/
theorem StepsOk.mono {I : σ → Prop} (hI : ∀ s i, I s → P s i → I (step s i))
    (hPQ : ∀ s i, I s → P s i → Q s i) {s : σ} {is : List ι} (h0 : I s)
    (hok : StepsOk P step s is) : StepsOk Q step s is := by
  induction is generalizing s with
  | nil => trivial
  | cons i is ih => exact ⟨hPQ s i h0 hok.1, ih (hI s i h0 hok.1) hok.2⟩

/-- conditions that agree on every step agree on every run -/
theorem stepsOk_congr (h : ∀ s i, P s i ↔ Q s i) {s : σ} {is : List ι} :
    StepsOk P step s is ↔ StepsOk Q step s is := by
  induction is generalizing s with
  | nil => exact Iff.rfl
  | cons i is ih => exact and_congr (h s i) ih

/-- **The simulation rule.**  `abs` reads the abstract inputs off a concrete step. -/
theorem sim_run {astep : τ → κ → τ} {R : σ → τ → Prop} (abs : σ → ι → List κ)
    (hstep : ∀ s t i, R s t → P s i → R (step s i) (run astep t (abs s i)))
    {s : σ} {t : τ} {is : List ι} (h0 : R s t) (hok : StepsOk P step s is) :
    R (run step s is) (run astep t (outs abs step s is)) := by
  induction is generalizing s t with
  | nil => exact h0
  | cons i is ih =>
    rw [run_cons, outs_cons, run_append]
    exact ih (hstep s t i h0 hok.1) hok.2

/-- **The coupling rule.**  States in a relation that every step keeps, and that gives the same
outputs, run alike. -/
theorem outs_eq_of_coupled {R : σ → σ → Prop} {step : σ → ι → σ} (out : σ → ι → List ο)
    (hstep : ∀ s t i, R s t → out s i = out t i ∧ R (step s i) (step t i)) {s t : σ}
    (h0 : R s t) (is : List ι) : outs out step s is = outs out step t is := by
  induction is generalizing s t with
  | nil => rfl
  | cons i is ih =>
    obtain ⟨hout, hrel⟩ := hstep s t i h0
    rw [outs_cons, outs_cons, hout, ih hrel]

/-- **The monitor rule.**  A relation to the state of a monitor, kept by every step whose outputs
the monitor accepts, carries over to whole runs. -/
theorem monitor_run {ok : τ → κ → Prop} {next : τ → κ → τ} {R : σ → τ → Prop} (out : σ → ι → List κ)
    (hstep : ∀ s t i, R s t → P s i →
      StepsOk ok next t (out s i) ∧ R (step s i) (run next t (out s i)))
    {s : σ} {t : τ} {is : List ι} (h0 : R s t) (hok : StepsOk P step s is) :
    StepsOk ok next t (outs out step s is) ∧
      R (run step s is) (run next t (outs out step s is)) := by
  induction is generalizing s t with
  | nil => exact ⟨trivial, h0⟩
  | cons i is ih =>
    obtain ⟨hacc, hrel⟩ := hstep s t i h0 hok.1
    obtain ⟨haccs, hrels⟩ := ih hrel hok.2
    rw [run_cons, outs_cons, run_append, stepsOk_append]
    exact ⟨⟨hacc, haccs⟩, hrels⟩

end

end Runs
