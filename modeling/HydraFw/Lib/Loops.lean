import Mathlib.Algebra.Order.Ring.Nat
import Mathlib.Data.List.Basic
import Mathlib.Logic.Function.Iterate
import Mathlib.Order.Nat

/-!
# Loops of an imperative program

`whileN c f n s` is the loop `while (c) f` from the state `s`, stopped after `n` passes if it has
not ended before.  The loop itself ends when some number of passes leaves a state without `c`.

* `whileN_add`       passes in two portions;
* `whileN_done`, `whileN_ended`, `whileN_unique`   a loop that has ended stays where it is;
* `whileN_inv`       what every pass keeps holds after any number of them;
* `whileN_measure`, `whileN_measure_inv`   a loop whose passes all lower a measure ends;
* `whileN_map`       a loop on a view of the state;
* `whileN_ends_iff`  a loop ends behind the first pass that leaves a state without `c`;
* `isLeast_iff_imp`  two tests, of which one implies the other, that come true at one place.
-/

namespace Loops

variable {σ : Type*}

def whileN (c : σ → Bool) (f : σ → σ) : Nat → σ → σ
  | 0, s => s
  | n + 1, s => if c s then whileN c f n (f s) else s

section
variable {c : σ → Bool} {f : σ → σ}

theorem whileN_pass {s : σ} (h : c s = true) (n : Nat) :
    whileN c f (n + 1) s = whileN c f n (f s) := if_pos h

theorem whileN_done {s : σ} (h : c s = false) (n : Nat) : whileN c f n s = s := by
  cases n with
  | zero => rfl
  | succ n => exact if_neg (by simp [h])

theorem whileN_add (a b : Nat) (s : σ) :
    whileN c f (a + b) s = whileN c f b (whileN c f a s) := by
  induction a generalizing s with
  | zero => rw [Nat.zero_add]; rfl
  | succ a ih =>
    cases h : c s with
    | false => rw [whileN_done h, whileN_done h, whileN_done h]
    | true => rw [Nat.succ_add, whileN_pass h, whileN_pass h, ih]

theorem whileN_succ (n : Nat) (s : σ) :
    whileN c f (n + 1) s = whileN c f 1 (whileN c f n s) := whileN_add n 1 s

/-- more passes than it takes change nothing -/
theorem whileN_ended {m n : Nat} {s : σ} (hmn : m ≤ n) (h : c (whileN c f m s) = false) :
    whileN c f n s = whileN c f m s := by
  obtain ⟨k, rfl⟩ := Nat.exists_eq_add_of_le hmn
  rw [whileN_add, whileN_done h]

/-- a loop ends in one state -/
theorem whileN_unique {m n : Nat} {s : σ} (hm : c (whileN c f m s) = false)
    (hn : c (whileN c f n s) = false) : whileN c f m s = whileN c f n s := by
  rcases Nat.le_total m n with h | h
  · exact (whileN_ended h hm).symm
  · exact whileN_ended h hn

/-- the invariant rule -/
theorem whileN_inv {I : σ → Prop} (h : ∀ s, c s = true → I s → I (f s)) {s : σ} (h0 : I s)
    (n : Nat) : I (whileN c f n s) := by
  induction n generalizing s with
  | zero => exact h0
  | succ n ih =>
    cases hc : c s with
    | false => rwa [whileN_done hc]
    | true => rw [whileN_pass hc]; exact ih (h s hc h0)

/-- the termination rule -/
theorem whileN_measure (μ : σ → Nat) (h : ∀ s, c s = true → μ (f s) < μ s) {s : σ} {n : Nat}
    (hn : μ s ≤ n) : c (whileN c f n s) = false := by
  induction n generalizing s with
  | zero =>
    cases hc : c s with
    | false => exact hc
    | true => exact absurd (h s hc) (by omega)
  | succ n ih =>
    cases hc : c s with
    | false => rwa [whileN_done hc]
    | true =>
      rw [whileN_pass hc]
      exact ih (by have := h s hc; omega)

/-- the termination rule below an invariant -/
theorem whileN_measure_inv {I : σ → Prop} (μ : σ → Nat)
    (h : ∀ s, c s = true → I s → I (f s) ∧ μ (f s) < μ s) {s : σ} (h0 : I s) {n : Nat}
    (hn : μ s ≤ n) : c (whileN c f n s) = false := by
  induction n generalizing s with
  | zero =>
    cases hc : c s with
    | false => exact hc
    | true => exact absurd (h s hc h0).2 (by omega)
  | succ n ih =>
    cases hc : c s with
    | false => rwa [whileN_done hc]
    | true =>
      rw [whileN_pass hc]
      obtain ⟨hi, hlt⟩ := h s hc h0
      exact ih hi (by omega)

/-- a loop on a view of the state -/
theorem whileN_map {τ : Type*} {c' : τ → Bool} {f' : τ → τ} {view : σ → τ}
    (hc : ∀ s, c' (view s) = c s) (hf : ∀ s, view (f s) = f' (view s)) (n : Nat) (s : σ) :
    view (whileN c f n s) = whileN c' f' n (view s) := by
  induction n generalizing s with
  | zero => rfl
  | succ n ih =>
    cases h : c s with
    | false => rw [whileN_done h, whileN_done ((hc s).trans h)]
    | true => rw [whileN_pass h, whileN_pass ((hc s).trans h), ih, hf]

/-! ## where a loop ends -/

theorem whileN_iterate {s : σ} {n : Nat} (h : ∀ j < n, c (f^[j] s) = true) :
    whileN c f n s = f^[n] s := by
  induction n generalizing s with
  | zero => rfl
  | succ n ih =>
    have h0 : c s = true := h 0 n.succ_pos
    rw [whileN_pass h0, Function.iterate_succ_apply]
    apply ih
    intro j hj
    exact h (j + 1) (by omega)

/-- the passes of a loop that has ended, and of one that has not -/
theorem whileN_ends_iff {s : σ} {n : Nat} :
    c (whileN c f n s) = false ↔
      ∃ k ≤ n, IsLeast {j | c (f^[j] s) = false} k ∧ whileN c f n s = f^[k] s := by
  constructor
  · intro hend
    by_cases hex : ∃ j, c (f^[j] s) = false
    · have hleast := Nat.isLeast_find hex
      generalize Nat.find hex = k at hleast
      have hbefore : ∀ j < k, c (f^[j] s) = true := fun j hj =>
        Bool.eq_true_of_not_eq_false fun h => absurd (hleast.2 h) (by omega)
      by_cases hkn : k ≤ n
      · refine ⟨k, hkn, hleast, ?_⟩
        rw [← whileN_iterate hbefore]
        apply whileN_ended hkn
        rw [whileN_iterate hbefore]
        exact hleast.1
      · rw [whileN_iterate fun j hj => hbefore j (by omega)] at hend
        exact absurd (hleast.2 hend) hkn
    · have hall : ∀ j, c (f^[j] s) = true := fun j =>
        Bool.eq_true_of_not_eq_false fun h => hex ⟨j, h⟩
      rw [whileN_iterate fun j _ => hall j, hall n] at hend
      cases hend
  · rintro ⟨k, -, hleast, heq⟩
    rw [heq]
    exact hleast.1

end

/-- of two tests of which the second implies the first, the second comes true where the first does
when it holds there -/
theorem isLeast_iff_imp {p q : Nat → Prop} (h : ∀ k, q k → p k) :
    (∀ k, IsLeast {j | q j} k ↔ IsLeast {j | p j} k) ↔ ∀ k, IsLeast {j | p j} k → q k := by
  constructor
  · intro heq k hk
    exact ((heq k).mpr hk).1
  · intro hq k
    constructor
    · intro hk
      classical
      have hleast := Nat.isLeast_find ⟨k, h k hk.1⟩
      have hle := hk.2 (hq _ hleast)
      have hge := hleast.2 (h k hk.1)
      rwa [Nat.le_antisymm hge hle] at hleast
    · intro hk
      exact ⟨hq k hk, fun j hj => hk.2 (h j hj)⟩

end Loops
