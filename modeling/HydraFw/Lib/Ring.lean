import Mathlib.Algebra.Order.Ring.Nat
import Mathlib.Algebra.Order.Ring.Int
import Mathlib.Data.List.Basic
import Mathlib.Data.List.Range
import Mathlib.Logic.Function.Basic

/-!
# Ring buffers with a write position

`Ring α n` is an array of `n` slots and the index of the slot that is written next.  A slot is
stored and the index moved on in two steps, so that a program may stop between them.

* `store`, `next`, `prev`, `get`   the four steps;
* `push`                           a store and the move behind it;
* `newest r j`                     the slot `j + 1` places before the index;
* `drain k r`                      `k` reads backwards from the index.
-/

namespace Rams

/-- `n` slots; the index belongs to one of them -/
structure Ring (α : Type*) (n : Nat) where
  slot : Nat → α
  index : Nat
  index_lt : index < n

namespace Ring
variable {α : Type*} {n : Nat}

/-! ## steps -/

def get (r : Ring α n) : α := r.slot r.index

def store (r : Ring α n) (x : α) : Ring α n := { r with slot := Function.update r.slot r.index x }

def next (r : Ring α n) : Ring α n where
  slot := r.slot
  index := (r.index + 1) % n
  index_lt := Nat.mod_lt _ (Nat.zero_lt_of_lt r.index_lt)

def prev (r : Ring α n) : Ring α n where
  slot := r.slot
  index := if r.index = 0 then n - 1 else r.index - 1
  index_lt := by have := r.index_lt; split <;> omega

def push (r : Ring α n) (x : α) : Ring α n := (r.store x).next

def pushAll (r : Ring α n) (xs : List α) : Ring α n := xs.foldl push r

/-- `k` steps back -/
def back : Nat → Ring α n → Ring α n
  | 0, r => r
  | k + 1, r => back k r.prev

def newest (r : Ring α n) (j : Nat) : α := (r.back (j + 1)).get

/-- what `k` steps back read, newest first -/
def drain : Nat → Ring α n → List α
  | 0, _ => []
  | k + 1, r => r.prev.get :: drain k r.prev

@[simp] theorem store_index (r : Ring α n) (x : α) : (r.store x).index = r.index := rfl
@[simp] theorem pushAll_nil (r : Ring α n) : r.pushAll [] = r := rfl

@[ext] theorem ext {r r' : Ring α n} (hs : r.slot = r'.slot) (hi : r.index = r'.index) :
    r = r' := by
  cases r; cases r'; cases hs; cases hi; rfl

theorem pushAll_append (r : Ring α n) (xs ys : List α) :
    r.pushAll (xs ++ ys) = (r.pushAll xs).pushAll ys := List.foldl_append

/-! ## going back -/

theorem next_prev (r : Ring α n) : r.next.prev = r := by
  apply Ring.ext
  · rfl
  · have hlt := r.index_lt
    show (if (r.index + 1) % n = 0 then n - 1 else (r.index + 1) % n - 1) = r.index
    by_cases h : r.index + 1 = n
    · rw [h, Nat.mod_self, if_pos rfl]; omega
    · rw [Nat.mod_eq_of_lt (by omega), if_neg (by omega)]; omega

theorem back_slot (k : Nat) (r : Ring α n) : (r.back k).slot = r.slot := by
  induction k generalizing r with
  | zero => rfl
  | succ k ih => exact ih r.prev

/-- the place of the index `k ≤ n` steps back -/
theorem back_index (k : Nat) (r : Ring α n) (hk : k ≤ n) :
    (r.back k).index = if k ≤ r.index then r.index - k else r.index + n - k := by
  induction k generalizing r with
  | zero => rw [if_pos (Nat.zero_le _)]; rfl
  | succ k ih =>
    have hlt := r.index_lt
    show (r.prev.back k).index = _
    rw [ih r.prev (by omega)]
    show (if k ≤ (if r.index = 0 then n - 1 else r.index - 1) then _ else _) = _
    simp only [prev]
    split_ifs <;> omega

/-- fewer than `n` steps back the slot is another one -/
theorem back_index_ne {k : Nat} (r : Ring α n) (h0 : 0 < k) (hk : k < n) :
    (r.back k).index ≠ r.index := by
  have hlt := r.index_lt
  rw [back_index k r (by omega)]
  split_ifs <;> omega

/-- the way back depends on the index only -/
theorem back_index_congr (k : Nat) {a b : Ring α n} (h : a.index = b.index) :
    (a.back k).index = (b.back k).index := by
  induction k generalizing a b with
  | zero => exact h
  | succ k ih =>
    apply ih
    simp only [prev, h]

theorem newest_store (r : Ring α n) (x : α) {j : Nat} (hj : j + 1 < n) :
    (r.store x).newest j = r.newest j := by
  have hslot := back_slot (j + 1) (r.store x)
  have hidx := back_index_congr (j + 1) (store_index r x)
  unfold newest get
  rw [hslot, hidx, back_slot]
  exact Function.update_of_ne (back_index_ne r (Nat.succ_pos j) hj) ..

theorem newest_push_zero (r : Ring α n) (x : α) : (r.push x).newest 0 = x := by
  show ((r.store x).next.prev).get = x
  rw [next_prev]
  exact Function.update_self ..

theorem newest_push_succ (r : Ring α n) (x : α) {j : Nat} (hj : j + 1 < n) :
    (r.push x).newest (j + 1) = r.newest j := by
  show (((r.store x).next.prev).back (j + 1)).get = r.newest j
  rw [next_prev]
  exact newest_store r x hj

/-- the pushes of a list are the newest slots, the last one first -/
theorem newest_pushAll (r : Ring α n) (xs : List α) {j : Nat} (hj : j < n) :
    (r.pushAll xs).newest j = (xs.reverse[j]?).getD (r.newest (j - xs.length)) := by
  induction xs using List.reverseRecOn generalizing j with
  | nil => simp
  | append_singleton xs x ih =>
    rw [pushAll_append, List.reverse_append]
    show ((r.pushAll xs).push x).newest j = _
    cases j with
    | zero => rw [newest_push_zero]; simp
    | succ j =>
      rw [newest_push_succ _ _ hj, ih (by omega)]
      simp

theorem drain_length (k : Nat) (r : Ring α n) : (r.drain k).length = k := by
  induction k generalizing r with
  | zero => rfl
  | succ k ih => simp [drain, ih]

theorem drain_getElem? (k : Nat) (r : Ring α n) {j : Nat} (hj : j < k) :
    (r.drain k)[j]? = some (r.newest j) := by
  induction k generalizing r j with
  | zero => omega
  | succ k ih =>
    cases j with
    | zero => rfl
    | succ j => exact ih r.prev (by omega)

end Ring
end Rams
