import Mathlib.Algebra.Order.Ring.Nat
import Mathlib.Data.List.Basic

/-!
# Lines of words with slots

A line of words in an array.  Some words take an argument, whose value is in a slot of the array
right behind the word; a terminator stands behind the last one.

* `Item`     a word, with its slot if it takes one;
* `cell`     what is at a position of the array;
* `Stands`   a word or the terminator is there, so it may be read as a word;
* `Within`   the position is not behind the terminator;
* `rest`     the words from a position on.
-/

namespace Slots

variable {τ ο : Type*}

structure Item (takesSlot : τ → Bool) (stop : τ) (ο : Type*) where
  word : τ
  slot : Option ο
  shape : slot.isSome = takesSlot word
  proper : word ≠ stop

inductive Cell (τ ο : Type*) where
  | word (t : τ)
  | slot (o : ο)
  | stop
  | behind

/-- the cell may be read as a word: it is one, or the terminator -/
def Cell.Readable : Cell τ ο → Prop
  | .word _ | .stop => True
  | .slot _ | .behind => False

def Cell.Inside : Cell τ ο → Prop
  | .behind => False
  | _ => True

instance : ∀ c : Cell τ ο, Decidable c.Readable
  | .word _ | .stop => isTrue trivial
  | .slot _ | .behind => isFalse not_false

instance : ∀ c : Cell τ ο, Decidable c.Inside
  | .word _ | .slot _ | .stop => isTrue trivial
  | .behind => isFalse not_false

theorem Cell.Readable.inside {c : Cell τ ο} (h : c.Readable) : c.Inside := by
  cases c with
  | behind => exact h
  | _ => trivial

section
variable {takesSlot : τ → Bool} {stop : τ}

def cell : List (Item takesSlot stop ο) → Nat → Cell τ ο
  | [], 0 => .stop
  | [], _ + 1 => .behind
  | i :: _, 0 => .word i.word
  | i :: l, p + 1 =>
    match i.slot, p with
    | none, p => cell l p
    | some o, 0 => .slot o
    | some _, p + 1 => cell l p

def Stands (l : List (Item takesSlot stop ο)) (p : Nat) : Prop := (cell l p).Readable

def Within (l : List (Item takesSlot stop ο)) (p : Nat) : Prop := (cell l p).Inside

variable {i : Item takesSlot stop ο} {l : List (Item takesSlot stop ο)} {p q : Nat} {t : τ}

instance : Decidable (Stands l p) := by unfold Stands; infer_instance
instance : Decidable (Within l p) := by unfold Within; infer_instance

theorem cell_cons_none (h : i.slot = none) : cell (i :: l) (p + 1) = cell l p := by
  simp only [cell, h]

theorem cell_cons_slot {o : ο} (h : i.slot = some o) : cell (i :: l) 1 = .slot o := by
  simp only [cell, h]

theorem cell_cons_some {o : ο} (h : i.slot = some o) : cell (i :: l) (p + 2) = cell l p := by
  simp only [cell, h]

theorem stands_zero (l : List (Item takesSlot stop ο)) : Stands l 0 := by
  cases l <;> trivial

theorem Stands.within (h : Stands l p) : Within l p := Cell.Readable.inside h

def rest : List (Item takesSlot stop ο) → Nat → List (Item takesSlot stop ο)
  | l, 0 => l
  | [], _ + 1 => []
  | i :: l, p + 1 =>
    match i.slot, p with
    | none, p => rest l p
    | some _, 0 => l
    | some _, p + 1 => rest l p

theorem rest_zero (l : List (Item takesSlot stop ο)) : rest l 0 = l := by cases l <;> rfl

theorem rest_cons_none (h : i.slot = none) : rest (i :: l) (p + 1) = rest l p := by
  simp only [rest, h]

theorem rest_cons_some {o : ο} (h : i.slot = some o) : rest (i :: l) (p + 2) = rest l p := by
  simp only [rest, h]

theorem rest_length_le (l : List (Item takesSlot stop ο)) (p : Nat) :
    (rest l p).length ≤ l.length := by
  induction l generalizing p with
  | nil => cases p <;> exact Nat.le_refl _
  | cons i l ih =>
    cases p with
    | zero => exact Nat.le_refl _
    | succ p =>
      cases hs : i.slot with
      | none =>
        rw [rest_cons_none hs]
        exact (ih p).trans (Nat.le_succ _)
      | some o =>
        cases p with
        | zero =>
          simp only [rest, hs]
          exact Nat.le_succ _
        | succ p =>
          rw [rest_cons_some hs]
          exact (ih p).trans (Nat.le_succ _)

/-- the cells from a word on are those of the words from there on -/
theorem cell_rest (h : Stands l p) (k : Nat) : cell l (p + k) = cell (rest l p) k := by
  induction l generalizing p with
  | nil =>
    cases p with
    | zero => rw [Nat.zero_add, rest_zero]
    | succ p => exact False.elim h
  | cons i l ih =>
    cases p with
    | zero => rw [Nat.zero_add, rest_zero]
    | succ p =>
      unfold Stands at h ih
      cases hs : i.slot with
      | none =>
        rw [cell_cons_none hs] at h
        rw [rest_cons_none hs, Nat.add_right_comm, cell_cons_none hs]
        exact ih h
      | some o =>
        cases p with
        | zero =>
          rw [cell_cons_slot hs] at h
          exact False.elim h
        | succ p =>
          rw [cell_cons_some hs] at h
          rw [rest_cons_some hs, Nat.add_right_comm, Nat.add_right_comm p, cell_cons_some hs]
          exact ih h

end

end Slots
