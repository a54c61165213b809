import HydraFw.Lib.Chunks

/-!
# Bits in bytes

A stream of bits is kept in bytes: bit `k` is bit `k % 8` of byte `k / 8`.

* `bitAt`             a bit of a list of bytes;
* `shiftIn`           a bit that is shifted in at the top of a byte;
* `collect s n`       the first `n` bits of a stream, shifted into one byte;
* `bytesOf s n`       the first `n` bits, in chunks of eight;
* `collect_bit`       where the bits of a byte are: the last one is on top;
* `collect_iff`, `bytesOf_iff`   when that is the layout of `bitAt`.
-/

namespace Serial
open Chunks

def bitAt (bytes : List (BitVec 8)) (k : Nat) : Bool := (bytes.getD (k / 8) 0).getLsbD (k % 8)

def shiftIn (b : Bool) (x : BitVec 8) : BitVec 8 := (BitVec.ofBool b).setWidth 8 <<< 7 ||| x >>> 1

def collect (s : Nat → Bool) : Nat → BitVec 8
  | 0 => 0
  | n + 1 => shiftIn (s n) (collect s n)

def bytesOf (s : Nat → Bool) (n : Nat) : List (BitVec 8) :=
  (List.range (count 8 n)).map fun j => collect (fun i => s (j * 8 + i)) (size 8 n j)

theorem bytesOf_length (s : Nat → Bool) (n : Nat) : (bytesOf s n).length = count 8 n := by
  rw [bytesOf, List.length_map, List.length_range]

variable {s : Nat → Bool} {n : Nat}

theorem shiftIn_bit (b : Bool) (x : BitVec 8) {i : Nat} (hi : i < 8) :
    (shiftIn b x).getLsbD i = if i = 7 then b else x.getLsbD (i + 1) := by
  unfold shiftIn
  rw [BitVec.getLsbD_or, BitVec.getLsbD_shiftLeft, BitVec.getLsbD_setWidth, BitVec.getLsbD_ofBool,
    BitVec.getLsbD_ushiftRight, Nat.add_comm 1 i]
  split_ifs with h
  · subst h
    simp
  · have hlt : i < 7 := by omega
    simp [hlt]

theorem collect_bit (s : Nat → Bool) (hn : n ≤ 8) {i : Nat} (hi : i < 8) :
    (collect s n).getLsbD i = (decide (8 ≤ i + n) && s (i + n - 8)) := by
  induction n generalizing i with
  | zero =>
    rw [Nat.add_zero, decide_eq_false (by omega), Bool.false_and]
    exact BitVec.getLsbD_zero
  | succ n ih =>
    rw [collect, shiftIn_bit _ _ hi]
    split_ifs with h
    · subst h
      rw [decide_eq_true (by omega), Bool.true_and]
      congr 1
      omega
    · rw [ih (by omega) (by omega), Nat.add_assoc, Nat.add_comm 1 n]

/-- the bits of a byte are aligned to its top: they are in place when the byte is full, and else
when they are all zero -/
theorem collect_iff (s : Nat → Bool) (hn : n ≤ 8) :
    (∀ i < n, (collect s n).getLsbD i = s i) ↔ (n < 8 → ∀ i < n, s i = false) := by
  constructor
  · intro h hlt i hi
    induction i using Nat.strong_induction_on with
    | _ i ih =>
      have hbit := collect_bit s hn (by omega : i < 8)
      rw [h i hi] at hbit
      by_cases hlow : 8 ≤ i + n
      · rw [hbit, ih (i + n - 8) (by omega) (by omega), Bool.and_false]
      · rw [hbit, decide_eq_false hlow, Bool.false_and]
  · intro h i hi
    rw [collect_bit s hn (by omega)]
    rcases Nat.lt_or_eq_of_le hn with hlt | rfl
    · rw [h hlt i hi]
      by_cases hlow : 8 ≤ i + n
      · rw [h hlt (i + n - 8) (by omega), Bool.and_false]
      · rw [decide_eq_false hlow, Bool.false_and]
    · rw [decide_eq_true (by omega), Bool.true_and, Nat.add_sub_cancel]

theorem bitAt_bytesOf (s : Nat → Bool) {j i : Nat} (hi : i < size 8 n j) :
    bitAt (bytesOf s n) (j * 8 + i) =
      (collect (fun i => s (j * 8 + i)) (size 8 n j)).getLsbD i := by
  have hi8 : i < 8 := Nat.lt_of_lt_of_le hi (size_le 8 n j)
  have hj : j < count 8 n := by
    rw [lt_count (by decide)]
    unfold size at hi
    omega
  have hdiv : (j * 8 + i) / 8 = j := by omega
  have hmod : (j * 8 + i) % 8 = i := by omega
  rw [bitAt, hdiv, hmod, bytesOf, List.getD_eq_getElem?_getD, List.getElem?_map,
    List.getElem?_range hj]
  rfl

/-- **The layout.**  It is wrong for the ones of a last byte that is not full. -/
theorem bytesOf_iff (s : Nat → Bool) (n : Nat) :
    (∀ k < n, bitAt (bytesOf s n) k = s k) ↔ ∀ k, n / 8 * 8 ≤ k → k < n → s k = false := by
  have hlast : ∀ j, size 8 n j < 8 → 0 < size 8 n j → j = n / 8 ∧ size 8 n j = n - j * 8 := by
    intro j hlt hpos
    unfold size at hlt hpos ⊢
    omega
  constructor
  · intro h k hlow hk
    have hsize : size 8 n (n / 8) = n - n / 8 * 8 := by
      unfold size
      omega
    have hbits := (collect_iff (fun i => s (n / 8 * 8 + i)) (size_le 8 n (n / 8))).mp
      fun i hi => by rw [← bitAt_bytesOf s hi]; exact h _ (by omega)
    have hzero := hbits (by omega) (k - n / 8 * 8) (by omega)
    rwa [Nat.add_sub_cancel' hlow] at hzero
  · intro h k hk
    obtain ⟨j, i, hi8, rfl⟩ : ∃ j i, i < 8 ∧ k = j * 8 + i := ⟨k / 8, k % 8, by omega, by omega⟩
    have hi : i < size 8 n j := by
      unfold size
      omega
    rw [bitAt_bytesOf s hi]
    refine (collect_iff _ (size_le 8 n j)).mpr (fun hlt i hi => ?_) i hi
    obtain ⟨hj, hsize⟩ := hlast j hlt (by omega)
    exact h _ (by omega) (by omega)

end Serial
