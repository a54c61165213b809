import Mathlib.Data.List.Basic
import Mathlib.Data.List.Range
import Mathlib.Data.BitVec

/-!
# Cyclic redundancy checks

The register of a CRC whose bits are sent lowest first: every bit of the message shifts it down by
one place, and the polynomial is added when the bit that falls out differs from the message's.

* `shift p s b`, `run p s l`   the register after one bit, after many;
* `lowBits x k`     the lowest bits of a word in the order in which they are sent;
* `run_diff`        two runs differ by the run of the difference;
* `run_own`         a register that is fed with its own bits;
* `run_check_iff`   the register behind a message and its check bits;
* `run_burst`       errors within as many bits as the register has are always seen.
-/

namespace Crc

variable {w : Nat}

def shift (p s : BitVec w) (b : Bool) : BitVec w :=
  if s.getLsbD 0 ^^ b then s >>> 1 ^^^ p else s >>> 1

def run (p s : BitVec w) (l : List Bool) : BitVec w := l.foldl (shift p) s

def lowBits (x : BitVec w) (k : Nat) : List Bool := (List.range k).map x.getLsbD

theorem lowBits_length (x : BitVec w) (k : Nat) : (lowBits x k).length = k := by
  rw [lowBits, List.length_map, List.length_range]

theorem lowBits_succ (x : BitVec w) (k : Nat) :
    lowBits x (k + 1) = x.getLsbD 0 :: lowBits (x >>> 1) k := by
  unfold lowBits
  rw [List.range_succ_eq_map, List.map_cons, List.map_map]
  congr 1
  apply List.map_congr_left
  intro i _
  rw [BitVec.getLsbD_ushiftRight, Nat.add_comm]
  rfl

theorem lowBits_xor (x y : BitVec w) (k : Nat) :
    lowBits (x ^^^ y) k = (lowBits x k).zipWith xor (lowBits y k) := by
  unfold lowBits
  rw [List.zipWith_map, List.zipWith_self]
  apply List.map_congr_left
  intro i _
  rw [BitVec.getLsbD_xor]

theorem lowBits_inj {x y : BitVec w} (h : lowBits x w = lowBits y w) : x = y := by
  apply BitVec.eq_of_getLsbD_eq
  intro i hi
  exact List.map_inj_left.mp h i (List.mem_range.mpr hi)

section
variable {p s t : BitVec w} {l l' x y : List Bool} {a b : Bool}

/-! ## sums -/

theorem shift_xor (p s t : BitVec w) (a b : Bool) :
    shift p (s ^^^ t) (a ^^ b) = shift p s a ^^^ shift p t b := by
  unfold shift
  rw [BitVec.getLsbD_xor, BitVec.ushiftRight_xor_distrib,
    Bool.xor_assoc, Bool.xor_left_comm (t.getLsbD 0) a b, ← Bool.xor_assoc (s.getLsbD 0)]
  cases s.getLsbD 0 ^^ a with
  | false =>
    cases t.getLsbD 0 ^^ b with
    | false => rfl
    | true => exact BitVec.xor_assoc ..
  | true =>
    cases t.getLsbD 0 ^^ b with
    | false =>
      show s >>> 1 ^^^ t >>> 1 ^^^ p = s >>> 1 ^^^ p ^^^ t >>> 1
      ac_rfl
    | true =>
      show s >>> 1 ^^^ t >>> 1 = s >>> 1 ^^^ p ^^^ (t >>> 1 ^^^ p)
      rw [show s >>> 1 ^^^ p ^^^ (t >>> 1 ^^^ p) = s >>> 1 ^^^ t >>> 1 ^^^ (p ^^^ p) by ac_rfl,
        BitVec.xor_self, BitVec.xor_zero]

theorem run_append (p s : BitVec w) (l l' : List Bool) :
    run p s (l ++ l') = run p (run p s l) l' := List.foldl_append

theorem run_xor (p : BitVec w) (h : l.length = l'.length) (s t : BitVec w) :
    run p (s ^^^ t) (l.zipWith xor l') = run p s l ^^^ run p t l' := by
  induction l generalizing l' s t with
  | nil =>
    cases l' with
    | nil => rfl
    | cons _ _ => cases h
  | cons a l ih =>
    cases l' with
    | nil => cases h
    | cons b l' =>
      show run p (shift p (s ^^^ t) (a ^^ b)) _ = _
      rw [shift_xor, ih (Nat.succ.inj h)]
      rfl

/-- two messages -/
theorem run_diff (p s : BitVec w) (h : l.length = l'.length) :
    run p s l ^^^ run p s l' = run p 0#w (l.zipWith xor l') := by
  rw [← run_xor p h, BitVec.xor_self]

/-! ## its own bits -/

theorem shift_own (p s : BitVec w) : shift p s (s.getLsbD 0) = s >>> 1 := by
  unfold shift
  rw [Bool.xor_self, if_neg Bool.false_ne_true]

theorem run_own (p s : BitVec w) (k : Nat) : run p s (lowBits s k) = s >>> k := by
  induction k generalizing s with
  | zero => exact (BitVec.ushiftRight_zero s).symm
  | succ k ih =>
    rw [lowBits_succ]
    show run p (shift p s _) _ = _
    rw [shift_own, ih, ← BitVec.shiftRight_add, Nat.add_comm]

theorem ushiftRight_self (s : BitVec w) : s >>> w = 0#w := by
  apply BitVec.eq_of_getLsbD_eq
  intro i _
  rw [BitVec.getLsbD_ushiftRight, BitVec.getLsbD_of_ge s _ (Nat.le_add_right w i)]
  exact (BitVec.getLsbD_zero).symm

/-- the check bits, to which a constant has been added -/
theorem run_check (p s c : BitVec w) : run p s (lowBits (s ^^^ c) w) = run p 0#w (lowBits c w) := by
  have hlen : (lowBits s w).length = (lowBits c w).length := by
    rw [lowBits_length, lowBits_length]
  have h := run_xor p hlen s 0#w
  rw [BitVec.xor_zero, ← lowBits_xor, run_own, ushiftRight_self, BitVec.zero_xor] at h
  exact h

/-! ## errors -/

/-- with the highest bit in the polynomial no register is lost -/
theorem shift_eq_zero (hp : p.getLsbD (w - 1) = true) (h : shift p s false = 0#w) : s = 0#w := by
  have hw : 0 < w := by
    by_contra h0
    rw [BitVec.getLsbD_of_ge p _ (by omega)] at hp
    cases hp
  unfold shift at h
  rw [Bool.xor_false] at h
  have htop : (s >>> 1).getLsbD (w - 1) = false := by
    rw [BitVec.getLsbD_ushiftRight, BitVec.getLsbD_of_ge s _ (by omega)]
  split_ifs at h with h0
  · have hbit : (s >>> 1 ^^^ p).getLsbD (w - 1) = (0#w).getLsbD (w - 1) := by rw [h]
    rw [BitVec.getLsbD_xor, htop, hp, BitVec.getLsbD_zero] at hbit
    cases hbit
  · apply BitVec.eq_of_getLsbD_eq
    intro i _
    rw [BitVec.getLsbD_zero]
    cases i with
    | zero => exact eq_false_of_ne_true h0
    | succ i =>
      have hbit : (s >>> 1).getLsbD i = (0#w).getLsbD i := by rw [h]
      rwa [BitVec.getLsbD_ushiftRight, Nat.add_comm, BitVec.getLsbD_zero] at hbit

theorem shift_injective (hp : p.getLsbD (w - 1) = true) (h : shift p s b = shift p t b) :
    s = t := by
  apply BitVec.xor_eq_zero_iff.mp
  apply shift_eq_zero hp
  rw [← Bool.xor_self b, shift_xor, h]
  exact BitVec.xor_self

theorem run_injective (hp : p.getLsbD (w - 1) = true) (h : run p s l = run p t l) : s = t := by
  induction l generalizing s t with
  | nil => exact h
  | cons b l ih => exact shift_injective hp (ih h)

theorem run_zeros (p : BitVec w) (k : Nat) : run p 0#w (List.replicate k false) = 0#w := by
  induction k with
  | zero => rfl
  | succ k ih =>
    rw [List.replicate_succ]
    show run p (shift p 0#w false) _ = _
    rw [show shift p 0#w false = 0#w by
      have h := shift_own p 0#w
      rwa [BitVec.getLsbD_zero, BitVec.zero_ushiftRight] at h]
    exact ih

/-- the word that has the bits of a short message -/
def word (w : Nat) (l : List Bool) : BitVec w := (BitVec.ofBoolListLE l).setWidth w

theorem lowBits_word (h : l.length ≤ w) : lowBits (word w l) l.length = l := by
  apply List.ext_getElem?
  intro i
  unfold lowBits word
  rw [List.getElem?_map]
  by_cases hi : i < l.length
  · rw [List.getElem?_range hi, Option.map_some, BitVec.getLsbD_setWidth,
      BitVec.getLsbD_ofBoolListLE, decide_eq_true (by omega), Bool.true_and,
      List.getElem?_eq_getElem hi, List.getD_eq_getElem?_getD, List.getElem?_eq_getElem hi,
      Option.getD_some]
  · rw [List.getElem?_eq_none (by rw [List.length_range]; omega),
      List.getElem?_eq_none (Nat.not_lt.mp hi), Option.map_none]

theorem word_shift (l : List Bool) : word w l >>> l.length = 0#w := by
  apply BitVec.eq_of_getLsbD_eq
  intro i _
  unfold word
  rw [BitVec.getLsbD_ushiftRight, BitVec.getLsbD_setWidth, BitVec.getLsbD_ofBoolListLE,
    List.getD_eq_getElem?_getD, List.getElem?_eq_none (Nat.le_add_right ..), Option.getD_none,
    Bool.and_false]
  exact (BitVec.getLsbD_zero).symm

/-- a short difference that is not seen is none -/
theorem run_short (hp : p.getLsbD (w - 1) = true) (hl : l.length ≤ w) (h : run p 0#w l = 0#w) :
    l = List.replicate l.length false := by
  have hzip : l.zipWith xor l = List.replicate l.length false := by
    rw [List.zipWith_self, List.eq_replicate_iff]
    refine ⟨List.length_map .., fun b hb => ?_⟩
    obtain ⟨a, -, rfl⟩ := List.mem_map.mp hb
    exact Bool.xor_self a
  have hsum : run p (word w l) (List.replicate l.length false) = 0#w := by
    have hx := run_xor p (rfl : l.length = l.length) (word w l) 0#w
    have hown := run_own p (word w l) l.length
    rw [lowBits_word hl, word_shift] at hown
    rw [hzip, BitVec.xor_zero, hown, h] at hx
    rw [hx]
    exact BitVec.xor_self
  have hword : word w l = 0#w := run_injective hp (hsum.trans (run_zeros p _).symm)
  rw [← lowBits_word hl, hword, lowBits_length]
  apply List.eq_replicate_iff.mpr
  refine ⟨lowBits_length .., fun b hb => ?_⟩
  obtain ⟨i, -, rfl⟩ := List.mem_map.mp hb
  exact BitVec.getLsbD_zero

theorem eq_of_zipWith_xor (h : l.length = l'.length)
    (hz : l.zipWith xor l' = List.replicate (l.zipWith xor l').length false) : l = l' := by
  induction l generalizing l' with
  | nil => exact (List.eq_nil_of_length_eq_zero h.symm).symm
  | cons a l ih =>
    cases l' with
    | nil => cases h
    | cons b l' =>
      rw [List.zipWith_cons_cons, List.length_cons, List.replicate_succ, List.cons.injEq] at hz
      rw [ih (Nat.succ.inj h) hz.2, bne_eq_false_iff_eq.mp hz.1]

/-- **Bursts.**  Two messages that differ only within as many bits as the register has leave
different registers. -/
theorem run_burst (hp : p.getLsbD (w - 1) = true) (hlen : x.length = y.length)
    (hw : x.length ≤ w) (h : run p s (l ++ x ++ l') = run p s (l ++ y ++ l')) : x = y := by
  rw [run_append, run_append p s (l ++ y)] at h
  have hmid := run_injective hp h
  rw [run_append, run_append, ← BitVec.xor_eq_zero_iff, run_diff p _ hlen] at hmid
  apply eq_of_zipWith_xor hlen
  apply run_short hp _ hmid
  rw [List.length_zipWith]
  omega

/-- what the register behind a message and check bits says about these -/
theorem run_check_iff (hp : p.getLsbD (w - 1) = true) (s c d : BitVec w) (l : List Bool) :
    run p s (l ++ lowBits d w) = run p 0#w (lowBits c w) ↔ d = run p s l ^^^ c := by
  rw [← run_check p (run p s l) c, ← run_append]
  constructor
  · intro h
    rw [← List.append_nil (l ++ _), ← List.append_nil (l ++ lowBits (_ ^^^ _) w)] at h
    apply lowBits_inj
    apply run_burst hp _ _ h
    · rw [lowBits_length, lowBits_length]
    · rw [lowBits_length]
  · intro h
    rw [h]

end

end Crc
