import HydraFw.Bsp.Cycles
import HydraFw.Lib.Loops

/-!
# Delays by the cycle counter

`wait_delay` and `delay_is_expired` (`bsp.c`) clear `CYCCNT` with the interrupts disabled, and then
look at it until it is at `wait_nb_cycles - 10` or more.  The subtraction is one of `uint32_t`.

* `Bsp`, `getCyclecounter`   the counters and the interrupt mask; `gap j` cycles pass before look
                             `j`;
* `waitDelay`, `polled`      the loop of `wait_delay`, and polls of `delay_is_expired`;
* `Waits`                    a wait ends at the first look that is late enough;
* `ends_iff`                 where both waits end;
* `waits_iff`                the cycle counts and looks for which this is right;
* `spin_eq`                  the loop is the one that the 64-bit counter is read around.
-/

namespace Hydra
namespace Delay
open Cycles Loops

structure Bsp where
  cycles : Cycles.State
  /-- interrupts are enabled -/
  irq : Bool
  /-- how often the counter has been looked at -/
  looks : Nat

def Bsp.cpsid (s : Bsp) : Bsp := { s with irq := false }

def Bsp.cpsie (s : Bsp) : Bsp := { s with irq := true }

def Bsp.clearCyclecounter (s : Bsp) : Bsp := { s with cycles := s.cycles.clear, looks := 0 }

/-- `bsp_get_cyclecounter`, whose value is the `cyccnt` of the new state -/
def Bsp.getCyclecounter (gap : Nat → Nat) (s : Bsp) : Bsp :=
  { s with cycles := s.cycles.run (gap s.looks), looks := s.looks + 1 }

def delayIsExpired (gap : Nat → Nat) (start : Bool) (waitNbCycles : BitVec 32) (s : Bsp) :
    Bool × Bsp :=
  if start then (false, s.cpsid.clearCyclecounter)
  else
    let s := s.getCyclecounter gap
    if s.cycles.cyccnt ≥ waitNbCycles - 10 then (true, s.cpsie)
    else (false, s)

/-- the test of the loop of `wait_delay` -/
def waiting (waitNbCycles : BitVec 32) (s : Bsp) : Bool :=
  decide (s.cycles.cyccnt < waitNbCycles - 10)

/-- at most `fuel` passes of the loop -/
def waitLoop (gap : Nat → Nat) (waitNbCycles : BitVec 32) (s : Bsp) (fuel : Nat) : Bsp :=
  whileN (waiting waitNbCycles) (Bsp.getCyclecounter gap) fuel
    (s.cpsid.clearCyclecounter.getCyclecounter gap)

/-- `wait_delay`, and whether it has ended -/
def waitDelay (gap : Nat → Nat) (waitNbCycles : BitVec 32) (s : Bsp) (fuel : Nat) : Bool × Bsp :=
  if waiting waitNbCycles (waitLoop gap waitNbCycles s fuel) then
    (false, waitLoop gap waitNbCycles s fuel)
  else (true, (waitLoop gap waitNbCycles s fuel).cpsie)

def more (r : Bool × Bsp) : Bool := !r.1

/-- one poll -/
def poll (gap : Nat → Nat) (waitNbCycles : BitVec 32) (r : Bool × Bsp) : Bool × Bsp :=
  delayIsExpired gap false waitNbCycles r.2

/-- `delay_is_expired(TRUE, n)`, and at most `fuel` calls `delay_is_expired(FALSE, n)` until one of
them returns `TRUE` -/
def polled (gap : Nat → Nat) (waitNbCycles : BitVec 32) (s : Bsp) (fuel : Nat) : Bool × Bsp :=
  whileN more (poll gap waitNbCycles) fuel (delayIsExpired gap true waitNbCycles s)

/-! ## the law -/

/-- the cycles from the start to look `k` -/
def time (gap : Nat → Nat) : Nat → Nat
  | 0 => gap 0
  | k + 1 => time gap k + gap (k + 1)

/-- look `k` is late enough -/
def Elapsed (gap : Nat → Nat) (waitNbCycles : BitVec 32) (k : Nat) : Prop :=
  waitNbCycles.toNat - 10 ≤ time gap k

structure Waits (gap : Nat → Nat) (waitNbCycles : BitVec 32) (wait : Nat → Bool × Bsp) : Prop where
  ends : ∀ k, (∃ fuel, (wait fuel).1 = true ∧ (wait fuel).2.looks = k + 1) ↔
    IsLeast {j | Elapsed gap waitNbCycles j} k
  interrupts : ∀ fuel, (wait fuel).2.irq = (wait fuel).1

/-! ## where a wait ends -/

/-- what look `k` finds in the counter is enough -/
def Seen (gap : Nat → Nat) (waitNbCycles : BitVec 32) (k : Nat) : Prop :=
  (waitNbCycles - 10).toNat ≤ time gap k % 2 ^ 32

variable (gap : Nat → Nat) (waitNbCycles : BitVec 32) (s : Bsp)

theorem toNat_threshold :
    (waitNbCycles - 10).toNat = (2 ^ 32 - 10 + waitNbCycles.toNat) % 2 ^ 32 := by
  rw [BitVec.toNat_sub]
  rfl

theorem Seen.elapsed {k : Nat} (h : Seen gap waitNbCycles k) : Elapsed gap waitNbCycles k := by
  have hlt := waitNbCycles.isLt
  have hmod := Nat.mod_le (time gap k) (2 ^ 32)
  rw [Seen, toNat_threshold] at h
  rw [Elapsed]
  omega

/-- the state behind look `k` of a wait -/
structure Looked (k : Nat) (s : Bsp) : Prop where
  looks : s.looks = k + 1
  cyccnt : s.cycles.cyccnt.toNat = time gap k % 2 ^ 32

theorem looked_first : Looked gap 0 (s.clearCyclecounter.getCyclecounter gap) where
  looks := rfl
  cyccnt := by
    simp [Bsp.getCyclecounter, Bsp.clearCyclecounter, State.run, State.clear, time]

theorem Looked.next {k : Nat} {s : Bsp} (h : Looked gap k s) :
    Looked gap (k + 1) (s.getCyclecounter gap) where
  looks := congrArg (· + 1) h.looks
  cyccnt := by
    have hcnt := h.cyccnt
    simp only [Bsp.getCyclecounter, State.run, h.looks, time, BitVec.toNat_add, BitVec.toNat_ofNat]
    omega

theorem Looked.seen_iff {k : Nat} {s : Bsp} (h : Looked gap k s) :
    Seen gap waitNbCycles k ↔ s.cycles.cyccnt ≥ waitNbCycles - 10 := by
  rw [Seen, ← h.cyccnt, ge_iff_le, BitVec.le_def]

/-! ### `wait_delay` -/

theorem iterate_looked (k : Nat) :
    Looked gap k ((Bsp.getCyclecounter gap)^[k] (s.clearCyclecounter.getCyclecounter gap)) := by
  induction k with
  | zero => exact looked_first gap s
  | succ k ih =>
    rw [Function.iterate_succ_apply']
    exact ih.next

theorem waiting_iterate (k : Nat) :
    waiting waitNbCycles
        ((Bsp.getCyclecounter gap)^[k] (s.clearCyclecounter.getCyclecounter gap)) = false ↔
      Seen gap waitNbCycles k := by
  rw [(iterate_looked gap s k).seen_iff, waiting, decide_eq_false_iff_not, BitVec.not_lt]

theorem waitDelay_ends (k : Nat) :
    (∃ fuel, (waitDelay gap waitNbCycles s fuel).1 = true ∧
        (waitDelay gap waitNbCycles s fuel).2.looks = k + 1) ↔
      IsLeast {j | Seen gap waitNbCycles j} k := by
  have hset : {j | waiting waitNbCycles ((Bsp.getCyclecounter gap)^[j]
      (s.cpsid.clearCyclecounter.getCyclecounter gap)) = false} =
        {j | Seen gap waitNbCycles j} :=
    Set.ext (waiting_iterate gap waitNbCycles s.cpsid)
  constructor
  · rintro ⟨fuel, hend, hlooks⟩
    cases hwait : waiting waitNbCycles (waitLoop gap waitNbCycles s fuel) with
    | true =>
      rw [waitDelay, if_pos hwait] at hend
      cases hend
    | false =>
      rw [waitDelay, if_neg (ne_true_of_eq_false hwait)] at hlooks
      obtain ⟨k', -, hleast, heq⟩ := whileN_ends_iff.mp hwait
      have hk' : (waitLoop gap waitNbCycles s fuel).looks = k' + 1 :=
        (congrArg Bsp.looks heq).trans (iterate_looked gap s.cpsid k').looks
      have hk : k' = k := Nat.succ.inj (hk'.symm.trans hlooks)
      rw [← hk, ← hset]
      exact hleast
  · intro hleast
    rw [← hset] at hleast
    have hbefore : ∀ j < k, waiting waitNbCycles ((Bsp.getCyclecounter gap)^[j]
        (s.cpsid.clearCyclecounter.getCyclecounter gap)) = true := fun j hj =>
      Bool.eq_true_of_not_eq_false fun h => absurd (hleast.2 h) (by omega)
    have hended := ne_true_of_eq_false hleast.1
    refine ⟨k, ?_⟩
    rw [waitDelay, waitLoop, whileN_iterate hbefore, if_neg hended]
    exact ⟨rfl, (iterate_looked gap s.cpsid k).looks⟩

theorem waitDelay_interrupts (fuel : Nat) :
    (waitDelay gap waitNbCycles s fuel).2.irq = (waitDelay gap waitNbCycles s fuel).1 := by
  have hloop : (waitLoop gap waitNbCycles s fuel).irq = false := by
    apply whileN_inv (I := fun s : Bsp => s.irq = false)
    · intro _ _ h
      exact h
    · rfl
  rw [waitDelay]
  split
  · exact hloop
  · rfl

/-! ### polls -/

theorem not_more {r : Bool × Bsp} : more r = false ↔ r.1 = true := by
  rw [more, Bool.not_eq_eq_eq_not, Bool.not_false]

theorem Looked.poll {k : Nat} {r : Bool × Bsp} (h : Looked gap k (r.2.getCyclecounter gap)) :
    Looked gap k (poll gap waitNbCycles r).2 ∧
      ((poll gap waitNbCycles r).1 = true ↔ Seen gap waitNbCycles k) := by
  rw [h.seen_iff, Delay.poll, delayIsExpired, if_neg Bool.false_ne_true]
  by_cases hseen : (r.2.getCyclecounter gap).cycles.cyccnt ≥ waitNbCycles - 10
  · dsimp only
    rw [if_pos hseen]
    exact ⟨⟨h.looks, h.cyccnt⟩, iff_of_true rfl hseen⟩
  · dsimp only
    rw [if_neg hseen]
    exact ⟨h, iff_of_false Bool.false_ne_true hseen⟩

theorem iterate_poll (k : Nat) :
    let r := (poll gap waitNbCycles)^[k + 1] (delayIsExpired gap true waitNbCycles s)
    Looked gap k r.2 ∧ (r.1 = true ↔ Seen gap waitNbCycles k) := by
  induction k with
  | zero => exact (looked_first gap s.cpsid).poll gap waitNbCycles
  | succ k ih =>
    rw [Function.iterate_succ_apply']
    exact ih.1.next.poll gap waitNbCycles

theorem polled_ends (k : Nat) :
    (∃ fuel, (polled gap waitNbCycles s fuel).1 = true ∧
        (polled gap waitNbCycles s fuel).2.looks = k + 1) ↔
      IsLeast {j | Seen gap waitNbCycles j} k := by
  constructor
  · rintro ⟨fuel, hend, hlooks⟩
    have hstop : more (polled gap waitNbCycles s fuel) = false := congrArg (! ·) hend
    obtain ⟨m, -, hleast, heq⟩ := whileN_ends_iff.mp hstop
    cases m with
    | zero => exact absurd hleast.1 (Ne.symm Bool.false_ne_true)
    | succ k' =>
      rw [polled, heq, (iterate_poll gap waitNbCycles s k').1.looks] at hlooks
      have hk : k' = k := by omega
      rw [← hk]
      refine ⟨(iterate_poll gap waitNbCycles s k').2.mp (not_more.mp hleast.1), ?_⟩
      intro j hj
      have hle := hleast.2 (not_more.mpr ((iterate_poll gap waitNbCycles s j).2.mpr hj))
      exact Nat.le_of_succ_le_succ hle
  · intro hleast
    have hbefore : ∀ j < k + 1, more ((poll gap waitNbCycles)^[j]
        (delayIsExpired gap true waitNbCycles s)) = true := by
      intro j hj
      cases j with
      | zero => rfl
      | succ j =>
        apply Bool.eq_true_of_not_eq_false
        intro hseen
        have hle := hleast.2 ((iterate_poll gap waitNbCycles s j).2.mp (not_more.mp hseen))
        omega
    refine ⟨k + 1, ?_⟩
    rw [polled, whileN_iterate hbefore]
    have hk := iterate_poll gap waitNbCycles s k
    exact ⟨hk.2.mpr hleast.1, hk.1.looks⟩

theorem polled_interrupts (fuel : Nat) :
    (polled gap waitNbCycles s fuel).2.irq = (polled gap waitNbCycles s fuel).1 := by
  have hpass : ∀ r : Bool × Bsp, more r = true → r.2.irq = r.1 →
      (poll gap waitNbCycles r).2.irq = (poll gap waitNbCycles r).1 := by
    intro r hmore hirq
    have hr : r.1 = false := Bool.not_eq_true' _ ▸ hmore
    rw [poll, delayIsExpired, if_neg Bool.false_ne_true]
    dsimp only
    split
    · rfl
    · exact hirq.trans hr
  exact whileN_inv (I := fun r : Bool × Bsp => r.2.irq = r.1) hpass rfl fuel

/-! ## the condition -/

variable {gap waitNbCycles} in
theorem waits_iff_of {wait : Nat → Bool × Bsp}
    (hends : ∀ k, (∃ fuel, (wait fuel).1 = true ∧ (wait fuel).2.looks = k + 1) ↔
      IsLeast {j | Seen gap waitNbCycles j} k)
    (hirq : ∀ fuel, (wait fuel).2.irq = (wait fuel).1) :
    Waits gap waitNbCycles wait ↔
      ∀ k, IsLeast {j | Elapsed gap waitNbCycles j} k → Seen gap waitNbCycles k := by
  rw [← isLeast_iff_imp fun k => Seen.elapsed gap waitNbCycles]
  constructor
  · intro h k
    rw [← hends, h.ends]
  · intro h
    exact ⟨fun k => (hends k).trans (h k), hirq⟩

theorem waitDelay_waits_iff :
    Waits gap waitNbCycles (waitDelay gap waitNbCycles s) ↔
      ∀ k, IsLeast {j | Elapsed gap waitNbCycles j} k → Seen gap waitNbCycles k :=
  waits_iff_of (waitDelay_ends gap waitNbCycles s) (waitDelay_interrupts gap waitNbCycles s)

theorem polled_waits_iff :
    Waits gap waitNbCycles (polled gap waitNbCycles s) ↔
      ∀ k, IsLeast {j | Elapsed gap waitNbCycles j} k → Seen gap waitNbCycles k :=
  waits_iff_of (polled_ends gap waitNbCycles s) (polled_interrupts gap waitNbCycles s)

/-- **Delays.**  Both waits end at the first look that is late enough when the counter, which wraps
every `2 ^ 32` cycles, is then at `n - 10` or more; for `n < 10` this is `2 ^ 32 - (10 - n)`. -/
theorem waits_iff :
    Waits gap waitNbCycles (waitDelay gap waitNbCycles s) ∧
        Waits gap waitNbCycles (polled gap waitNbCycles s) ↔
      ∀ k, IsLeast {j | waitNbCycles.toNat - 10 ≤ time gap j} k →
        (waitNbCycles - 10).toNat ≤ time gap k % 2 ^ 32 := by
  rw [waitDelay_waits_iff, polled_waits_iff, and_self]
  rfl

/-- a delay of 8 cycles with a look every 20 -/
theorem delay_of_8 :
    ¬ ∀ gap waitNbCycles s, Waits gap waitNbCycles (waitDelay gap waitNbCycles s) ∧
      Waits gap waitNbCycles (polled gap waitNbCycles s) := by
  intro hall
  have hwaits := (hall (fun _ => 20) 8 ⟨State.init 0, true, 0⟩).1
  rw [waitDelay_waits_iff] at hwaits
  have hseen := hwaits 0 ⟨Nat.zero_le _, fun j _ => Nat.zero_le j⟩
  rw [Seen] at hseen
  exact absurd hseen (by decide)

/-! ## the loop behind the 64-bit counter -/

variable {s} in
/-- with the cycles before each look, the last of them past the threshold or not -/
theorem spin_eq {j : Nat} (hj : s.looks = j) (k : Nat) :
    spin waitNbCycles s.cycles ((List.range' j (k + 1)).map gap) =
      (whileN (waiting waitNbCycles) (Bsp.getCyclecounter gap) k
        (s.getCyclecounter gap)).cycles := by
  induction k generalizing s j with
  | zero =>
    rw [List.range'_succ, List.map_cons, spin, ← hj]
    split
    · rfl
    · rfl
  | succ k ih =>
    rw [List.range'_succ, List.map_cons, spin]
    have hlook : s.cycles.run (gap j) = (s.getCyclecounter gap).cycles := by rw [← hj]; rfl
    rw [hlook]
    split
    · next h =>
      have hmore : waiting waitNbCycles (s.getCyclecounter gap) = true := decide_eq_true h
      rw [whileN_pass hmore]
      apply ih
      rw [← hj]
      rfl
    · next h =>
      have hdone : waiting waitNbCycles (s.getCyclecounter gap) = false := decide_eq_false h
      rw [whileN_done hdone]

end Delay
end Hydra
