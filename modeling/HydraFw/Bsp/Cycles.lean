import HydraFw.Lib.Runs

/-!
# The cycle counter

`bsp_get_cyclecounter64`, `bsp_get_cyclecounter64I`, `delay_is_expired` and `wait_delay` (`bsp.c`)
share the 32-bit counter `CYCCNT` of the CPU: the first two extend it to 64 bits, the others
clear it.

* `State`, `Call`, `step`   the counters, and what the program does with them;
* `Exact`                   a result is the one before it plus the cycles between the two;
* `InStep`                  no clearing has moved the hardware counter against the last result;
* `exact_iff`               runs of exact results are those whose calls are in step;
* `elapsed_run`             in such a run any two results differ by the cycles between them.
-/

namespace Hydra
namespace Cycles
open Runs

structure State where
  /-- the cycles that the CPU has run for -/
  now : Nat
  /-- `DWTBase->CYCCNT` -/
  cyccnt : BitVec 32
  cyclecounter64 : BitVec 64
  /-- when a 64-bit result was last returned -/
  returned : Option Nat
  /-- when the hardware counter was last cleared after that -/
  cleared : Option Nat

def State.run (s : State) (cycles : Nat) : State :=
  { s with now := s.now + cycles, cyccnt := s.cyccnt + BitVec.ofNat 32 cycles }

/-- `bsp_clear_cyclecounter` -/
def State.clear (s : State) : State := { s with cyccnt := 0, cleared := some s.now }

/-- `r + (CYCCNT - (uint32_t)r)` -/
def State.counted (s : State) : BitVec 64 :=
  s.cyclecounter64 + (s.cyccnt - s.cyclecounter64.setWidth 32).setWidth 64

def State.getCyclecounter64 (s : State) : State :=
  { s with cyclecounter64 := s.counted, returned := some s.now, cleared := none }

/-- the loop of `wait_delay`, with the cycles that pass before each of its tests -/
def spin (waitNbCycles : BitVec 32) : State → List Nat → State
  | s, [] => s
  | s, cycles :: looks =>
    if (s.run cycles).cyccnt < waitNbCycles - 10 then spin waitNbCycles (s.run cycles) looks
    else s.run cycles

inductive Call where
  /-- the CPU does something else -/
  | other (cycles : Nat)
  | getCyclecounter64
  | getCyclecounter64I
  /-- `delay_is_expired`, which only looks at the counter without `start` -/
  | delayIsExpired (start : Bool) (waitNbCycles : BitVec 32)
  | waitDelay (waitNbCycles : BitVec 32) (looks : List Nat)

def step (s : State) : Call → State
  | .other cycles => s.run cycles
  | .getCyclecounter64 | .getCyclecounter64I => s.getCyclecounter64
  | .delayIsExpired start _ => if start then s.clear else s
  | .waitDelay waitNbCycles looks => spin waitNbCycles s.clear looks

/-- the counter is enabled at some value -/
def State.init (cyccnt : BitVec 32) : State := ⟨0, cyccnt, 0, none, none⟩

def Call.returns : Call → Bool
  | .getCyclecounter64 | .getCyclecounter64I => true
  | _ => false

/-! ## the law and its condition -/

/-- a result is the last one plus the cycles since -/
def Exact (s : State) (c : Call) : Prop :=
  c.returns → ∀ last, s.returned = some last →
    (step s c).cyclecounter64.toNat = s.cyclecounter64.toNat + (s.now - last)

/-- a result is asked for in time -/
def InTime (s : State) (c : Call) : Prop :=
  c.returns → ∀ last, s.returned = some last → s.now - last ≤ 2 ^ 32

/-- a clearing that the last result would have made no difference to: there a counter that had
gone on from it would have been zero by itself -/
def InStep (s : State) (c : Call) : Prop :=
  c.returns → ∀ last, s.returned = some last →
    s.now - last < 2 ^ 32 ∧ s.cyclecounter64.toNat + (s.now - last) < 2 ^ 64 ∧
      ∀ clearing, s.cleared = some clearing → (s.cyclecounter64.toNat + (clearing - last)) % 2 ^ 32 = 0

/-! ## where the hardware counter stands -/

/-- the hardware counter has gone on from the last result, or from its last clearing -/
structure Inv (s : State) : Prop where
  past : ∀ last, s.returned = some last → last ≤ s.now
  goesOn : ∀ last, s.returned = some last → s.cleared = none →
    s.cyccnt.toNat = (s.cyclecounter64.toNat + (s.now - last)) % 2 ^ 32
  restarted : ∀ clearing, s.cleared = some clearing →
    clearing ≤ s.now ∧ s.cyccnt.toNat = (s.now - clearing) % 2 ^ 32 ∧
      ∀ last, s.returned = some last → last ≤ clearing

theorem inv_init (cyccnt : BitVec 32) : Inv (State.init cyccnt) where
  past _ h := by cases h
  goesOn _ h := by cases h
  restarted _ h := by cases h

theorem toNat_counted (s : State) :
    s.counted.toNat = (s.cyclecounter64.toNat
      + (2 ^ 32 - s.cyclecounter64.toNat % 2 ^ 32 + s.cyccnt.toNat) % 2 ^ 32) % 2 ^ 64 := by
  have hlt := s.cyccnt.isLt
  simp only [State.counted, BitVec.toNat_add, BitVec.toNat_setWidth, BitVec.toNat_sub]
  omega

theorem Inv.run {s : State} (h : Inv s) (cycles : Nat) : Inv (s.run cycles) where
  past last hlast := Nat.le_trans (h.past last hlast) (Nat.le_add_right _ _)
  goesOn last hlast hnone := by
    have hpast := h.past last hlast
    have hgo := h.goesOn last hlast hnone
    simp only [State.run, BitVec.toNat_add, BitVec.toNat_ofNat]
    omega
  restarted clearing hclearing := by
    obtain ⟨hle, hcnt, hlast⟩ := h.restarted clearing hclearing
    refine ⟨Nat.le_trans hle (Nat.le_add_right _ _), ?_, hlast⟩
    simp only [State.run, BitVec.toNat_add, BitVec.toNat_ofNat]
    omega

theorem Inv.clear {s : State} (h : Inv s) : Inv s.clear where
  past := h.past
  goesOn _ _ hnone := by cases hnone
  restarted _ hclearing := by
    cases hclearing
    exact ⟨le_rfl, by simp [State.clear], h.past⟩

theorem Inv.getCyclecounter64 (s : State) : Inv s.getCyclecounter64 where
  past last hlast := by
    cases hlast
    exact le_rfl
  goesOn last hlast _ := by
    cases hlast
    have hcnt := s.cyccnt.isLt
    have h64 := toNat_counted s
    simp only [State.getCyclecounter64, h64]
    omega
  restarted _ hclearing := by cases hclearing

theorem Inv.spin {waitNbCycles : BitVec 32} {s : State} (h : Inv s) (looks : List Nat) :
    Inv (spin waitNbCycles s looks) := by
  induction looks generalizing s with
  | nil => exact h
  | cons cycles looks ih =>
    rw [Cycles.spin]
    split
    · exact ih (h.run cycles)
    · exact h.run cycles

theorem Inv.step {s : State} (h : Inv s) (c : Call) : Inv (step s c) := by
  cases c with
  | other cycles => exact h.run cycles
  | getCyclecounter64 => exact .getCyclecounter64 s
  | getCyclecounter64I => exact .getCyclecounter64 s
  | delayIsExpired start waitNbCycles =>
    cases start with
    | false => exact h
    | true => exact h.clear
  | waitDelay waitNbCycles looks => exact h.clear.spin looks

/-! ## exact results -/

theorem step_returns {c : Call} (hc : c.returns = true) (s : State) :
    step s c = s.getCyclecounter64 := by
  cases c <;> first | rfl | cases hc

/-- a single result -/
theorem Inv.inStep_iff {s : State} (h : Inv s) (c : Call) : Exact s c ↔ InStep s c := by
  refine imp_congr_right fun hc => forall_congr' fun last => imp_congr_right fun hlast => ?_
  rw [step_returns hc]
  show s.counted.toNat = _ ↔ _
  rw [toNat_counted]
  have h64 := s.cyclecounter64.isLt
  have hpast := h.past last hlast
  cases hcl : s.cleared with
  | none =>
    have hgo := h.goesOn last hlast hcl
    constructor
    · intro heq
      exact ⟨by omega, by omega, fun _ hclearing => by cases hclearing⟩
    · rintro ⟨h32, hfit, -⟩
      omega
  | some clearing =>
    obtain ⟨hle, hcnt, hafter⟩ := h.restarted clearing hcl
    have hafter := hafter last hlast
    constructor
    · intro heq
      refine ⟨by omega, by omega, ?_⟩
      intro clearing hclearing
      cases hclearing
      omega
    · rintro ⟨h32, hfit, hzero⟩
      have hzero := hzero clearing rfl
      omega

/-- **The 64-bit counter.**  The results of a run are exact when every call is in step: fewer than
`2 ^ 32` cycles after the one before it, and no clearing in between, unless at a wrap. -/
theorem exact_iff (cyccnt : BitVec 32) (calls : List Call) :
    StepsOk Exact step (State.init cyccnt) calls ↔
      StepsOk InStep step (State.init cyccnt) calls := by
  constructor
  · exact StepsOk.mono (I := Inv) (fun _ c h _ => h.step c) (fun _ c h => (h.inStep_iff c).mp)
      (inv_init cyccnt)
  · exact StepsOk.mono (I := Inv) (fun _ c h _ => h.step c) (fun _ c h => (h.inStep_iff c).mpr)
      (inv_init cyccnt)

theorem spin_returned (waitNbCycles : BitVec 32) (s : State) (looks : List Nat) :
    (spin waitNbCycles s looks).returned = s.returned ∧
      (spin waitNbCycles s looks).cyclecounter64 = s.cyclecounter64 := by
  induction looks generalizing s with
  | nil => exact ⟨rfl, rfl⟩
  | cons cycles looks ih =>
    rw [spin]
    split
    · exact ih (s.run cycles)
    · exact ⟨rfl, rfl⟩

theorem step_returned {c : Call} (hc : c.returns = false) (s : State) :
    (step s c).returned = s.returned ∧ (step s c).cyclecounter64 = s.cyclecounter64 := by
  cases c with
  | other cycles => exact ⟨rfl, rfl⟩
  | getCyclecounter64 => cases hc
  | getCyclecounter64I => cases hc
  | delayIsExpired start waitNbCycles => cases start <;> exact ⟨rfl, rfl⟩
  | waitDelay waitNbCycles looks => exact spin_returned waitNbCycles s.clear looks

/-- the results of an exact run differ by the cycles between them -/
theorem elapsed_run {s : State} {last : Nat} (h : Inv s) (hlast : s.returned = some last)
    {calls : List Call} (hexact : StepsOk Exact step s calls) :
    ∃ last' ≥ last, (run step s calls).returned = some last' ∧
      (run step s calls).cyclecounter64.toNat = s.cyclecounter64.toNat + (last' - last) := by
  induction calls generalizing s last with
  | nil => exact ⟨last, le_rfl, hlast, by simp⟩
  | cons c calls ih =>
    cases hc : c.returns with
    | false =>
      obtain ⟨hret, hcnt⟩ := step_returned hc s
      obtain ⟨last', hle, hret', heq⟩ := ih (h.step c) (hret.trans hlast) hexact.2
      exact ⟨last', hle, hret', by rw [run_cons, heq, hcnt]⟩
    | true =>
      have hpast := h.past last hlast
      have hnow : (step s c).returned = some s.now := by rw [step_returns hc]; rfl
      obtain ⟨last', hle, hret', heq⟩ := ih (h.step c) hnow hexact.2
      refine ⟨last', Nat.le_trans hpast hle, hret', ?_⟩
      rw [run_cons, heq, hexact.1 hc last hlast]
      omega

/-- one delay between two results -/
theorem delay_between_results :
    ¬ ∀ cyccnt calls, StepsOk InTime step (State.init cyccnt) calls →
      StepsOk Exact step (State.init cyccnt) calls := by
  intro hall
  have hin : StepsOk InTime step (State.init 0)
      [.other 100, .getCyclecounter64, .delayIsExpired true 20, .other 30,
        .getCyclecounter64] := by
    refine ⟨by simp [InTime, Call.returns], ?_, by simp [InTime, Call.returns],
      by simp [InTime, Call.returns], ?_, trivial⟩
    · rintro - last hlast
      cases hlast
    · rintro - last hlast
      cases hlast
      decide
  have hsecond := (hall 0 _ hin).2.2.2.2.1 rfl 100 rfl
  exact absurd hsecond (by decide)

end Cycles
end Hydra
