import HydraFw.Lib.Runs
import Mathlib.Data.List.ReduceOption
import Mathlib.Data.List.TakeWhile

/-!
# The console's loop

`console` (`main.c`) gives the bytes it gets from `get_char` (`exec.c`) to the line editor, but for
the two sequences that enter a binary mode: twenty zeros for `cmd_bbio`, five zeros and a 2 for
`sump`.  One counter serves both, and it also counts the reads that fail.  The bytes that a binary
mode or a command reads are not the loop's.

* `getChar`                   what the loop gets of a read;
* `Console`, `Console.step`   the counter `i` and the reads of the loop;
* `Act`, `Console.act`        what it does after a read;
* `wanted`                    what the two sequences ask for, from the bytes received;
* `demux_iff`                 the loop does what they ask for exactly when no 2 and no failed read
                              stands between zeros that it counts;
* `tlInput_run`               the line editor gets every other byte, in every run.
-/

namespace Hydra
namespace Entry
open Runs

abbrev Byte := BitVec 8

/-- `get_char`: a read that fails, as when the port is suspended or reset, gives a zero -/
def getChar (answer : Option Byte) : Byte := answer.getD 0

@[simp] theorem getChar_none : getChar none = 0 := rfl
@[simp] theorem getChar_some (b : Byte) : getChar (some b) = b := rfl

inductive Act where
  | none
  | cmdBbio
  | sump
  | tlInput (input : Byte)
  deriving DecidableEq

structure Console where
  i : Nat
  /-- the reads since the start or since `cmd_bbio` returned, the last one first -/
  reads : List (Option Byte)

def Console.init : Console := ⟨0, []⟩

def Console.act (c : Console) (answer : Option Byte) : Act :=
  let input := getChar answer
  if input = 0 then if c.i + 1 = 20 then .cmdBbio else .none
  else if input = 2 then if c.i = 5 then .sump else .none
  else .tlInput input

def Console.step (c : Console) (answer : Option Byte) : Console :=
  let input := getChar answer
  if input = 0 then if c.i + 1 = 20 then .init else ⟨c.i + 1, answer :: c.reads⟩
  else if input = 2 then ⟨c.i, answer :: c.reads⟩
  else ⟨0, answer :: c.reads⟩

/-! ## the sequences -/

/-- the bytes that the host has sent -/
def Console.received (c : Console) : List Byte := c.reads.reduceOption

/-- the zeros that the bytes end with -/
def zeros (received : List Byte) : Nat := (received.takeWhile fun b => b = 0).length

/-- the zeros and the failed reads since the last byte that is neither 0 nor 2 -/
def counted (reads : List (Option Byte)) : Nat :=
  (reads.takeWhile fun r => getChar r = 0 ∨ getChar r = 2).countP fun r => getChar r = 0

/-- twenty zeros, or five zeros and no more before a 2; a read that fails asks for nothing -/
def wanted (received : List Byte) : Option Byte → Act
  | none => .none
  | some input =>
    if input = 0 then if zeros received = 19 then .cmdBbio else .none
    else if input = 2 then if zeros received = 5 then .sump else .none
    else .tlInput input

def Demuxes (c : Console) (answer : Option Byte) : Prop :=
  c.act answer = wanted c.received answer

instance (c : Console) (answer : Option Byte) : Decidable (Demuxes c answer) :=
  inferInstanceAs (Decidable (_ = _))

/-- what the loop counts is a sequence only where it is made of consecutive zeros -/
def Unbroken (c : Console) : Option Byte → Prop
  | none => counted c.reads ≠ 19
  | some input =>
    (input = 0 → counted c.reads = 19 → zeros c.received = 19) ∧
      (input = 2 → (counted c.reads = 5 ↔ zeros c.received = 5))

section
variable (reads : List (Option Byte)) {r : Option Byte}

theorem counted_zero (h : getChar r = 0) : counted (r :: reads) = counted reads + 1 := by
  simp [counted, h]

theorem counted_two (h : getChar r = 2) : counted (r :: reads) = counted reads := by
  simp [counted, h]

theorem counted_other (h0 : getChar r ≠ 0) (h2 : getChar r ≠ 2) : counted (r :: reads) = 0 := by
  rw [counted, List.takeWhile_cons_of_neg (by simp only [h0, h2]; decide), List.countP_nil]

/-- a failed read is counted and is no byte -/
theorem zeros_le : zeros reads.reduceOption ≤ counted reads := by
  induction reads with
  | nil => exact le_rfl
  | cons r reads ih =>
    cases r with
    | none =>
      rw [List.reduceOption_cons_of_none, counted_zero reads rfl]
      exact Nat.le_succ_of_le ih
    | some b =>
      rw [List.reduceOption_cons_of_some]
      by_cases h0 : b = 0
      · subst h0
        rw [counted_zero reads rfl, zeros, List.takeWhile_cons_of_pos (by simp), List.length_cons]
        exact Nat.succ_le_succ ih
      · rw [zeros, List.takeWhile_cons_of_neg (by simpa using h0)]
        exact Nat.zero_le _

end

/-! ## the counter -/

/-- the counter has the zeros that no other byte has followed, whatever 2 has -/
structure Inv (c : Console) : Prop where
  counts : c.i = counted c.reads
  small : c.i < 20

theorem inv_init : Inv .init := ⟨rfl, by decide⟩

theorem Inv.step {c : Console} (h : Inv c) (answer : Option Byte) : Inv (c.step answer) := by
  by_cases h0 : getChar answer = 0
  · rw [Console.step, if_pos h0]
    by_cases hlast : c.i + 1 = 20
    · rw [if_pos hlast]
      exact inv_init
    · rw [if_neg hlast]
      have hsmall := h.small
      exact ⟨by rw [counted_zero c.reads h0, h.counts], by show c.i + 1 < 20; omega⟩
  · rw [Console.step, if_neg h0]
    by_cases h2 : getChar answer = 2
    · rw [if_pos h2]
      exact ⟨by rw [counted_two c.reads h2, h.counts], h.small⟩
    · rw [if_neg h2]
      exact ⟨(counted_other c.reads h0 h2).symm, Nat.succ_pos 19⟩

theorem ite_act_iff {p q : Prop} [Decidable p] [Decidable q] {a : Act} (ha : a ≠ .none) :
    (if p then a else .none) = (if q then a else .none) ↔ (p ↔ q) := by
  by_cases hp : p <;> by_cases hq : q <;> simp [hp, hq, ha, ha.symm]

/-- one read -/
theorem Inv.demuxes_iff {c : Console} (h : Inv c) (answer : Option Byte) :
    Demuxes c answer ↔ Unbroken c answer := by
  have hle : zeros c.received ≤ counted c.reads := zeros_le c.reads
  have hcounts := h.counts
  have hsmall := h.small
  cases answer with
  | none =>
    have hact : c.act none = if c.i + 1 = 20 then .cmdBbio else .none := rfl
    rw [Demuxes, hact, wanted, Unbroken]
    by_cases hlast : c.i + 1 = 20
    · rw [if_pos hlast]
      exact iff_of_false (by decide) (by omega)
    · rw [if_neg hlast]
      exact iff_of_true rfl (by omega)
  | some input =>
    have hact : c.act (some input) =
        if input = 0 then if c.i + 1 = 20 then .cmdBbio else .none
        else if input = 2 then if c.i = 5 then .sump else .none
        else .tlInput input := rfl
    rw [Demuxes, hact, wanted, Unbroken]
    by_cases h0 : input = 0
    · subst h0
      rw [if_pos rfl, if_pos rfl, ite_act_iff (by decide)]
      constructor
      · intro heq
        refine ⟨fun _ h19 => heq.mp (by omega), fun h02 => absurd h02 (by decide)⟩
      · rintro ⟨hzero, -⟩
        exact ⟨fun h20 => hzero rfl (by omega), fun h19 => by omega⟩
    · by_cases h2 : input = 2
      · subst h2
        rw [if_neg h0, if_neg h0, if_pos rfl, if_pos rfl, ite_act_iff (by decide), hcounts]
        exact ⟨fun heq => ⟨fun h20 => absurd h20 h0, fun _ => heq⟩, fun heq => heq.2 rfl⟩
      · rw [if_neg h0, if_neg h0, if_neg h2, if_neg h2]
        exact ⟨fun _ => ⟨fun h0' => absurd h0' h0, fun h2' => absurd h2' h2⟩, fun _ => rfl⟩

/-- **The console's loop.**  It enters the binary modes as the two sequences ask for, exactly
when the zeros it counts are consecutive bytes wherever their number matters. -/
theorem demux_iff (answers : List (Option Byte)) :
    StepsOk Demuxes Console.step .init answers ↔ StepsOk Unbroken Console.step .init answers := by
  constructor
  · exact StepsOk.mono (I := Inv) (fun _ r h _ => h.step r) (fun _ r h => (h.demuxes_iff r).mp)
      inv_init
  · exact StepsOk.mono (I := Inv) (fun _ r h _ => h.step r) (fun _ r h => (h.demuxes_iff r).mpr)
      inv_init

/-- a port that fails twenty times enters `cmd_bbio` -/
example : ¬ StepsOk Demuxes Console.step .init (List.replicate 20 none) := by decide

/-- two zeros, a 2, three zeros and a 2 enter `sump` -/
theorem broken_zeros_enter_sump :
    ¬ ∀ answers, StepsOk Demuxes Console.step .init answers := by
  intro hall
  have hlast := (hall ([0, 0, 2, 0, 0, 0, 2].map some)).2.2.2.2.2.2.1
  rw [Demuxes] at hlast
  exact absurd hlast (by decide)

/-! ## the line editor -/

/-- what the line editor gets -/
def Act.typed : Act → List Byte
  | .tlInput input => [input]
  | _ => []

theorem typed_act (c : Console) (answer : Option Byte) :
    (c.act answer).typed =
      if getChar answer = 0 ∨ getChar answer = 2 then [] else [getChar answer] := by
  have hsilent : ∀ (p : Prop) [Decidable p] (a : Act), a.typed = [] →
      (if p then a else .none).typed = [] := by
    intro p _ a ha
    by_cases hp : p
    · rwa [if_pos hp]
    · rw [if_neg hp]
      rfl
  by_cases h0 : getChar answer = 0
  · have hact : c.act answer = if c.i + 1 = 20 then .cmdBbio else .none := if_pos h0
    rw [hact, hsilent _ _ rfl, if_pos (Or.inl h0)]
  · by_cases h2 : getChar answer = 2
    · have hact : c.act answer = if c.i = 5 then .sump else .none := by
        rw [Console.act, if_neg h0, if_pos h2]
      rw [hact, hsilent _ _ rfl, if_pos (Or.inr h2)]
    · rw [Console.act, if_neg h0, if_neg h2, if_neg (not_or.mpr ⟨h0, h2⟩)]
      rfl

/-- the line editor gets the bytes other than 0 and 2, each once and in order -/
theorem tlInput_run (c : Console) (answers : List (Option Byte)) :
    outs (fun c r => (c.act r).typed) Console.step c answers =
      answers.reduceOption.filter fun b => ¬ (b = 0 ∨ b = 2) := by
  induction answers generalizing c with
  | nil => rfl
  | cons r answers ih =>
    rw [outs_cons, ih, typed_act]
    cases r with
    | none =>
      rw [getChar_none, if_pos (Or.inl rfl), List.nil_append, List.reduceOption_cons_of_none]
    | some b =>
      rw [getChar_some, List.reduceOption_cons_of_some]
      by_cases hb : b = 0 ∨ b = 2
      · rw [if_pos hb, List.nil_append, List.filter_cons_of_neg (by simp only [hb]; decide)]
      · rw [if_neg hb, List.singleton_append, List.filter_cons_of_pos (by simp only [hb]; decide)]

end Entry
end Hydra
