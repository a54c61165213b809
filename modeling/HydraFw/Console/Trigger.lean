import HydraFw.Lib.Matching

/-!
# The pattern trigger

`trigger_run` (`hydrabus_trigger.c`) takes bytes from the `dump` operation of the mode, one in each
pass of its loop, and turns the trigger pin on when it has counted `trigger_length` of them that
agree with `trigger_data`.

* `Filter`           `trigger_data` and `trigger_length`;
* `triggerRun`       the loop;
* `TurnsOnRight`     it turns the trigger on behind the first occurrence of the pattern;
* `turnsOnRight_iff`       exactly when failed comparisons lead up to the first occurrence;
* `turnsOnRight_all_iff`   the patterns with which it does so in every stream.
-/

namespace Hydra
namespace Trigger
open Matching

abbrev Byte := BitVec 8

/-- `trigger_length` is a byte -/
structure Filter where
  data : Nat → Byte
  length : Nat
  fits : length < 256

def Filter.pattern (f : Filter) : List Byte := (List.range f.length).map f.data

/-- `trigger_run` with its count at `i`, over the bytes that `dump` delivers until the user button
is pressed: how many it has taken when it turns the trigger on -/
def triggerRun (f : Filter) : Nat → List Byte → Option Nat
  | _, [] => none
  | i, rxData :: bytes =>
    let i := if rxData = f.data i then i + 1 else 0
    if i = f.length then some 1 else (triggerRun f i bytes).map (· + 1)

/-- the trigger is turned on after the byte that completes the first occurrence, and only then -/
def TurnsOnRight (f : Filter) (stream : List Byte) : Prop :=
  ∀ k, triggerRun f 0 stream = some k ↔ FirstEnd f.pattern stream k

section
variable (f : Filter)

@[simp] theorem Filter.length_pattern : f.pattern.length = f.length := by
  simp [Filter.pattern]

variable {f}

theorem Filter.getElem?_pattern {i : Nat} (hi : i < f.length) (b : Byte) :
    f.pattern[i]? = some b ↔ b = f.data i := by
  rw [Filter.pattern, List.getElem?_map, List.getElem?_range hi, Option.map_some,
    Option.some.injEq, eq_comm]

/-- the loop's count -/
theorem next_pattern {i : Nat} (hi : i < f.length) (b : Byte) :
    next f.pattern i b = if b = f.data i then i + 1 else 0 := by
  rw [next]
  by_cases hb : b = f.data i
  · rw [if_pos hb, if_pos ((Filter.getElem?_pattern hi b).mpr hb)]
  · rw [if_neg hb, if_neg (mt (Filter.getElem?_pattern hi b).mp hb)]

/-- `trigger_run` is the search without fallback -/
theorem triggerRun_eq_scan {i : Nat} (hi : i < f.length) (stream : List Byte) :
    triggerRun f i stream = scan f.pattern i stream := by
  induction stream generalizing i with
  | nil => rfl
  | cons b stream ih =>
    rw [triggerRun, scan, next_pattern hi, Filter.length_pattern]
    by_cases hlast : (if b = f.data i then i + 1 else 0) = f.length
    · rw [if_pos hlast, if_pos hlast]
    · rw [if_neg hlast, if_neg hlast, ih]
      split
      · next hb =>
        rw [if_pos hb] at hlast
        omega
      · omega

theorem Filter.pattern_pos (h : 0 < f.length) : 0 < f.pattern.length := by
  rwa [Filter.length_pattern]

/-- **The trigger.**  It is turned on behind the first occurrence, and only there, exactly when the
bytes before the first occurrence are failed comparisons, one after the other. -/
theorem turnsOnRight_iff (h : 0 < f.length) (stream : List Byte) :
    TurnsOnRight f stream ↔
      ∀ before behind, stream = before ++ f.pattern ++ behind →
        FirstEnd f.pattern stream (before.length + f.pattern.length) →
        Misses f.pattern before := by
  rw [← scan_first_iff (Filter.pattern_pos h)]
  exact forall_congr' fun k => by rw [triggerRun_eq_scan h]

/-- the patterns that the trigger finds in every stream -/
theorem turnsOnRight_all_iff (h : 0 < f.length) :
    (∀ stream, TurnsOnRight f stream) ↔ ∀ i < f.length, f.data i = f.data 0 := by
  have hscan : (∀ stream, TurnsOnRight f stream) ↔
      ∀ s k, scan f.pattern 0 s = some k ↔ FirstEnd f.pattern s k :=
    forall_congr' fun stream => forall_congr' fun k => by rw [triggerRun_eq_scan h]
  rw [hscan, scan_all_iff (Filter.pattern_pos h), Filter.length_pattern]
  constructor
  · rintro ⟨a, ha⟩ i hi
    have hdata : ∀ j < f.length, f.data j = a := by
      intro j hj
      have := (Filter.getElem?_pattern hj (f.data j)).mpr rfl
      rw [ha, List.getElem?_replicate, if_pos hj] at this
      exact (Option.some.inj this).symm
    rw [hdata i hi, hdata 0 h]
  · intro hall
    refine ⟨f.data 0, List.eq_replicate_iff.mpr ⟨Filter.length_pattern f, ?_⟩⟩
    intro b hb
    obtain ⟨i, hi, rfl⟩ := List.mem_map.mp hb
    exact hall i (List.mem_range.mp hi)

end

/-- the pattern `aab` -/
def filterAab : Filter := ⟨fun i => if i = 2 then 0x62 else 0x61, 3, by decide⟩

theorem turnsOnRight_iff_aab :
    TurnsOnRight filterAab [0x78, 0x61, 0x61, 0x62] ↔
      ∀ before behind, [0x78, 0x61, 0x61, 0x62] = before ++ filterAab.pattern ++ behind →
        FirstEnd filterAab.pattern [0x78, 0x61, 0x61, 0x62]
          (before.length + filterAab.pattern.length) →
        Misses filterAab.pattern before :=
  turnsOnRight_iff (by decide) _

/-- `aab` in `aaab` is missed -/
theorem trigger_misses_aab : ¬ ∀ f : Filter, 0 < f.length → ∀ s, TurnsOnRight f s := by
  intro hall
  have hfirst : FirstEnd filterAab.pattern [0x61, 0x61, 0x61, 0x62] 4 := by decide
  have hon := (hall filterAab (by decide) [0x61, 0x61, 0x61, 0x62] 4).mpr hfirst
  exact absurd hon (by decide)

end Trigger
end Hydra
