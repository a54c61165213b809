import Mathlib.Algebra.Order.Ring.Nat
import Mathlib.Data.List.Nodup

/-!
# Devices on a 1-Wire bus

The ROM search as the devices take part in it.  After a reset pulse a device takes the eight bits
of a command; for the search command it then sends each bit of its ROM code and the complement of
that bit, and takes a third bit, which must be its own for it to go on.

* `Device`, `Device.drives`, `Device.slot`   a device, what it leaves of the line in a time slot,
                                             and where it is behind one;
* `line`, `slot`, `reset`                    the bus, an open-drain line;
* `busAt`                                   devices that are all in the same phase;
* `slot_bit`, `slot_complement`, `slot_direction`   the three slots of one bit of the search.
-/

namespace OneWire

/-- a ROM code -/
abbrev Rom := BitVec 64

inductive Phase where
  /-- behind a reset pulse, with the bits of the command so far -/
  | command (received : List Bool)
  /-- about to send a bit -/
  | bit (k : Nat)
  | complement (k : Nat)
  /-- waiting for the direction -/
  | direction (k : Nat)
  /-- selected, dropped out, or out of the search -/
  | idle
  deriving DecidableEq

structure Device where
  rom : Rom
  phase : Phase

/-- the search command, first bit first -/
def searchRom : List Bool := [false, false, false, false, true, true, true, true]

/-- a device that sends a zero pulls the line down -/
def Device.drives (d : Device) : Bool :=
  match d.phase with
  | .bit k => d.rom.getLsbD k
  | .complement k => !d.rom.getLsbD k
  | _ => true

def nextPhase (rom : Rom) (bit : Bool) : Phase → Phase
  | .command received =>
    if received.length < 7 then .command (received ++ [bit])
    else if received ++ [bit] = searchRom then .bit 0 else .idle
  | .bit k => .complement k
  | .complement k => .direction k
  | .direction k =>
    if bit = rom.getLsbD k then if k < 63 then .bit (k + 1) else .idle else .idle
  | .idle => .idle

def Device.slot (bit : Bool) (d : Device) : Device := { d with phase := nextPhase d.rom bit d.phase }

abbrev Bus := List Device

/-- the line in a slot where the master sends `bit`, a one when it reads -/
def line (bus : Bus) (bit : Bool) : Bool := bit && bus.all Device.drives

def slot (bus : Bus) (bit : Bool) : Bus := bus.map (Device.slot (line bus bit))

def reset (bus : Bus) : Bus := bus.map fun d => { d with phase := .command [] }

/-! ## a bus in one phase -/

/-- the devices with these codes, in phases that depend on them -/
def busAt (roms : List Rom) (phase : Rom → Phase) : Bus := roms.map fun r => ⟨r, phase r⟩

section
variable (roms : List Rom)

theorem slot_at (phase : Rom → Phase) (bit : Bool) :
    slot (busAt roms phase) bit
      = busAt roms fun r => nextPhase r (line (busAt roms phase) bit) (phase r) := by
  rw [slot, busAt, busAt, List.map_map]
  rfl

theorem line_at (phase : Rom → Phase) (bit : Bool) :
    line (busAt roms phase) bit = (bit && roms.all fun r => Device.drives ⟨r, phase r⟩) := by
  rw [line, busAt, List.all_map]
  rfl

/-- no device sends -/
theorem line_silent {phase : Rom → Phase} (h : ∀ r ∈ roms, Device.drives ⟨r, phase r⟩ = true)
    (bit : Bool) : line (busAt roms phase) bit = bit := by
  rw [line_at, List.all_eq_true.mpr h, Bool.and_true]

theorem slot_idle (bit : Bool) :
    slot (busAt roms fun _ => .idle) bit = busAt roms fun _ => .idle := by
  rw [slot_at]
  rfl

theorem line_idle (bit : Bool) : line (busAt roms fun _ => .idle) bit = bit :=
  line_silent roms (fun _ _ => rfl) bit

theorem slot_command (received : List Bool) (bit : Bool) :
    slot (busAt roms fun _ => .command received) bit
      = busAt roms fun r => nextPhase r bit (.command received) := by
  rw [slot_at, line_silent roms fun _ _ => rfl]

/-- the eight bits of a command -/
theorem foldl_command (bits : List Bool) (received : List Bool) (hbits : bits ≠ [])
    (hlen : received.length + bits.length = 8) :
    bits.foldl slot (busAt roms fun _ => .command received)
      = busAt roms fun _ => if received ++ bits = searchRom then .bit 0 else .idle := by
  induction bits generalizing received with
  | nil => exact absurd rfl hbits
  | cons b bits ih =>
    rw [List.foldl_cons, slot_command]
    cases bits with
    | nil =>
      have hlast : ¬ received.length < 7 := by
        rw [List.length_singleton] at hlen
        omega
      simp only [nextPhase, if_neg hlast]
      rfl
    | cons b' bits =>
      have hmore : received.length < 7 := by
        rw [List.length_cons, List.length_cons] at hlen
        omega
      simp only [nextPhase, if_pos hmore]
      rw [ih (received ++ [b]) (List.cons_ne_nil _ _) (by simp at hlen ⊢; omega)]
      simp only [List.append_assoc, List.singleton_append]

/-! ## one bit of the search -/

variable (active : Rom → Bool) (k : Nat)

/-- the devices that are still searched for are in this phase, the others are out -/
def searched (phase : Phase) (r : Rom) : Phase := if active r then phase else .idle

theorem line_bit :
    line (busAt roms (searched active (.bit k))) true
      = roms.all fun r => !active r || r.getLsbD k := by
  rw [line_at, Bool.true_and]
  refine congrArg roms.all (funext fun r => ?_)
  cases h : active r <;> simp [Device.drives, searched, h]

theorem line_complement :
    line (busAt roms (searched active (.complement k))) true
      = roms.all fun r => !active r || !r.getLsbD k := by
  rw [line_at, Bool.true_and]
  refine congrArg roms.all (funext fun r => ?_)
  cases h : active r <;> simp [Device.drives, searched, h]

theorem slot_bit (bit : Bool) :
    slot (busAt roms (searched active (.bit k))) bit
      = busAt roms (searched active (.complement k)) := by
  rw [slot_at]
  refine congrArg (busAt roms) (funext fun r => ?_)
  cases h : active r <;> simp [nextPhase, searched, h]

theorem slot_complement (bit : Bool) :
    slot (busAt roms (searched active (.complement k))) bit
      = busAt roms (searched active (.direction k)) := by
  rw [slot_at]
  refine congrArg (busAt roms) (funext fun r => ?_)
  cases h : active r <;> simp [nextPhase, searched, h]

theorem slot_direction (bit : Bool) :
    slot (busAt roms (searched active (.direction k))) bit
      = busAt roms (searched (fun r => active r && bit == r.getLsbD k)
          (if k < 63 then .bit (k + 1) else .idle)) := by
  have hsilent : line (busAt roms (searched active (.direction k))) bit = bit := by
    refine line_silent roms (fun r _ => ?_) bit
    cases h : active r <;> simp [Device.drives, searched, h]
  rw [slot_at, hsilent]
  refine congrArg (busAt roms) (funext fun r => ?_)
  cases h : active r
  · simp [nextPhase, searched, h]
  · by_cases hb : bit = r.getLsbD k <;> simp [nextPhase, searched, h, hb]

end

end OneWire
