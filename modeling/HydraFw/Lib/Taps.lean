import Mathlib.Algebra.Order.Ring.Nat
import Mathlib.Data.List.Basic
import Mathlib.Logic.Function.Iterate

/-!
# Test access ports in a chain

Devices of IEEE 1149.1 share TCK and TMS, and the TDO of each is the TDI of the next.

* `Controller`        the sixteen states of the TAP controller, with `Controller.next`;
* `Device`            the lengths and the captured values of a device;
* `Tap`               a device with the contents of its registers;
* `Tap.rise`, `Tap.fall`   the edges of TCK; `riseAll`, `cycle` those of a chain;
* `shiftIn`           a register is shifted;
* `Tap.Bypassed`      the instruction of all ones is taken over;
* `Joined`            every device drives the last bit of a register;
* `ShiftState.shifts`   cycles in a shift state shift the joined registers as one.
-/

namespace Taps

/-! ## controllers -/

inductive Controller where
  | testLogicReset | runTestIdle
  | selectDr | captureDr | shiftDr | exit1Dr | pauseDr | exit2Dr | updateDr
  | selectIr | captureIr | shiftIr | exit1Ir | pauseIr | exit2Ir | updateIr
  deriving DecidableEq

/-- the transition on a rising edge, with TMS -/
def Controller.next : Controller → Bool → Controller
  | .testLogicReset, true => .testLogicReset
  | .testLogicReset, false => .runTestIdle
  | .runTestIdle, true => .selectDr
  | .runTestIdle, false => .runTestIdle
  | .selectDr, true => .selectIr
  | .selectDr, false => .captureDr
  | .captureDr, true => .exit1Dr
  | .captureDr, false => .shiftDr
  | .shiftDr, true => .exit1Dr
  | .shiftDr, false => .shiftDr
  | .exit1Dr, true => .updateDr
  | .exit1Dr, false => .pauseDr
  | .pauseDr, true => .exit2Dr
  | .pauseDr, false => .pauseDr
  | .exit2Dr, true => .updateDr
  | .exit2Dr, false => .shiftDr
  | .updateDr, true => .selectDr
  | .updateDr, false => .runTestIdle
  | .selectIr, true => .testLogicReset
  | .selectIr, false => .captureIr
  | .captureIr, true => .exit1Ir
  | .captureIr, false => .shiftIr
  | .shiftIr, true => .exit1Ir
  | .shiftIr, false => .shiftIr
  | .exit1Ir, true => .updateIr
  | .exit1Ir, false => .pauseIr
  | .pauseIr, true => .exit2Ir
  | .pauseIr, false => .pauseIr
  | .exit2Ir, true => .updateIr
  | .exit2Ir, false => .shiftIr
  | .updateIr, true => .selectDr
  | .updateIr, false => .runTestIdle

/-- five cycles with TMS reset every controller -/
theorem Controller.reset (s : Controller) :
    ((((s.next true).next true).next true).next true).next true = .testLogicReset := by
  cases s <;> rfl

/-! ## registers -/

/-- a register, TDI at its head, after a bit has been shifted in -/
def shiftIn (tdi : Bool) (r : List Bool) : List Bool := (tdi :: r).dropLast

/-- what a register has at its TDO end -/
def lastBit (r : List Bool) : Bool := r.getLastD false

@[simp] theorem shiftIn_length (tdi : Bool) (r : List Bool) : (shiftIn tdi r).length = r.length := by
  simp [shiftIn]

theorem shiftIn_eq_take (tdi : Bool) (r : List Bool) : shiftIn tdi r = (tdi :: r).take r.length := by
  rw [shiftIn, List.dropLast_eq_take, List.length_cons, Nat.add_sub_cancel]

@[simp] theorem shiftIn_replicate (b : Bool) (n : Nat) :
    shiftIn b (List.replicate n b) = List.replicate n b := by
  rw [shiftIn, ← List.replicate_succ, List.dropLast_replicate, Nat.add_sub_cancel]

/-- the bits of several shifts -/
theorem shiftIn_iterate (tdi : Bool) (r : List Bool) (k : Nat) :
    (shiftIn tdi)^[k] r = (List.replicate k tdi ++ r).take r.length := by
  induction k with
  | zero => simp
  | succ k ih =>
    have hlen : ((List.replicate k tdi ++ r).take r.length).length = r.length := by
      rw [List.length_take, List.length_append]
      omega
    rw [Function.iterate_succ_apply', ih, shiftIn_eq_take, hlen, List.replicate_succ,
      List.cons_append]
    cases r with
    | nil => rfl
    | cons b r =>
      rw [List.length_cons, List.take_succ_cons, List.take_succ_cons, List.take_take,
        Nat.min_eq_left (Nat.le_succ _)]

/-- as many shifts as the register has places fill it -/
theorem shiftIn_full {b : Bool} {r : List Bool} {k : Nat} (h : r.length ≤ k) :
    (shiftIn b)^[k] r = List.replicate r.length b := by
  rw [shiftIn_iterate, List.take_append_of_le_length (by rwa [List.length_replicate]),
    List.take_replicate, Nat.min_eq_left h]

theorem lastBit_replicate (r : List Bool) (b : Bool) {n : Nat} (hn : 0 < n) :
    lastBit (r ++ List.replicate n b) = b := by
  obtain ⟨n, rfl⟩ := Nat.exists_eq_add_of_le' hn
  rw [lastBit, List.replicate_succ', ← List.append_assoc, List.getLastD_concat]

/-- registers one behind the other are one register -/
theorem shiftIn_append (tdi : Bool) {r : List Bool} (hr : r ≠ []) (rest : List Bool) :
    shiftIn tdi (r ++ rest) = shiftIn tdi r ++ shiftIn (lastBit r) rest := by
  have hlast : tdi :: r = shiftIn tdi r ++ [lastBit r] := by
    conv_lhs => rw [← List.dropLast_append_getLast (List.cons_ne_nil tdi r)]
    rw [List.getLast_cons hr, lastBit, List.getLastD_eq_getLast?, List.getLast?_eq_some_getLast hr]
    rfl
  calc (tdi :: (r ++ rest)).dropLast
      = (shiftIn tdi r ++ lastBit r :: rest).dropLast := by
        rw [← List.cons_append, hlast, List.append_assoc, List.singleton_append]
    _ = shiftIn tdi r ++ (lastBit r :: rest).dropLast :=
        List.dropLast_append_of_ne_nil (List.cons_ne_nil _ _)

/-! ## devices -/

structure Device where
  irLength : Nat
  irLength_pos : 0 < irLength
  /-- what Capture-IR loads at a time -/
  captureIr : Nat → List Bool
  captureIr_length : ∀ k, (captureIr k).length = irLength
  /-- what Capture-DR loads into the register that an instruction selects -/
  captureDr : List Bool → Nat → List Bool
  /-- the instruction of all ones selects BYPASS -/
  bypass : ∀ k, captureDr (List.replicate irLength true) k = [false]
  /-- the instruction of Test-Logic-Reset -/
  resetInstruction : List Bool
  /-- the level of TDO while the device does not drive it -/
  undriven : Nat → Bool

structure Tap where
  device : Device
  state : Controller
  /-- rising edges so far -/
  clocks : Nat
  ir : List Bool
  ir_length : ir.length = device.irLength
  instruction : List Bool
  dr : List Bool
  tdo : Bool

/-- the instruction register on a rising edge -/
def Tap.irNext (t : Tap) (tdi : Bool) : List Bool :=
  match t.state with
  | .captureIr => t.device.captureIr t.clocks
  | .shiftIr => shiftIn tdi t.ir
  | _ => t.ir

theorem Tap.irNext_length (t : Tap) (tdi : Bool) : (t.irNext tdi).length = t.device.irLength := by
  unfold Tap.irNext
  split
  · exact t.device.captureIr_length t.clocks
  · rw [shiftIn_length, t.ir_length]
  · exact t.ir_length

/-- the data register on a rising edge -/
def Tap.drNext (t : Tap) (tdi : Bool) : List Bool :=
  match t.state with
  | .captureDr => t.device.captureDr t.instruction t.clocks
  | .shiftDr => shiftIn tdi t.dr
  | _ => t.dr

/-- the rising edge -/
def Tap.rise (tms : Bool) (t : Tap) (tdi : Bool) : Tap :=
  { t with
    state := t.state.next tms
    clocks := t.clocks + 1
    ir := t.irNext tdi
    ir_length := t.irNext_length tdi
    dr := t.drNext tdi }

/-- the falling edge, on which TDO changes -/
def Tap.fall (t : Tap) : Tap :=
  { t with
    instruction :=
      match t.state with
      | .updateIr => t.ir
      | .testLogicReset => t.device.resetInstruction
      | _ => t.instruction
    tdo :=
      match t.state with
      | .shiftIr => lastBit t.ir
      | .shiftDr => lastBit t.dr
      | _ => t.device.undriven t.clocks }

/-! ## chains -/

/-- a rising edge for a chain: each TDI is what the device before has on its TDO -/
def riseAll (tms : Bool) : Bool → List Tap → List Tap
  | _, [] => []
  | tdi, t :: c => t.rise tms tdi :: riseAll tms t.tdo c

def fallAll (c : List Tap) : List Tap := c.map Tap.fall

def cycle (tms tdi : Bool) (c : List Tap) : List Tap := fallAll (riseAll tms tdi c)

/-- all controllers are in a state -/
def AllIn (s : Controller) (c : List Tap) : Prop := ∀ t ∈ c, t.state = s

section
variable {s : Controller} {c : List Tap}

@[simp] theorem riseAll_length (tms tdi : Bool) (c : List Tap) :
    (riseAll tms tdi c).length = c.length := by
  induction c generalizing tdi with
  | nil => rfl
  | cons t c ih => rw [riseAll, List.length_cons, List.length_cons, ih]

@[simp] theorem fallAll_length (c : List Tap) : (fallAll c).length = c.length := List.length_map ..

@[simp] theorem cycle_length (tms tdi : Bool) (c : List Tap) :
    (cycle tms tdi c).length = c.length := by
  rw [cycle, fallAll_length, riseAll_length]

theorem cycle_iterate_length (tms tdi : Bool) (k : Nat) (c : List Tap) :
    ((cycle tms tdi)^[k] c).length = c.length := by
  induction k with
  | zero => rfl
  | succ k ih => rw [Function.iterate_succ_apply', cycle_length, ih]

theorem riseAll_devices (tms tdi : Bool) (c : List Tap) :
    (riseAll tms tdi c).map Tap.device = c.map Tap.device := by
  induction c generalizing tdi with
  | nil => rfl
  | cons t c ih =>
    rw [riseAll, List.map_cons, List.map_cons, ih]
    rfl

theorem fallAll_devices (c : List Tap) : (fallAll c).map Tap.device = c.map Tap.device := by
  rw [fallAll, List.map_map]
  rfl

theorem cycle_devices (tms tdi : Bool) (c : List Tap) :
    (cycle tms tdi c).map Tap.device = c.map Tap.device := by
  rw [cycle, fallAll_devices, riseAll_devices]

theorem cycle_iterate_devices (tms tdi : Bool) (k : Nat) (c : List Tap) :
    ((cycle tms tdi)^[k] c).map Tap.device = c.map Tap.device := by
  induction k with
  | zero => rfl
  | succ k ih => rw [Function.iterate_succ_apply', cycle_devices, ih]

/-- no TDO changes on a rising edge -/
theorem riseAll_tdo (tms tdi : Bool) (c : List Tap) :
    (riseAll tms tdi c).map Tap.tdo = c.map Tap.tdo := by
  induction c generalizing tdi with
  | nil => rfl
  | cons t c ih =>
    rw [riseAll, List.map_cons, List.map_cons, ih]
    rfl

/-- every device of the chain has had a rising edge -/
theorem mem_riseAll {tms tdi : Bool} {t : Tap} (h : t ∈ riseAll tms tdi c) :
    ∃ u ∈ c, ∃ b, t = u.rise tms b := by
  induction c generalizing tdi with
  | nil => exact absurd h List.not_mem_nil
  | cons u c ih =>
    rcases List.mem_cons.mp h with rfl | h
    · exact ⟨u, List.mem_cons_self, tdi, rfl⟩
    · obtain ⟨v, hv, b, rfl⟩ := ih h
      exact ⟨v, List.mem_cons_of_mem _ hv, b, rfl⟩

theorem mem_cycle {tms tdi : Bool} {t : Tap} (h : t ∈ cycle tms tdi c) :
    ∃ u ∈ c, ∃ b, t = (u.rise tms b).fall := by
  obtain ⟨v, hv, rfl⟩ := List.mem_map.mp h
  obtain ⟨u, hu, b, rfl⟩ := mem_riseAll hv
  exact ⟨u, hu, b, rfl⟩

theorem AllIn.fallAll (h : AllIn s c) : AllIn s (fallAll c) := by
  intro t ht
  obtain ⟨u, hu, rfl⟩ := List.mem_map.mp ht
  exact h u hu

theorem AllIn.riseAll (h : AllIn s c) (tms tdi : Bool) : AllIn (s.next tms) (riseAll tms tdi c) := by
  intro t ht
  obtain ⟨u, hu, b, rfl⟩ := mem_riseAll ht
  exact congrArg (Controller.next · tms) (h u hu)

/-- the controllers move together -/
theorem AllIn.cycle (h : AllIn s c) (tms tdi : Bool) : AllIn (s.next tms) (cycle tms tdi c) :=
  (h.riseAll tms tdi).fallAll

/-- five cycles with TMS reset every chain -/
theorem allIn_reset (tdi : Bool) (c : List Tap) :
    AllIn .testLogicReset ((Taps.cycle true tdi)^[5] c) := by
  intro t ht
  obtain ⟨t4, h4, b4, rfl⟩ := mem_cycle ht
  obtain ⟨t3, h3, b3, rfl⟩ := mem_cycle h4
  obtain ⟨t2, h2, b2, rfl⟩ := mem_cycle h3
  obtain ⟨t1, h1, b1, rfl⟩ := mem_cycle h2
  obtain ⟨t0, h0, b0, rfl⟩ := mem_cycle h1
  exact t0.state.reset

/-! ## instructions -/

/-- the bits of all instruction registers -/
def irTotal (c : List Tap) : Nat := (c.map fun t => t.device.irLength).sum

theorem irTotal_devices {d : List Tap} (h : d.map Tap.device = c.map Tap.device) :
    irTotal d = irTotal c := by
  have hsum := congrArg (fun l : List Device => (l.map Device.irLength).sum) h
  simp only [List.map_map] at hsum
  exact hsum

theorem irTotal_cycle (tms tdi : Bool) (c : List Tap) :
    irTotal (Taps.cycle tms tdi c) = irTotal c := irTotal_devices (cycle_devices tms tdi c)

/-- the instruction of all ones, which selects BYPASS -/
def Tap.Bypassed (t : Tap) : Prop := t.instruction = List.replicate t.device.irLength true

/-- it is taken over in Update-IR -/
theorem bypassed_update (h : AllIn .exit1Ir c)
    (hir : ∀ t ∈ c, t.ir = List.replicate t.device.irLength true) (tdi : Bool) :
    ∀ t ∈ Taps.cycle true tdi c, t.Bypassed := by
  intro t ht
  obtain ⟨u, hu, b, rfl⟩ := mem_cycle ht
  unfold Tap.Bypassed Tap.fall Tap.rise Tap.irNext
  simp only [h u hu, Controller.next]
  exact hir u hu

/-- an instruction stays on the way to another state than Update-IR and Test-Logic-Reset -/
theorem instruction_cycle {P : Device → List Bool → Prop} (tms : Bool) (h : AllIn s c)
    (hp : ∀ t ∈ c, P t.device t.instruction) (hu : s.next tms ≠ .updateIr)
    (hr : s.next tms ≠ .testLogicReset) (tdi : Bool) :
    ∀ t ∈ Taps.cycle tms tdi c, P t.device t.instruction := by
  intro t ht
  obtain ⟨u, hmem, b, rfl⟩ := mem_cycle ht
  have hkeep : ((u.rise tms b).fall).instruction = u.instruction := by
    unfold Tap.fall Tap.rise
    simp only [h u hmem]
  rw [hkeep]
  exact hp u hmem

theorem bypassed_cycle (tms : Bool) (h : AllIn s c) (hb : ∀ t ∈ c, t.Bypassed)
    (hu : s.next tms ≠ .updateIr) (hr : s.next tms ≠ .testLogicReset) (tdi : Bool) :
    ∀ t ∈ Taps.cycle tms tdi c, t.Bypassed :=
  instruction_cycle (P := fun d i => i = List.replicate d.irLength true) tms h hb hu hr tdi

/-- the instruction of Test-Logic-Reset -/
theorem instruction_reset {tms : Bool} (h : AllIn s c) (hr : s.next tms = .testLogicReset)
    (tdi : Bool) :
    ∀ t ∈ Taps.cycle tms tdi c, t.instruction = t.device.resetInstruction := by
  intro t ht
  obtain ⟨u, hmem, b, rfl⟩ := mem_cycle ht
  unfold Tap.fall Tap.rise
  simp only [h u hmem, hr]

/-- BYPASS captures a zero -/
theorem capture_bypass (h : AllIn .captureDr c) (hb : ∀ t ∈ c, t.Bypassed) (tms tdi : Bool) :
    ∀ t ∈ Taps.riseAll tms tdi c, t.dr = [false] := by
  intro t ht
  obtain ⟨u, hu, b, rfl⟩ := mem_riseAll ht
  show u.drNext b = [false]
  rw [Tap.drNext, h u hu]
  show u.device.captureDr u.instruction u.clocks = [false]
  rw [hb u hu, u.device.bypass]

end

/-! ## joined registers -/

/-- the joined registers of a chain -/
def joined (reg : Tap → List Bool) (c : List Tap) : List Bool := c.flatMap reg

/-- every device drives the last bit of its register, and none of them is empty -/
def Joined (reg : Tap → List Bool) (c : List Tap) : Prop :=
  ∀ t ∈ c, t.tdo = lastBit (reg t) ∧ reg t ≠ []

section
variable {reg : Tap → List Bool} {c : List Tap}

/-- a rising edge shifts joined registers as one -/
theorem joined_riseAll (hj : Joined reg c) {tms : Bool}
    (hrise : ∀ t ∈ c, ∀ b, reg (t.rise tms b) = shiftIn b (reg t)) (tdi : Bool) :
    joined reg (riseAll tms tdi c) = shiftIn tdi (joined reg c) := by
  induction c generalizing tdi with
  | nil => rfl
  | cons t c ih =>
    obtain ⟨htdo, hne⟩ := hj t List.mem_cons_self
    have hrest := ih (fun u hu => hj u (List.mem_cons_of_mem _ hu))
      (fun u hu => hrise u (List.mem_cons_of_mem _ hu)) t.tdo
    show reg (t.rise tms tdi) ++ joined reg (riseAll tms t.tdo c) =
      shiftIn tdi (reg t ++ joined reg c)
    rw [hrest, hrise t List.mem_cons_self, shiftIn_append tdi hne, htdo]

theorem joined_fallAll (hfall : ∀ t, reg t.fall = reg t) (c : List Tap) :
    joined reg (fallAll c) = joined reg c := by
  rw [joined, fallAll, List.flatMap_map]
  exact List.flatMap_congr fun t _ => hfall t

theorem joined_ir_length (c : List Tap) : (joined Tap.ir c).length = irTotal c := by
  rw [joined, List.length_flatMap, irTotal]
  exact congrArg List.sum (List.map_congr_left fun t _ => t.ir_length)

theorem ir_ne_nil (t : Tap) : t.ir ≠ [] := by
  rw [← List.length_pos_iff, t.ir_length]
  exact t.device.irLength_pos

/-- the registers of a shift state -/
structure ShiftState (s : Controller) (reg : Tap → List Bool) : Prop where
  stays : s.next false = s
  rise : ∀ t tms b, t.state = s → reg (t.rise tms b) = shiftIn b (reg t)
  fall : ∀ t, reg t.fall = reg t
  tdo : ∀ t, t.state = s → t.fall.tdo = lastBit (reg t)

theorem shiftState_ir : ShiftState .shiftIr Tap.ir where
  stays := rfl
  rise t tms b h := by
    show t.irNext b = _
    rw [Tap.irNext, h]
  fall _ := rfl
  tdo t h := by rw [Tap.fall, h]

theorem shiftState_dr : ShiftState .shiftDr Tap.dr where
  stays := rfl
  rise t tms b h := by
    show t.drNext b = _
    rw [Tap.drNext, h]
  fall _ := rfl
  tdo t h := by rw [Tap.fall, h]

variable {s : Controller}

/-- a chain in a shift state, its registers driven -/
structure Shifting (s : Controller) (reg : Tap → List Bool) (c : List Tap) : Prop where
  allIn : AllIn s c
  joined : Joined reg c

/-- devices that have come into a shift state drive their registers -/
theorem ShiftState.enter (hs : ShiftState s reg) (h : AllIn s c) (hne : ∀ t ∈ c, reg t ≠ []) :
    Shifting s reg (fallAll c) := by
  refine ⟨h.fallAll, fun t ht => ?_⟩
  obtain ⟨u, hu, rfl⟩ := List.mem_map.mp ht
  rw [hs.fall]
  exact ⟨hs.tdo u (h u hu), hne u hu⟩

/-- one cycle, which may be the last one of the state -/
theorem ShiftState.joined_cycle (hs : ShiftState s reg) (h : Shifting s reg c) (tms tdi : Bool) :
    Taps.joined reg (cycle tms tdi c) = shiftIn tdi (Taps.joined reg c) := by
  rw [cycle, joined_fallAll hs.fall]
  exact joined_riseAll h.joined (fun t ht b => hs.rise t tms b (h.allIn t ht)) tdi

theorem ShiftState.cycle (hs : ShiftState s reg) (h : Shifting s reg c) (tdi : Bool) :
    Shifting s reg (cycle false tdi c) := by
  refine hs.enter (fun t ht => ?_) fun t ht => ?_
  · obtain ⟨u, hu, b, rfl⟩ := mem_riseAll ht
    show u.state.next false = s
    rw [h.allIn u hu, hs.stays]
  · obtain ⟨u, hu, b, rfl⟩ := mem_riseAll ht
    rw [hs.rise u false b (h.allIn u hu), ← List.length_pos_iff, shiftIn_length,
      List.length_pos_iff]
    exact (h.joined u hu).2

/-- **Cycles in a shift state** shift the joined registers as one. -/
theorem ShiftState.shifts (hs : ShiftState s reg) (h : Shifting s reg c) (tdi : Bool) (k : Nat) :
    Shifting s reg ((Taps.cycle false tdi)^[k] c) ∧
      Taps.joined reg ((Taps.cycle false tdi)^[k] c) = (shiftIn tdi)^[k] (Taps.joined reg c) := by
  induction k with
  | zero => exact ⟨h, rfl⟩
  | succ k ih =>
    rw [Function.iterate_succ_apply', Function.iterate_succ_apply']
    exact ⟨hs.cycle ih.1 tdi, by rw [hs.joined_cycle ih.1, ih.2]⟩

end

/-! ## full registers -/

/-- joined registers full of a bit are each full of it -/
theorem full_of_joined {reg : Tap → List Bool} {c : List Tap} {b : Bool} {n : Nat}
    (h : joined reg c = List.replicate n b) : ∀ t ∈ c, reg t = List.replicate (reg t).length b := by
  intro t ht
  refine List.eq_replicate_iff.mpr ⟨rfl, fun x hx => ?_⟩
  have hmem : x ∈ joined reg c := List.mem_flatMap.mpr ⟨t, ht, hx⟩
  rw [h] at hmem
  exact List.eq_of_mem_replicate hmem

/-- registers of one bit -/
theorem joined_bits {reg : Tap → List Bool} {c : List Tap} {b : Bool} (h : ∀ t ∈ c, reg t = [b]) :
    joined reg c = List.replicate c.length b := by
  induction c with
  | nil => rfl
  | cons t c ih =>
    show reg t ++ joined reg c = _
    rw [h t List.mem_cons_self, ih fun u hu => h u (List.mem_cons_of_mem _ hu)]
    rfl

/-- the TDO of the last device is the last bit of the joined registers -/
theorem Joined.last {reg : Tap → List Bool} {c : List Tap} (h : Joined reg c) (hc : c ≠ []) :
    (c.map Tap.tdo).getLast? = some (lastBit (joined reg c)) := by
  obtain ⟨front, t, rfl⟩ := (List.eq_nil_or_concat' c).resolve_left hc
  obtain ⟨htdo, hne⟩ := h t (List.mem_append_right _ List.mem_cons_self)
  rw [List.map_append, List.map_singleton, List.getLast?_concat, htdo, joined, List.flatMap_append,
    List.flatMap_singleton, lastBit, lastBit, List.getLastD_eq_getLast?, List.getLastD_eq_getLast?,
    List.getLast?_append_of_ne_nil _ hne]

end Taps
