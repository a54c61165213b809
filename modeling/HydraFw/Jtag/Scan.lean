import HydraFw.Lib.Taps

/-!
# The length of a JTAG chain

`jtag_scan_bypass` (`hydrabus_mode_jtag.c`) with the pin functions under it, and the chain of
`Lib.Taps` on the pins.

* `Probe`               the pins, the chain, and the user button;
* `jtagSendBit`, `jtagReadBitClock`   one clock, with the bit sent or read;
* `jtagScanBypass`      the scan: `selectBypass` and `fillDr` are its stages;
* `Low`                 TCK is low, so that a bit sent is a cycle;
* `scanBypass_counts`   the result is the number of devices.
-/

namespace Hydra
namespace Jtag
open Taps

/-! ## pins -/

structure Probe where
  tck : Bool
  tms : Bool
  tdi : Bool
  chain : List Tap
  /-- the level of TDO without a device: wired to TDI, or pulled -/
  pull : Option Bool
  /-- `hydrabus_ubtn` at the looks of the scan -/
  ubtn : Nat → Bool

/-- `TMS` -/
def tmsFlag : UInt8 := 0b10

def jtagTmsHigh (p : Probe) : Probe := { p with tms := true }
def jtagTmsLow (p : Probe) : Probe := { p with tms := false }
def jtagTdiHigh (p : Probe) : Probe := { p with tdi := true }
def jtagTdiLow (p : Probe) : Probe := { p with tdi := false }

/-- a pin that is high stays high -/
def jtagClkHigh (p : Probe) : Probe :=
  if p.tck then p else { p with tck := true, chain := riseAll p.tms p.tdi p.chain }

def jtagClkLow (p : Probe) : Probe :=
  if p.tck then { p with tck := false, chain := fallAll p.chain } else p

def jtagClock (p : Probe) : Probe := jtagClkLow (jtagClkHigh p)

def jtagSendBit (p : Probe) (tdi : UInt8) : Probe :=
  let p := if tdi &&& tmsFlag ≠ 0 then jtagTmsHigh p else jtagTmsLow p
  let p := if tdi &&& 1 ≠ 0 then jtagTdiHigh p else jtagTdiLow p
  jtagClock p

def jtagReadBit (p : Probe) : Bool := (p.chain.map Tap.tdo).getLast?.getD (p.pull.getD p.tdi)

def jtagReadBitClock (p : Probe) : Bool × Probe :=
  let p := jtagClkHigh p
  (jtagReadBit p, jtagClkLow p)

def jtagResetState (p : Probe) : Probe :=
  jtagTmsLow ((fun p => jtagSendBit p (0 ||| tmsFlag))^[7] p)

/-! ## `jtag_scan_bypass` -/

/-- `MAX_CHAIN_LEN` -/
def maxChainLen : Nat := 32

/-- Shift-IR, as many ones, and the way to Shift-DR -/
def selectBypass (p : Probe) : Probe :=
  let p := jtagSendBit p 0
  let p := jtagSendBit p (0 ||| tmsFlag)
  let p := jtagSendBit p (0 ||| tmsFlag)
  let p := jtagSendBit p 0
  let p := jtagSendBit p 0
  let p := (fun p => jtagSendBit p 1)^[999] p
  let p := jtagSendBit p (1 ||| tmsFlag)
  let p := jtagSendBit p (0 ||| tmsFlag)
  let p := jtagSendBit p (0 ||| tmsFlag)
  let p := jtagSendBit p 0
  jtagSendBit p 0

def fillDr (p : Probe) : Probe := (fun p => jtagSendBit p 0)^[1000] p

/-- the loop that counts, `left` devices before `MAX_CHAIN_LEN` -/
def countDevices : Nat → Probe → Nat × Probe
  | 0, p => (maxChainLen, (jtagReadBitClock p).2)
  | left + 1, p =>
    let numDevices := maxChainLen - (left + 1)
    let (bit, p) := jtagReadBitClock p
    if !bit && !p.ubtn numDevices then countDevices left p else (numDevices, p)

def jtagScanBypass (p : Probe) : Nat × Probe :=
  let p := fillDr (selectBypass (jtagResetState p))
  let counted := countDevices maxChainLen (jtagTdiHigh p)
  (if counted.1 = maxChainLen then 0 else counted.1, jtagTdiLow counted.2)

/-! ## cycles -/

/-- in a scan from `q` on, TCK is low and the chain is `c` -/
structure Low (q p : Probe) (c : List Tap) : Prop where
  tck : p.tck = false
  chain : p.chain = c
  pull : p.pull = q.pull
  ubtn : p.ubtn = q.ubtn

section
variable {q p : Probe} {c : List Tap}

/-- the pins after a bit, and the chain after its clock -/
theorem Low.sendBit_eq (h : Low q p c) (b : UInt8) :
    jtagSendBit p b =
      { p with
        tms := b &&& tmsFlag ≠ 0
        tdi := b &&& 1 ≠ 0
        chain := cycle (b &&& tmsFlag ≠ 0) (b &&& 1 ≠ 0) c } := by
  obtain ⟨tck, tms, tdi, chain, pull, ubtn⟩ := p
  obtain ⟨rfl, rfl, -, -⟩ := h
  unfold jtagSendBit
  split_ifs with hm hd hd
  · rw [decide_eq_true hm, decide_eq_true hd]
    rfl
  · rw [decide_eq_true hm, decide_eq_false hd]
    rfl
  · rw [decide_eq_false hm, decide_eq_true hd]
    rfl
  · rw [decide_eq_false hm, decide_eq_false hd]
    rfl

/-- a bit sent is a cycle -/
theorem Low.sendBit (h : Low q p c) (b : UInt8) :
    Low q (jtagSendBit p b) (cycle (b &&& tmsFlag ≠ 0) (b &&& 1 ≠ 0) c) := by
  rw [h.sendBit_eq]
  exact ⟨h.tck, rfl, h.pull, h.ubtn⟩

theorem Low.sendZero (h : Low q p c) : Low q (jtagSendBit p 0) (cycle false false c) := h.sendBit 0
theorem Low.sendTms (h : Low q p c) :
    Low q (jtagSendBit p (0 ||| tmsFlag)) (cycle true false c) := h.sendBit _
theorem Low.sendOneTms (h : Low q p c) :
    Low q (jtagSendBit p (1 ||| tmsFlag)) (cycle true true c) := h.sendBit _

theorem Low.tdiHigh (h : Low q p c) : Low q (jtagTdiHigh p) c := ⟨h.tck, h.chain, h.pull, h.ubtn⟩

theorem Low.sendBits (h : Low q p c) (b : UInt8) (k : Nat) :
    Low q ((fun p => jtagSendBit p b)^[k] p)
      ((cycle (b &&& tmsFlag ≠ 0) (b &&& 1 ≠ 0))^[k] c) := by
  induction k with
  | zero => exact h
  | succ k ih =>
    rw [Function.iterate_succ_apply', Function.iterate_succ_apply']
    exact ih.sendBit b

theorem Low.sendZeros (h : Low q p c) (k : Nat) :
    Low q ((fun p => jtagSendBit p 0)^[k] p) ((cycle false false)^[k] c) := h.sendBits 0 k

theorem Low.sendOnes (h : Low q p c) (k : Nat) :
    Low q ((fun p => jtagSendBit p 1)^[k] p) ((cycle false true)^[k] c) := h.sendBits 1 k

/-- the first bit may find TCK high: then there is no rising edge -/
theorem sendBit_first (q : Probe) (b : UInt8) :
    ∃ c, Low q (jtagSendBit q b) c ∧ c.map Tap.device = q.chain.map Tap.device := by
  obtain ⟨tck, tms, tdi, chain, pull, ubtn⟩ := q
  cases tck with
  | false =>
    have hlow :
        Low ⟨false, tms, tdi, chain, pull, ubtn⟩ ⟨false, tms, tdi, chain, pull, ubtn⟩ chain :=
      ⟨rfl, rfl, rfl, rfl⟩
    exact ⟨_, hlow.sendBit b, cycle_devices ..⟩
  | true =>
    refine ⟨fallAll chain, ?_, fallAll_devices chain⟩
    unfold jtagSendBit
    split_ifs <;> exact ⟨rfl, rfl, rfl, rfl⟩

/-! ## the stages -/

/-- six of the seven clocks reset the chain, whatever TCK was -/
theorem resetState_low (q : Probe) :
    ∃ c, Low q (jtagResetState q) c ∧ AllIn .testLogicReset c ∧
      c.map Tap.device = q.chain.map Tap.device ∧
      ∀ t ∈ c, t.instruction = t.device.resetInstruction := by
  obtain ⟨c, hlow, hdevices⟩ := sendBit_first q (0 ||| tmsFlag)
  have hsix := hlow.sendBits (0 ||| tmsFlag) 6
  have hreset := allIn_reset false c
  refine ⟨(cycle true false)^[6] c, ⟨hsix.tck, hsix.chain, hsix.pull, hsix.ubtn⟩, ?_, ?_, ?_⟩
  · rw [Function.iterate_succ_apply']
    exact hreset.cycle true false
  · rw [cycle_iterate_devices, hdevices]
  · rw [Function.iterate_succ_apply']
    exact instruction_reset hreset rfl false

theorem shiftIr_entered (h : AllIn .testLogicReset c) :
    Shifting .shiftIr Tap.ir
      (cycle false false (cycle false false (cycle true false (cycle true false
        (cycle false false c))))) := by
  have hcapture := (((h.cycle false false).cycle true false).cycle true false).cycle false false
  exact shiftState_ir.enter (hcapture.riseAll false false) fun t _ => ir_ne_nil t

/-- ones for instruction registers of at most 1000 bits -/
theorem fillIr_full (h : Shifting .shiftIr Tap.ir c) (hir : irTotal c ≤ 1000) :
    ∀ t ∈ cycle true true ((cycle false true)^[999] c),
      t.ir = List.replicate t.device.irLength true := by
  obtain ⟨hshift, hjoined⟩ := shiftState_ir.shifts h true 999
  have hfull : joined Tap.ir (cycle true true ((cycle false true)^[999] c)) =
      List.replicate (irTotal c) true := by
    rw [shiftState_ir.joined_cycle hshift, hjoined,
      ← Function.iterate_succ_apply' (shiftIn true) 999,
      shiftIn_full (by rwa [joined_ir_length]), joined_ir_length]
  intro t ht
  rw [← t.ir_length]
  exact full_of_joined hfull t ht

theorem shiftDr_entered (h : AllIn .exit1Ir c)
    (hir : ∀ t ∈ c, t.ir = List.replicate t.device.irLength true) :
    let c' := cycle false false (cycle false false (cycle true false (cycle true false c)))
    (∀ t ∈ c', t.Bypassed) ∧ Shifting .shiftDr Tap.dr c' ∧
      joined Tap.dr c' = List.replicate c.length false := by
  intro c'
  have hupdate := bypassed_update h hir false
  have hselect := bypassed_cycle true (h.cycle true false) hupdate (by decide) (by decide) false
  have hin := ((h.cycle true false).cycle true false).cycle false false
  have hcapture := bypassed_cycle false ((h.cycle true false).cycle true false) hselect
    (by decide) (by decide) false
  have hdr := capture_bypass hin hcapture false false
  refine ⟨bypassed_cycle false hin hcapture (by decide) (by decide) false,
    shiftState_dr.enter (hin.riseAll false false) fun t ht => ?_, ?_⟩
  · rw [hdr t ht]
    exact List.cons_ne_nil false []
  · show joined Tap.dr (fallAll (riseAll false false _)) = _
    rw [joined_fallAll shiftState_dr.fall, joined_bits hdr, riseAll_length, cycle_length,
      cycle_length, cycle_length]

theorem selectBypass_low (h : Low q p c) (hreset : AllIn .testLogicReset c)
    (hir : irTotal c ≤ 1000) :
    ∃ c', Low q (selectBypass p) c' ∧ (∀ t ∈ c', t.Bypassed) ∧ Shifting .shiftDr Tap.dr c' ∧
      joined Tap.dr c' = List.replicate c.length false ∧ c'.length = c.length := by
  have hin := shiftIr_entered hreset
  have hlow := (((((h.sendZero.sendTms.sendTms.sendZero.sendZero).sendOnes 999).sendOneTms).sendTms
    ).sendTms).sendZero.sendZero
  have hfull := fillIr_full hin (by simpa only [irTotal_cycle] using hir)
  have hexit := (shiftState_ir.shifts hin true 999).1.allIn.cycle true true
  obtain ⟨hbypassed, hshift, hjoined⟩ := shiftDr_entered hexit hfull
  refine ⟨_, hlow, hbypassed, hshift, hjoined.trans ?_, ?_⟩
  · simp only [cycle_length, cycle_iterate_length]
  · simp only [cycle_length, cycle_iterate_length]

/-! ## the count -/

theorem Low.sendBit_tms (h : Low q p c) (b : UInt8) :
    (jtagSendBit p b).tms = decide (b &&& tmsFlag ≠ 0) := by rw [h.sendBit_eq]

theorem Low.sendBits_tms (h : Low q p c) (b : UInt8) {k : Nat} (hk : 0 < k) :
    ((fun p => jtagSendBit p b)^[k] p).tms = decide (b &&& tmsFlag ≠ 0) := by
  obtain ⟨k, rfl⟩ := Nat.exists_eq_add_of_le' hk
  rw [Function.iterate_succ_apply']
  exact (h.sendBits b k).sendBit_tms b

/-- `k` ones have been shifted into BYPASS registers, and `m` of their zeros are left -/
structure Counting (q p : Probe) (k m : Nat) (c : List Tap) : Prop where
  low : Low q p c
  tms : p.tms = false
  tdi : p.tdi = true
  shifting : Shifting .shiftDr Tap.dr c
  zeros : joined Tap.dr c = List.replicate k true ++ List.replicate m false

theorem Low.counting (h : Low q p c) (htms : p.tms = false) (hshift : Shifting .shiftDr Tap.dr c)
    {n : Nat} (hzeros : joined Tap.dr c = List.replicate n false) :
    Counting q (jtagTdiHigh p) 0 n c := ⟨h.tdiHigh, htms, rfl, hshift, hzeros⟩

theorem fillDr_low (h : Low q p c) : Low q (fillDr p) ((cycle false false)^[1000] c) :=
  h.sendZeros 1000

theorem fillDr_tms (h : Low q p c) : (fillDr p).tms = false :=
  h.sendBits_tms 0 (by decide : 0 < 1000)

theorem fillDr_counting (h : Low q p c) (hshift : Shifting .shiftDr Tap.dr c) {n : Nat}
    (hzeros : joined Tap.dr c = List.replicate n false) :
    ∃ c', Counting q (jtagTdiHigh (fillDr p)) 0 n c' ∧ c'.length = c.length := by
  obtain ⟨hshift', hjoined⟩ := shiftState_dr.shifts hshift false 1000
  rw [hzeros, Function.iterate_fixed (shiftIn_replicate false n)] at hjoined
  exact ⟨_, (fillDr_low h).counting (fillDr_tms h) hshift' hjoined, cycle_iterate_length ..⟩

/-- a bit is read between the two edges, when the registers have moved and TDO has not -/
theorem Counting.read {k m : Nat} (h : Counting q p k m c) :
    (jtagReadBitClock p).1 =
        ((c.map Tap.tdo).getLast?).getD (q.pull.getD true) ∧
      (jtagReadBitClock p).2 = { p with chain := cycle false true c } := by
  obtain ⟨tck, tms, tdi, chain, pull, ubtn⟩ := p
  obtain ⟨⟨rfl, rfl, hpull, hubtn⟩, rfl, rfl, hshift, hzeros⟩ := h
  refine ⟨?_, rfl⟩
  show ((riseAll false true chain).map Tap.tdo).getLast?.getD (pull.getD true) = _
  rw [riseAll_tdo, show pull = q.pull from hpull]

theorem Counting.next {k m : Nat} (h : Counting q p k (m + 1) c) :
    Counting q (jtagReadBitClock p).2 (k + 1) m (cycle false true c) := by
  rw [h.read.2]
  refine ⟨⟨h.low.tck, rfl, h.low.pull, h.low.ubtn⟩, h.tms, h.tdi,
    shiftState_dr.cycle h.shifting true, ?_⟩
  rw [shiftState_dr.joined_cycle h.shifting, h.zeros, shiftIn, List.replicate_succ' (n := m)]
  rw [← List.append_assoc, ← List.cons_append, List.dropLast_concat]
  rfl

/-- the bit that is read -/
theorem Counting.bit {k m : Nat} (h : Counting q p k m c) (hc : c ≠ []) :
    (jtagReadBitClock p).1 = lastBit (List.replicate k true ++ List.replicate m false) := by
  rw [h.read.1, h.shifting.joined.last hc, h.zeros]
  rfl

/-- **The count.**  Each zero left is a device, and the first one ends the loop. -/
theorem Counting.count {k m left : Nat} (h : Counting q p k m c) (hc : c ≠ []) (hk : 0 < k + m)
    (hleft : left + k = maxChainLen) (hm : m < left) (hubtn : ∀ i, q.ubtn i = false) :
    (countDevices left p).1 = k + m := by
  induction m generalizing k left p c with
  | zero =>
    obtain ⟨left, rfl⟩ := Nat.exists_eq_add_of_le' hm
    have hbit : (jtagReadBitClock p).1 = true := by
      rw [h.bit hc, List.replicate_zero, List.append_nil]
      exact lastBit_replicate [] true hk
    unfold countDevices
    simp only [hbit, Bool.not_true, Bool.false_and, Bool.false_eq_true, if_false]
    show maxChainLen - (left + 1) = k
    omega
  | succ m ih =>
    obtain ⟨left, rfl⟩ := Nat.exists_eq_add_of_le' (Nat.lt_of_le_of_lt (Nat.zero_le _) hm)
    have hbit : (jtagReadBitClock p).1 = false := by
      rw [h.bit hc]
      exact lastBit_replicate _ false (Nat.succ_pos m)
    have hbutton : (jtagReadBitClock p).2.ubtn (maxChainLen - (left + 1)) = false := by
      rw [h.next.low.ubtn]
      exact hubtn _
    have hc' : cycle false true c ≠ [] := by
      rw [← List.length_pos_iff, cycle_length, List.length_pos_iff]
      exact hc
    unfold countDevices
    simp only [hbit, hbutton, Bool.not_false, Bool.and_self, if_true]
    rw [ih h.next hc' (by omega) (by omega) (by omega)]
    omega

/-- without a device TDO has one level all the time -/
theorem Counting.count_none {left : Nat} (h : Counting q p 0 0 []) (hubtn : ∀ i, q.ubtn i = false) :
    (countDevices left p).1 = if q.pull.getD true then maxChainLen - left else maxChainLen := by
  induction left generalizing p with
  | zero =>
    unfold countDevices
    split <;> rfl
  | succ left ih =>
    have hbit : (jtagReadBitClock p).1 = q.pull.getD true := h.read.1
    have hnext : Counting q (jtagReadBitClock p).2 0 0 [] := by
      rw [h.read.2]
      exact ⟨⟨h.low.tck, rfl, h.low.pull, h.low.ubtn⟩, h.tms, h.tdi, h.shifting, h.zeros⟩
    have hbutton : (jtagReadBitClock p).2.ubtn (maxChainLen - (left + 1)) = false := by
      rw [hnext.low.ubtn]
      exact hubtn _
    unfold countDevices
    cases hpull : q.pull.getD true with
    | false =>
      simp only [hbit, hpull, hbutton, Bool.not_false, Bool.and_self, if_true]
      rw [ih hnext, hpull]
      rfl
    | true =>
      simp only [hbit, hpull, Bool.not_true, Bool.false_and, Bool.false_eq_true, if_false, if_true]

/-- **The length of a chain.**  The scan takes every TAP through Test-Logic-Reset and loads its
instruction register with ones, and its result is the number of devices. -/
theorem scanBypass_counts (q : Probe) (hn : q.chain.length < maxChainLen)
    (hir : irTotal q.chain ≤ 1000) (hubtn : ∀ i, q.ubtn i = false) :
    AllIn .testLogicReset (jtagResetState q).chain ∧
      (∀ t ∈ (selectBypass (jtagResetState q)).chain, t.Bypassed) ∧
      (jtagScanBypass q).1 = q.chain.length := by
  obtain ⟨c, hlow, hreset, hdevices, -⟩ := resetState_low q
  have htotal := irTotal_devices hdevices
  have hlen : c.length = q.chain.length := by
    have hmap := congrArg List.length hdevices
    rwa [List.length_map, List.length_map] at hmap
  obtain ⟨c', hlow', hbypassed, hshift, hzeros, hlen'⟩ := selectBypass_low hlow hreset (htotal ▸ hir)
  obtain ⟨d, hcount, hlen''⟩ := fillDr_counting hlow' hshift hzeros
  rw [hlen] at hcount
  refine ⟨hlow.chain ▸ hreset, hlow'.chain ▸ hbypassed, ?_⟩
  have hd : d.length = q.chain.length := by rw [hlen'', hlen', hlen]
  unfold jtagScanBypass
  simp only
  by_cases hnone : d = []
  · rw [hnone, List.length_nil] at hd
    rw [hnone, ← hd] at hcount
    rw [hcount.count_none hubtn, ← hd]
    split_ifs <;> first | rfl | contradiction
  · have hpos : 0 < q.chain.length := hd ▸ List.length_pos_iff.mpr hnone
    rw [hcount.count hnone (by rwa [Nat.zero_add]) (Nat.add_zero maxChainLen) hn hubtn, Nat.zero_add,
      if_neg (Nat.ne_of_lt hn)]

end

/-- a device with an IDCODE register, and an instruction register of four bits -/
def deviceIdcode : Device where
  irLength := 4
  irLength_pos := by decide
  captureIr _ := [false, false, false, true]
  captureIr_length _ := rfl
  captureDr i k := if i = List.replicate 4 true then [false] else (List.range 32).map (Nat.testBit k)
  bypass _ := rfl
  resetInstruction := [false, false, true, false]
  undriven k := k % 2 = 0

def tapPausing : Tap := ⟨deviceIdcode, .pauseDr, 0, [true, false, true, true], rfl, [], [true], true⟩
def tapShifting : Tap := ⟨deviceIdcode, .shiftIr, 7, [false, false, false, true], rfl, [], [], false⟩

def probeOfTwo : Probe := ⟨true, false, true, [tapPausing, tapShifting], none, fun _ => false⟩

theorem scanBypass_counts_two :
    AllIn .testLogicReset (jtagResetState probeOfTwo).chain ∧
      (∀ t ∈ (selectBypass (jtagResetState probeOfTwo)).chain, t.Bypassed) ∧
      (jtagScanBypass probeOfTwo).1 = 2 :=
  scanBypass_counts probeOfTwo (by decide) (by decide) fun _ => rfl

end Jtag
end Hydra
