import Mathlib.Data.List.Forall2
import HydraFw.Lib.Layouts
import HydraFw.Lib.Loops
import HydraFw.Jtag.Pins
import HydraFw.Jtag.Wires

/-!
# The IDCODEs of a JTAG chain

`jtag_print_idcodes` with `jtag_read_u32` (`hydrabus_mode_jtag.c`), on a chain that is wired to the
configured pins.

* `rawwireBitLsbMsb`     the bit order that is read, through another member of the configuration
                         union (`mode_config.h`), `rawwireBitLsbMsb_eq` what it is;
* `jtagReadU32`, `jtagPrintIdcodes`   the functions, over any wires;
* `Port`                 the pins of the port, with a chain on those of a configuration;
* `Listing`, `Lists`     a chain with valid IDCODEs, and the law;
* `hom_port`             distinct pins make the port a `Probe`;
* `Reading`              the registers while they are read, `Reading.readBits` a part of them;
* `lists_iff`            the IDCODEs are listed unless TMS is on PB1, or the button is pressed.
-/

namespace Hydra
namespace Jtag
open Taps Loops Layouts

/-! ## the configuration union -/

/-- the size of an `enum` -/
inductive EnumSize where
  | one | two | four

def EnumSize.bytes : EnumSize → Nat
  | .one => 1
  | .two => 2
  | .four => 4

def GpioMode.value : GpioMode → UInt8
  | .input => 0
  | .outPushpull => 1
  | .outOpendrain => 2

def GpioPull.value : GpioPull → UInt8
  | .noPull => 0
  | .pullUp => 1
  | .pullDown => 2

def enumBytes (e : EnumSize) (v : UInt8) : List UInt8 := v :: List.replicate (e.bytes - 1) 0

/-- the members of `jtag_config_t` -/
def JtagConfig.members (e : EnumSize) (c : JtagConfig) : List (List UInt8) :=
  [enumBytes e c.devGpioMode.value, enumBytes e c.devGpioPull.value, [c.devBitLsbMsb], [c.divider],
    [c.tdiPin], [c.tdoPin], [c.tmsPin], [c.tckPin], [c.trstPin]]

def jtagSizes (e : EnumSize) : List Nat := [e.bytes, e.bytes, 1, 1, 1, 1, 1, 1, 1]

/-- the sizes of the members of `rawwire_config_t` -/
def rawwireSizes (e : EnumSize) : List Nat := [4, e.bytes, e.bytes, 1, 1, 1, 1]

/-- `config.rawwire.dev_bit_lsb_msb`, where the union holds a `jtag_config_t` -/
def JtagConfig.rawwireBitLsbMsb (e : EnumSize) (c : JtagConfig) : UInt8 :=
  (image 0 0 (c.members e)).getD ((starts 0 (rawwireSizes e)).getD 3 0) 0

/-- this is the pin of TMS -/
theorem rawwireBitLsbMsb_eq (e : EnumSize) (c : JtagConfig) : c.rawwireBitLsbMsb e = c.tmsPin := by
  have hsizes : (c.members e).map List.length = jtagSizes e := by cases e <;> rfl
  obtain ⟨start, hraw, hjtag⟩ : ∃ start, (starts 0 (rawwireSizes e))[3]? = some start ∧
      (starts 0 (jtagSizes e))[6]? = some start := by
    cases e <;> exact ⟨_, rfl, rfl⟩
  rw [← hsizes] at hjtag
  have hne : ∀ m ∈ c.members e, m ≠ [] := by
    simp [JtagConfig.members, enumBytes]
  obtain ⟨-, tail, htail⟩ := @member_image UInt8 0 _ hne 0 6 start [c.tmsPin] rfl hjtag
  have hget := @List.getElem?_drop UInt8 (image 0 0 (c.members e)) start 0
  rw [Nat.sub_zero] at htail
  rw [← htail, Nat.add_zero] at hget
  rw [JtagConfig.rawwireBitLsbMsb, List.getD_eq_getElem?_getD, List.getD_eq_getElem?_getD, hraw,
    Option.getD_some, ← hget]
  rfl

/-! ## `jtag_print_idcodes` -/

def reverseU32 (value : BitVec 32) : BitVec 32 :=
  let value := (value &&& 0x55555555) <<< 1 ||| (value &&& 0xaaaaaaaa) >>> 1
  let value := (value &&& 0x33333333) <<< 2 ||| (value &&& 0xcccccccc) >>> 2
  let value := (value &&& 0x0f0f0f0f) <<< 4 ||| (value &&& 0xf0f0f0f0) >>> 4
  let value := (value &&& 0x00ff00ff) <<< 8 ||| (value &&& 0xff00ff00) >>> 8
  value <<< 16 ||| value >>> 16

section
variable {σ : Type} (w : Wires σ)

/-- the loop of `jtag_read_u32`, from bit `i` on -/
def readBitsInto : Nat → Nat → BitVec 32 → σ → BitVec 32 × σ
  | 0, _, value, s => (value, s)
  | n + 1, i, value, s =>
    let (bit, s) := w.readBitClock s
    readBitsInto n (i + 1) (value ||| (BitVec.ofBool bit).setWidth 32 <<< i) s

def jtagReadU32 (bitLsbMsb : UInt8) (s : σ) : BitVec 32 × σ :=
  let read := readBitsInto w 32 0 0 s
  (if bitLsbMsb = firstbitMsb then reverseU32 read.1 else read.1, read.2)

structure Printing (σ : Type) where
  idcode : BitVec 32
  target : σ
  printed : List (BitVec 32)

/-- bit 0 of an IDCODE is 1 -/
def ValidIdcode (idcode : BitVec 32) : Prop := idcode ≠ 0xffffffff ∧ idcode &&& 0x1 ≠ 0

instance (idcode : BitVec 32) : Decidable (ValidIdcode idcode) :=
  inferInstanceAs (Decidable (_ ∧ _))

def Printing.more (ubtn : Nat → Bool) (p : Printing σ) : Bool :=
  ValidIdcode p.idcode && !ubtn p.printed.length

def Printing.pass (bitLsbMsb : UInt8) (p : Printing σ) : Printing σ :=
  let next := jtagReadU32 w bitLsbMsb p.target
  ⟨next.1, next.2, p.printed ++ [p.idcode]⟩

/-- Test-Logic-Reset, and the way to Shift-DR -/
def enterShiftDr (s : σ) : σ :=
  let s := w.resetState s
  let s := w.sendBit s 0
  let s := w.sendBit s (0 ||| tmsFlag)
  let s := w.sendBit s 0
  w.sendBit s 0

/-- at most `fuel` passes of the loop; `ubtn k` is the button when `k` IDCODEs have been printed -/
def jtagPrintIdcodes (bitLsbMsb : UInt8) (ubtn : Nat → Bool) (fuel : Nat) (s : σ) : Printing σ :=
  let first := jtagReadU32 w bitLsbMsb (enterShiftDr w s)
  whileN (Printing.more ubtn) (Printing.pass w bitLsbMsb) fuel ⟨first.1, first.2, []⟩

end

/-! ## the port -/

/-- port B, of which some pins are wired to a chain -/
structure Port where
  level : UInt8 → Bool
  chain : List Tap
  /-- the level of TDO without a device: wired to TDI, or pulled -/
  pull : Option Bool

/-- `bsp_gpio_set`, `bsp_gpio_clr` -/
def Port.drive (c : JtagConfig) (pin : UInt8) (b : Bool) (p : Port) : Port :=
  let level := Function.update p.level pin b
  let chain :=
    if pin = c.tckPin ∧ b ≠ p.level pin then
      if b then riseAll (level c.tmsPin) (level c.tdiPin) p.chain else fallAll p.chain
    else p.chain
  { p with level := level, chain := chain }

/-- `bsp_gpio_pin_read` -/
def Port.read (c : JtagConfig) (pin : UInt8) (p : Port) : Bool :=
  if pin = c.tdoPin then (p.chain.map Tap.tdo).getLast?.getD (p.pull.getD (p.level c.tdiPin))
  else p.level pin

/-- the pin functions with the configured pins -/
def portWires (c : JtagConfig) : Wires Port where
  tms b p := p.drive c c.tmsPin b
  tdi b p := p.drive c c.tdiPin b
  tck b p := p.drive c c.tckPin b
  tdo p := p.read c c.tdoPin

/-! ## the law -/

/-- the bits of a word, the first one first -/
def wordBits (code : BitVec 32) : List Bool := (List.range 32).map code.getLsbD

theorem wordBits_length (code : BitVec 32) : (wordBits code).length = 32 := by
  rw [wordBits, List.length_map, List.length_range]

/-- after a reset Capture-DR loads the IDCODE, its bit 0 at the TDO end -/
def HasIdcode (d : Device) (code : BitVec 32) : Prop :=
  ∀ k, d.captureDr d.resetInstruction k = (wordBits code).reverse

/-- a chain of devices with valid IDCODEs on distinct pins, and the bit order left as it is -/
structure Listing where
  enumSize : EnumSize
  config : JtagConfig
  port : Port
  ubtn : Nat → Bool
  /-- from TDI to TDO -/
  codes : List (BitVec 32)
  distinct : config.pins.Nodup
  accepted : jtagPinValid config = true
  lsbFirst : config.devBitLsbMsb = firstbitLsb
  idcodes : List.Forall₂ HasIdcode (port.chain.map Tap.device) codes
  valid : ∀ code ∈ codes, ValidIdcode code

def Listing.run (s : Listing) (fuel : Nat) : Printing Port :=
  jtagPrintIdcodes (portWires s.config) (s.config.rawwireBitLsbMsb s.enumSize) s.ubtn fuel s.port

structure Lists (s : Listing) : Prop where
  /-- the loop ends, and from TDO on every IDCODE has been printed -/
  printed : ∃ fuel, (s.run fuel).more s.ubtn = false ∧ (s.run fuel).printed = s.codes.reverse
  /-- the bit order is the configured one -/
  order : s.config.rawwireBitLsbMsb s.enumSize = firstbitMsb ↔ s.config.devBitLsbMsb = firstbitMsb

/-! ## the port as a probe -/

/-- what the chain sees of the port -/
def Port.view (c : JtagConfig) (p : Port) : Probe where
  tck := p.level c.tckPin
  tms := p.level c.tmsPin
  tdi := p.level c.tdiPin
  chain := p.chain
  pull := p.pull
  ubtn _ := false

/-- distinct pins are accepted -/
theorem valid_of_nodup {c : JtagConfig} (h : c.pins.Nodup) : jtagPinValid c = true := by
  rw [jtagPinValid_iff]
  exact h.imp fun hne heq => absurd heq hne

theorem hom_port {c : JtagConfig} (h : c.pins.Nodup) : Hom (portWires c) probe (Port.view c) := by
  simp only [JtagConfig.pins, List.nodup_cons, List.mem_cons, not_or] at h
  obtain ⟨⟨htms, htdi, -⟩, ⟨htmstdi, -⟩, -⟩ := h
  refine ⟨?_, ?_, ?_, ?_⟩
  · intro b p
    show Port.view c (p.drive c c.tmsPin b) = _
    unfold Port.drive
    dsimp only
    rw [if_neg fun hand => htms hand.1.symm]
    cases b <;> simp [Port.view, probe, jtagTmsHigh, jtagTmsLow, htms, Ne.symm htmstdi]
  · intro b p
    show Port.view c (p.drive c c.tdiPin b) = _
    unfold Port.drive
    dsimp only
    rw [if_neg fun hand => htdi hand.1.symm]
    cases b <;> simp [Port.view, probe, jtagTdiHigh, jtagTdiLow, htdi, htmstdi]
  · intro b p
    show Port.view c (p.drive c c.tckPin b) = _
    have htck : ∀ b, Function.update p.level c.tckPin b c.tmsPin = p.level c.tmsPin ∧
        Function.update p.level c.tckPin b c.tdiPin = p.level c.tdiPin := fun b =>
      ⟨Function.update_of_ne (Ne.symm htms) b p.level,
        Function.update_of_ne (Ne.symm htdi) b p.level⟩
    unfold Port.drive Port.view probe jtagClkHigh jtagClkLow
    cases b <;> cases p.level c.tckPin <;> simp [htck]
  · intro p
    exact if_pos rfl

/-! ## the functions respect views -/

section
variable {σ τ : Type} {w : Wires σ} {w' : Wires τ} {view : σ → τ}

theorem readBitsInto_succ (n i : Nat) (value : BitVec 32) (s : σ) :
    readBitsInto w (n + 1) i value s =
      readBitsInto w n (i + 1) (value ||| (BitVec.ofBool (w.readBitClock s).1).setWidth 32 <<< i)
        (w.readBitClock s).2 := rfl

theorem readBitsInto_hom (h : Hom w w' view) (n i : Nat) (value : BitVec 32) (s : σ) :
    (readBitsInto w n i value s).1 = (readBitsInto w' n i value (view s)).1 ∧
      view (readBitsInto w n i value s).2 = (readBitsInto w' n i value (view s)).2 := by
  induction n generalizing i value s with
  | zero => exact ⟨rfl, rfl⟩
  | succ n ih =>
    obtain ⟨hbit, hnext⟩ := h.readBitClock s
    rw [readBitsInto_succ, readBitsInto_succ, ← hbit, ← hnext]
    exact ih (i + 1) _ _

theorem jtagReadU32_hom (h : Hom w w' view) (bitLsbMsb : UInt8) (s : σ) :
    (jtagReadU32 w bitLsbMsb s).1 = (jtagReadU32 w' bitLsbMsb (view s)).1 ∧
      view (jtagReadU32 w bitLsbMsb s).2 = (jtagReadU32 w' bitLsbMsb (view s)).2 := by
  obtain ⟨hvalue, hnext⟩ := readBitsInto_hom h 32 0 0 s
  unfold jtagReadU32
  dsimp only
  rw [hvalue]
  exact ⟨rfl, hnext⟩

/-- what is printed, with the view of the target -/
def Printing.map (view : σ → τ) (p : Printing σ) : Printing τ :=
  ⟨p.idcode, view p.target, p.printed⟩

theorem jtagPrintIdcodes_hom (h : Hom w w' view) (bitLsbMsb : UInt8) (ubtn : Nat → Bool)
    (fuel : Nat) (s : σ) :
    (jtagPrintIdcodes w bitLsbMsb ubtn fuel s).map view =
      jtagPrintIdcodes w' bitLsbMsb ubtn fuel (view s) := by
  have henter : view (enterShiftDr w s) = enterShiftDr w' (view s) := by
    unfold enterShiftDr
    rw [h.sendBit, h.sendBit, h.sendBit, h.sendBit, h.resetState]
  obtain ⟨hfirst, hnext⟩ := jtagReadU32_hom h bitLsbMsb (enterShiftDr w s)
  have hloop : ∀ p : Printing σ, (whileN (Printing.more ubtn) (Printing.pass w bitLsbMsb) fuel
      p).map view = whileN (Printing.more ubtn) (Printing.pass w' bitLsbMsb) fuel (p.map view) := by
    intro p
    apply whileN_map
    · intro q
      rfl
    · intro q
      obtain ⟨hvalue, htarget⟩ := jtagReadU32_hom h bitLsbMsb q.target
      show Printing.mk (jtagReadU32 w bitLsbMsb q.target).1
          (view (jtagReadU32 w bitLsbMsb q.target).2) (q.printed ++ [q.idcode]) =
        ⟨(jtagReadU32 w' bitLsbMsb (view q.target)).1, (jtagReadU32 w' bitLsbMsb (view q.target)).2,
          q.printed ++ [q.idcode]⟩
      rw [hvalue, htarget]
  rw [henter] at hfirst hnext
  unfold jtagPrintIdcodes
  dsimp only
  rw [← hfirst, ← hnext]
  exact hloop _

end

/-! ## the bits of a word -/

section
variable {σ : Type} {w : Wires σ}

/-- bits as they are read -/
def Wires.readBits (w : Wires σ) : Nat → σ → List Bool × σ
  | 0, s => ([], s)
  | n + 1, s =>
    let rest := w.readBits n (w.readBitClock s).2
    ((w.readBitClock s).1 :: rest.1, rest.2)

theorem readBitsInto_eq (n i : Nat) (value : BitVec 32) (s : σ) :
    (readBitsInto w n i value s).2 = (w.readBits n s).2 ∧
      ∀ j < 32, (readBitsInto w n i value s).1.getLsbD j =
        (value.getLsbD j || (decide (i ≤ j) && (w.readBits n s).1.getD (j - i) false)) := by
  induction n generalizing i value s with
  | zero =>
    refine ⟨rfl, fun j hj => ?_⟩
    show value.getLsbD j = (value.getLsbD j || (decide (i ≤ j) && false))
    rw [Bool.and_false, Bool.or_false]
  | succ n ih =>
    obtain ⟨hnext, hbits⟩ := ih (i + 1)
      (value ||| (BitVec.ofBool (w.readBitClock s).1).setWidth 32 <<< i) (w.readBitClock s).2
    rw [readBitsInto_succ]
    refine ⟨hnext, fun j hj => ?_⟩
    rw [hbits j hj, BitVec.getLsbD_or, BitVec.getLsbD_shiftLeft, BitVec.getLsbD_setWidth,
      BitVec.getLsbD_ofBool, Wires.readBits]
    rcases Nat.lt_trichotomy j i with hlt | rfl | hgt
    · simp [hlt, Nat.not_le.mpr hlt, Nat.not_le.mpr (Nat.lt_succ_of_lt hlt)]
    · simp [hj]
    · obtain ⟨k, rfl⟩ := Nat.exists_eq_add_of_lt hgt
      have hsub : i + k + 1 - i = k + 1 := by omega
      have hsub' : i + k + 1 - (i + 1) = k := by omega
      have hle : i ≤ i + k + 1 := by omega
      have hle' : i + 1 ≤ i + k + 1 := by omega
      simp [hsub, hsub', hle, hle']

/-- a word that is read bit by bit -/
theorem readWord {code : BitVec 32} {s : σ} (h : (w.readBits 32 s).1 = wordBits code) :
    readBitsInto w 32 0 0 s = (code, (w.readBits 32 s).2) := by
  obtain ⟨hnext, hbits⟩ := readBitsInto_eq (w := w) 32 0 0 s
  apply Prod.ext
  · apply BitVec.eq_of_getLsbD_eq
    intro j hj
    rw [hbits j hj, h, wordBits, List.getD_eq_getElem?_getD, List.getElem?_map, Nat.sub_zero,
      List.getElem?_range hj]
    simp
  · exact hnext

end

/-! ## reading the registers -/

section
variable {q p : Probe} {c : List Tap} {r : List Bool}

/-- the registers `r` are read, TDI low -/
structure Reading (q p : Probe) (r : List Bool) (c : List Tap) : Prop where
  low : Low q p c
  tms : p.tms = false
  tdi : p.tdi = false
  shifting : Shifting .shiftDr Tap.dr c
  joined : joined Tap.dr c = r

theorem Reading.clock (h : Reading q p r c) :
    (probe.readBitClock p).1 = ((c.map Tap.tdo).getLast?).getD (q.pull.getD false) ∧
      Reading q (probe.readBitClock p).2 (shiftIn false r) (cycle false false c) := by
  obtain ⟨tck, tms, tdi, chain, pull, ubtn⟩ := p
  obtain ⟨⟨rfl, rfl, hpull, hubtn⟩, rfl, rfl, hshift, rfl⟩ := h
  refine ⟨?_, ⟨rfl, rfl, hpull, hubtn⟩, rfl, rfl, shiftState_dr.cycle hshift false,
    shiftState_dr.joined_cycle hshift false false⟩
  show ((riseAll false false chain).map Tap.tdo).getLast?.getD (pull.getD false) = _
  rw [riseAll_tdo, show pull = q.pull from hpull]

/-- the bits at the TDO end, while zeros follow from TDI -/
theorem Reading.readBits {bs r : List Bool} (h : Reading q p (r ++ bs.reverse) c) (hc : c ≠ []) :
    (probe.readBits bs.length p).1 = bs ∧
      ∃ d, d ≠ [] ∧
        Reading q (probe.readBits bs.length p).2 (List.replicate bs.length false ++ r) d := by
  induction bs generalizing p r c with
  | nil =>
    rw [List.reverse_nil, List.append_nil] at h
    exact ⟨rfl, c, hc, h⟩
  | cons b bs ih =>
    obtain ⟨hbit, hnext⟩ := h.clock
    have hlast : lastBit (r ++ (b :: bs).reverse) = b := by
      rw [List.reverse_cons, ← List.append_assoc]
      exact List.getLastD_concat
    have hshift : shiftIn false (r ++ (b :: bs).reverse) = (false :: r) ++ bs.reverse := by
      rw [List.reverse_cons, ← List.append_assoc, shiftIn, ← List.cons_append, List.dropLast_concat,
        List.cons_append]
    rw [h.shifting.joined.last hc, h.joined, hlast] at hbit
    rw [hshift] at hnext
    have hc' : cycle false false c ≠ [] := by
      rw [← List.length_pos_iff, cycle_length, List.length_pos_iff]
      exact hc
    obtain ⟨hbits, d, hd, hrest⟩ := ih hnext hc'
    refine ⟨?_, d, hd, ?_⟩
    · show (probe.readBitClock p).1 :: _ = _
      rw [hbit, hbits]
      rfl
    · rw [List.length_cons, List.replicate_succ', List.append_assoc]
      exact hrest

/-- without a device TDO keeps its level -/
theorem Reading.readBits_none (h : Reading q p r []) (n : Nat) :
    (probe.readBits n p).1 = List.replicate n (q.pull.getD false) := by
  induction n generalizing p r with
  | zero => rfl
  | succ n ih =>
    obtain ⟨hbit, hnext⟩ := h.clock
    show (probe.readBitClock p).1 :: _ = _
    rw [hbit, ih hnext]
    rfl

/-- Capture-DR loads the IDCODEs -/
theorem capture_idcodes {codes : List (BitVec 32)} (h : AllIn .captureDr c)
    (hreset : ∀ t ∈ c, t.instruction = t.device.resetInstruction)
    (hcodes : List.Forall₂ HasIdcode (c.map Tap.device) codes) (tms tdi : Bool) :
    Taps.joined Tap.dr (riseAll tms tdi c) = (codes.reverse.flatMap wordBits).reverse ∧
      ∀ t ∈ riseAll tms tdi c, t.dr ≠ [] := by
  induction c generalizing codes tdi with
  | nil =>
    cases hcodes
    exact ⟨rfl, fun t ht => absurd ht List.not_mem_nil⟩
  | cons t c ih =>
    obtain ⟨hstate, hstates⟩ := List.forall_mem_cons.mp h
    obtain ⟨hfirst, hrest⟩ := List.forall_mem_cons.mp hreset
    cases hcodes with
    | @cons _ code _ codes hcode hcodes =>
      obtain ⟨hjoined, hne⟩ := ih hstates hrest hcodes t.tdo
      have hdr : (t.rise tms tdi).dr = (wordBits code).reverse := by
        show t.drNext tdi = _
        rw [Tap.drNext, hstate]
        show t.device.captureDr t.instruction t.clocks = _
        rw [hfirst, hcode]
      refine ⟨?_, List.forall_mem_cons.mpr ⟨?_, hne⟩⟩
      · show (t.rise tms tdi).dr ++ Taps.joined Tap.dr (riseAll tms t.tdo c) = _
        rw [hdr, hjoined, List.reverse_cons, List.flatMap_append, List.reverse_append,
          List.flatMap_singleton]
      · rw [hdr]
        exact List.ne_nil_of_length_pos (by simp [wordBits])

/-- in Shift-DR the IDCODEs are read, that of the last device first -/
theorem enterShiftDr_reading (q : Probe) {codes : List (BitVec 32)}
    (hcodes : List.Forall₂ HasIdcode (q.chain.map Tap.device) codes) :
    ∃ c, Reading q (enterShiftDr probe q) (codes.reverse.flatMap wordBits).reverse c ∧
      c.length = q.chain.length := by
  obtain ⟨c, hlow, hin, hdevices, hreset⟩ := resetState_low q
  have hsent := hlow.sendZero.sendTms.sendZero
  have hkept : ∀ t ∈ cycle false false (cycle true false (cycle false false c)),
      t.instruction = t.device.resetInstruction := by
    have hidle := instruction_cycle (P := fun d i => i = d.resetInstruction) false hin hreset
      (by decide) (by decide) false
    have hselect := instruction_cycle (P := fun d i => i = d.resetInstruction) true
      (hin.cycle false false) hidle (by decide) (by decide) false
    exact instruction_cycle (P := fun d i => i = d.resetInstruction) false
      ((hin.cycle false false).cycle true false) hselect (by decide) (by decide) false
  have hcapture := ((hin.cycle false false).cycle true false).cycle false false
  have hsame : (cycle false false (cycle true false (cycle false false c))).map Tap.device =
      q.chain.map Tap.device := by
    rw [cycle_devices, cycle_devices, cycle_devices, hdevices]
  obtain ⟨hjoined, hne⟩ := capture_idcodes hcapture hkept (hsame.symm ▸ hcodes) false false
  have henter : enterShiftDr probe q =
      jtagSendBit (jtagSendBit (jtagSendBit (jtagSendBit (jtagResetState q) 0) (0 ||| tmsFlag)) 0)
        0 := by
    unfold enterShiftDr
    rw [probe_resetState, probe_sendBit, probe_sendBit, probe_sendBit, probe_sendBit]
  have hlast := hsent.sendBit_eq 0
  refine ⟨_, ⟨?_, ?_, ?_, shiftState_dr.enter (hcapture.riseAll false false) hne, ?_⟩, ?_⟩
  · rw [henter]
    exact hsent.sendZero
  · rw [henter, hlast]
    rfl
  · rw [henter, hlast]
    rfl
  · rw [joined_fallAll shiftState_dr.fall, hjoined]
  · have hmap := congrArg List.length hsame
    rw [List.length_map, List.length_map] at hmap
    rw [fallAll_length, riseAll_length, hmap]

/-! ## the loop -/

theorem more_invalid {σ : Type} {ubtn : Nat → Bool} {st : Printing σ}
    (h : ¬ ValidIdcode st.idcode) : st.more ubtn = false := by
  rw [Printing.more, decide_eq_false h, Bool.false_and]

theorem Reading.readU32 {code : BitVec 32} {bitLsbMsb : UInt8} (hlsb : bitLsbMsb ≠ firstbitMsb)
    (h : Reading q p (r ++ (wordBits code).reverse) c) (hc : c ≠ []) :
    (jtagReadU32 probe bitLsbMsb p).1 = code ∧
      ∃ d, d ≠ [] ∧
        Reading q (jtagReadU32 probe bitLsbMsb p).2 (List.replicate 32 false ++ r) d := by
  have hbits := h.readBits hc
  rw [wordBits_length] at hbits
  obtain ⟨hbits, d, hd, hrest⟩ := hbits
  have hword := readWord (w := probe) (s := p) hbits
  unfold jtagReadU32
  dsimp only
  rw [if_neg hlsb, hword]
  refine ⟨rfl, d, hd, ?_⟩
  dsimp only
  exact hrest

/-- **The loop.**  It prints the word that has been read and those in the registers, and the zeros
behind them end it. -/
theorem Reading.prints {bitLsbMsb : UInt8} (hlsb : bitLsbMsb ≠ firstbitMsb) {ubtn : Nat → Bool}
    {code : BitVec 32} {rest printed : List (BitVec 32)} {m : Nat}
    (h : Reading q p (List.replicate m false ++ (rest.flatMap wordBits).reverse) c) (hc : c ≠ [])
    (hm : 32 ≤ m) (hvalid : ∀ x ∈ code :: rest, ValidIdcode x)
    (hubtn : ∀ k < printed.length + (rest.length + 1), ubtn k = false) :
    ∃ fuel st, whileN (Printing.more ubtn) (Printing.pass probe bitLsbMsb) fuel
        ⟨code, p, printed⟩ = st ∧ st.more ubtn = false ∧ st.printed = printed ++ code :: rest := by
  obtain ⟨hcode, hrest⟩ := List.forall_mem_cons.mp hvalid
  have hmore : Printing.more ubtn ⟨code, p, printed⟩ = true := by
    rw [Printing.more, decide_eq_true hcode, hubtn printed.length (by omega)]
    rfl
  induction rest generalizing code p c m printed with
  | nil =>
    have hzeros : List.replicate m false ++ (([] : List (BitVec 32)).flatMap wordBits).reverse =
        List.replicate (m - 32) false ++ (wordBits 0).reverse := by
      have hword : (wordBits 0).reverse = List.replicate 32 false := by decide
      rw [hword, List.replicate_append_replicate, Nat.sub_add_cancel hm]
      exact List.append_nil _
    rw [hzeros] at h
    obtain ⟨hnext, -⟩ := h.readU32 hlsb hc
    refine ⟨1, _, whileN_pass hmore 0, ?_, rfl⟩
    apply more_invalid
    show ¬ ValidIdcode (jtagReadU32 probe bitLsbMsb p).1
    rw [hnext]
    decide
  | cons code' rest ih =>
    rw [List.flatMap_cons, List.reverse_append, ← List.append_assoc] at h
    obtain ⟨hnext, d, hd, hreading⟩ := h.readU32 hlsb hc
    rw [← List.append_assoc, List.replicate_append_replicate] at hreading
    obtain ⟨hcode', hrest'⟩ := List.forall_mem_cons.mp hrest
    have hubtn' : ∀ k < (printed ++ [code]).length + (rest.length + 1), ubtn k = false := by
      intro k hk
      rw [List.length_append, List.length_singleton] at hk
      exact hubtn k (by rw [List.length_cons]; omega)
    have hmore' : Printing.more ubtn ⟨code', (jtagReadU32 probe bitLsbMsb p).2,
        printed ++ [code]⟩ = true := by
      rw [Printing.more, decide_eq_true hcode', hubtn' _ (Nat.lt_add_of_pos_right (Nat.succ_pos _))]
      rfl
    obtain ⟨fuel, st, hloop, hend, hprinted⟩ :=
      ih hreading hd (by omega) hrest hubtn' hcode' hrest' hmore'
    have hpass : Printing.pass probe bitLsbMsb ⟨code, p, printed⟩ =
        ⟨code', (jtagReadU32 probe bitLsbMsb p).2, printed ++ [code]⟩ := by
      rw [Printing.pass, ← hnext]
    refine ⟨fuel + 1, st, ?_, hend, hprinted.trans ?_⟩
    · rw [whileN_pass hmore, hpass, hloop]
    rw [List.append_assoc]
    rfl

/-- without a device nothing is printed -/
theorem Reading.prints_none {bitLsbMsb : UInt8} (hlsb : bitLsbMsb ≠ firstbitMsb)
    {ubtn : Nat → Bool} (h : Reading q (enterShiftDr probe q) r []) :
    (jtagPrintIdcodes probe bitLsbMsb ubtn 0 q).more ubtn = false ∧
      (jtagPrintIdcodes probe bitLsbMsb ubtn 0 q).printed = [] := by
  have hword : ∃ code, ¬ ValidIdcode code ∧
      (probe.readBits 32 (enterShiftDr probe q)).1 = wordBits code := by
    rw [h.readBits_none 32]
    cases q.pull.getD false with
    | false => exact ⟨0, by decide, by decide⟩
    | true => exact ⟨0xffffffff, by decide, by decide⟩
  obtain ⟨code, hinvalid, hword⟩ := hword
  have hfirst : (jtagReadU32 probe bitLsbMsb (enterShiftDr probe q)).1 = code := by
    unfold jtagReadU32
    dsimp only
    rw [if_neg hlsb, readWord hword]
  refine ⟨more_invalid ?_, rfl⟩
  show ¬ ValidIdcode (jtagReadU32 probe bitLsbMsb (enterShiftDr probe q)).1
  rw [hfirst]
  exact hinvalid

/-- the words in the registers are printed, the first of them read before the loop -/
theorem Reading.prints_all {bitLsbMsb : UInt8} (hlsb : bitLsbMsb ≠ firstbitMsb)
    {ubtn : Nat → Bool} {code : BitVec 32} {rest : List (BitVec 32)}
    (h : Reading q (enterShiftDr probe q) ((code :: rest).flatMap wordBits).reverse c)
    (hc : c ≠ []) (hvalid : ∀ x ∈ code :: rest, ValidIdcode x)
    (hubtn : ∀ k < rest.length + 1, ubtn k = false) :
    ∃ fuel, (jtagPrintIdcodes probe bitLsbMsb ubtn fuel q).more ubtn = false ∧
      (jtagPrintIdcodes probe bitLsbMsb ubtn fuel q).printed = code :: rest := by
  rw [List.flatMap_cons, List.reverse_append] at h
  obtain ⟨hfirst, d, hd, hrest⟩ := h.readU32 hlsb hc
  have hubtn' : ∀ k < ([] : List (BitVec 32)).length + (rest.length + 1), ubtn k = false := by
    rw [List.length_nil, Nat.zero_add]
    exact hubtn
  obtain ⟨fuel, st, hloop, hend, hprinted⟩ := hrest.prints hlsb hd le_rfl hvalid hubtn'
  have hrun : jtagPrintIdcodes probe bitLsbMsb ubtn fuel q = st := by
    unfold jtagPrintIdcodes
    dsimp only
    rw [hfirst, hloop]
  rw [← hrun] at hend hprinted
  exact ⟨fuel, hend, hprinted⟩

/-- a chain on a probe is listed -/
theorem probe_lists (q : Probe) {bitLsbMsb : UInt8} (hlsb : bitLsbMsb ≠ firstbitMsb)
    {ubtn : Nat → Bool} {codes : List (BitVec 32)}
    (hcodes : List.Forall₂ HasIdcode (q.chain.map Tap.device) codes)
    (hvalid : ∀ code ∈ codes, ValidIdcode code) (hubtn : ∀ k < codes.length, ubtn k = false) :
    ∃ fuel, (jtagPrintIdcodes probe bitLsbMsb ubtn fuel q).more ubtn = false ∧
      (jtagPrintIdcodes probe bitLsbMsb ubtn fuel q).printed = codes.reverse := by
  obtain ⟨c, hreading, hlen⟩ := enterShiftDr_reading q hcodes
  have hcount : c.length = codes.reverse.length := by
    rw [hlen, List.length_reverse, ← hcodes.length_eq, List.length_map]
  have hvalid' : ∀ code ∈ codes.reverse, ValidIdcode code := fun code hcode =>
    hvalid code (List.mem_reverse.mp hcode)
  rw [← List.length_reverse] at hubtn
  generalize codes.reverse = words at hreading hcount hvalid' hubtn ⊢
  cases words with
  | nil =>
    rw [List.length_eq_zero_iff.mp hcount] at hreading
    exact ⟨0, hreading.prints_none hlsb⟩
  | cons code rest =>
    have hne : c ≠ [] := List.ne_nil_of_length_eq_add_one hcount
    exact hreading.prints_all hlsb hne hvalid' hubtn

/-- what has been printed was printed with the button up -/
theorem printed_ubtn {σ : Type} (w : Wires σ) (bitLsbMsb : UInt8) (ubtn : Nat → Bool) (fuel : Nat)
    (s : σ) : ∀ k < (jtagPrintIdcodes w bitLsbMsb ubtn fuel s).printed.length, ubtn k = false := by
  apply whileN_inv (I := fun st : Printing σ => ∀ k < st.printed.length, ubtn k = false)
  · intro st hmore hst k hk
    rw [Printing.pass, List.length_append, List.length_singleton] at hk
    rcases Nat.lt_succ_iff_lt_or_eq.mp hk with hlt | rfl
    · exact hst k hlt
    · rw [Printing.more, Bool.and_eq_true, Bool.not_eq_true'] at hmore
      exact hmore.2
  · intro k hk
    cases hk

end

/-- **The IDCODEs.**  They are listed, with the configured bit order, unless TMS is on PB1 or the
button is pressed before the last one is printed. -/
theorem lists_iff (s : Listing) :
    Lists s ↔ s.config.tmsPin ≠ 1 ∧ ∀ k < s.codes.length, s.ubtn k = false := by
  have hview : ∀ fuel, (s.run fuel).map (Port.view s.config) =
      jtagPrintIdcodes probe s.config.tmsPin s.ubtn fuel (s.port.view s.config) := by
    intro fuel
    rw [Listing.run, rawwireBitLsbMsb_eq]
    exact jtagPrintIdcodes_hom (hom_port s.distinct) s.config.tmsPin s.ubtn fuel s.port
  constructor
  · intro h
    have horder := h.order
    rw [rawwireBitLsbMsb_eq, s.lsbFirst] at horder
    obtain ⟨fuel, -, hprinted⟩ := h.printed
    refine ⟨fun hmsb => absurd (horder.mp hmsb) (by decide), ?_⟩
    have hubtn := printed_ubtn (portWires s.config) (s.config.rawwireBitLsbMsb s.enumSize) s.ubtn
      fuel s.port
    rw [show jtagPrintIdcodes _ _ _ _ _ = s.run fuel from rfl, hprinted, List.length_reverse]
      at hubtn
    exact hubtn
  · rintro ⟨hpin, hubtn⟩
    constructor
    · obtain ⟨fuel, hend, hprinted⟩ :=
        probe_lists (s.port.view s.config) hpin s.idcodes s.valid hubtn
      rw [← hview] at hend hprinted
      exact ⟨fuel, hend, hprinted⟩
    · rw [rawwireBitLsbMsb_eq, s.lsbFirst]
      exact iff_of_false hpin (by decide)

/-- a device with an IDCODE -/
def deviceWith (code : BitVec 32) : Device :=
  { deviceIdcode with
    captureDr := fun i _ => if i = List.replicate 4 true then [false] else (wordBits code).reverse
    bypass := fun _ => rfl }

theorem hasIdcode_deviceWith (code : BitVec 32) : HasIdcode (deviceWith code) code := by
  intro k
  show (if [false, false, true, false] = List.replicate 4 true then [false]
    else (wordBits code).reverse) = (wordBits code).reverse
  exact if_neg (by decide)

def tapWith (code : BitVec 32) : Tap :=
  ⟨deviceWith code, .pauseDr, 3, [true, true, false, true], rfl, [], [true], true⟩

/-- two devices, with TMS on a pin -/
def listingOfTwo (tmsPin : UInt8) (h : ({ initProtoDefault with tmsPin := tmsPin }).pins.Nodup) :
    Listing where
  enumSize := .one
  config := { initProtoDefault with tmsPin := tmsPin }
  port := ⟨fun _ => false, [tapWith 0x4ba00477, tapWith 0x06413041], none⟩
  ubtn _ := false
  codes := [0x4ba00477, 0x06413041]
  distinct := h
  accepted := valid_of_nodup h
  lsbFirst := rfl
  idcodes := .cons (hasIdcode_deviceWith _) (.cons (hasIdcode_deviceWith _) .nil)
  valid := List.forall_mem_cons.mpr ⟨by decide, List.forall_mem_singleton.mpr (by decide)⟩

theorem lists_iff_default : Lists (listingOfTwo 10 (by decide)) :=
  (lists_iff (listingOfTwo 10 (by decide))).mpr ⟨by decide, fun _ _ => rfl⟩

/-- with TMS on PB1 the words are reversed -/
theorem tms_on_PB1 : ¬ ∀ s, Lists s := by
  intro hall
  -- it is the bit order alone that fails; the loop and what it prints need no look
  have horder := (hall (listingOfTwo 1 (by decide))).order
  rw [rawwireBitLsbMsb_eq] at horder
  exact absurd (horder.mp rfl) (by decide)

end Jtag
end Hydra
