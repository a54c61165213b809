import HydraFw.Common.Bytes
import HydraFw.Jtag.Pins
import HydraFw.Jtag.Wires
import HydraFw.Lib.Loops
import HydraFw.Lib.Rams
import HydraFw.Lib.Serial

/-!
# The OpenOCD mode

`openOCD` with `ocd_shift_u8` (`hydrabus_mode_jtag.c`), over the byte stream of the host and the
JTAG pins.

* `Event`, `Env`, `Dev`   what happens on the pins, what the target drives on TDO, and what the
                          mode works on;
* `ocdShiftU8`            up to eight clocks;
* `Dev.sequences`         the loop of a shift command;
* `Dev.command`           one command, `openOCD` the mode;
* `Request`, `Shifts`     a shift command of the host, and the law;
* `command_request`       what the mode does with it;
* `run_requests`          requests one behind the other;
* `shifts_iff`            the law holds unless TDO is high at a clock of a last byte that is not
                          full: its bits are at the top of the byte.
-/

namespace Hydra
namespace OpenOcd
open Common Jtag Loops Rams Chunks Serial

/-! ## the pins and the host -/

inductive Event where
  /-- `bsp_gpio_init` of the five pins: TDO is an input, the others have the mode -/
  | init (mode : GpioMode) (pull : GpioPull)
  | tms (level : Bool)
  | tdi (level : Bool)
  | tck (level : Bool)
  | trst (level : Bool)
  deriving DecidableEq

/-- the level of TDO behind what has happened on the pins -/
structure Env where
  tdo : List Event → Bool

inductive Obj where
  | gSbuf
  deriving DecidableEq

/-- `NB_SBUFFER`, with the 128 bytes behind it -/
def Obj.size : Obj → Nat
  | .gSbuf => 65536 + 128

structure Dev where
  config : JtagConfig
  ram : Ram Obj Byte
  /-- what the host has sent; a read of more than there is comes back short -/
  input : List Byte
  /-- what the host has received -/
  out : List Byte
  pins : List Event

def ascii (s : String) : List Byte := s.toList.map fun c => BitVec.ofNat 8 c.toNat

def Dev.cprint (d : Dev) (data : List Byte) : Dev := { d with out := d.out ++ data }

/-- `chnRead` into the buffer -/
def Dev.chnRead (d : Dev) (n : Nat) : Dev :=
  { d with
    ram := d.ram.put .gSbuf 0 (d.input.take n)
    input := d.input.drop n }

def Dev.event (d : Dev) (e : Event) : Dev := { d with pins := d.pins ++ [e] }

/-- the pin functions -/
def wires (e : Env) : Wires Dev where
  tms b d := d.event (.tms b)
  tdi b d := d.event (.tdi b)
  tck b d := d.event (.tck b)
  tdo d := e.tdo d.pins

/-- `jtag_pin_init` -/
def Dev.pinInit (d : Dev) : Dev :=
  let d := if jtagPinValid d.config then d
    else d.cprint (ascii "Invalid pin configuration. Resetting to defaults\r\n")
  let d := { d with config := jtagPinInit d.config }
  let d := d.event (.init d.config.devGpioMode d.config.devGpioPull)
  (((d.event (.tck false)).event (.tms false)).event (.tdi false)).event (.trst true)

/-! ## `ocd_shift_u8` -/

section
variable {σ : Type} (w : Wires σ)

/-- the loop, with `num_bits` left -/
def ocdShift : Nat → Byte → Byte → Byte → σ → Byte × σ
  | 0, tdo, _, _, s => (tdo, s)
  | numBits + 1, tdo, tdi, tms, s =>
    let s := w.tms (tms &&& 1 ≠ 0) s
    let s := w.tdi (tdi &&& 1 ≠ 0) s
    let (bit, s) := w.readBitClock s
    ocdShift numBits ((BitVec.ofBool bit).setWidth 8 <<< 7 ||| tdo >>> 1) (tdi >>> 1) (tms >>> 1) s

def ocdShiftU8 (tdi tms : Byte) (numBits : Nat) (s : σ) : Byte × σ := ocdShift w numBits 0 tdi tms s

end

/-! ## the commands -/

/-- the loop of a shift command; its counters are of 16 bits -/
structure Turn where
  dev : Dev
  numSequences : BitVec 16
  i : BitVec 16

def Turn.more (t : Turn) : Bool := t.numSequences > 0

def Turn.pass (e : Env) (t : Turn) : Turn :=
  let bits := if t.numSequences > 8 then 8 else t.numSequences
  let tdi := t.dev.ram.mem .gSbuf t.i.toNat
  let tms := t.dev.ram.mem .gSbuf (t.i.toNat + 1)
  let ram := (t.dev.ram.rd .gSbuf t.i.toNat 1).rd .gSbuf (t.i.toNat + 1) 1
  let shifted := ocdShiftU8 (wires e) tdi tms bits.toNat { t.dev with ram := ram }
  ⟨shifted.2.cprint [shifted.1], t.numSequences - bits, t.i + 2⟩

def Dev.sequences (e : Env) (d : Dev) (n : BitVec 16) : Turn :=
  whileN Turn.more (Turn.pass e) n.toNat ⟨d, n, 0⟩

inductive Command where
  | unknown | portMode | feature | readAdcs | tapShift | enterOocd | uartSpeed | jtagSpeed
  deriving DecidableEq

def Command.code : Command → Byte
  | .unknown => 0x00
  | .portMode => 0x01
  | .feature => 0x02
  | .readAdcs => 0x03
  | .tapShift => 0x05
  | .enterOocd => 0x06
  | .uartSpeed => 0x07
  | .jtagSpeed => 0x08

def Command.all : List Command :=
  [.unknown, .portMode, .feature, .readAdcs, .tapShift, .enterOocd, .uartSpeed, .jtagSpeed]

/-- the case of the `switch` -/
def Command.ofCode (b : Byte) : Option Command := all.find? fun c => c.code = b

def ocdModeHiz : Byte := 0
def ocdModeJtag : Byte := 1
def ocdModeJtagOd : Byte := 2
def featurePullup : Byte := 0x10

def Dev.portMode (d : Dev) : Dev :=
  match d.input with
  | [] => d
  | mode :: rest =>
    let gpioMode :=
      if mode = ocdModeHiz then .input
      else if mode = ocdModeJtag then .outPushpull
      else if mode = ocdModeJtagOd then .outOpendrain
      else d.config.devGpioMode
    Dev.pinInit { d with input := rest, config := { d.config with devGpioMode := gpioMode } }

def Dev.feature (d : Dev) : Dev :=
  match d.input with
  | which :: value :: rest =>
    let pull :=
      if which = featurePullup then (if value ≠ 0 then .pullUp else .noPull)
      else d.config.devGpioPull
    Dev.pinInit { d with input := rest, config := { d.config with devGpioPull := pull } }
  | _ => { d with input := [] }.cprint [0x00]

def Dev.uartSpeed (d : Dev) : Dev :=
  match d.input with
  | [] => d.cprint [0x00]
  | speed :: rest => { d with input := rest }.cprint [Command.uartSpeed.code, speed]

/-- `num_sequences` -/
def sequenceCount (hi lo : Byte) : BitVec 16 := hi.setWidth 16 <<< 8 ||| lo.setWidth 16

def Dev.tapShift (e : Env) (d : Dev) : Dev :=
  match d.input with
  | hi :: lo :: rest =>
    let n := sequenceCount hi lo
    let d := { d with input := rest }.cprint [Command.tapShift.code, hi, lo]
    ((d.chnRead ((n.toNat + 7) / 8 * 2)).sequences e n).dev
  | _ => { d with input := [] }.cprint [0x00]

/-- one command, when there is one -/
def Dev.command (e : Env) (d : Dev) : Dev :=
  match d.input with
  | [] => d
  | b :: rest =>
    let d := { d with input := rest }
    match Command.ofCode b with
    | some .unknown => d.cprint (ascii "BBIO1")
    | some .enterOocd => d.cprint (ascii "OCD1")
    | some .readAdcs => d
    | some .portMode => d.portMode
    | some .feature => d.feature
    | some .jtagSpeed => { d with input := d.input.drop 2 }
    | some .uartSpeed => d.uartSpeed
    | some .tapShift => d.tapShift e
    | none => d.cprint [0x00]

structure Looking where
  dev : Dev
  looks : Nat

/-- `ubtn k` is the button at look `k`; at most `fuel` passes -/
def openOCD (e : Env) (ubtn : Nat → Bool) (fuel : Nat) (d : Dev) : Looking :=
  whileN (fun l => !ubtn l.looks) (fun l => ⟨l.dev.command e, l.looks + 1⟩) fuel ⟨d, 0⟩

def jtagEnterOpenocd (e : Env) (ubtn : Nat → Bool) (fuel : Nat) (d : Dev) : Looking :=
  openOCD e ubtn fuel (Dev.pinInit { d with config := initProtoDefault })

/-! ## the law -/

/-- a shift command of the host -/
structure Request where
  n : BitVec 16
  payload : List Byte
  fits : payload.length = 2 * ((n.toNat + 7) / 8)

namespace Request
variable (r : Request)

def hi : Byte := r.n.extractLsb' 8 8
def lo : Byte := r.n.extractLsb' 0 8

def sent : List Byte := Command.tapShift.code :: r.hi :: r.lo :: r.payload

def tdi (k : Nat) : Bool := (r.payload.getD (2 * (k / 8)) 0).getLsbD (k % 8)
def tms (k : Nat) : Bool := (r.payload.getD (2 * (k / 8) + 1) 0).getLsbD (k % 8)

end Request

/-- clock `k` with the streams `tms` and `tdi` -/
def clock (tms tdi : Nat → Bool) (k : Nat) : List Event :=
  [.tms (tms k), .tdi (tdi k), .tck true, .tck false]

/-- the pins behind `n` clocks -/
def clocked (pins : List Event) (tms tdi : Nat → Bool) (n : Nat) : List Event :=
  pins ++ (List.range n).flatMap (clock tms tdi)

/-- TDO at clock `k`, with TCK high -/
def sampled (e : Env) (pins : List Event) (tms tdi : Nat → Bool) (k : Nat) : Bool :=
  e.tdo (clocked pins tms tdi k ++ [.tms (tms k), .tdi (tdi k), .tck true])

/-- a request that the mode takes next -/
structure Pending where
  dev : Dev
  request : Request
  rest : List Byte
  input : dev.input = request.sent ++ rest

def Pending.sample (e : Env) (p : Pending) (k : Nat) : Bool :=
  sampled e p.dev.pins p.request.tms p.request.tdi k

structure Shifts (e : Env) (p : Pending) : Prop where
  /-- the loop ends -/
  ends : ∀ d : Dev, (d.sequences e p.request.n).more = false
  clocks : (p.dev.command e).pins = p.dev.pins ++
    (List.range p.request.n.toNat).flatMap (clock p.request.tms p.request.tdi)
  reply : ∃ bytes, (p.dev.command e).out = p.dev.out ++
      [Command.tapShift.code, p.request.hi, p.request.lo] ++ bytes ∧
    bytes.length = (p.request.n.toNat + 7) / 8 ∧
    ∀ k < p.request.n.toNat, bitAt bytes k = p.sample e k
  inside : ∃ accesses, (p.dev.command e).ram.trace = p.dev.ram.trace ++ accesses ∧
    ∀ a ∈ accesses, a.Inside Obj.size
  /-- the next command is behind the payload -/
  next : (p.dev.command e).input = p.rest

/-! ## clocks -/

section
variable {e : Env} {pins : List Event} {tms tdi : Nat → Bool}

theorem clocked_succ (pins : List Event) (tms tdi : Nat → Bool) (n : Nat) :
    clocked pins tms tdi (n + 1) = clocked pins tms tdi n ++ clock tms tdi n := by
  rw [clocked, clocked, List.range_succ, List.flatMap_append, List.flatMap_singleton,
    List.append_assoc]

theorem clocked_add (pins : List Event) (tms tdi : Nat → Bool) (m n : Nat) :
    clocked pins tms tdi (m + n) =
      clocked (clocked pins tms tdi m) (fun k => tms (m + k)) (fun k => tdi (m + k)) n := by
  induction n with
  | zero => exact (List.append_nil _).symm
  | succ n ih => rw [← Nat.add_assoc, clocked_succ, clocked_succ, ih]; rfl

theorem sampled_add (e : Env) (pins : List Event) (tms tdi : Nat → Bool) (m k : Nat) :
    sampled e pins tms tdi (m + k) =
      sampled e (clocked pins tms tdi m) (fun k => tms (m + k)) (fun k => tdi (m + k)) k := by
  rw [sampled, clocked_add]
  rfl

theorem low_bit (x : Byte) : decide (x &&& 1 ≠ 0) = x.getLsbD 0 := by
  rw [show x &&& 1 = x &&& 1#8 from rfl, BitVec.and_one_eq_setWidth_ofBool_getLsbD]
  cases x.getLsbD 0 <;> decide

/-- a byte that holds a stream from place `m` on, without its lowest bit -/
theorem shifted_bits {s : Nat → Bool} {x : Byte} {m n : Nat}
    (h : ∀ k < n + 1, x.getLsbD k = s (m + k)) :
    ∀ k < n, (x >>> 1).getLsbD k = s (m + 1 + k) := by
  intro k hk
  rw [BitVec.getLsbD_ushiftRight, Nat.add_comm 1 k, h (k + 1) (by omega), Nat.add_assoc,
    Nat.add_comm 1 k]

/-- the loop, behind `m` clocks -/
theorem ocdShift_eq (e : Env) (tms tdi : Nat → Bool) (d : Dev) {n : Nat} (m : Nat) {x y : Byte}
    (hx : ∀ k < n, x.getLsbD k = tdi (m + k)) (hy : ∀ k < n, y.getLsbD k = tms (m + k)) :
    ocdShift (wires e) n (collect (sampled e d.pins tms tdi) m) x y
        { d with pins := clocked d.pins tms tdi m } =
      (collect (sampled e d.pins tms tdi) (m + n),
        { d with pins := clocked d.pins tms tdi (m + n) }) := by
  induction n generalizing m x y with
  | zero => rfl
  | succ n ih =>
    have hx0 : decide (x &&& 1 ≠ 0) = tdi m := (low_bit x).trans (hx 0 n.succ_pos)
    have hy0 : decide (y &&& 1 ≠ 0) = tms m := (low_bit y).trans (hy 0 n.succ_pos)
    have hstep := ih (m + 1) (shifted_bits hx) (shifted_bits hy)
    rw [Nat.add_assoc, Nat.add_comm 1 n] at hstep
    rw [← hstep, ocdShift, hx0, hy0, clocked_succ, collect, shiftIn]
    simp only [wires, Wires.readBitClock, Dev.event, sampled, clock, List.append_assoc,
      List.cons_append, List.nil_append]

theorem ocdShiftU8_eq (e : Env) (tms tdi : Nat → Bool) (d : Dev) {n : Nat} {x y : Byte}
    (hx : ∀ k < n, x.getLsbD k = tdi k) (hy : ∀ k < n, y.getLsbD k = tms k) :
    ocdShiftU8 (wires e) x y n d =
      (collect (sampled e d.pins tms tdi) n, { d with pins := clocked d.pins tms tdi n }) := by
  have hloop := ocdShift_eq e tms tdi d (n := n) 0 (x := x) (y := y)
    (fun k hk => by rw [Nat.zero_add, hx k hk]) (fun k hk => by rw [Nat.zero_add, hy k hk])
  rw [Nat.zero_add, show clocked d.pins tms tdi 0 = d.pins from List.append_nil _] at hloop
  exact hloop

end

/-! ## the loop -/

/-- what the loop loads in `k` passes -/
def loads (k : Nat) : List (Access Obj) :=
  (List.range k).flatMap fun j => [⟨.rd, .gSbuf, 2 * j, 1⟩, ⟨.rd, .gSbuf, 2 * j + 1, 1⟩]

theorem loads_succ (k : Nat) :
    loads (k + 1) = loads k ++ [⟨.rd, .gSbuf, 2 * k, 1⟩, ⟨.rd, .gSbuf, 2 * k + 1, 1⟩] := by
  rw [loads, List.range_succ, List.flatMap_append, List.flatMap_singleton]
  rfl

/-- byte `j` of the answer -/
def answer (s : Nat → Bool) (n j : Nat) : Byte := collect (fun i => s (j * 8 + i)) (size 8 n j)

section
variable (e : Env) (tms tdi : Nat → Bool) (d : Dev) (n : BitVec 16)

/-- the loop behind `k` passes -/
def Turn.after (k : Nat) : Turn where
  dev := { d with
    ram := { d.ram with trace := d.ram.trace ++ loads k }
    out := d.out ++ (List.range k).map (answer (sampled e d.pins tms tdi) n.toNat)
    pins := clocked d.pins tms tdi (min (k * 8) n.toNat) }
  numSequences := BitVec.ofNat 16 (n.toNat - k * 8)
  i := BitVec.ofNat 16 (2 * k)

/-- the streams are in the buffer, byte for byte -/
def Dev.Holds : Prop :=
  ∀ k < n.toNat, (d.ram.mem .gSbuf (2 * (k / 8))).getLsbD (k % 8) = tdi k ∧
    (d.ram.mem .gSbuf (2 * (k / 8) + 1)).getLsbD (k % 8) = tms k

end

section
variable {e : Env} {tms tdi : Nat → Bool} {d : Dev} {n : BitVec 16} {k : Nat}

theorem after_more (h : k < count 8 n.toNat) : (Turn.after e tms tdi d n k).more = true := by
  have hlt := (lt_count (by decide)).mp h
  have hn := n.isLt
  rw [Turn.more, decide_eq_true_eq, gt_iff_lt, BitVec.lt_def]
  show 0 < (BitVec.ofNat 16 (n.toNat - k * 8)).toNat
  rw [BitVec.toNat_ofNat, Nat.mod_eq_of_lt (by omega)]
  omega

/-- the bits of a pass -/
theorem after_bits :
    (if BitVec.ofNat 16 (n.toNat - k * 8) > 8 then (8 : BitVec 16)
      else BitVec.ofNat 16 (n.toNat - k * 8)).toNat = size 8 n.toNat k := by
  have hn := n.isLt
  have hleft : (BitVec.ofNat 16 (n.toNat - k * 8)).toNat = n.toNat - k * 8 := by
    rw [BitVec.toNat_ofNat, Nat.mod_eq_of_lt (by omega)]
  have hlt : (BitVec.ofNat 16 (n.toNat - k * 8) > 8) ↔ 8 < n.toNat - k * 8 := by
    rw [gt_iff_lt, BitVec.lt_def, hleft]
    rfl
  unfold size
  split_ifs with hfull
  · rw [hlt] at hfull
    exact (Nat.min_eq_left hfull.le).symm
  · rw [hlt] at hfull
    rw [hleft, Nat.min_eq_right (by omega)]

/-- the bits left behind a pass -/
theorem after_left (h : k < count 8 n.toNat) :
    BitVec.ofNat 16 (n.toNat - k * 8) -
        (if BitVec.ofNat 16 (n.toNat - k * 8) > 8 then (8 : BitVec 16)
          else BitVec.ofNat 16 (n.toNat - k * 8)) = BitVec.ofNat 16 (n.toNat - (k + 1) * 8) := by
  have hlt := (lt_count (by decide)).mp h
  have hn := n.isLt
  have hbits := @after_bits n k
  have hleft : (BitVec.ofNat 16 (n.toNat - k * 8)).toNat = n.toNat - k * 8 := by
    rw [BitVec.toNat_ofNat, Nat.mod_eq_of_lt (by omega)]
  apply BitVec.eq_of_toNat_eq
  rw [BitVec.toNat_sub_of_le, hbits, hleft, BitVec.toNat_ofNat, Nat.mod_eq_of_lt (by omega)]
  · unfold size
    omega
  · rw [BitVec.le_def, hbits, hleft]
    exact Nat.min_le_right ..

/-- the two bytes of a pass -/
theorem Dev.Holds.bytes (hd : d.Holds tms tdi n) (k : Nat) :
    ∀ i < size 8 n.toNat k, (d.ram.mem .gSbuf (2 * k)).getLsbD i = tdi (k * 8 + i) ∧
      (d.ram.mem .gSbuf (2 * k + 1)).getLsbD i = tms (k * 8 + i) := by
  intro i hi
  unfold size at hi
  have hpair := hd (k * 8 + i) (by omega)
  rwa [show (k * 8 + i) / 8 = k by omega, show (k * 8 + i) % 8 = i by omega] at hpair

theorem answer_eq (e : Env) (pins : List Event) (tms tdi : Nat → Bool) (n k : Nat) :
    collect (sampled e (clocked pins tms tdi (k * 8)) (fun i => tms (k * 8 + i))
      fun i => tdi (k * 8 + i)) (size 8 n k) = answer (sampled e pins tms tdi) n k := by
  unfold answer
  congr 1
  funext i
  exact (sampled_add e pins tms tdi (k * 8) i).symm

theorem after_pass (hd : d.Holds tms tdi n) (h : k < count 8 n.toNat) :
    (Turn.after e tms tdi d n k).pass e = Turn.after e tms tdi d n (k + 1) := by
  have hlt := (lt_count (by decide)).mp h
  have hn := n.isLt
  have hi : (BitVec.ofNat 16 (2 * k)).toNat = 2 * k := by
    rw [BitVec.toNat_ofNat, Nat.mod_eq_of_lt (by omega)]
  have hmin : min (k * 8) n.toNat = k * 8 := Nat.min_eq_left hlt.le
  have hnext : min ((k + 1) * 8) n.toNat = k * 8 + size 8 n.toNat k := by
    unfold size
    omega
  have hindex : BitVec.ofNat 16 (2 * k) + 2 = BitVec.ofNat 16 (2 * (k + 1)) :=
    (BitVec.ofNat_add (2 * k) 2).symm
  unfold Turn.pass Turn.after
  dsimp only
  rw [after_left h, hindex, after_bits, hi, ocdShiftU8_eq e (fun i => tms (k * 8 + i))
    (fun i => tdi (k * 8 + i)) _ (fun i hi => (hd.bytes k i hi).1) fun i hi => (hd.bytes k i hi).2]
  dsimp only [Dev.cprint, Ram.rd]
  rw [hmin, hnext, answer_eq, ← clocked_add, List.range_succ, List.map_append, loads_succ,
    List.append_assoc, List.append_assoc, List.append_assoc]
  rfl

/-- **The loop.**  It ends when every byte has been answered. -/
theorem sequences_eq (e : Env) (hd : d.Holds tms tdi n) :
    d.sequences e n = Turn.after e tms tdi d n (count 8 n.toNat) := by
  have hrun : ∀ k ≤ count 8 n.toNat,
      whileN Turn.more (Turn.pass e) k ⟨d, n, 0⟩ = Turn.after e tms tdi d n k := by
    intro k hk
    induction k with
    | zero =>
      show Turn.mk d n 0 = Turn.after e tms tdi d n 0
      simp [Turn.after, loads, clocked]
    | succ k ih =>
      rw [whileN_succ, ih (by omega), whileN_pass (after_more hk), after_pass hd hk]
      rfl
  have hend : (Turn.after e tms tdi d n (count 8 n.toNat)).more = false := by
    have hle := le_count_mul (by decide : 0 < 8) n.toNat
    rw [Turn.more, Turn.after, Nat.sub_eq_zero_of_le hle]
    rfl
  unfold Dev.sequences
  rw [whileN_ended (count_le (Nat.succ_pos 7) n.toNat) (by rw [hrun _ le_rfl]; exact hend),
    hrun _ le_rfl]

/-- every pass takes bits -/
theorem pass_lt {t : Turn} (h : t.more = true) :
    (t.pass e).numSequences.toNat < t.numSequences.toNat := by
  have hpos : 0 < t.numSequences.toNat := by
    rw [Turn.more, decide_eq_true_eq, gt_iff_lt, BitVec.lt_def] at h
    exact h
  show (t.numSequences - if t.numSequences > 8 then 8 else t.numSequences).toNat <
    t.numSequences.toNat
  split_ifs with hfull
  · rw [gt_iff_lt, BitVec.lt_def] at hfull
    rw [BitVec.toNat_sub_of_le (BitVec.le_def.mpr hfull.le)]
    exact Nat.sub_lt hpos (Nat.succ_pos 7)
  · rw [BitVec.sub_self]
    exact hpos

theorem sequences_ends (e : Env) (d : Dev) (n : BitVec 16) : (d.sequences e n).more = false := by
  apply whileN_measure fun t : Turn => t.numSequences.toNat
  · intro t h
    exact pass_lt h
  · exact le_rfl

end

/-! ## a request -/

theorem ofCode_code (c : Command) : Command.ofCode c.code = some c := by
  cases c <;> decide

theorem sequenceCount_request (r : Request) : sequenceCount r.hi r.lo = r.n := by
  apply BitVec.eq_of_getLsbD_eq
  intro i hi
  unfold sequenceCount Request.hi Request.lo
  simp only [BitVec.getLsbD_or, BitVec.getLsbD_shiftLeft, BitVec.getLsbD_setWidth,
    BitVec.getLsbD_extractLsb']
  by_cases hlow : i < 8
  · simp [hlow, hi]
  · have hhigh : i - 8 < 8 := by omega
    have hlast : i - 8 < 16 := by omega
    have hsum : 8 + (i - 8) = i := by omega
    simp [hlow, hi, hhigh, hlast, hsum]

namespace Pending
variable (e : Env) (p : Pending)

/-- the mode with the payload in the buffer -/
def loaded : Dev :=
  { p.dev with
    ram := p.dev.ram.put .gSbuf 0 p.request.payload
    input := p.rest
    out := p.dev.out ++ [Command.tapShift.code, p.request.hi, p.request.lo] }

theorem loaded_holds : p.loaded.Holds p.request.tms p.request.tdi p.request.n := by
  intro k hk
  have hfits := p.request.fits
  have hcell : ∀ i < p.request.payload.length,
      p.loaded.ram.mem .gSbuf i = p.request.payload.getD i 0 := by
    intro i hi
    have hin := overwrite_in (p.dev.ram.mem .gSbuf) 0 p.request.payload i hi
    rw [Nat.zero_add] at hin
    rw [loaded, Ram.put_mem_same, hin, List.getD_eq_getElem?_getD, List.getElem?_eq_getElem hi]
    rfl
  rw [hcell _ (by omega), hcell _ (by omega)]
  exact ⟨rfl, rfl⟩

/-- **A request.**  Every byte of it is answered, and the input behind it is left. -/
theorem command_request : p.dev.command e =
    (Turn.after e p.request.tms p.request.tdi p.loaded p.request.n
      (count 8 p.request.n.toNat)).dev := by
  have hlength : (p.request.n.toNat + 7) / 8 * 2 = p.request.payload.length := by
    rw [p.request.fits, Nat.mul_comm]
  rw [← sequences_eq e p.loaded_holds, Dev.command, p.input, Request.sent, List.cons_append]
  dsimp only
  rw [ofCode_code]
  dsimp only
  rw [Dev.tapShift, List.cons_append, List.cons_append]
  dsimp only
  rw [sequenceCount_request, hlength, Dev.chnRead, Dev.cprint]
  dsimp only
  rw [List.take_left, List.drop_left]
  rfl

end Pending

/-! ## requests one behind the other -/

theorem command_pins (e : Env) (p : Pending) : (p.dev.command e).pins = p.dev.pins ++
    (List.range p.request.n.toNat).flatMap (clock p.request.tms p.request.tdi) := by
  rw [p.command_request, Turn.after, Nat.min_eq_right (le_count_mul (by decide) _)]
  rfl

theorem command_input (e : Env) (p : Pending) : (p.dev.command e).input = p.rest := by
  rw [p.command_request]
  rfl

/-- the passes of the mode, while the button is up -/
theorem openOCD_dev (e : Env) {ubtn : Nat → Bool} {n : Nat} (h : ∀ k < n, ubtn k = false)
    (d : Dev) : (openOCD e ubtn n d).dev = (Dev.command e)^[n] d := by
  have hpasses : ∀ j, (fun l : Looking => Looking.mk (l.dev.command e) (l.looks + 1))^[j] ⟨d, 0⟩ =
      ⟨(Dev.command e)^[j] d, j⟩ := by
    intro j
    induction j with
    | zero => rfl
    | succ j ih => rw [Function.iterate_succ_apply', ih, Function.iterate_succ_apply']
  rw [openOCD, whileN_iterate, hpasses]
  intro j hj
  rw [hpasses, h j hj]
  rfl

/-- **A run.**  The clocks of every request are made, in order, and no byte is left over. -/
theorem run_requests (e : Env) {ubtn : Nat → Bool} {d : Dev} (rs : List Request) {rest : List Byte}
    (hubtn : ∀ k < rs.length, ubtn k = false) (h : d.input = rs.flatMap Request.sent ++ rest) :
    (openOCD e ubtn rs.length d).dev.input = rest ∧
      (openOCD e ubtn rs.length d).dev.pins = d.pins ++
        rs.flatMap fun r => (List.range r.n.toNat).flatMap (clock r.tms r.tdi) := by
  rw [openOCD_dev e hubtn]
  clear hubtn
  induction rs generalizing d with
  | nil => exact ⟨h, (List.append_nil _).symm⟩
  | cons r rs ih =>
    rw [List.flatMap_cons, List.append_assoc] at h
    obtain ⟨hinput, hpins⟩ := ih (command_input e ⟨d, r, _, h⟩)
    rw [List.length_cons, Function.iterate_succ_apply]
    refine ⟨hinput, ?_⟩
    rw [hpins, command_pins e ⟨d, r, _, h⟩, List.flatMap_cons, List.append_assoc]

/-! ## the layout of the answer -/

theorem command_out (e : Env) (p : Pending) : (p.dev.command e).out = p.dev.out ++
    [Command.tapShift.code, p.request.hi, p.request.lo] ++
      bytesOf (p.sample e) p.request.n.toNat := by
  rw [p.command_request]
  rfl

theorem loads_inside {k : Nat} (hk : k ≤ 8192) : ∀ a ∈ loads k, a.Inside Obj.size := by
  intro a ha
  obtain ⟨j, hj, ha⟩ := List.mem_flatMap.mp ha
  rw [List.mem_range] at hj
  rcases List.mem_pair.mp ha with rfl | rfl
  · right
    show 2 * j + 1 ≤ 65536 + 128
    omega
  · right
    show 2 * j + 1 + 1 ≤ 65536 + 128
    omega

theorem command_inside (e : Env) (p : Pending) :
    ∃ accesses, (p.dev.command e).ram.trace = p.dev.ram.trace ++ accesses ∧
      ∀ a ∈ accesses, a.Inside Obj.size := by
  have hn := p.request.n.isLt
  have hcount : count 8 p.request.n.toNat ≤ 8192 := by
    unfold count
    omega
  refine ⟨⟨.wr, .gSbuf, 0, p.request.payload.length⟩ :: loads (count 8 p.request.n.toNat), ?_, ?_⟩
  · rw [p.command_request, Turn.after, Pending.loaded, Ram.put]
    dsimp only
    rw [List.append_assoc]
    rfl
  · intro a ha
    rcases List.mem_cons.mp ha with rfl | ha
    · right
      show 0 + p.request.payload.length ≤ 65536 + 128
      rw [p.request.fits]
      omega
    · exact loads_inside hcount a ha

/-- **A shift command.**  The clocks, the header and the input are right; the samples are where
they are to be unless TDO is high at a clock of a last byte that is not full. -/
theorem shifts_iff (e : Env) (p : Pending) :
    Shifts e p ↔ ∀ k, p.request.n.toNat / 8 * 8 ≤ k → k < p.request.n.toNat →
      p.sample e k = false := by
  rw [← bytesOf_iff]
  constructor
  · intro h
    obtain ⟨bytes, hout, -, hbits⟩ := h.reply
    rw [command_out] at hout
    rwa [List.append_cancel_left hout]
  · intro h
    refine ⟨fun d => sequences_ends e d p.request.n, command_pins e p, ?_, command_inside e p,
      command_input e p⟩
    exact ⟨_, command_out e p, bytesOf_length _ _, h⟩

/-- one clock -/
def requestOfOne : Request where
  n := 1
  payload := [0x00, 0x00]
  fits := rfl

def pendingOne : Pending where
  dev := ⟨initProtoDefault, ⟨fun _ _ => 0, []⟩, requestOfOne.sent, [], []⟩
  request := requestOfOne
  rest := []
  input := rfl

/-- a target with TDO high: the sample is in bit 7 of the answer -/
theorem one_clock : ¬ ∀ e p, Shifts e p := by
  intro hall
  obtain ⟨bytes, hout, -, hbits⟩ := (hall ⟨fun _ => true⟩ pendingOne).reply
  rw [command_out] at hout
  have hbit := hbits 0 (by decide)
  rw [← List.append_cancel_left hout] at hbit
  exact absurd hbit (by decide)

end OpenOcd
end Hydra
