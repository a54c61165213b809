import HydraFw.Common.Bytes
import HydraFw.Lib.Loops
import HydraFw.OneWire.Bus

/-!
# The search of the 1-Wire mode

`onewire_scan` (`hydrabus_mode_onewire.c`).  The reset pulse and the search command stand before
the loop over the devices, and what one turn of it leaves is not cleared for the next.

* `Scan`             the variables of the function, the bus, and the ROM codes printed;
* `Scan.bit`         one turn of the inner loop, `Scan.pass` of the outer one;
* `onewireScan`      the function, stopped after `n` turns if it has not ended;
* `FindsAll`         it ends, and each code has been printed once;
* `findsAll_iff`     it does so for a single device.
-/

namespace Hydra
namespace OneWireScan
open OneWire Loops Common

/-- `DEV_FIRSTBIT_MSB` -/
def devFirstbitMsb : Byte := 1

/-- `onewire_write_u8`; it looks at the bit order of the mode `rawwire`, whose place in the
configuration is another one than that of `onewire` -/
def onewireWriteU8 (rawwireFirstbit : Byte) (bus : Bus) (txData : Byte) : Bus :=
  let txData := if rawwireFirstbit = devFirstbitMsb then reverseU8 txData else txData
  ((List.range 8).map txData.getLsbD).foldl slot bus

structure Scan where
  idBitNumber : Nat
  lastZero : Nat
  lastDiscrepancy : Nat
  lastDeviceFlag : Bool
  romNo : Nat → Byte
  bus : Bus
  /-- the inner loop has been left by its `break` -/
  broken : Bool
  /-- something has been stored behind `ROM_NO` -/
  outside : Bool
  printed : List (List Byte)

/-- where the codes differ at this bit -/
def Scan.choice (s : Scan) : Bool :=
  if s.idBitNumber = s.lastDiscrepancy then true
  else if s.idBitNumber > s.lastDiscrepancy then false
  else 0 < (s.romNo (s.idBitNumber / 8) &&& BitVec.ofNat 8 (s.idBitNumber % 8)).toNat

/-- `ROM_NO[n / 8] |= direction << (n % 8)` -/
def setBit (romNo : Nat → Byte) (n : Nat) (direction : Bool) : Nat → Byte :=
  Function.update romNo (n / 8)
    (romNo (n / 8) ||| (if direction then 1#8 else 0#8) <<< (n % 8))

/-- the direction is written, and the bit counted -/
def Scan.follow (s : Scan) (bus : Bus) (direction : Bool) (lastZero : Nat) : Scan :=
  { s with
    idBitNumber := (s.idBitNumber + 1) % 256
    lastZero := lastZero
    romNo := setBit s.romNo s.idBitNumber direction
    bus := slot bus direction
    outside := s.outside || 8 ≤ s.idBitNumber / 8 }

/-- a turn of the inner loop -/
def Scan.bit (s : Scan) : Scan :=
  let idBit := line s.bus true
  let cmpIdBit := line (slot s.bus true) true
  let bus := slot (slot s.bus true) true
  if idBit && cmpIdBit then { s with bus := bus, broken := true }
  else if !idBit && !cmpIdBit then
    s.follow bus s.choice (if s.choice then s.lastZero else s.idBitNumber)
  else s.follow bus idBit s.lastZero

/-- `do ... while (id_bit_number < 64)`; sixty-four turns are enough for it -/
def Scan.bits (s : Scan) : Scan :=
  whileN (fun s => !s.broken && s.idBitNumber < 64) Scan.bit 64
    { s with broken := false }.bit

/-- a turn of the outer loop -/
def Scan.pass (s : Scan) : Scan :=
  { s.bits with
    lastDiscrepancy := s.bits.lastZero
    lastDeviceFlag := s.lastDeviceFlag || s.bits.lastZero = 0
    printed := s.printed ++ [(List.range 8).map s.bits.romNo] }

def Scan.start (rawwireFirstbit : Byte) (bus : Bus) : Scan where
  idBitNumber := 0
  lastZero := 0
  lastDiscrepancy := 0
  lastDeviceFlag := false
  romNo := fun _ => 0
  bus := onewireWriteU8 rawwireFirstbit (reset bus) 0xf0
  broken := false
  outside := false
  printed := []

/-- the outer loop looks at the user button, whose answers are `ubtn` -/
def going (ubtn : Nat → Bool) (s : Scan) : Bool := !s.lastDeviceFlag && !ubtn s.printed.length

def onewireScan (rawwireFirstbit : Byte) (ubtn : Nat → Bool) (bus : Bus) (n : Nat) : Scan :=
  whileN (going ubtn) Scan.pass n (Scan.start rawwireFirstbit bus)

/-! ## what a scan owes -/

/-- devices with distinct codes, in any phase -/
structure Devices where
  bus : Bus
  distinct : (bus.map Device.rom).Nodup
  nonempty : bus ≠ []

/-- the bytes that are printed for a code -/
def code (rom : Rom) : List Byte := (List.range 8).map fun i => rom.extractLsb' (8 * i) 8

/-- the scan ends, keeps to `ROM_NO`, and has printed each code once -/
def FindsAll (rawwireFirstbit : Byte) (ubtn : Nat → Bool) (d : Devices) : Prop :=
  ∃ n, going ubtn (onewireScan rawwireFirstbit ubtn d.bus n) = false ∧
    (onewireScan rawwireFirstbit ubtn d.bus n).outside = false ∧
    (onewireScan rawwireFirstbit ubtn d.bus n).printed.Perm
      ((d.bus.map Device.rom).map code)

/-! ## bits of `ROM_NO` -/

def romBit (romNo : Nat → Byte) (n : Nat) : Bool := (romNo (n / 8)).getLsbD (n % 8)

theorem getLsbD_direction (direction : Bool) {i j : Nat} (hj : j < 8) :
    ((if direction then 1#8 else 0#8) <<< i).getLsbD j = (direction && decide (j = i)) := by
  cases direction with
  | false => simp
  | true =>
    rw [if_pos rfl, BitVec.getLsbD_shiftLeft, BitVec.getLsbD_one]
    by_cases hji : j = i
    · subst hji
      simp [hj]
    · by_cases hlt : j < i
      · simp [hlt, hji]
      · have hsub : j - i ≠ 0 := by omega
        simp [hsub, hji]

theorem romBit_setBit (romNo : Nat → Byte) (n m : Nat) (direction : Bool) :
    romBit (setBit romNo n direction) m
      = if m = n then romBit romNo n || direction else romBit romNo m := by
  rw [romBit, setBit]
  by_cases hbyte : m / 8 = n / 8
  · rw [hbyte, Function.update_self, BitVec.getLsbD_or, getLsbD_direction _ (by omega)]
    by_cases hmn : m = n
    · subst hmn
      simp [romBit]
    · have hbit : m % 8 ≠ n % 8 := by omega
      rw [if_neg hmn, romBit, hbyte, decide_eq_false hbit, Bool.and_false, Bool.or_false]
  · have hmn : m ≠ n := fun h => hbyte (by rw [h])
    rw [Function.update_of_ne hbyte, if_neg hmn, romBit]

/-- the printed bytes are the code whose bits `ROM_NO` has -/
theorem bytes_eq_code {romNo : Nat → Byte} {r : Rom}
    (h : ∀ n < 64, romBit romNo n = r.getLsbD n) : (List.range 8).map romNo = code r := by
  refine List.map_congr_left fun i hi => ?_
  have hi8 := List.mem_range.mp hi
  refine BitVec.eq_of_getLsbD_eq fun j hj => ?_
  have hbit := h (8 * i + j) (by omega)
  rw [romBit, Nat.mul_add_div (by decide), Nat.div_eq_of_lt hj, Nat.add_zero, Nat.mul_add_mod,
    Nat.mod_eq_of_lt hj] at hbit
  rw [hbit, BitVec.getLsbD_extractLsb']
  simp [hj]

theorem code_injective : Function.Injective code := by
  intro r r' h
  refine BitVec.eq_of_getLsbD_eq fun n hn => ?_
  have hbyte : r.extractLsb' (8 * (n / 8)) 8 = r'.extractLsb' (8 * (n / 8)) 8 :=
    List.map_inj_left.mp h (n / 8) (List.mem_range.mpr (by omega))
  have hbit := congrArg (fun b => b.getLsbD (n % 8)) hbyte
  have hlt : n % 8 < 8 := Nat.mod_lt _ (by decide)
  simp only [BitVec.getLsbD_extractLsb', hlt, decide_true, Bool.true_and, Nat.div_add_mod] at hbit
  exact hbit

/-! ## the first pass -/

/-- the first `k` bits of the code are those of `ROM_NO` -/
def agrees (romNo : Nat → Byte) (k : Nat) (r : Rom) : Bool :=
  decide (∀ j < k, romBit romNo j = r.getLsbD j)

/-- `k` bits of a first pass have been searched -/
structure First (roms : List Rom) (k : Nat) (s : Scan) : Prop where
  counts : s.idBitNumber = k
  le : k ≤ 64
  first : s.lastDiscrepancy = 0
  goesOn : s.broken = false
  inside : s.outside = false
  clear : ∀ j ≥ k, romBit s.romNo j = false
  bus : s.bus = busAt roms (searched (agrees s.romNo k) (if k < 64 then .bit k else .idle))
  found : ∃ r ∈ roms, agrees s.romNo k r = true
  single : ∀ r, roms = [r] → s.lastZero = 0

section
variable {roms : List Rom} {k : Nat} {s : Scan}

theorem agrees_setBit {romNo : Nat → Byte} (hclear : romBit romNo k = false) (direction : Bool) :
    agrees (setBit romNo k direction) (k + 1)
      = fun r => agrees romNo k r && direction == r.getLsbD k := by
  funext r
  rw [Bool.eq_iff_iff, Bool.and_eq_true, beq_iff_eq, agrees, agrees, decide_eq_true_eq,
    decide_eq_true_eq]
  constructor
  · intro h
    constructor
    · intro j hj
      have hbit := h j (by omega)
      rwa [romBit_setBit, if_neg (by omega)] at hbit
    · have hbit := h k (by omega)
      rwa [romBit_setBit, if_pos rfl, hclear, Bool.false_or] at hbit
  · rintro ⟨hlow, hk⟩ j hj
    rw [romBit_setBit]
    by_cases hjk : j = k
    · rw [if_pos hjk, hjk, hclear, Bool.false_or, hk]
    · rw [if_neg hjk, hlow j (by omega)]

/-- a bit in whose direction a device goes on -/
theorem First.follow (h : First roms k s) (hk : k < 64) {direction : Bool} {lastZero : Nat}
    (hfound : ∃ r ∈ roms, agrees s.romNo k r = true ∧ r.getLsbD k = direction)
    (hsingle : ∀ r, roms = [r] → lastZero = 0) :
    First roms (k + 1)
      (s.follow (busAt roms (searched (agrees s.romNo k) (.direction k))) direction lastZero) := by
  have hagrees := agrees_setBit (h.clear k le_rfl) direction
  have hcounts := h.counts
  constructor
  · show (s.idBitNumber + 1) % 256 = k + 1
    omega
  · omega
  · exact h.first
  · exact h.goesOn
  · show (s.outside || decide (8 ≤ s.idBitNumber / 8)) = false
    rw [h.inside, Bool.false_or, decide_eq_false (by omega)]
  · intro j hj
    show romBit (setBit s.romNo s.idBitNumber direction) j = false
    rw [romBit_setBit, if_neg (by omega), h.clear j (by omega)]
  · show slot _ direction = busAt roms (searched (agrees (setBit s.romNo _ direction) (k + 1)) _)
    rw [slot_direction, hcounts, hagrees]
    congr 2
    by_cases hlast : k < 63
    · rw [if_pos hlast, if_pos (by omega)]
    · rw [if_neg hlast, if_neg (by omega)]
  · obtain ⟨r, hr, hact, hbit⟩ := hfound
    refine ⟨r, hr, ?_⟩
    show agrees (setBit s.romNo s.idBitNumber direction) (k + 1) r = true
    rw [hcounts, hagrees]
    show (agrees s.romNo k r && direction == r.getLsbD k) = true
    rw [hact, hbit, beq_self_eq_true, Bool.and_self]
  · exact hsingle

/-- the line when the searched devices send a bit, or its complement -/
theorem all_sent {active : Rom → Bool} {sent : Rom → Bool} :
    (roms.all fun r => !active r || sent r) = true ↔
      ∀ r ∈ roms, active r = true → sent r = true := by
  rw [List.all_eq_true]
  refine forall₂_congr fun r _ => ?_
  cases active r <;> simp

theorem First.bit (h : First roms k s) (hk : k < 64) : First roms (k + 1) s.bit := by
  obtain ⟨r, hr, hact⟩ := h.found
  have hbus := h.bus
  rw [if_pos hk] at hbus
  have hid : line s.bus true = roms.all fun r => !agrees s.romNo k r || r.getLsbD k := by
    rw [hbus, line_bit]
  have hcmp : line (slot s.bus true) true
      = roms.all fun r => !agrees s.romNo k r || !r.getLsbD k := by
    rw [hbus, slot_bit, line_complement]
  have hread : slot (slot s.bus true) true
      = busAt roms (searched (agrees s.romNo k) (.direction k)) := by
    rw [hbus, slot_bit, slot_complement]
  show First roms (k + 1) (if line s.bus true && line (slot s.bus true) true then _ else _)
  rw [hread]
  cases hi : line s.bus true with
  | true =>
    have hone := (all_sent.mp (hid.symm.trans hi)) r hr hact
    cases hc : line (slot s.bus true) true with
    | true =>
      have hzero := (all_sent.mp (hcmp.symm.trans hc)) r hr hact
      rw [hone] at hzero
      exact Bool.noConfusion hzero
    | false => exact h.follow hk ⟨r, hr, hact, hone⟩ h.single
  | false =>
    cases hc : line (slot s.bus true) true with
    | true =>
      have hzero := (all_sent.mp (hcmp.symm.trans hc)) r hr hact
      exact h.follow hk ⟨r, hr, hact, by simpa using hzero⟩ h.single
    | false =>
      -- devices differ in this bit
      have hzero : ∃ r ∈ roms, agrees s.romNo k r = true ∧ r.getLsbD k = false := by
        rw [hid, List.all_eq_false] at hi
        simpa using hi
      have hone : ∃ r ∈ roms, agrees s.romNo k r = true ∧ r.getLsbD k = true := by
        rw [hcmp, List.all_eq_false] at hc
        simpa using hc
      refine h.follow hk ?_ ?_
      · cases s.choice with
        | true => exact hone
        | false => exact hzero
      · rintro q rfl
        obtain ⟨a, ha, -, ha0⟩ := hzero
        obtain ⟨b, hb, -, hb1⟩ := hone
        rw [List.mem_singleton.mp ha] at ha0
        rw [List.mem_singleton.mp hb, ha0] at hb1
        exact Bool.noConfusion hb1

/-- the test of the inner loop -/
def more (s : Scan) : Bool := !s.broken && s.idBitNumber < 64

theorem First.more (h : First roms k s) : more s = decide (k < 64) := by
  rw [OneWireScan.more, h.goesOn, h.counts]
  rfl

theorem First.whileN (h : First roms k s) {n : Nat} (hn : 64 ≤ n + k) :
    First roms 64 (whileN OneWireScan.more Scan.bit n s) := by
  induction n generalizing k s with
  | zero =>
    obtain rfl : k = 64 := by
      have := h.le
      omega
    exact h
  | succ n ih =>
    by_cases hk : k < 64
    · rw [whileN_pass (by rw [h.more, decide_eq_true hk])]
      exact ih (h.bit hk) (by omega)
    · obtain rfl : k = 64 := by
        have := h.le
        omega
      rw [whileN_done (by rw [h.more]; rfl)]
      exact h

/-- the inner loop of a first pass searches all bits -/
theorem First.bits (h : First roms 0 s) : First roms 64 s.bits := by
  have hbegin : ({ s with broken := false } : Scan) = s := by
    rw [← h.goesOn]
  show First roms 64 (Loops.whileN OneWireScan.more Scan.bit 64 { s with broken := false }.bit)
  rw [hbegin]
  exact (h.bit (by decide)).whileN (by decide)

end

/-! ## before the first pass -/

section
variable {rawwireFirstbit : Byte} (bus : Bus)

theorem reset_eq : reset bus = busAt (bus.map Device.rom) fun _ => .command [] := by
  rw [busAt, List.map_map]
  rfl

theorem start_bus_lsb (h : rawwireFirstbit ≠ devFirstbitMsb) :
    (Scan.start rawwireFirstbit bus).bus = busAt (bus.map Device.rom) fun _ => .bit 0 := by
  have hbits : (List.range 8).map (0xf0 : Byte).getLsbD = searchRom := by decide
  show onewireWriteU8 rawwireFirstbit (reset bus) 0xf0 = _
  rw [onewireWriteU8, if_neg h, hbits, reset_eq, foldl_command _ _ _ (by decide) rfl]
  rfl

/-- with the other bit order no device takes the command for a search -/
theorem start_bus_msb (h : rawwireFirstbit = devFirstbitMsb) :
    (Scan.start rawwireFirstbit bus).bus = busAt (bus.map Device.rom) fun _ => .idle := by
  have hlen : ((List.range 8).map (reverseU8 0xf0).getLsbD).length = 8 := by
    rw [List.length_map, List.length_range]
  have hbits : ¬ [] ++ (List.range 8).map (reverseU8 0xf0).getLsbD = searchRom := by decide
  show onewireWriteU8 rawwireFirstbit (reset bus) 0xf0 = _
  rw [onewireWriteU8, if_pos h, reset_eq, foldl_command _ _ _ (by decide) (by rw [hlen]; rfl)]
  simp only [if_neg hbits]

theorem first_start (h : rawwireFirstbit ≠ devFirstbitMsb) (hne : bus ≠ []) :
    First (bus.map Device.rom) 0 (Scan.start rawwireFirstbit bus) := by
  have hall : ∀ r, agrees (Scan.start rawwireFirstbit bus).romNo 0 r = true := fun r =>
    decide_eq_true fun j hj => absurd hj (Nat.not_lt_zero j)
  refine ⟨rfl, by decide, rfl, rfl, rfl, fun j _ => BitVec.getLsbD_zero, ?_, ?_, fun _ _ => rfl⟩
  · rw [start_bus_lsb bus h, if_pos (by decide)]
    refine congrArg (busAt _) (funext fun r => ?_)
    rw [searched, if_pos (hall r)]
  · obtain ⟨d, ds, rfl⟩ := List.exists_cons_of_ne_nil hne
    exact ⟨d.rom, List.mem_cons_self, hall d.rom⟩

end

/-! ## the passes -/

/-- no device answers any more, and `ROM_NO` has the bytes `c`, which have been printed -/
structure Spent (roms : List Rom) (c : List Byte) (s : Scan) : Prop where
  bus : s.bus = busAt roms fun _ => .idle
  romNo : (List.range 8).map s.romNo = c
  inside : s.outside = false
  printed : ∃ m, s.printed = List.replicate (m + 1) c

section
variable {roms : List Rom} {c : List Byte} {s : Scan}

/-- two reads of a silent bus are two ones -/
theorem bits_silent (h : s.bus = busAt roms fun _ => .idle) : s.bits = { s with broken := true } := by
  have hbit : ({ s with broken := false } : Scan).bit = { s with broken := true } := by
    show (if line s.bus true && line (slot s.bus true) true then _ else _) = _
    rw [h, slot_idle, slot_idle, line_idle, Bool.and_self, if_pos rfl, ← h]
  show whileN more Scan.bit 64 ({ s with broken := false } : Scan).bit = _
  rw [hbit, whileN_done rfl]

theorem Spent.pass (h : Spent roms c s) : Spent roms c s.pass := by
  have hbits := bits_silent h.bus
  obtain ⟨m, hm⟩ := h.printed
  refine ⟨?_, ?_, ?_, m + 1, ?_⟩
  · show s.bits.bus = _
    rw [hbits]
    exact h.bus
  · show (List.range 8).map s.bits.romNo = _
    rw [hbits]
    exact h.romNo
  · show s.bits.outside = false
    rw [hbits]
    exact h.inside
  · show s.printed ++ [(List.range 8).map s.bits.romNo] = _
    rw [hbits, hm]
    show List.replicate (m + 1) c ++ [(List.range 8).map s.romNo] = _
    rw [h.romNo, ← List.replicate_succ']

/-- what is printed first is printed in every pass -/
theorem Spent.whileN (h : Spent roms c s) (ubtn : Nat → Bool) (n : Nat) :
    Spent roms c (whileN (going ubtn) Scan.pass n s) :=
  whileN_inv (fun _ _ h => h.pass) h n

/-- the first pass prints the code of one device -/
theorem First.pass (h : First roms 0 s) (hprinted : s.printed = []) :
    ∃ r ∈ roms, Spent roms (code r) s.pass := by
  have h64 := h.bits
  obtain ⟨r, hr, hagrees⟩ := h64.found
  have hcode := bytes_eq_code (of_decide_eq_true hagrees)
  refine ⟨r, hr, ?_, hcode, h64.inside, 0, ?_⟩
  · show s.bits.bus = _
    rw [h64.bus, if_neg (by decide)]
    refine congrArg (busAt roms) (funext fun q => ?_)
    rw [searched, ite_self]
  · show s.printed ++ [(List.range 8).map s.bits.romNo] = _
    rw [hprinted, hcode]
    rfl

end

section
variable (rawwireFirstbit : Byte) (ubtn : Nat → Bool) (d : Devices)

def Devices.roms (d : Devices) : List Rom := d.bus.map Device.rom

theorem Devices.roms_ne_nil : d.roms ≠ [] := by
  rw [Devices.roms, ne_eq, List.map_eq_nil_iff]
  exact d.nonempty

/-- the first pass of a scan -/
theorem pass_start : ∃ r, Spent d.roms (code r) (Scan.start rawwireFirstbit d.bus).pass ∧
    (rawwireFirstbit ≠ devFirstbitMsb → r ∈ d.roms) ∧
    (rawwireFirstbit = devFirstbitMsb → r = 0) := by
  by_cases h : rawwireFirstbit = devFirstbitMsb
  · have hbits := bits_silent (start_bus_msb d.bus h)
    refine ⟨0, ⟨?_, ?_, ?_, 0, ?_⟩, fun hlsb => absurd h hlsb, fun _ => rfl⟩
    · show (Scan.start rawwireFirstbit d.bus).bits.bus = _
      rw [hbits]
      exact start_bus_msb d.bus h
    · show (List.range 8).map (Scan.start rawwireFirstbit d.bus).bits.romNo = _
      rw [hbits]
      rfl
    · show (Scan.start rawwireFirstbit d.bus).bits.outside = false
      rw [hbits]
      rfl
    · show [] ++ [(List.range 8).map (Scan.start rawwireFirstbit d.bus).bits.romNo] = _
      rw [hbits]
      rfl
  · obtain ⟨r, hr, hspent⟩ := (first_start d.bus h d.nonempty).pass rfl
    exact ⟨r, hspent, fun _ => hr, fun hmsb => absurd hmsb h⟩

/-- a single device is the last one -/
theorem pass_flag {r : Rom} (hr : d.roms = [r]) :
    (Scan.start rawwireFirstbit d.bus).pass.lastDeviceFlag = true := by
  show (false || decide ((Scan.start rawwireFirstbit d.bus).bits.lastZero = 0)) = true
  by_cases h : rawwireFirstbit = devFirstbitMsb
  · rw [bits_silent (start_bus_msb d.bus h)]
    rfl
  · rw [(first_start d.bus h d.nonempty).bits.single r hr]
    rfl

variable {rawwireFirstbit ubtn d}

variable (ubtn) in
/-- a scan prints one code, as often as it makes a pass -/
theorem printed_onewireScan {r : Rom}
    (hspent : Spent d.roms (code r) (Scan.start rawwireFirstbit d.bus).pass) (n : Nat) :
    (onewireScan rawwireFirstbit ubtn d.bus n).printed = [] ∧
        onewireScan rawwireFirstbit ubtn d.bus n = Scan.start rawwireFirstbit d.bus ∨
      ubtn 0 = false ∧
        ∃ m, (onewireScan rawwireFirstbit ubtn d.bus n).printed = List.replicate (m + 1) (code r) := by
  cases n with
  | zero => exact .inl ⟨rfl, rfl⟩
  | succ n =>
    cases hgoing : going ubtn (Scan.start rawwireFirstbit d.bus) with
    | false =>
      rw [onewireScan, whileN_done hgoing]
      exact .inl ⟨rfl, rfl⟩
    | true =>
      rw [onewireScan, whileN_pass hgoing]
      refine .inr ⟨?_, (hspent.whileN ubtn n).printed⟩
      simpa [going, Scan.start] using hgoing

/-- a scan that finds all devices finds one -/
theorem FindsAll.single {c : Rom}
    (hspent : Spent d.roms (code c) (Scan.start rawwireFirstbit d.bus).pass)
    (h : FindsAll rawwireFirstbit ubtn d) : ubtn 0 = false ∧ ∃ r, d.roms = [r] ∧ r = c := by
  have hdistinct : (d.roms.map code).Nodup := d.distinct.map code_injective
  obtain ⟨n, -, -, hperm⟩ := h
  rcases printed_onewireScan ubtn hspent n with ⟨hnone, -⟩ | ⟨hbegun, m, hm⟩
  · rw [hnone] at hperm
    exact absurd (List.map_eq_nil_iff.mp hperm.nil_eq.symm) d.roms_ne_nil
  · rw [hm] at hperm
    obtain rfl : m = 0 := by
      have hnodup := hperm.nodup_iff.mpr hdistinct
      rw [List.nodup_replicate] at hnodup
      omega
    obtain ⟨r, hr, hcode⟩ := List.map_eq_singleton_iff.mp (List.singleton_perm.mp hperm).symm
    exact ⟨hbegun, r, hr, code_injective hcode⟩

/-- **The 1-Wire search.**  It finds the devices exactly when there is one, which is sent the
command in its bit order or has the code zero, and the button is not pressed when it begins. -/
theorem findsAll_iff :
    FindsAll rawwireFirstbit ubtn d ↔
      ubtn 0 = false ∧
        ∃ r, d.bus.map Device.rom = [r] ∧ (rawwireFirstbit ≠ devFirstbitMsb ∨ r = 0) := by
  obtain ⟨c, hspent, hlsb, hmsb⟩ := pass_start rawwireFirstbit d
  constructor
  · intro hfinds
    obtain ⟨hbegun, r, hr, rfl⟩ := hfinds.single hspent
    refine ⟨hbegun, r, hr, ?_⟩
    by_cases h : rawwireFirstbit = devFirstbitMsb
    · exact .inr (hmsb h)
    · exact .inl h
  · rintro ⟨hbegun, r, hr, horder⟩
    have hgoing : going ubtn (Scan.start rawwireFirstbit d.bus) = true := by
      show (!false && !ubtn 0) = true
      rw [hbegun]
      rfl
    have hcr : c = r := by
      by_cases h : rawwireFirstbit = devFirstbitMsb
      · rw [hmsb h, horder.resolve_left (not_not.mpr h)]
      · have hmem := hlsb h
        rw [Devices.roms, hr] at hmem
        exact List.mem_singleton.mp hmem
    have hone : onewireScan rawwireFirstbit ubtn d.bus 1
        = (Scan.start rawwireFirstbit d.bus).pass := whileN_pass hgoing 0
    refine ⟨1, ?_, ?_, ?_⟩
    · rw [hone, going, pass_flag rawwireFirstbit d hr]
      rfl
    · rw [hone]
      exact hspent.inside
    · have hprinted : (Scan.start rawwireFirstbit d.bus).pass.printed = [code c] := by
        show [] ++ [(List.range 8).map (Scan.start rawwireFirstbit d.bus).bits.romNo] = _
        exact congrArg (fun b => [b]) hspent.romNo
      rw [hone, hprinted, hr, hcr]
      exact .refl _

end

/-- the codes 1 and 2 -/
def twoDevices : Devices := ⟨[⟨1, .idle⟩, ⟨2, .idle⟩], by decide, nofun⟩

/-- of two devices one is found -/
theorem one_of_two_found :
    ¬ ∀ d : Devices, FindsAll 2 (fun _ => false) d := by
  intro hall
  obtain ⟨c, hspent, -, -⟩ := pass_start 2 twoDevices
  obtain ⟨-, r, hr, -⟩ := (hall twoDevices).single hspent
  have hlen : 2 = 1 := congrArg List.length hr
  exact absurd hlen (by decide)

end OneWireScan
end Hydra
