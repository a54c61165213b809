import HydraFw.Lib.Chunks
import HydraFw.Lib.Loops
import HydraFw.Lib.Rams

/-!
# SPI transfers for the host

The write-then-read commands of `bbio_mode_spi` (`hydrabus_bbio_spi.c`).

* `Env`, `Dev`       the host and the slave, and what the mode works on: `g_sbuf`, the bus, the
                     console;
* `inChunks`         a loop that requests 255 bytes a turn, `inChunks_inv` its rule;
* `writeRead`        the commands;
* `Exchanged`        what the bus and the host see of an accepted command;
* `writeRead_law`    every command is carried out or refused, inside the two halves of the buffer.

A transfer of the master does not fail: nothing on the bus acknowledges it.
-/

namespace Hydra
namespace Spi
open Loops Rams

/-! ## the bus, the buffer and the host -/

inductive BusEv where
  | select
  | unselect
  | write (data : List UInt8)
  /-- the bytes that a request has clocked in -/
  | read (data : List UInt8)
  deriving DecidableEq

inductive Obj where
  | gSbuf
  deriving DecidableEq

/-- what the host sends, and what the slave answers to a request, behind what the bus has seen -/
structure Env where
  sent : Nat → UInt8
  slave : List BusEv → Nat → UInt8

structure Dev where
  ram : Ram Obj UInt8
  bus : List BusEv
  /-- how many bytes have been taken from the host -/
  taken : Nat
  /-- what the host has received -/
  out : List UInt8

/-- `tx_data` and `rx_data`, as places in `g_sbuf` -/
def txData : Nat := 0
def rxData : Nat := 4096

def Dev.buf (d : Dev) : Nat → UInt8 := d.ram.mem .gSbuf

def Dev.chnRead (e : Env) (d : Dev) (off n : Nat) : Dev :=
  { d with
    ram := d.ram.put .gSbuf off (slice e.sent d.taken n)
    taken := d.taken + n }

def Dev.cprint (d : Dev) (data : List UInt8) : Dev := { d with out := d.out ++ data }

/-- `cprint` from the buffer; nothing is printed of no bytes -/
def Dev.cprintBuf (d : Dev) (off n : Nat) : Dev :=
  if n = 0 then d else { d with ram := d.ram.rd .gSbuf off n }.cprint (slice d.buf off n)

def Dev.select (d : Dev) : Dev := { d with bus := d.bus ++ [.select] }
def Dev.unselect (d : Dev) : Dev := { d with bus := d.bus ++ [.unselect] }

/-- `bsp_spi_write_u8` -/
def Dev.writeU8 (d : Dev) (off n : Nat) : Dev :=
  { d with
    ram := d.ram.rd .gSbuf off n
    bus := d.bus ++ [.write (slice d.buf off n)] }

/-- `bsp_spi_read_u8` -/
def Dev.readU8 (e : Env) (d : Dev) (off n : Nat) : Dev :=
  let data := slice (e.slave d.bus) 0 n
  { d with
    ram := d.ram.put .gSbuf off data
    bus := d.bus ++ [.read data] }

/-- a number of two bytes in the buffer -/
def Dev.be16 (d : Dev) (off : Nat) : UInt32 :=
  ((d.buf off).toUInt32 <<< 8) + (d.buf (off + 1)).toUInt32

/-! ## a loop over chunks -/

structure Turn where
  dev : Dev
  i : UInt32

def Turn.more (n : UInt32) (t : Turn) : Bool := t.i < n

/-- the size of the request, which is passed as `uint8_t` -/
def request (n i : UInt32) : UInt8 := if n - i ≥ 255 then 255 else (n - i).toUInt8

def Turn.pass (f : Dev → Nat → Nat → Dev) (n : UInt32) (t : Turn) : Turn where
  dev := f t.dev t.i.toNat (request n t.i).toNat
  i := t.i + 255

def inChunks (f : Dev → Nat → Nat → Dev) (n : UInt32) (d : Dev) : Turn :=
  whileN (Turn.more n) (Turn.pass f n) n.toNat ⟨d, 0⟩

/-! ## the commands -/

/-- the loop that writes the payload -/
def writePayload (n : UInt32) : Dev → Turn :=
  inChunks (fun d i size => d.writeU8 (txData + i) size) n

/-- the loop that reads the answer -/
def readAnswer (e : Env) (n : UInt32) : Dev → Turn :=
  inChunks (fun d i size => d.readU8 e (rxData + i) size) n

/-- the four bytes with the counts, which are looked at in `rx_data` -/
def Dev.readCounts (e : Env) (d : Dev) : Dev :=
  let d := d.chnRead e rxData 4
  { d with ram := d.ram.rd .gSbuf rxData 4 }

def bbioSpiWriteRead : UInt8 := 0b00000100
def bbioSpiWriteReadNcs : UInt8 := 0b00000101

/-- `bbio_subcommand` in the case of the switch that the two share -/
abbrev Subcommand := {b : UInt8 // b = bbioSpiWriteRead ∨ b = bbioSpiWriteReadNcs}

/-- the slave is selected -/
def Subcommand.cs (bbioSubcommand : Subcommand) : Bool := bbioSubcommand.val = bbioSpiWriteRead

def writeRead (e : Env) (bbioSubcommand : Subcommand) (d : Dev) : Dev :=
  let d := d.readCounts e
  let toTx := d.be16 rxData
  let toRx := d.be16 (rxData + 2)
  if toTx > 4096 ∨ toRx > 4096 then d.cprint [0x00]
  else
    let d := if bbioSubcommand.cs then d.select else d
    let d := if toTx > 0 then (writePayload toTx (d.chnRead e txData toTx.toNat)).dev else d
    let d := (readAnswer e toRx d).dev
    let d := if bbioSubcommand.cs then d.unselect else d
    (d.cprint [0x01]).cprintBuf rxData toRx.toNat

/-! ## the law -/

/-- a number, the highest byte first -/
def beNat (data : List UInt8) : Nat := data.foldl (fun n b => n * 256 + b.toNat) 0

/-- an access to one of the two halves of the buffer -/
def InHalf (a : Access Obj) : Prop :=
  a.off + a.len ≤ 4096 ∨ 4096 ≤ a.off ∧ a.off + a.len ≤ 8192

/-- what has been accessed since `d` -/
def Confined (d d' : Dev) : Prop :=
  ∃ accesses, d'.ram.trace = d.ram.trace ++ accesses ∧ ∀ a ∈ accesses, InHalf a

/-- `payload` was written in the requests `writes`, `toRx` bytes were read in the requests `reads`,
and the host received them -/
structure Exchanged (cs : Bool) (payload : List UInt8) (toRx : Nat) (d d' : Dev)
    (writes reads : List (List UInt8)) : Prop where
  bus : d'.bus = d.bus ++ (if cs then [.select] else []) ++ writes.map .write ++
    reads.map .read ++ (if cs then [.unselect] else [])
  written : writes.flatten = payload
  clocked : reads.flatten.length = toRx
  sizes : ∀ r ∈ writes ++ reads, 1 ≤ r.length ∧ r.length ≤ 255
  reply : d'.out = d.out ++ 0x01 :: reads.flatten

/-- only the host hears of the command -/
structure Refused (d d' : Dev) : Prop where
  bus : d'.bus = d.bus
  reply : d'.out = d.out ++ [0x00]

/-- a command with these counts -/
structure WritesReads (e : Env) (cs : Bool) (toTx toRx : Nat) (d d' : Dev) : Prop where
  accepted : toTx ≤ 4096 → toRx ≤ 4096 → d'.taken = d.taken + 4 + toTx ∧
    ∃ writes reads, Exchanged cs (slice e.sent (d.taken + 4) toTx) toRx d d' writes reads
  refused : toTx > 4096 ∨ toRx > 4096 → Refused d d'
  confined : Confined d d'
  ends : ∀ n : UInt32, n.toNat ≤ 4096 → ∀ d, (writePayload n d).more n = false ∧
    (readAnswer e n d).more n = false

/-! ## the rule of the loop -/

section
variable {e : Env} {d d' d'' : Dev} {f : Dev → Nat → Nat → Dev} {n : UInt32}

theorem request_eq {n i : UInt32} {j : Nat} (hi : i.toNat = j * 255)
    (hj : j * 255 < n.toNat) : (request n i).toNat = Chunks.size 255 n.toNat j :=
  @Chunks.size_toNat j 255 255 i n rfl (hi.trans (Nat.min_eq_left hj.le).symm)

/-- **The rule of the loop**: what a chunk keeps, with the number of the chunks so far. -/
theorem inChunks_inv (hn : n.toNat ≤ 4096) (I : Nat → Dev → Prop) (h0 : I 0 d)
    (step : ∀ j d, j < Chunks.count 255 n.toNat → I j d →
      I (j + 1) (f d (j * 255) (Chunks.size 255 n.toNat j))) :
    I (Chunks.count 255 n.toNat) (inChunks f n d).dev ∧ (inChunks f n d).more n = false := by
  have hf : 0 < 255 := Nat.succ_pos 254
  have hrun : ∀ j ≤ Chunks.count 255 n.toNat,
      I j (whileN (Turn.more n) (Turn.pass f n) j ⟨d, 0⟩).dev ∧
        (whileN (Turn.more n) (Turn.pass f n) j ⟨d, 0⟩).i.toNat = j * 255 := by
    intro j
    induction j with
    | zero => exact fun _ => ⟨h0, rfl⟩
    | succ j ih =>
      intro hj
      obtain ⟨hI, hi⟩ := ih (Nat.le_of_succ_le hj)
      have hlt := (Chunks.lt_count hf).mp hj
      have hmore : Turn.more n (whileN (Turn.more n) (Turn.pass f n) j ⟨d, 0⟩) = true :=
        decide_eq_true (UInt32.lt_iff_toNat_lt.mpr (by rwa [hi]))
      rw [whileN_succ, whileN_pass hmore]
      refine ⟨?_, ?_⟩
      · show I (j + 1) (f _ _ _)
        rw [hi, request_eq hi hlt]
        exact step j _ hj hI
      · show (_ + 255 : UInt32).toNat = _
        rw [UInt32.toNat_add, hi]
        have hstep : (255 : UInt32).toNat = 255 := rfl
        omega
  obtain ⟨hI, hi⟩ := hrun _ (Nat.le_refl _)
  have hend : Turn.more n (whileN (Turn.more n) (Turn.pass f n) (Chunks.count 255 n.toNat)
      ⟨d, 0⟩) = false := by
    refine decide_eq_false fun h => ?_
    have hlt := UInt32.lt_iff_toNat_lt.mp h
    rw [hi] at hlt
    exact Nat.lt_irrefl _ ((Chunks.lt_count hf).mpr hlt)
  unfold inChunks
  rw [whileN_ended (Chunks.count_le hf n.toNat) hend]
  exact ⟨hI, hend⟩

/-! ## what the operations access -/

theorem Confined.refl (d : Dev) : Confined d d :=
  ⟨[], (List.append_nil _).symm, fun _ ha => absurd ha List.not_mem_nil⟩

theorem Confined.trans (h : Confined d d') (h' : Confined d' d'') : Confined d d'' := by
  obtain ⟨as, htrace, has⟩ := h
  obtain ⟨bs, htrace', hbs⟩ := h'
  refine ⟨as ++ bs, by rw [htrace', htrace, List.append_assoc], fun a ha => ?_⟩
  rcases List.mem_append.mp ha with ha | ha
  · exact has a ha
  · exact hbs a ha

theorem Confined.one {a : Access Obj} (h : d'.ram.trace = d.ram.trace ++ [a]) (ha : InHalf a) :
    Confined d d' :=
  ⟨[a], h, fun b hb => by rwa [List.mem_singleton.mp hb]⟩

theorem Confined.same (h : d'.ram = d.ram) : Confined d d' :=
  ⟨[], by rw [h, List.append_nil], fun _ ha => absurd ha List.not_mem_nil⟩

theorem confined_chnRead {off n : Nat} (h : off + n ≤ 4096 ∨ 4096 ≤ off ∧ off + n ≤ 8192) :
    Confined d (d.chnRead e off n) :=
  .one rfl (by unfold InHalf; rwa [slice_length])

theorem confined_cprintBuf {off n : Nat} (h : off + n ≤ 4096 ∨ 4096 ≤ off ∧ off + n ≤ 8192) :
    Confined d (d.cprintBuf off n) := by
  unfold Dev.cprintBuf
  split_ifs
  · exact .refl d
  · exact .one rfl h

theorem cprintBuf_out (d : Dev) (off n : Nat) :
    (d.cprintBuf off n).out = d.out ++ slice d.buf off n := by
  unfold Dev.cprintBuf
  split_ifs with hn
  · rw [hn, slice_zero, List.append_nil]
  · rfl

theorem cprintBuf_bus (d : Dev) (off n : Nat) : (d.cprintBuf off n).bus = d.bus := by
  unfold Dev.cprintBuf
  split_ifs <;> rfl

theorem cprintBuf_taken (d : Dev) (off n : Nat) : (d.cprintBuf off n).taken = d.taken := by
  unfold Dev.cprintBuf
  split_ifs <;> rfl

/-- what was stored is in the buffer -/
theorem slice_chnRead (e : Env) (d : Dev) (off n : Nat) :
    slice (d.chnRead e off n).buf off n = slice e.sent d.taken n := by
  have h := Ram.slice_put d.ram Obj.gSbuf off (slice e.sent d.taken n)
  rwa [slice_length] at h

/-! ## the two loops -/

/-- the bytes of the chunks so far -/
theorem chunk_end {n j : Nat} (hj : j < Chunks.count 255 n) :
    min ((j + 1) * 255) n = min (j * 255) n + Chunks.size 255 n j ∧ min (j * 255) n = j * 255 := by
  have hlt := (Chunks.lt_count (Nat.succ_pos 254)).mp hj
  unfold Chunks.size
  omega

/-- between two turns of the first loop -/
structure Writing (d : Dev) (n j : Nat) (writes : List (List UInt8)) (d' : Dev) : Prop where
  bus : d'.bus = d.bus ++ writes.map .write
  written : writes.flatten = slice d.buf txData (min (j * 255) n)
  sizes : ∀ r ∈ writes, 1 ≤ r.length ∧ r.length ≤ 255
  buf : d'.buf = d.buf
  rest : d'.out = d.out ∧ d'.taken = d.taken
  confined : Confined d d'

theorem Writing.step {n j : Nat} {writes : List (List UInt8)} (h : Writing d n j writes d')
    (hn : n ≤ 4096) (hj : j < Chunks.count 255 n) :
    Writing d n (j + 1) (writes ++ [slice d.buf (txData + j * 255) (Chunks.size 255 n j)])
      (d'.writeU8 (txData + j * 255) (Chunks.size 255 n j)) := by
  obtain ⟨hend, hstart⟩ := chunk_end hj
  have hpos := Chunks.size_pos (Nat.succ_pos 254) hj
  refine ⟨?_, ?_, fun r hr => ?_, h.buf, h.rest, h.confined.trans (.one rfl (.inl ?_))⟩
  · show d'.bus ++ [.write (slice d'.buf _ _)] = _
    rw [h.bus, h.buf, List.map_append, List.append_assoc]
    rfl
  · rw [List.flatten_append, h.written, List.flatten_singleton, hend, slice_append, hstart]
  · rcases List.mem_append.mp hr with hr | hr
    · exact h.sizes r hr
    · rw [List.mem_singleton.mp hr, slice_length]
      exact ⟨hpos, Chunks.size_le ..⟩
  · show 0 + j * 255 + Chunks.size 255 n j ≤ 4096
    omega

theorem writePayload_law (d : Dev) {n : UInt32} (hn : n.toNat ≤ 4096) :
    (∃ writes, Writing d n.toNat (Chunks.count 255 n.toNat) writes (writePayload n d).dev) ∧
      (writePayload n d).more n = false := by
  refine inChunks_inv hn (fun j d' => ∃ writes, Writing d n.toNat j writes d') ?_ ?_
  · refine ⟨[], (List.append_nil _).symm, ?_, fun _ hr => absurd hr List.not_mem_nil, rfl,
      ⟨rfl, rfl⟩, .refl d⟩
    rw [Nat.zero_mul, Nat.zero_min]
    rfl
  · rintro j d' hj ⟨writes, h⟩
    exact ⟨_, h.step hn hj⟩

/-- between two turns of the second loop -/
structure Reading (d : Dev) (n j : Nat) (reads : List (List UInt8)) (d' : Dev) : Prop where
  bus : d'.bus = d.bus ++ reads.map .read
  stored : slice d'.buf rxData (min (j * 255) n) = reads.flatten
  sizes : ∀ r ∈ reads, 1 ≤ r.length ∧ r.length ≤ 255
  rest : d'.out = d.out ∧ d'.taken = d.taken
  confined : Confined d d'

theorem Reading.step {n j : Nat} {reads : List (List UInt8)} (h : Reading d n j reads d')
    (hn : n ≤ 4096) (hj : j < Chunks.count 255 n) :
    Reading d n (j + 1) (reads ++ [slice (e.slave d'.bus) 0 (Chunks.size 255 n j)])
      (d'.readU8 e (rxData + j * 255) (Chunks.size 255 n j)) := by
  obtain ⟨hend, hstart⟩ := chunk_end hj
  have hpos := Chunks.size_pos (Nat.succ_pos 254) hj
  let data := slice (e.slave d'.bus) 0 (Chunks.size 255 n j)
  refine ⟨?_, ?_, fun r hr => ?_, h.rest, h.confined.trans (.one rfl (.inr ?_))⟩
  · show d'.bus ++ [.read data] = d.bus ++ (reads ++ [data]).map .read
    rw [List.map_append, ← List.append_assoc, ← h.bus]
    rfl
  · have hput : (d'.readU8 e (rxData + j * 255) (Chunks.size 255 n j)).buf =
        overwrite d'.buf (rxData + j * 255) data := Ram.put_mem_same ..
    have hbefore : slice (overwrite d'.buf (rxData + j * 255) data) rxData (j * 255) =
        slice d'.buf rxData (j * 255) :=
      slice_congr fun k hk => overwrite_out _ _ _ _ (.inl (by omega))
    have hnew : slice (overwrite d'.buf (rxData + j * 255) data) (rxData + j * 255)
        (Chunks.size 255 n j) = data := by
      have hlist := slice_overwrite d'.buf (rxData + j * 255) data
      rwa [slice_length] at hlist
    rw [hend, hstart, slice_append, hput, hbefore, hnew, List.flatten_append,
      List.flatten_singleton, ← h.stored, hstart]
  · rcases List.mem_append.mp hr with hr | hr
    · exact h.sizes r hr
    · rw [List.mem_singleton.mp hr, slice_length]
      exact ⟨hpos, Chunks.size_le ..⟩
  · show 4096 ≤ 4096 + j * 255 ∧ 4096 + j * 255 + (slice _ _ _).length ≤ 8192
    rw [slice_length]
    omega

theorem readAnswer_law (e : Env) (d : Dev) {n : UInt32} (hn : n.toNat ≤ 4096) :
    (∃ reads, Reading d n.toNat (Chunks.count 255 n.toNat) reads (readAnswer e n d).dev) ∧
      (readAnswer e n d).more n = false := by
  refine inChunks_inv hn (fun j d' => ∃ reads, Reading d n.toNat j reads d') ?_ ?_
  · refine ⟨[], (List.append_nil _).symm, ?_, fun _ hr => absurd hr List.not_mem_nil,
      ⟨rfl, rfl⟩, .refl d⟩
    rw [Nat.zero_mul, Nat.zero_min]
    rfl
  · rintro j d' hj ⟨reads, h⟩
    exact ⟨_, h.step hn hj⟩

/-! ## the law of the commands -/

theorem be16_toNat (d : Dev) (off : Nat) : (d.be16 off).toNat = beNat (slice d.buf off 2) := by
  have hhigh := (d.buf off).toNat_lt
  have hlow := (d.buf (off + 1)).toNat_lt
  show _ = (0 * 256 + (d.buf off).toNat) * 256 + (d.buf (off + 1)).toNat
  unfold Dev.be16
  rw [UInt32.toNat_add, UInt32.toNat_shiftLeft, UInt8.toNat_toUInt32, UInt8.toNat_toUInt32,
    show (8 : UInt32).toNat % 32 = 8 from rfl, Nat.shiftLeft_eq]
  omega

/-- the counts are in the buffer -/
theorem readCounts_be16 (e : Env) (d : Dev) :
    ((d.readCounts e).be16 rxData).toNat = beNat (slice e.sent d.taken 2) ∧
      ((d.readCounts e).be16 (rxData + 2)).toNat = beNat (slice e.sent (d.taken + 2) 2) := by
  have hread : slice (d.readCounts e).buf rxData (2 + 2) = slice e.sent d.taken (2 + 2) :=
    slice_chnRead e d rxData 4
  rw [slice_append, slice_append] at hread
  obtain ⟨hfirst, hsecond⟩ := List.append_inj hread (by rw [slice_length, slice_length])
  rw [be16_toNat, be16_toNat, hfirst, hsecond]
  exact ⟨rfl, rfl⟩

theorem confined_readCounts (e : Env) (d : Dev) : Confined d (d.readCounts e) :=
  (confined_chnRead (n := 4) (.inr ⟨Nat.le_refl _, by decide⟩)).trans
    (.one rfl (.inr ⟨Nat.le_refl _, by show 4096 + 4 ≤ 8192; decide⟩))

/-- the payload has been taken from the host and written -/
structure Sent (e : Env) (d : Dev) (n : Nat) (writes : List (List UInt8)) (d' : Dev) : Prop where
  bus : d'.bus = d.bus ++ writes.map .write
  written : writes.flatten = slice e.sent d.taken n
  sizes : ∀ r ∈ writes, 1 ≤ r.length ∧ r.length ≤ 255
  out : d'.out = d.out
  taken : d'.taken = d.taken + n
  confined : Confined d d'

theorem sent_law (e : Env) (d : Dev) {n : UInt32} (hn : n.toNat ≤ 4096) :
    ∃ writes, Sent e d n.toNat writes
      (if n > 0 then (writePayload n (d.chnRead e txData n.toNat)).dev else d) := by
  by_cases hpos : n > 0
  · rw [if_pos hpos]
    obtain ⟨⟨writes, h⟩, -⟩ := writePayload_law (d.chnRead e txData n.toNat) hn
    have hall := Chunks.le_count_mul (Nat.succ_pos 254) n.toNat
    have hread : Confined d (d.chnRead e txData n.toNat) :=
      confined_chnRead (.inl (by show 0 + n.toNat ≤ 4096; omega))
    refine ⟨writes, h.bus, ?_, h.sizes, h.rest.1, h.rest.2, hread.trans h.confined⟩
    rw [h.written, Nat.min_eq_right hall, slice_chnRead]
  · rw [if_neg hpos]
    have hzero : n.toNat = 0 := Nat.eq_zero_of_not_pos fun h => hpos (UInt32.lt_iff_toNat_lt.mpr h)
    refine ⟨[], (List.append_nil _).symm, ?_, fun _ hr => absurd hr List.not_mem_nil, rfl, ?_,
      .refl d⟩
    · rw [hzero]
      rfl
    · rw [hzero]
      rfl

/-- an accepted command, behind its counts -/
theorem exchanged (e : Env) (cs : Bool) (d : Dev) {toTx toRx : UInt32} (htx : toTx.toNat ≤ 4096)
    (hrx : toRx.toNat ≤ 4096) :
    let d₁ := if cs then d.select else d
    let d₂ := if toTx > 0 then (writePayload toTx (d₁.chnRead e txData toTx.toNat)).dev else d₁
    let d₃ := (readAnswer e toRx d₂).dev
    let d₄ := if cs then d₃.unselect else d₃
    let d' := (d₄.cprint [0x01]).cprintBuf rxData toRx.toNat
    d'.taken = d.taken + toTx.toNat ∧ Confined d d' ∧
      ∃ writes reads, Exchanged cs (slice e.sent d.taken toTx.toNat) toRx.toNat d d' writes
        reads := by
  intro d₁ d₂ d₃ d₄ d'
  obtain ⟨writes, hsent⟩ := sent_law e d₁ htx
  obtain ⟨⟨reads, hread⟩, -⟩ := readAnswer_law e d₂ hrx
  have hstored : slice d₃.buf rxData toRx.toNat = reads.flatten := by
    rw [← hread.stored, Nat.min_eq_right (Chunks.le_count_mul (Nat.succ_pos 254) _)]
  have hsel : d₁.bus = d.bus ++ (if cs then [.select] else []) ∧ d₁.out = d.out ∧
      d₁.taken = d.taken ∧ Confined d d₁ := by
    cases cs with
    | false => exact ⟨(List.append_nil _).symm, rfl, rfl, .refl d⟩
    | true => exact ⟨rfl, rfl, rfl, .same rfl⟩
  have hunsel : d₄.bus = d₃.bus ++ (if cs then [.unselect] else []) ∧ d₄.out = d₃.out ∧
      d₄.taken = d₃.taken ∧ d₄.buf = d₃.buf ∧ Confined d₃ d₄ := by
    cases cs with
    | false => exact ⟨(List.append_nil _).symm, rfl, rfl, rfl, .refl d₃⟩
    | true => exact ⟨rfl, rfl, rfl, rfl, .same rfl⟩
  obtain ⟨hbus₁, hout₁, htaken₁, hconf₁⟩ := hsel
  obtain ⟨hbus₄, hout₄, htaken₄, hbuf₄, hconf₄⟩ := hunsel
  have hone : Confined d₄ (d₄.cprint [0x01]) := .same rfl
  have hprint : Confined d₄ d' :=
    hone.trans (confined_cprintBuf (.inr ⟨Nat.le_refl _, by show 4096 + toRx.toNat ≤ 8192; omega⟩))
  refine ⟨?_, hconf₁.trans (hsent.confined.trans (hread.confined.trans (hconf₄.trans hprint))),
    writes, reads, ?_, ?_, ?_, fun r hr => ?_, ?_⟩
  · rw [cprintBuf_taken, ← htaken₁, ← hsent.taken, ← hread.rest.2]
    exact htaken₄
  · rw [cprintBuf_bus, ← hbus₁, ← hsent.bus, ← hread.bus]
    exact hbus₄
  · rw [hsent.written, htaken₁]
  · rw [← hstored, slice_length]
  · rcases List.mem_append.mp hr with hr | hr
    · exact hsent.sizes r hr
    · exact hread.sizes r hr
  · have hprinted : d₄.out ++ [0x01] = d.out ++ [0x01] := by
      rw [hout₄, hread.rest.1, hsent.out, hout₁]
    rw [cprintBuf_out]
    show d₄.out ++ [0x01] ++ slice d₄.buf rxData toRx.toNat = _
    rw [hprinted, hbuf₄, hstored, List.append_assoc]
    rfl

/-- **Write, then read.**  The counts are numbers of two bytes behind the subcommand; of at most
4096 they are carried out, all others refused. -/
theorem writeRead_law (e : Env) (bbioSubcommand : Subcommand) (d : Dev) :
    WritesReads e bbioSubcommand.cs (beNat (slice e.sent d.taken 2))
      (beNat (slice e.sent (d.taken + 2) 2)) d (writeRead e bbioSubcommand d) := by
  obtain ⟨htx, hrx⟩ := readCounts_be16 e d
  have hcounts := confined_readCounts e d
  have hbound : (4096 : UInt32).toNat = 4096 := rfl
  have hends : ∀ n : UInt32, n.toNat ≤ 4096 → ∀ d, (writePayload n d).more n = false ∧
      (readAnswer e n d).more n = false := fun n hn d =>
    ⟨(writePayload_law d hn).2, (readAnswer_law e d hn).2⟩
  by_cases hbig : (d.readCounts e).be16 rxData > 4096 ∨ (d.readCounts e).be16 (rxData + 2) > 4096
  · have hrefused : writeRead e bbioSubcommand d = (d.readCounts e).cprint [0x00] := if_pos hbig
    have hnot : beNat (slice e.sent d.taken 2) > 4096 ∨
        beNat (slice e.sent (d.taken + 2) 2) > 4096 := by
      rw [← htx, ← hrx]
      rcases hbig with h | h
      · exact .inl (UInt32.lt_iff_toNat_lt.mp h)
      · exact .inr (UInt32.lt_iff_toNat_lt.mp h)
    rw [hrefused]
    exact ⟨fun _ _ => by omega, fun _ => ⟨rfl, rfl⟩, hcounts.trans (.same rfl), hends⟩
  · have hle : ((d.readCounts e).be16 rxData).toNat ≤ 4096 ∧
        ((d.readCounts e).be16 (rxData + 2)).toNat ≤ 4096 :=
      ⟨Nat.le_of_not_lt fun h => hbig (.inl (UInt32.lt_iff_toNat_lt.mpr h)),
        Nat.le_of_not_lt fun h => hbig (.inr (UInt32.lt_iff_toNat_lt.mpr h))⟩
    obtain ⟨htaken, hconf, writes, reads, h⟩ :=
      exchanged e bbioSubcommand.cs (d.readCounts e) hle.1 hle.2
    rw [htx, hrx] at hle
    refine ⟨fun _ _ => ?_, fun hnot => by omega, ?_, hends⟩
    · unfold writeRead
      rw [if_neg hbig, ← htx, ← hrx]
      exact ⟨htaken, writes, reads, h.bus, h.written, h.clocked, h.sizes, h.reply⟩
    · unfold writeRead
      rw [if_neg hbig]
      exact hcounts.trans hconf

end
end Spi
end Hydra
