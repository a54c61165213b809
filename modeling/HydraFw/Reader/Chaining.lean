import HydraFw.Reader.Blocks
import HydraFw.Lib.Chunks

/-!
# The I-blocks of a command

The first loop of `send_apdu` cuts the APDU into blocks of the frame size, with an offset of eight
bits.  Here the card may answer with anything.

* `logged`           the link, with a record of the frames that go out;
* `commandFrames`    the frames of the first loop;
* `Chained`          the I-blocks carry the APDU, one after the other;
* `Repeats`          the APDUs for which the offset does no harm;
* `Cut`              the state between two passes;
* `chained_iff`      the law holds exactly for those.
-/

namespace Hydra
namespace Reader
open Rams Loops Iso14443

/-! ## frames -/

section
variable {κ : Type*} (link : κ → List UInt8 → κ × List UInt8)

def logged (x : κ × List (List UInt8)) (frame : List UInt8) :
    (κ × List (List UInt8)) × List UInt8 :=
  (((link x.1 frame).1, x.2 ++ [frame]), (link x.1 frame).2)

/-- the loop with the APDU in `buffer` -/
def command (fsd : Fsd) (apdu : Apdu) (r : State) (card : κ) : Sending (κ × List (List UInt8)) :=
  sendCommand (logged link) fsd apdu { r with buffer := overwrite r.buffer 0 apdu.bytes } (card, [])

def commandFrames (fsd : Fsd) (apdu : Apdu) (r : State) (card : κ) : List (List UInt8) :=
  (command link fsd apdu r card).card.2

end

/-- behind PCB and CID -/
def infField (frame : List UInt8) : List UInt8 := frame.drop 2

def chainingBit (frame : List UInt8) : Bool := frame.headD 0 &&& 0x10 = 0x10

def blockNumber (frame : List UInt8) : Bool := frame.headD 0 &&& 0x01 = 0x01

/-! ## the law and its condition -/

/-- the blocks of a command -/
structure Chained (fsd : Fsd) (apdu : Apdu) (frames : List (List UInt8)) : Prop where
  inf : frames.flatMap infField = apdu.bytes
  lengths : ∀ f ∈ frames, 1 ≤ (infField f).length ∧ (infField f).length ≤ fsd.value.toNat
  chaining : ∀ j (h : j < frames.length), chainingBit frames[j] = decide (j + 1 < frames.length)
  numbers : ∀ j (h : j < frames.length), blockNumber frames[j] = j.bodd

/-- in every block that starts behind the first 256 bytes, a byte is the one 256 places before -/
def Repeats (fsd : Fsd) (apdu : Apdu) : Prop :=
  ∀ p (h : p + 256 < apdu.bytes.length), 256 ≤ (p + 256) / fsd.value.toNat * fsd.value.toNat →
    apdu.bytes[p] = apdu.bytes[p + 256]

/-! ## a pass -/

section
variable {κ : Type*} {link : κ → List UInt8 → κ × List UInt8} {fsd : Fsd} {apdu : Apdu}

/-- the block `j` of `n` bytes, as it goes out -/
def block (cid : UInt8) (buffer : Nat → UInt8) (fsd : Fsd) (n j : Nat) : List UInt8 :=
  encode cid (.i j.bodd (decide (j + 1 < Chunks.count fsd.value.toNat n))
    (slice buffer (j * fsd.value.toNat % 256) (Chunks.size fsd.value.toNat n j)))

/-- between two passes: `j` blocks of `n` bytes have gone out -/
structure Cut (fsd : Fsd) (n : Nat) (cid : UInt8) (buffer : Nat → UInt8)
    (s : Sending (κ × List (List UInt8))) (j : Nat) : Prop where
  ready : Ready s.reader fsd j.bodd
  sameCid : s.reader.session.cid = cid
  sameBuffer : s.reader.buffer = buffer
  len : s.len = n - j * fsd.value.toNat
  rLen : s.rLen = s.len
  offset : j < Chunks.count fsd.value.toNat n → s.i.toNat = j * fsd.value.toNat % 256
  frames : s.card.2 = (List.range j).map (block cid buffer fsd n)

variable {n j : Nat} {cid : UInt8} {buffer : Nat → UInt8} {s : Sending (κ × List (List UInt8))}

theorem Cut.more (h : Cut fsd n cid buffer s j) :
    s.more = decide (j < Chunks.count fsd.value.toNat n) := by
  unfold Sending.more
  rw [decide_eq_decide, Chunks.lt_count fsd.pos, h.rLen, h.len]
  omega

/-- one block -/
theorem Cut.pass (h : Cut fsd n cid buffer s j) (hj : j < Chunks.count fsd.value.toNat n) :
    Cut fsd n cid buffer (s.pass (logged link)) (j + 1) := by
  obtain ⟨hnext, hframe⟩ := h.ready.getIblock (.buffer s.i.toNat) (blockLen fsd s.len)
    (decide (fsd.value.toNat < s.len))
  have hlen : (blockLen fsd s.len).toNat = Chunks.size fsd.value.toNat n j := by
    rw [blockLen_toNat, h.len]
    rfl
  have hchaining : decide (fsd.value.toNat < s.len) =
      decide (j + 1 < Chunks.count fsd.value.toNat n) := by
    rw [decide_eq_decide, Chunks.lt_count fsd.pos, h.len, Nat.succ_mul]
    omega
  have hrest : s.len - fsd.value.toNat = n - (j + 1) * fsd.value.toNat := by
    rw [h.len, Nat.succ_mul, Nat.sub_sub]
  have hload : s.reader.load (.buffer s.i.toNat) (blockLen fsd s.len).toNat =
      slice buffer (j * fsd.value.toNat % 256) (Chunks.size fsd.value.toNat n j) := by
    rw [hlen, ← h.offset hj, ← h.sameBuffer]
    rfl
  rw [hload, hchaining, h.sameCid] at hframe
  rw [← Nat.bodd_succ] at hnext
  rw [Sending.pass_eq (logged link) h.ready h.rLen, hchaining]
  rw [hchaining] at hnext
  refine ⟨⟨hnext.addCid, hnext.addNad, hnext.blockSize, hnext.number⟩, h.sameCid, h.sameBuffer,
    hrest, rfl, fun hmore => ?_, ?_⟩
  · -- the block is full, and the sum of its start and its length keeps eight bits
    rw [Chunks.size_full fsd.pos hmore] at hlen
    show (s.i + blockLen fsd s.len).toNat = _
    rw [UInt8.toNat_add, hlen, h.offset hj, Nat.mod_add_mod, Nat.succ_mul]
  · rw [List.range_succ, List.map_append, ← h.frames]
    exact congrArg (fun frame => s.card.2 ++ [frame]) hframe

/-- the loop, after `j` passes -/
def cutting (link : κ → List UInt8 → κ × List UInt8) (fsd : Fsd) (apdu : Apdu) (r : State)
    (card : κ) (j : Nat) : Sending (κ × List (List UInt8)) :=
  whileN Sending.more (Sending.pass (logged link)) j (Sending.start fsd apdu r (card, []))

theorem cutting_cut (link : κ → List UInt8 → κ × List UInt8) (apdu : Apdu) (r : State) (card : κ)
    (hj : j ≤ Chunks.count fsd.value.toNat apdu.bytes.length) :
    Cut fsd apdu.bytes.length r.session.cid r.buffer (cutting link fsd apdu r card j) j := by
  induction j with
  | zero =>
    refine ⟨initIso14443Session_ready fsd r, rfl, rfl, ?_, rfl, fun _ => ?_, rfl⟩
    · rw [Nat.zero_mul]
      rfl
    · rw [Nat.zero_mul]
      rfl
  | succ j ih =>
    have hcut := ih (Nat.le_of_succ_le hj)
    have hsucc : cutting link fsd apdu r card (j + 1) =
        (cutting link fsd apdu r card j).pass (logged link) := by
      unfold cutting at hcut ⊢
      rw [whileN_succ, whileN_pass (hcut.more.trans (decide_eq_true hj))]
      rfl
    rw [hsucc]
    exact hcut.pass hj

/-! ## the whole loop -/

/-- the loop ends, and all its blocks have gone out -/
theorem command_cut (link : κ → List UInt8 → κ × List UInt8) (fsd : Fsd) (apdu : Apdu) (r : State)
    (card : κ) :
    Cut fsd apdu.bytes.length r.session.cid (overwrite r.buffer 0 apdu.bytes)
      (command link fsd apdu r card) (commandBlocks fsd apdu) := by
  let r' : State := { r with buffer := overwrite r.buffer 0 apdu.bytes }
  have hcut := cutting_cut link apdu r' card
    (Nat.le_refl (Chunks.count fsd.value.toNat apdu.bytes.length))
  have hend : (cutting link fsd apdu r' card (commandBlocks fsd apdu)).more = false :=
    hcut.more.trans (decide_eq_false (Nat.lt_irrefl _))
  have heq : command link fsd apdu r card =
      cutting link fsd apdu r' card (commandBlocks fsd apdu) :=
    whileN_ended (commandBlocks_le fsd apdu) hend
  rw [heq]
  exact hcut

theorem command_ends (link : κ → List UInt8 → κ × List UInt8) (fsd : Fsd) (apdu : Apdu)
    (r : State) (card : κ) : (command link fsd apdu r card).more = false :=
  (command_cut link fsd apdu r card).more.trans (decide_eq_false (Nat.lt_irrefl _))

theorem commandFrames_eq (link : κ → List UInt8 → κ × List UInt8) (fsd : Fsd) (apdu : Apdu)
    (r : State) (card : κ) :
    commandFrames link fsd apdu r card = (List.range (commandBlocks fsd apdu)).map
      (block r.session.cid (overwrite r.buffer 0 apdu.bytes) fsd apdu.bytes.length) :=
  (command_cut link fsd apdu r card).frames

/-- where the byte `p` of the command is read -/
def source (fsd : Fsd) (p : Nat) : Nat :=
  p / fsd.value.toNat * fsd.value.toNat % 256 + p % fsd.value.toNat

theorem commandFrames_inf (link : κ → List UInt8 → κ × List UInt8) (fsd : Fsd) (apdu : Apdu)
    (r : State) (card : κ) :
    (commandFrames link fsd apdu r card).flatMap infField =
      (List.range apdu.bytes.length).map fun p =>
        overwrite r.buffer 0 apdu.bytes (source fsd p) := by
  rw [← Chunks.flatMap_chunks fsd.pos, commandFrames_eq, List.flatMap_map]
  refine congrArg List.flatten (List.map_congr_left fun j _ => List.map_congr_left fun i hi => ?_)
  have hi : i < fsd.value.toNat :=
    Nat.lt_of_lt_of_le (List.mem_range.mp hi) (Chunks.size_le ..)
  unfold source
  rw [Nat.mul_comm j, Nat.mul_add_div fsd.pos, Nat.div_eq_of_lt hi, Nat.add_zero,
    Nat.mul_add_mod, Nat.mod_eq_of_lt hi, Nat.mul_comm]

theorem source_near {p : Nat} (h : p / fsd.value.toNat * fsd.value.toNat < 256) :
    source fsd p = p := by
  unfold source
  rw [Nat.mod_eq_of_lt h, Nat.mul_comm, Nat.div_add_mod]

theorem source_far {p : Nat} (h : 256 ≤ p / fsd.value.toNat * fsd.value.toNat) (hp : p < 512) :
    source fsd p = p - 256 := by
  have hdiv := Nat.div_add_mod p fsd.value.toNat
  rw [Nat.mul_comm] at hdiv
  unfold source
  omega

theorem block_chainingBit (cid : UInt8) (buffer : Nat → UInt8) (fsd : Fsd) (n j : Nat) :
    chainingBit (block cid buffer fsd n j) =
      decide (j + 1 < Chunks.count fsd.value.toNat n) := by
  obtain ⟨-, -, hchaining, -⟩ := i_pcb_bits j.bodd (decide (j + 1 < Chunks.count fsd.value.toNat n))
  exact hchaining

theorem block_blockNumber (cid : UInt8) (buffer : Nat → UInt8) (fsd : Fsd) (n j : Nat) :
    blockNumber (block cid buffer fsd n j) = j.bodd := by
  obtain ⟨-, hnumber, -⟩ := i_pcb_bits j.bodd (decide (j + 1 < Chunks.count fsd.value.toNat n))
  exact hnumber

theorem block_length (cid : UInt8) (buffer : Nat → UInt8) (fsd : Fsd) (n j : Nat) :
    (infField (block cid buffer fsd n j)).length = Chunks.size fsd.value.toNat n j :=
  slice_length ..

/-- all of the law but the data -/
theorem chained_iff_inf (link : κ → List UInt8 → κ × List UInt8) (fsd : Fsd) (apdu : Apdu)
    (r : State) (card : κ) :
    Chained fsd apdu (commandFrames link fsd apdu r card) ↔
      (commandFrames link fsd apdu r card).flatMap infField = apdu.bytes := by
  refine ⟨Chained.inf, fun hinf => ⟨hinf, ?_, fun j hj => ?_, fun j hj => ?_⟩⟩
  all_goals simp only [commandFrames_eq, List.length_map, List.length_range, List.getElem_map,
    List.getElem_range] at *
  · intro frame hframe
    obtain ⟨j, hj, rfl⟩ := List.mem_map.mp hframe
    rw [block_length]
    exact ⟨Chunks.size_pos fsd.pos (List.mem_range.mp hj), Chunks.size_le ..⟩
  · exact block_chainingBit ..
  · exact block_blockNumber ..

theorem inf_iff (r : State) (hshort : apdu.bytes.length ≤ 260) :
    ((List.range apdu.bytes.length).map fun p =>
      overwrite r.buffer 0 apdu.bytes (source fsd p)) = apdu.bytes ↔ Repeats fsd apdu := by
  have hcell : ∀ p (h : p < apdu.bytes.length),
      overwrite r.buffer 0 apdu.bytes p = apdu.bytes[p] := fun p h => by
    have := overwrite_in r.buffer 0 apdu.bytes p h
    rwa [Nat.zero_add] at this
  constructor
  · intro heq p hp hfar
    have hget : ∀ q (hq : q < apdu.bytes.length),
        overwrite r.buffer 0 apdu.bytes (source fsd q) = apdu.bytes[q] := fun q hq => by
      have := congrArg (fun l => l[q]?) heq
      simpa [hq] using this
    have hnow := hget (p + 256) hp
    rw [source_far hfar (by omega), Nat.add_sub_cancel, hcell p (by omega)] at hnow
    exact hnow
  · intro hrepeats
    refine List.ext_getElem (by simp) fun p _ hp => ?_
    rw [List.getElem_map, List.getElem_range]
    by_cases hnear : p / fsd.value.toNat * fsd.value.toNat < 256
    · rw [source_near hnear, hcell p hp]
    · have hfar := Nat.le_of_not_lt hnear
      obtain ⟨q, rfl⟩ := Nat.exists_eq_add_of_le' (hfar.trans (Nat.div_mul_le_self ..))
      rw [source_far hfar (by omega), Nat.add_sub_cancel, hcell q (by omega)]
      exact hrepeats q hp hfar

/-- **The blocks of a command.**  The loop ends, and the I-blocks carry the command exactly when a
block that starts at 256 or behind holds what the start of the command holds. -/
theorem chained_iff (link : κ → List UInt8 → κ × List UInt8) (fsd : Fsd) (apdu : Apdu) (r : State)
    (card : κ) (hshort : apdu.bytes.length ≤ 260) :
    (Chained fsd apdu (commandFrames link fsd apdu r card) ∧
      (command link fsd apdu r card).more = false) ↔ Repeats fsd apdu := by
  rw [and_iff_left (command_ends ..), chained_iff_inf, commandFrames_inf]
  exact inf_iff r hshort

/-- three bytes in frames of two -/
theorem chained_three :
    let fsd : Fsd := ⟨2, by decide, by decide⟩
    let apdu : Apdu := ⟨[1, 2, 3], by decide⟩
    let link : Unit → List UInt8 → Unit × List UInt8 := fun _ _ => ((), [])
    Chained fsd apdu (commandFrames link fsd apdu State.zero ()) ∧
      (command link fsd apdu State.zero ()).more = false :=
  (chained_iff _ _ _ _ _ (by decide)).mpr fun p h => absurd h (by simp)

/-- 257 bytes in frames of 16: the last block holds the first byte again -/
theorem unchained_257 :
    let fsd : Fsd := ⟨16, by decide, by decide⟩
    let apdu : Apdu :=
      ⟨List.replicate 256 0 ++ [1], List.append_ne_nil_of_right_ne_nil _ (List.cons_ne_nil _ _)⟩
    let link : Unit → List UInt8 → Unit × List UInt8 := fun _ _ => ((), [])
    ¬ Chained fsd apdu (commandFrames link fsd apdu State.zero ()) := by
  intro fsd apdu link h
  have hlen : apdu.bytes.length = 257 := by
    rw [List.length_append, List.length_replicate, List.length_singleton]
  rw [chained_iff_inf, commandFrames_inf, inf_iff _ (by omega)] at h
  have hsame := h 0 (by omega) (by decide)
  have hfirst : apdu.bytes[0]? = some 0 := rfl
  have hlast : apdu.bytes[0 + 256]? = some 1 := by
    rw [List.getElem?_append_right (by rw [List.length_replicate]), List.length_replicate]
    rfl
  rw [List.getElem?_eq_getElem (by omega), hsame, ← List.getElem?_eq_getElem, hlast] at hfirst
  exact absurd hfirst (by decide)

end

end Reader
end Hydra
