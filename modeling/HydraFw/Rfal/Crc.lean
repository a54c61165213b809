import HydraFw.Common.Bytes
import HydraFw.Lib.BitBuf
import HydraFw.Lib.Crc

/-!
# The CRC of RFAL

`rfal_crc.c` works on bytes.  The CRC is that of the CCITT with its bits sent lowest first.

* `rfalCrcUpdateCcitt`, `rfalCrcCalculateCcitt`;
* `calculate_eq`   the register behind the bits of the bytes.
-/

namespace Hydra
open Common Crc

def rfalCrcUpdateCcitt (crcSeed : BitVec 16) (dataByte : Byte) : BitVec 16 :=
  let dat := dataByte ^^^ crcSeed.setWidth 8
  let dat := (dat ^^^ dat <<< 4).setWidth 16
  crcSeed >>> 8 ^^^ dat <<< 8 ^^^ dat <<< 3 ^^^ dat >>> 4

def rfalCrcCalculateCcitt (preloadValue : BitVec 16) (buf : List Byte) : BitVec 16 :=
  buf.foldl rfalCrcUpdateCcitt preloadValue

/-- `x ^ 16 + x ^ 12 + x ^ 5 + 1`, the lowest coefficient on top -/
def ccitt : BitVec 16 := 0x8408

theorem ccitt_top : ccitt.getLsbD (16 - 1) = true := by decide

/-- what a byte does to an empty register -/
theorem update_zero (x : Byte) : rfalCrcUpdateCcitt 0 x = run ccitt 0#16 (lowBits x 8) := by
  revert x
  decide +kernel

theorem update_split (crc : BitVec 16) (x : Byte) :
    rfalCrcUpdateCcitt crc x = crc >>> 8 ^^^ rfalCrcUpdateCcitt 0 (x ^^^ crc.setWidth 8) := by
  have h0 : x ^^^ crc.setWidth 8 ^^^ (0 : BitVec 16).setWidth 8 = x ^^^ crc.setWidth 8 :=
    BitVec.xor_zero
  have h8 : (0 : BitVec 16) >>> 8 = 0#16 := rfl
  unfold rfalCrcUpdateCcitt
  dsimp only
  rw [h0, h8, BitVec.zero_xor]
  generalize BitVec.setWidth 16 _ = dat
  rw [BitVec.xor_assoc, BitVec.xor_assoc, ← BitVec.xor_assoc (dat <<< 8)]

/-- a byte as its bits -/
theorem update_eq (crc : BitVec 16) (x : Byte) :
    rfalCrcUpdateCcitt crc x = run ccitt crc (lowBits x 8) := by
  have hbits : lowBits x 8 = (lowBits crc 8).zipWith xor (lowBits (x ^^^ crc.setWidth 8) 8) := by
    unfold lowBits
    rw [List.zipWith_map, List.zipWith_self]
    apply List.map_congr_left
    intro i hi
    rw [BitVec.getLsbD_xor, BitVec.getLsbD_setWidth, decide_eq_true (List.mem_range.mp hi),
      Bool.true_and, Bool.xor_comm (x.getLsbD i), ← Bool.xor_assoc, Bool.xor_self, Bool.false_xor]
  have hlen : (lowBits crc 8).length = (lowBits (x ^^^ crc.setWidth 8) 8).length := by
    rw [lowBits_length, lowBits_length]
  have hsum := run_xor ccitt hlen crc 0#16
  rw [update_split, update_zero, hbits]
  rw [BitVec.xor_zero, run_own] at hsum
  exact hsum.symm

/-- **The CRC is that of the bits.** -/
theorem calculate_eq (preloadValue : BitVec 16) (buf : List Byte) :
    rfalCrcCalculateCcitt preloadValue buf = run ccitt preloadValue (BitBuf.bitsOf buf) := by
  induction buf generalizing preloadValue with
  | nil => rfl
  | cons x buf ih =>
    show rfalCrcCalculateCcitt (rfalCrcUpdateCcitt preloadValue x) buf = _
    rw [ih, update_eq, ← run_append]
    rfl

end Hydra
