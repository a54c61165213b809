import HydraFw.Iso15693.Transmit
import HydraFw.Lib.Pulses

/-!
# What the cards hear of a transmission

The bits that the coder writes are the slots of a pulse position modulation: one of four values for
two bits, or one of 256 for a byte.

* `bitsOf_code`      a byte in its slots;
* `listen_wire`      a card that listens to a frame understands it;
* `transmission_heard`   whatever the chip interrupts, the cards understand the frame or nothing.
-/

namespace Hydra
namespace Iso15693
open BitBuf hiding Byte
open Pulses hiding Byte
open Common

/-- the number of slots of a value and the number of values of a byte -/
def VcdCoding.base : VcdCoding → Nat
  | .one4 => 4
  | .one256 => 256

def VcdCoding.values : VcdCoding → Nat
  | .one4 => 4
  | .one256 => 1

/-! ## one of four -/

theorem bits_dat1Of4 (tmp : Byte) :
    (List.range 8).map (dat1Of4 (tmp &&& 0x3)).getLsbD = symbol 4 (tmp.toNat % 4) := by
  revert tmp
  decide +kernel

theorem bitsOf_code1Of4 (a : Nat) (tmp : Byte) :
    bitsOf (code1Of4 a tmp) = (digits 4 a tmp.toNat).flatMap (symbol 4) := by
  induction a generalizing tmp with
  | zero => rfl
  | succ a ih =>
    rw [code1Of4, digits, List.flatMap_cons, ← bits_dat1Of4, bitsOf, List.flatMap_cons, ← bitsOf,
      ih, BitVec.toNat_ushiftRight, Nat.shiftRight_eq_div_pow]

/-! ## one of 256 -/

theorem bit_slot1Of256 (tmp : Byte) (i : Fin 8) :
    (slot1Of256 tmp).getLsbD i.val = decide (tmp.toNat < 4 ∧ i.val = 2 * tmp.toNat + 1) := by
  revert tmp i
  decide +kernel

theorem code1Of256_eq (a : Nat) (tmp : Byte) :
    code1Of256 a tmp = Rams.slice (fun j => slot1Of256 (tmp - BitVec.ofNat 8 (4 * j))) 0 a := by
  induction a generalizing tmp with
  | zero => rfl
  | succ a ih =>
    rw [code1Of256, ih, Rams.slice, Rams.slice, List.range_succ_eq_map, List.map_cons,
      List.map_map]
    congr 1
    · show _ = slot1Of256 (tmp - BitVec.ofNat 8 0)
      rw [BitVec.sub_zero]
    · apply List.map_congr_left
      intro j _
      show slot1Of256 (tmp - 4 - BitVec.ofNat 8 (4 * (0 + j))) =
        slot1Of256 (tmp - BitVec.ofNat 8 (4 * (0 + (j + 1))))
      congr 1
      apply BitVec.eq_of_toNat_eq
      simp only [BitVec.toNat_sub, BitVec.toNat_ofNat, BitVec.ofNat_eq_ofNat]
      omega

theorem bitsOf_code1Of256 (tmp : Byte) :
    bitsOf (code1Of256 64 tmp) = (digits 256 1 tmp.toNat).flatMap (symbol 256) := by
  have hdigits : digits 256 1 tmp.toNat = [tmp.toNat] := by
    rw [digits, digits, Nat.mod_eq_of_lt tmp.isLt]
  rw [code1Of256_eq, bitsOf_slice, hdigits, List.flatMap_singleton, symbol, Rams.slice]
  apply List.map_congr_left
  intro k hk
  have hlt := List.mem_range.mp hk
  have htmp := tmp.isLt
  rw [Nat.mul_zero, Nat.zero_add, bit, bit_slot1Of256 _ ⟨k % 8, Nat.mod_lt k (by decide)⟩]
  dsimp only
  rw [decide_eq_decide, BitVec.toNat_sub, BitVec.toNat_ofNat]
  omega

/-! ## frames -/

theorem bitsOf_codes (c : VcdCoding) (l : List Byte) :
    bitsOf (c.codes l) = encode c.base c.values l := by
  induction l with
  | nil => rfl
  | cons b l ih =>
    have hhead : bitsOf (c.code b) = (digits c.base c.values b.toNat).flatMap (symbol c.base) := by
      cases c with
      | one4 => exact bitsOf_code1Of4 4 b
      | one256 => exact bitsOf_code1Of256 b
    rw [VcdCoding.codes, List.flatMap_cons, bitsOf, List.flatMap_append, ← bitsOf, ← bitsOf, hhead,
      ← VcdCoding.codes, ih]
    rfl

theorem bitsOf_eof (c : VcdCoding) : bitsOf [c.eof] = eof := by
  cases c <;> rfl

/-- **A card that listens to a frame understands it.** -/
theorem listen_wire (m : VcdMode) {buffer : List Byte} (hs : buffer ≠ [] ∨ m.sendCrc = false) :
    listen (bitsOf (m.wire buffer)) = some (m.payload buffer) := by
  by_cases hne : buffer = []
  · subst hne
    rw [VcdMode.wire, if_pos rfl, bitsOf_eof, listen_eof,
      payload_nil (hs.resolve_left fun hn => hn rfl)]
  · have hwire : bitsOf (m.wire buffer) =
        bitsOf [m.coding.sof] ++ encode m.coding.base m.coding.values (m.payload buffer) ++ eof := by
      rw [VcdMode.wire, if_neg hne, ← bitsOf_eof m.coding, ← bitsOf_codes, bitsOf, bitsOf, bitsOf,
        bitsOf, ← List.flatMap_append, ← List.flatMap_append]
      rfl
    rw [hwire, listen_frame (bitsOf_length _)]
    cases m.coding with
    | one4 =>
      rw [if_pos (show bitsOf [VcdCoding.one4.sof] = sof4 by decide)]
      exact decode_encode _ _ (by decide) _
    | one256 =>
      rw [if_neg (show bitsOf [VcdCoding.one256.sof] ≠ sof4 by decide),
        if_pos (show bitsOf [VcdCoding.one256.sof] = sof256 by decide)]
      exact decode_encode _ _ (by decide) _

/-! ## a frame that is cut off -/

theorem dat1Of4_ne (two : Byte) : dat1Of4 two ≠ 0x04 := by
  revert two
  decide +kernel

theorem slot1Of256_ne (tmp : Byte) : slot1Of256 tmp ≠ 0x04 := by
  revert tmp
  decide +kernel

/-- no byte of a code is the end of a frame -/
theorem code_ne (c : VcdCoding) (b : Byte) : ∀ y ∈ c.code b, y ≠ 0x04 := by
  cases c with
  | one4 =>
    show ∀ y ∈ code1Of4 4 b, _
    generalize 4 = a
    induction a generalizing b with
    | zero => exact fun y hy => absurd hy List.not_mem_nil
    | succ a ih =>
      intro y hy
      rcases List.mem_cons.mp hy with rfl | hy
      · exact dat1Of4_ne _
      · exact ih _ y hy
  | one256 =>
    show ∀ y ∈ code1Of256 64 b, _
    generalize 64 = a
    induction a generalizing b with
    | zero => exact fun y hy => absurd hy List.not_mem_nil
    | succ a ih =>
      intro y hy
      rcases List.mem_cons.mp hy with rfl | hy
      · exact slot1Of256_ne _
      · exact ih _ y hy

/-- a frame that stops behind any of its bytes says nothing -/
theorem listen_cut (c : VcdCoding) (l : List Byte) : listen (bitsOf (c.sof :: c.codes l)) = none := by
  have hlast := List.dropLast_concat_getLast (List.cons_ne_nil c.sof (c.codes l))
  have hmem := List.getLast_mem (List.cons_ne_nil c.sof (c.codes l))
  generalize (c.sof :: c.codes l).dropLast = init at hlast
  generalize (c.sof :: c.codes l).getLast _ = y at hlast hmem
  have hy : y ≠ 0x04 := by
    rcases List.mem_cons.mp hmem with rfl | hmem
    · cases c <;> decide
    · obtain ⟨b, -, hb⟩ := List.mem_flatMap.mp hmem
      exact code_ne c b y hb
  apply listen_open
  rw [← hlast, bitsOf, List.flatMap_append, ← bitsOf, ← bitsOf, List.length_append,
    bitsOf_length [y], List.length_singleton, Nat.add_sub_cancel_right, List.drop_left]
  intro heq
  rw [← bitsOf_eof .one4] at heq
  exact hy (List.singleton_inj.mp (bitsOf_injective heq))

/-- **The frame or nothing.**  Whenever the chip interrupts, what it has been given says the whole
frame when the transmission counts as loaded or done, and nothing before. -/
theorem transmission_heard {m : VcdMode} {buffer : List Byte} (hs : Sendable m buffer)
    (irqs : List Irqs) :
    listen (bitsOf (transmit m buffer irqs).fifo.flatten) =
      if (transmit m buffer irqs).state = .waitTxe ∨ (transmit m buffer irqs).state = .done then
        some (m.payload buffer)
      else none := by
  obtain ⟨k, h⟩ := (prepTx_running hs).run hs irqs
  have hiff := h.loaded_iff
  rw [transmit, h.data.fifo]
  split_ifs with hk hst hst
  · exact listen_wire m hs.1
  · exact absurd (hiff.mp hk) hst
  · exact absurd (hiff.mpr hst) hk
  · exact listen_cut _ _

theorem transmission_heard_long :
    listen (bitsOf (transmit autoMode longFrame [⟨true, false⟩]).fifo.flatten) =
        some (autoMode.payload longFrame) ∧
      listen (bitsOf (transmit autoMode longFrame []).fifo.flatten) = none := by
  have hdone : (transmit autoMode longFrame [⟨true, false⟩]).state = .waitTxe := by decide +kernel
  have hopen : (transmit autoMode longFrame []).state = .waitWl := by decide +kernel
  constructor
  · exact (transmission_heard longFrame_sendable _).trans (if_pos (.inl hdone))
  · apply (transmission_heard longFrame_sendable _).trans
    rw [hopen]
    rfl

end Iso15693
end Hydra
