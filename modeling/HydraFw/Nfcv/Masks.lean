import HydraFw.Lib.Vicinity
import HydraFw.Nfcv.Poller

/-!
# The masks of the collisions found

An entry of `colFound` stands for a prefix of digits of the UID.

* `Mask c i m`       entry `i` holds the prefix `m`;
* `mask_addCollision`   the new entry holds the prefix of the one before, and the slot;
* `addCollision_before`, `addCollision_behind`   the stores into a new entry, of which the last one
  is behind its end when the mask had seven bytes;
* `inventoryReq_mask`   what a request with such a mask says.
-/

namespace Hydra
namespace Nfcv
open BitBuf hiding Byte
open Vicinity hiding Byte
open Rams Common

structure Mask (c : Nat → Byte) (i : Nat) (m : List (Fin 16)) : Prop where
  len : maskLen c i = 4 * m.length
  bits : slice (bit c) (8 * entryVal i) (4 * m.length) = maskBits m

section
variable {c c' : Nat → Byte} {i j : Nat} {m : List (Fin 16)} {d : Fin 16}

theorem entry_succ (i : Nat) : entry (i + 1) = entry i + 9 := rfl

theorem entry_lt (h : i < j) : entry i + 9 ≤ entry j := by
  have hmul := Nat.mul_le_mul_left 9 (Nat.succ_le_of_lt h)
  rw [Nat.mul_succ] at hmul
  exact hmul

/-- an entry is its nine bytes -/
theorem Mask.congr (h : Mask c i m) (hm : m.length ≤ 16)
    (heq : ∀ k, entry i ≤ k → k < entry i + 9 → c' k = c k) : Mask c' i m where
  len := by
    unfold maskLen
    rw [heq _ (Nat.le_refl _) (Nat.lt_add_of_pos_right (Nat.succ_pos 8))]
    exact h.len
  bits := by
    rw [← h.bits]
    apply slice_congr
    intro k hk
    unfold bit
    have hv : entryVal i = entry i + 1 := rfl
    rw [heq _ (by omega) (by omega)]

/-- the bits of a digit behind the lower bits of a byte -/
theorem getLsbD_addDigit (x : Byte) (d : Fin 16) {q k : Nat} (hq : q + 4 ≤ 8) (hk : k < q + 4) :
    (x &&& BitVec.ofNat 8 (2 ^ q - 1) ||| BitVec.ofNat 8 d.val <<< q).getLsbD k =
      if k < q then x.getLsbD k else d.val.testBit (k - q) := by
  rw [BitVec.getLsbD_or, BitVec.getLsbD_and, BitVec.getLsbD_shiftLeft, BitVec.getLsbD_ofNat,
    BitVec.getLsbD_ofNat, Nat.testBit_two_pow_sub_one, decide_eq_true (show k < 8 by omega),
    Bool.true_and, Bool.true_and]
  split_ifs with h
  · rw [decide_eq_true h, Bool.and_true, Bool.not_true, Bool.false_and, Bool.or_false]
  · rw [decide_eq_false h, Bool.and_false, Bool.false_or, Bool.not_false, Bool.true_and,
      decide_eq_true (show k - q < 8 by omega), Bool.true_and]

/-! ## a new entry -/

/-- the byte in which the digit starts, as it is stored -/
theorem addCollision_at (hij : i < j) (h : Mask c i m) {n : Nat} (hn : n < 8)
    (hle : n ≤ 4 * m.length / 8) :
    addCollision c i j d (entryVal j + n) =
      if n = 4 * m.length / 8 then
        c (entryVal i + n) &&& BitVec.ofNat 8 (2 ^ (4 * m.length % 8) - 1) |||
          BitVec.ofNat 8 d.val <<< (4 * m.length % 8)
      else c (entryVal i + n) := by
  have hlt := entry_lt hij
  have hi : entryVal i = entry i + 1 := rfl
  have hj : entryVal j = entry j + 1 := rfl
  have hcopy : ∀ k < 8, overwrite c (entryVal j) (slice c (entryVal i) rfalNfcvUidLen)
      (entryVal j + k) = c (entryVal i + k) := by
    intro k hk
    rw [overwrite_in _ _ _ _ (by rw [slice_length]; exact hk), slice_getElem]
  have hlen : maskLen (overwrite c (entryVal j) (slice c (entryVal i) rfalNfcvUidLen)) i =
      4 * m.length := by
    rw [← h.len]
    unfold maskLen
    rw [overwrite_out _ _ _ _ (.inl (by omega))]
  unfold addCollision
  rw [hlen, Function.update_of_ne (show entryVal j + n ≠ entry j by omega),
    Function.update_of_ne (show entryVal j + n ≠ entryVal j + 4 * m.length / 8 + 1 by omega)]
  split_ifs with heq
  · rw [← heq, Function.update_self, Function.update_self, hcopy n hn]
  · rw [Function.update_of_ne (by omega), Function.update_of_ne (by omega), hcopy n hn]

/-- nothing in front of the new entry is touched -/
theorem addCollision_before {k : Nat} (hk : k < entry j) : addCollision c i j d.val k = c k := by
  have hj : entryVal j = entry j + 1 := rfl
  unfold addCollision
  generalize maskLen _ i = p
  rw [Function.update_of_ne (by omega), Function.update_of_ne (by omega),
    Function.update_of_ne (by omega), Function.update_of_ne (by omega),
    overwrite_out _ _ _ _ (.inl (by omega))]

/-- behind the new entry one byte is cleared when the mask had seven bytes -/
theorem addCollision_behind (hij : i < j) (h : Mask c i m) (hm : m.length ≤ 14) {k : Nat}
    (hk : entry (j + 1) ≤ k) :
    addCollision c i j d.val k = if m.length = 14 ∧ k = entry (j + 1) then 0 else c k := by
  have hlt := entry_lt hij
  have hi : entryVal i = entry i + 1 := rfl
  have hj : entryVal j = entry j + 1 := rfl
  rw [entry_succ] at hk ⊢
  have hout : ∀ x, x < entryVal j ∨ entryVal j + 8 ≤ x →
      overwrite c (entryVal j) (slice c (entryVal i) rfalNfcvUidLen) x = c x := by
    intro x hx
    apply overwrite_out
    rw [slice_length]
    exact hx
  have hlen : maskLen (overwrite c (entryVal j) (slice c (entryVal i) rfalNfcvUidLen)) i =
      4 * m.length := by
    rw [← h.len]
    unfold maskLen
    rw [hout _ (by omega)]
  unfold addCollision
  rw [hlen, Function.update_of_ne (show k ≠ entry j by omega)]
  split_ifs with h14
  · obtain ⟨h14, hk⟩ := h14
    rw [h14, show k = entryVal j + 4 * 14 / 8 + 1 by omega, Function.update_self]
    apply BitVec.eq_of_toNat_eq
    rw [BitVec.toNat_ushiftRight, Nat.shiftRight_eq_div_pow]
    exact Nat.div_eq_of_lt (BitVec.isLt _)
  · rw [Function.update_of_ne (by omega), Function.update_of_ne (by omega),
      Function.update_of_ne (by omega), hout _ (by omega)]

theorem maskLen_addCollision (hij : i < j) (h : Mask c i m) (hm : m.length ≤ 14) :
    maskLen (addCollision c i j d.val) j = 4 * (m.length + 1) := by
  have hlt := entry_lt hij
  have hi : entryVal i = entry i + 1 := rfl
  have hj : entryVal j = entry j + 1 := rfl
  have hlen := h.len
  unfold maskLen addCollision at *
  generalize ((overwrite c (entryVal j) _) (entry i)).toNat = p
  rw [Function.update_self, Function.update_of_ne (by omega), Function.update_of_ne (by omega),
    Function.update_of_ne (by omega), overwrite_out _ _ _ _ (.inl (by omega)), BitVec.toNat_add,
    hlen]
  show (4 * m.length + 4) % 256 = _
  omega

theorem bit_addCollision (hij : i < j) (h : Mask c i m) (hm : m.length ≤ 14) {k : Nat}
    (hk : k < 4 * m.length + 4) :
    bit (addCollision c i j d.val) (8 * entryVal j + k) =
      if k < 4 * m.length then bit c (8 * entryVal i + k)
      else d.val.testBit (k - 4 * m.length) := by
  have hdiv : ∀ e : Nat, (8 * e + k) / 8 = e + k / 8 := fun e => Nat.mul_add_div (by decide) e k
  unfold bit
  rw [hdiv, hdiv, Nat.mul_add_mod, Nat.mul_add_mod,
    addCollision_at hij h (by omega) (by omega)]
  by_cases hn : k / 8 = 4 * m.length / 8
  · rw [if_pos hn, getLsbD_addDigit _ d (by omega) (by omega)]
    by_cases hlt : k < 4 * m.length
    · rw [if_pos hlt, if_pos (by omega)]
    · rw [if_neg hlt, if_neg (by omega)]
      congr 1
      omega
  · rw [if_neg hn, if_pos (by omega)]

/-- the new entry holds the longer prefix -/
theorem mask_addCollision (hij : i < j) (h : Mask c i m) (hm : m.length ≤ 14) :
    Mask (addCollision c i j d.val) j (m ++ [d]) where
  len := by
    rw [maskLen_addCollision hij h hm, List.length_append]
    rfl
  bits := by
    rw [List.length_append, List.length_singleton, Nat.mul_add, slice_append, maskBits_append,
      ← h.bits, maskBits_singleton]
    congr 1
    · apply slice_congr
      intro k hk
      rw [bit_addCollision hij h hm (by omega), if_pos hk]
    · apply List.map_congr_left
      intro k hk
      have hk4 := List.mem_range.mp hk
      rw [Nat.add_assoc, bit_addCollision hij h hm (by omega), if_neg (by omega),
        Nat.add_sub_cancel_left]

/-- the request for all cards -/
theorem mask_root (h : ∀ k < 144, c k = 0) : Mask c 0 [] where
  len := by
    unfold maskLen
    rw [h _ (by decide)]
    rfl
  bits := rfl

/-! ## what a request says -/

/-- a request for a prefix of at most sixty bits -/
theorem inventoryReq_mask (h : Mask c i m) (hm : m.length ≤ 15) :
    Command.ofBytes (inventoryReq .sixteen (maskLen c i) (maskVal c i)) =
      .inventory false (maskBits m) := by
  have hlen : min (maskLen c i) NumSlots.sixteen.maskvalMaxLen = 4 * m.length := by
    rw [h.len]
    exact Nat.min_eq_left (by show 4 * m.length ≤ 60; omega)
  have hbytes : rfalConvBitsToBytes (4 * m.length) = (4 * m.length + 7) / 8 := by
    unfold rfalConvBitsToBytes
    rw [Nat.mod_eq_of_lt (by omega)]
  have hnat : (BitVec.ofNat 8 (4 * m.length)).toNat = 4 * m.length := by
    rw [BitVec.toNat_ofNat]
    exact Nat.mod_eq_of_lt (by omega)
  have htake : (bitsOf (slice (maskVal c i) 0 ((4 * m.length + 7) / 8))).take (4 * m.length) =
      maskBits m := by
    rw [← h.bits, bitsOf_slice]
    apply List.ext_getElem?
    intro k
    rw [List.getElem?_take, slice_getElem?, slice_getElem?]
    by_cases hk : k < 4 * m.length
    · rw [if_pos hk, if_pos hk, if_pos (by omega)]
      congr 1
      unfold bit maskVal
      rw [Nat.mul_zero, Nat.zero_add, Nat.mul_add_div (by decide), Nat.mul_add_mod]
    · rw [if_neg hk, if_neg hk]
  unfold inventoryReq
  dsimp only
  rw [hlen, hbytes]
  have hcmd := ofBytes_inventory (show (0x06#8).getLsbD 2 = true by decide) (by decide)
    (show (slice (maskVal c i) 0 ((4 * m.length + 7) / 8)).length =
      ((BitVec.ofNat 8 (4 * m.length)).toNat + 7) / 8 by rw [slice_length, hnat])
  rw [hnat, htake] at hcmd
  exact hcmd

theorem inventoryReq_one (f : Nat → Byte) :
    Command.ofBytes (inventoryReq .one 0 f) = .inventory true [] := by
  rfl

end

end Nfcv
end Hydra
