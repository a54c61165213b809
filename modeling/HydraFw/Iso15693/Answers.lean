import HydraFw.Iso15693.Decoder
import HydraFw.Lib.Manchester

/-!
# The answers of several cards

What `rfalIso15693VICCDecode` makes of answers that cards give at once, and which answers it
accepts.

* `Received`         a buffer with the answers of some cards;
* `decode_onAir`     the answers are understood up to the first bit in which they differ;
* `crcRight_iff`     the CRC test in terms of the bits;
* `accepted_burst`   accepted answers do not differ within sixteen bits only.
-/

namespace Hydra
namespace Iso15693
open BitBuf hiding Byte
open Common Rams Loops Manchester Crc

/-- the answers, all of `n` bytes, as the half bits that the chip stores -/
structure Received (inBuf : Nat → Byte) (rs : List (List Byte)) (n : Nat) : Prop where
  ne_nil : rs ≠ []
  length : ∀ r ∈ rs, r.length = n
  bits : ∀ i < 8 * (2 * n + 2), bit inBuf i = onAir ((rs.map bitsOf).map wave) i

/-- the half bits of the answers in bytes -/
def onAirBuf (rs : List (List Byte)) (i : Nat) : Byte :=
  Serial.collect (fun j => onAir ((rs.map bitsOf).map wave) (8 * i + j)) 8

theorem received_onAirBuf {rs : List (List Byte)} {n : Nat} (hne : rs ≠ [])
    (hlen : ∀ r ∈ rs, r.length = n) : Received (onAirBuf rs) rs n := by
  refine ⟨hne, hlen, fun i _ => ?_⟩
  unfold bit onAirBuf
  rw [Serial.collect_bit _ (Nat.le_refl 8) (Nat.mod_lt i (by decide)),
    decide_eq_true (Nat.le_add_left ..), Bool.true_and, Nat.add_sub_cancel, Nat.div_add_mod]

section
variable {inBuf outBuf : Nat → Byte} {rs : List (List Byte)} {n k outBufLen ignoreBits : Nat}

/-! ## half bits -/

theorem Received.bits_ne (h : Received inBuf rs n) : rs.map bitsOf ≠ [] := fun hn =>
  h.ne_nil (List.map_eq_nil_iff.mp hn)

theorem Received.bits_length (h : Received inBuf rs n) :
    ∀ a ∈ rs.map bitsOf, a.length = 8 * n := by
  intro a ha
  obtain ⟨r, hr, rfl⟩ := List.mem_map.mp ha
  rw [bitsOf_length, h.length r hr]

theorem Received.start (h : Received inBuf rs n) : inBuf 0 &&& 0x1f = 0x17 := by
  have hsof : ∀ k < 5, (inBuf 0).getLsbD k = sof.getD k false := by
    intro k hk
    rw [← onAir_sof h.bits_ne hk, ← h.bits k (by omega), bit, Nat.div_eq_of_lt (by omega),
      Nat.mod_eq_of_lt (by omega)]
  have hbyte : ∀ x : Byte, (∀ k < 5, x.getLsbD k = sof.getD k false) → x &&& 0x1f = 0x17 := by
    decide +kernel
  exact hbyte _ hsof

theorem Received.half (h : Received inBuf rs n) (hk : k < 8 * n) :
    bit inBuf (5 + 2 * k) = onAir ((rs.map bitsOf).map wave) (5 + 2 * k) ∧
      bit inBuf (5 + 2 * k + 1) = onAir ((rs.map bitsOf).map wave) (5 + 2 * k + 1) :=
  ⟨h.bits _ (by omega), h.bits _ (by omega)⟩

theorem Received.none_iff (h : Received inBuf rs n) (hk : k < 8 * n) :
    payloadBit inBuf k = none ↔ ¬ Agree (rs.map bitsOf) k := by
  rw [← onAir_agree_iff h.bits_ne h.bits_length hk, payloadBit, (h.half hk).1, (h.half hk).2,
    ne_eq, not_not]
  split_ifs with heq
  · exact ⟨fun _ => heq, fun _ => rfl⟩
  · exact ⟨fun hn => (nomatch hn), fun hn => absurd hn heq⟩

theorem Received.true_iff (h : Received inBuf rs n) (hk : k < 8 * n) :
    payloadBit inBuf k = some true ↔ ∀ r ∈ rs, (bitsOf r).getD k false = true := by
  have hbit := onAir_bit h.bits_length hk
  rw [payloadBit, (h.half hk).1, (h.half hk).2, hbit.1, hbit.2]
  obtain ⟨r, hr⟩ := List.exists_mem_of_ne_nil _ h.ne_nil
  constructor
  · intro hsome r' hr'
    split_ifs at hsome with heq
    rw [Option.some.inj hsome] at heq
    have hall := List.any_eq_false.mp (Bool.eq_false_of_not_eq_true heq) _ (List.mem_map_of_mem hr')
    rwa [Bool.not_eq_true, Bool.not_eq_false'] at hall
  · intro hall
    have htrue : ∀ a ∈ rs.map bitsOf, a.getD k false = true := by
      intro a ha
      obtain ⟨r', hr', rfl⟩ := List.mem_map.mp ha
      exact hall r' hr'
    rw [any_eq h.bits_ne fun a ha => by rw [htrue a ha], any_eq h.bits_ne htrue]
    rfl

/-! ## the end -/

theorem Received.eof (h : Received inBuf rs n) : eofBehind inBuf (8 * n) = true := by
  have hend : ∀ j < 11, bit inBuf (5 + 2 * (8 * n) + j) = Manchester.eof.getD j false := by
    intro j hj
    rw [h.bits _ (by omega), onAir_eof h.bits_ne h.bits_length]
  have hhigh : ∀ x : Byte, (∀ j < 3, x.getLsbD (5 + j) = Manchester.eof.getD j false) →
      x &&& 0xe0 = 0xa0 := by decide +kernel
  have hlow : ∀ x : Byte, (∀ j < 8, x.getLsbD j = Manchester.eof.getD (3 + j) false) →
      x = 0x03 := by decide +kernel
  apply decide_eq_true
  refine ⟨Nat.mul_mod_right 8 n, hhigh _ fun j hj => ?_, hlow _ fun j hj => ?_⟩
  · rw [← hend j (by omega), ← bit_add inBuf _ (by omega)]
    congr 1
    omega
  · rw [← hend (3 + j) (by omega), ← bit_add inBuf _ (by omega)]
    congr 1
    omega

/-- no answer stops before its end -/
theorem Received.open_ (h : Received inBuf rs n) (hk : k < 8 * n) :
    eofBehind inBuf k = false := by
  apply decide_eq_false
  rintro ⟨hmod, -, hbyte⟩
  have hlt : k + 3 < 8 * n := by omega
  have hhalf := h.half hlt
  rw [(onAir_bit h.bits_length hlt).1, (onAir_bit h.bits_length hlt).2,
    show 5 + 2 * (k + 3) = 8 * (k / 4 + 1) + 3 by omega,
    show 8 * (k / 4 + 1) + 3 + 1 = 8 * (k / 4 + 1) + 4 by rfl,
    bit_add _ _ (by decide), bit_add _ _ (by decide), hbyte] at hhalf
  obtain ⟨r, hr⟩ := List.exists_mem_of_ne_nil _ h.bits_ne
  have hzero := List.any_eq_false.mp hhalf.1.symm r hr
  exact List.any_eq_false.mp hhalf.2.symm r hr (by simpa using hzero)

/-! ## the CRC -/

/-- an answer whose last two bytes are its CRC -/
def crcRight (picopassMode : Bool) (l : List Byte) : Bool :=
  2 < l.length ∧ l.drop (l.length - 2) = crcBytes (viccCrc picopassMode (l.take (l.length - 2)))

theorem slice_parts (m : Nat → Byte) {p : Nat} (hp : 2 < p) :
    (slice m 0 p).take (p - 2) = slice m 0 (p - 2) ∧
      (slice m 0 p).drop (p - 2) = [m (p - 2), m (p - 1)] := by
  have hcat : slice m 0 p = slice m 0 (p - 2) ++ [m (p - 2), m (p - 1)] := by
    obtain ⟨q, rfl⟩ : ∃ q, p = q + 2 := ⟨p - 2, by omega⟩
    rw [slice_append, Nat.zero_add]
    rfl
  rw [hcat]
  exact ⟨List.take_left' (slice_length ..), List.drop_left' (slice_length ..)⟩

theorem result_ret {s : Decoding} (picopassMode : Bool) (herr : s.err = .errNone)
    (hbp : s.bp % 8 = 0) : (s.result picopassMode).ret =
      if crcRight picopassMode (slice s.outBuf 0 (s.bp / 8)) then .errNone else errCrc := by
  unfold Decoding.result crcRight
  dsimp only
  rw [herr, if_neg (not_not.mpr rfl), hbp, if_neg (not_not.mpr rfl), slice_length]
  by_cases hp : 2 < s.bp / 8
  · have hparts := slice_parts s.outBuf hp
    rw [if_pos hp, hparts.1, hparts.2]
    generalize viccCrc picopassMode (slice s.outBuf 0 (s.bp / 8 - 2)) = crc
    have hiff : (crc.setWidth 8 = s.outBuf (s.bp / 8 - 2) ∧
        (crc >>> 8).setWidth 8 = s.outBuf (s.bp / 8 - 1)) ↔
          decide (2 < s.bp / 8 ∧ [s.outBuf (s.bp / 8 - 2), s.outBuf (s.bp / 8 - 1)] =
            crcBytes crc) = true := by
      rw [decide_eq_true_eq, crcBytes, List.cons.injEq, List.singleton_inj]
      exact ⟨fun hc => ⟨hp, hc.1.symm, hc.2.symm⟩, fun hc => ⟨hc.2.1.symm, hc.2.2.symm⟩⟩
    simp only [hiff]
  · rw [if_neg hp, decide_eq_false fun hn => hp hn.1, if_neg Bool.false_ne_true]

/-! ## what is understood -/

/-- the loop ends with a break and not behind the answers -/
theorem Received.passed (h : Received inBuf rs n) (hign : ignoreBits < 8 * n) {s : Decoding}
    (hs : Passed inBuf outBuf outBufLen ignoreBits s ∨
      Passing inBuf outBuf outBufLen ignoreBits s ∧ (2 * n + 2) * 8 - 2 ≤ 5 + 2 * s.bp) :
    Passed inBuf outBuf outBufLen ignoreBits s ∧ s.bp ≤ 8 * n := by
  have hle : s.bp ≤ 8 * n := by
    by_contra hgt
    have hlast : 8 * n - 1 + 1 = 8 * n := by omega
    have hvalid : payloadBit inBuf (8 * n - 1) ≠ none ∨ 8 * n - 1 < ignoreBits := by
      rcases hs with hs | hs
      · exact hs.valid _ (by omega)
      · exact hs.1.valid _ (by omega)
    have hsome := hvalid.resolve_right (by omega)
    have hopen : eofBehind inBuf (8 * n - 1 + 1) = false := by
      rcases hs with hs | hs
      · exact hs.open_ _ (by omega) hsome
      · exact hs.1.open_ _ (by omega) hsome
    rw [hlast, h.eof] at hopen
    cases hopen
  rcases hs with hs | ⟨-, hend⟩
  · exact ⟨hs, hle⟩
  · omega

/-- why it ends -/
theorem Received.reason (h : Received inBuf rs n) {s : Decoding}
    (hs : Passed inBuf outBuf outBufLen ignoreBits s) (hle : s.bp ≤ 8 * n) :
    s.err = errRfCollision ∧ s.bp < 8 * min n outBufLen ∧ ¬ Agree (rs.map bitsOf) s.bp ∧
        ignoreBits ≤ s.bp ∨
      s.err = .errNone ∧ s.bp = 8 * min n outBufLen := by
  rcases hs.reason with ⟨herr, hnone, hign, hroom⟩ | ⟨herr, hroom, hpos, hend⟩
  · have hlt : s.bp < 8 * n := by
      apply Nat.lt_of_le_of_ne hle
      intro heq
      have heof := not_eof_of_none hnone
      rw [heq, h.eof] at heof
      cases heof
    exact .inl ⟨herr, by omega, (h.none_iff hlt).mp hnone, hign⟩
  · refine .inr ⟨herr, ?_⟩
    rcases hend with hfull | ⟨-, heof⟩
    · omega
    · have hge : ¬ s.bp < 8 * n := by
        intro hlt
        rw [h.open_ hlt] at heof
        cases heof
      omega

/-- **Answers on the air** are understood up to the first bit from `ignoreBits` on in which they
differ, which is reported, or up to the end of the answers or of the buffer.  A bit in which they
differ before is left as 0. -/
theorem decode_onAir (h : Received inBuf rs n) (outBuf : Nat → Byte) (hroom : 0 < outBufLen)
    (hign : ignoreBits < 8 * n) (hfit : 2 * n + 2 ≤ 8192) (picopassMode : Bool) :
    let r := rfalIso15693VICCDecode inBuf (2 * n + 2) outBuf outBufLen ignoreBits picopassMode
    (r.bitsBeforeCol < 8 * min n outBufLen ∧ ¬ Agree (rs.map bitsOf) r.bitsBeforeCol ∧
          ignoreBits ≤ r.bitsBeforeCol ∧ r.ret = errRfCollision ∨
        r.bitsBeforeCol = 8 * min n outBufLen ∧
          r.ret = if crcRight picopassMode (slice r.outBuf 0 (min n outBufLen)) then .errNone
            else errCrc) ∧
      (∀ k < r.bitsBeforeCol, ignoreBits ≤ k → Agree (rs.map bitsOf) k) ∧
      ∀ i < 8 * outBufLen, bit r.outBuf i =
        decide (i < r.bitsBeforeCol ∧ ∀ a ∈ rs, (bitsOf a).getD i false = true) := by
  intro r
  have hr : r = (whileN (Decoding.goes (2 * n + 2)) (Decoding.pass inBuf outBufLen ignoreBits)
      ((2 * n + 2) * 8) (Decoding.start outBuf outBufLen)).result picopassMode := by
    show rfalIso15693VICCDecode inBuf (2 * n + 2) outBuf outBufLen ignoreBits picopassMode = _
    unfold rfalIso15693VICCDecode
    rw [if_neg (not_not.mpr h.start), if_neg hroom.ne']
    dsimp only
    rw [if_neg (Nat.succ_ne_zero _)]
  obtain ⟨hs, hle⟩ := h.passed hign
    (decode_passed inBuf outBuf (2 * n + 2) ignoreBits hroom hfit)
  generalize whileN (Decoding.goes (2 * n + 2)) (Decoding.pass inBuf outBufLen ignoreBits)
    ((2 * n + 2) * 8) (Decoding.start outBuf outBufLen) = s at hr hs hle
  have hbefore : r.bitsBeforeCol = s.bp := by rw [hr]; rfl
  have hbuf : r.outBuf = s.outBuf := by rw [hr]; rfl
  rw [hbefore, hbuf]
  refine ⟨?_, ?_, ?_⟩
  · rcases h.reason hs hle with ⟨herr, hlt, hagree, hge⟩ | ⟨herr, hbp⟩
    · refine .inl ⟨hlt, hagree, hge, ?_⟩
      rw [hr]
      unfold Decoding.result
      dsimp only
      rw [herr, if_pos (by decide)]
    · refine .inr ⟨hbp, ?_⟩
      rw [hr, result_ret picopassMode herr (by omega), hbp,
        Nat.mul_div_cancel_left _ (by decide)]
  · intro k hk hge
    have hsome := (hs.valid k hk).resolve_right (Nat.not_lt.mpr hge)
    by_contra hn
    exact hsome ((h.none_iff (by omega)).mpr hn)
  · intro i hi
    rw [hs.bits, if_pos (by omega), decide_eq_decide]
    refine and_congr_right fun hlt => ?_
    exact h.true_iff (by omega)

/-- two answers that differ in their last byte -/
def twoAnswers : List (List Byte) := [[0x00, 0x01, 0x02], [0x00, 0x01, 0x03]]

theorem decode_onAir_two :
    (rfalIso15693VICCDecode (onAirBuf twoAnswers) 8 (fun _ => 0) 3 0 false).bitsBeforeCol = 16 ∧
      (rfalIso15693VICCDecode (onAirBuf twoAnswers) 8 (fun _ => 0) 3 0 false).ret =
        errRfCollision := by
  have hrx : Received (onAirBuf twoAnswers) twoAnswers 3 :=
    received_onAirBuf (List.cons_ne_nil _ _) (by decide)
  have hdiffer : ¬ Agree (twoAnswers.map bitsOf) 16 := by decide
  have hsame : ∀ k < 24, k ≠ 16 → Agree (twoAnswers.map bitsOf) k := by decide
  obtain ⟨hend, hagree, -⟩ := decode_onAir hrx (fun _ => 0) (show 0 < 3 by decide)
    (show 0 < 8 * 3 by decide) (by decide) false
  change _ ∧ (rfalIso15693VICCDecode (onAirBuf twoAnswers) (2 * 3 + 2) _ 3 0 false).ret = _
  rcases hend with ⟨hlt, hne, -, hret⟩ | ⟨hlen, -⟩
  · refine ⟨?_, hret⟩
    by_contra h16
    exact hne (hsame _ hlt h16)
  · exact absurd (hagree 16 (by rw [hlen]; decide) (Nat.zero_le 16)) hdiffer

/-! ## errors that are seen -/

def preset (picopassMode : Bool) : BitVec 16 := if picopassMode then 0xE012 else 0xFFFF

/-- what is added to the register -/
def crcMask (picopassMode : Bool) : BitVec 16 := if picopassMode then 0 else BitVec.allOnes 16

theorem viccCrc_eq (picopassMode : Bool) (l : List Byte) :
    viccCrc picopassMode l = run ccitt (preset picopassMode) (bitsOf l) ^^^ crcMask picopassMode := by
  cases picopassMode with
  | true => exact (calculate_eq _ l).trans BitVec.xor_zero.symm
  | false =>
    show ~~~ rfalCrcCalculateCcitt 0xFFFF l = _
    rw [calculate_eq]
    exact BitVec.xor_allOnes.symm

theorem bitsOf_crcBytes (d : BitVec 16) : bitsOf (crcBytes d) = lowBits d 16 := by
  have hlow : (List.range 8).map (d.setWidth 8).getLsbD = (List.range 8).map d.getLsbD := by
    apply List.map_congr_left
    intro i hi
    rw [BitVec.getLsbD_setWidth, decide_eq_true (List.mem_range.mp hi), Bool.true_and]
  have hhigh : (List.range 8).map ((d >>> 8).setWidth 8).getLsbD =
      (List.range 8).map (d.getLsbD ∘ (8 + ·)) := by
    apply List.map_congr_left
    intro i hi
    rw [BitVec.getLsbD_setWidth, decide_eq_true (List.mem_range.mp hi), Bool.true_and,
      BitVec.getLsbD_ushiftRight]
    rfl
  have hrange : List.range 16 = List.range 8 ++ (List.range 8).map (8 + ·) := rfl
  rw [lowBits, hrange, List.map_append, List.map_map, ← hlow, ← hhigh]
  rfl

theorem crcBytes_append (x y : Byte) : crcBytes (y ++ x) = [x, y] := by
  have hlow : (y ++ x).setWidth 8 = x := by
    apply BitVec.eq_of_getLsbD_eq
    intro i hi
    rw [BitVec.getLsbD_setWidth, BitVec.getLsbD_append, if_pos hi, decide_eq_true hi,
      Bool.true_and]
  have hhigh : ((y ++ x) >>> 8).setWidth 8 = y := by
    apply BitVec.eq_of_getLsbD_eq
    intro i hi
    rw [BitVec.getLsbD_setWidth, BitVec.getLsbD_ushiftRight, BitVec.getLsbD_append,
      if_neg (by omega), Nat.add_sub_cancel_left, decide_eq_true hi, Bool.true_and]
  rw [crcBytes, hlow, hhigh]

theorem crcBytes_inj {c d : BitVec 16} (h : crcBytes c = crcBytes d) : c = d := by
  apply lowBits_inj
  rw [← bitsOf_crcBytes, ← bitsOf_crcBytes, h]

/-- the test of the CRC leaves one register for all answers -/
theorem crcRight_iff (picopassMode : Bool) (l : List Byte) :
    crcRight picopassMode l = true ↔ 2 < l.length ∧
      run ccitt (preset picopassMode) (bitsOf l) =
        run ccitt 0#16 (lowBits (crcMask picopassMode) 16) := by
  unfold crcRight
  rw [decide_eq_true_eq]
  refine and_congr_right fun hlen => ?_
  have hcut := List.take_append_drop (l.length - 2) l
  have htail : (l.drop (l.length - 2)).length = 2 := by
    rw [List.length_drop]
    omega
  obtain ⟨x, y, hxy⟩ := List.length_eq_two.mp htail
  rw [hxy, ← crcBytes_append, viccCrc_eq]
  rw [hxy, ← crcBytes_append] at hcut
  conv_rhs => rw [← hcut, bitsOf, List.flatMap_append, ← bitsOf, ← bitsOf, bitsOf_crcBytes]
  rw [run_check_iff ccitt_top]
  exact ⟨crcBytes_inj, congrArg crcBytes⟩

/-- a list is what is before, within and behind a window -/
theorem window_eq {α : Type*} (l : List α) (i w : Nat) :
    l.take i ++ (l.drop i).take w ++ l.drop (i + w) = l := by
  rw [List.append_assoc, ← List.drop_drop, List.take_append_drop, List.take_append_drop]

/-- answers with the right CRC that differ within sixteen bits only are the same -/
theorem crcRight_burst {picopassMode : Bool} {l l' : List Byte} {i : Nat}
    (h : crcRight picopassMode l = true) (h' : crcRight picopassMode l' = true)
    (hhead : (bitsOf l).take i = (bitsOf l').take i)
    (htail : (bitsOf l).drop (i + 16) = (bitsOf l').drop (i + 16))
    (hlen : l.length = l'.length) : l = l' := by
  have hrun := ((crcRight_iff ..).mp h).2.trans ((crcRight_iff ..).mp h').2.symm
  have hl := window_eq (bitsOf l) i 16
  have hl' := window_eq (bitsOf l') i 16
  rw [← hhead, ← htail] at hl'
  rw [← hl, ← hl'] at hrun
  have hmid : ((bitsOf l).drop i).take 16 = ((bitsOf l').drop i).take 16 := by
    apply run_burst ccitt_top _ _ hrun
    · rw [List.length_take, List.length_take, List.length_drop, List.length_drop, bitsOf_length,
        bitsOf_length, hlen]
    · exact List.length_take_le ..
  apply bitsOf_injective
  rw [← hl, ← hl', hmid]

/-- an answer that is accepted is made of whole bytes and has the right CRC -/
theorem accepted_crc (inBuf outBuf : Nat → Byte) (inBufLen ignoreBits : Nat) (picopassMode : Bool)
    (hroom : 0 < outBufLen)
    (h : (rfalIso15693VICCDecode inBuf inBufLen outBuf outBufLen ignoreBits picopassMode).ret =
      .errNone) :
    (rfalIso15693VICCDecode inBuf inBufLen outBuf outBufLen ignoreBits picopassMode).bitsBeforeCol
        % 8 = 0 ∧
      crcRight picopassMode (slice
        (rfalIso15693VICCDecode inBuf inBufLen outBuf outBufLen ignoreBits picopassMode).outBuf 0
        ((rfalIso15693VICCDecode inBuf inBufLen outBuf outBufLen ignoreBits
          picopassMode).bitsBeforeCol / 8)) = true := by
  unfold rfalIso15693VICCDecode at h ⊢
  by_cases hsof : inBuf 0 &&& 0x1f ≠ 0x17
  · rw [if_pos hsof] at h
    cases h
  · rw [if_neg hsof, if_neg hroom.ne'] at h ⊢
    dsimp only at h ⊢
    have hlen : ¬ inBufLen = 0 := by
      intro hzero
      rw [if_pos hzero] at h
      cases h
    rw [if_neg hlen] at h ⊢
    generalize whileN (Decoding.goes inBufLen) (Decoding.pass inBuf outBufLen ignoreBits)
      (inBufLen * 8) (Decoding.start outBuf outBufLen) = s at h ⊢
    have herr : s.err = .errNone := by
      by_contra hne
      unfold Decoding.result at h
      dsimp only at h
      rw [if_pos hne] at h
      exact hne h
    have hmod : s.bp % 8 = 0 := by
      by_contra hne
      unfold Decoding.result at h
      dsimp only at h
      rw [if_neg (not_not.mpr herr), if_pos hne] at h
      cases h
    rw [result_ret picopassMode herr hmod] at h
    split_ifs at h with hcrc
    exact ⟨hmod, hcrc⟩

/-- **Errors that are seen.**  Two answers that are accepted, of the same length, do not differ
within sixteen bits only. -/
theorem accepted_burst (inBuf inBuf' outBuf outBuf' : Nat → Byte) (inBufLen inBufLen' : Nat)
    {outBufLen outBufLen' : Nat} (ignoreBits ignoreBits' : Nat) (picopassMode : Bool)
    (hroom : 0 < outBufLen) (hroom' : 0 < outBufLen') :
    let r := rfalIso15693VICCDecode inBuf inBufLen outBuf outBufLen ignoreBits picopassMode
    let r' := rfalIso15693VICCDecode inBuf' inBufLen' outBuf' outBufLen' ignoreBits' picopassMode
    ∀ i, r.ret = .errNone → r'.ret = .errNone → r.bitsBeforeCol = r'.bitsBeforeCol →
      (∀ k < r.bitsBeforeCol, k < i ∨ i + 16 ≤ k → bit r.outBuf k = bit r'.outBuf k) →
      ∀ k < r.bitsBeforeCol, bit r.outBuf k = bit r'.outBuf k := by
  intro r r' i hret hret' hlen hsame
  obtain ⟨hmod, hcrc⟩ := accepted_crc inBuf outBuf inBufLen ignoreBits picopassMode hroom hret
  obtain ⟨-, hcrc'⟩ := accepted_crc inBuf' outBuf' inBufLen' ignoreBits' picopassMode hroom' hret'
  change r.bitsBeforeCol % 8 = 0 at hmod
  change crcRight picopassMode (slice r.outBuf 0 (r.bitsBeforeCol / 8)) = true at hcrc
  change crcRight picopassMode (slice r'.outBuf 0 (r'.bitsBeforeCol / 8)) = true at hcrc'
  generalize hp : r.bitsBeforeCol / 8 = p at hcrc
  rw [← hlen, hp] at hcrc'
  have hbits : r.bitsBeforeCol = 8 * p := by omega
  rw [hbits] at hsame ⊢
  have hget : ∀ (m : Nat → Byte) k, (bitsOf (slice m 0 p))[k]? =
      if k < 8 * p then some (bit m k) else none := by
    intro m k
    rw [bitsOf_slice, slice_getElem?, Nat.mul_zero, Nat.zero_add]
  have heq : slice r.outBuf 0 p = slice r'.outBuf 0 p := by
    apply crcRight_burst hcrc hcrc' (i := i)
    · apply List.ext_getElem?
      intro k
      rw [List.getElem?_take, List.getElem?_take]
      split_ifs with hk
      · rw [hget, hget]
        split_ifs with hin
        · rw [hsame k hin (.inl hk)]
        · rfl
      · rfl
    · apply List.ext_getElem?
      intro k
      rw [List.getElem?_drop, List.getElem?_drop, hget, hget]
      split_ifs with hin
      · rw [hsame _ hin (.inr (Nat.le_add_right ..))]
      · rfl
    · rw [slice_length, slice_length]
  intro k hk
  have hkey := congrArg (fun l => (bitsOf l)[k]?) heq
  rw [hget, hget, if_pos hk, if_pos hk] at hkey
  exact Option.some.inj hkey

/-- an answer of two bytes with its CRC -/
def answerOf (x y : Byte) : List Byte := [x, y] ++ crcBytes (viccCrc false [x, y])

theorem accepted_burst_differ : ¬ ∃ i, ∀ k < 32, k < i ∨ i + 16 ≤ k →
    bit (rfalIso15693VICCDecode (onAirBuf [answerOf 0 1]) 10 (fun _ => 0) 4 0 false).outBuf k =
      bit (rfalIso15693VICCDecode (onAirBuf [answerOf 0 2]) 10 (fun _ => 0) 4 0 false).outBuf k := by
  rintro ⟨i, hsame⟩
  have hlen : (rfalIso15693VICCDecode (onAirBuf [answerOf 0 1]) 10 (fun _ => 0) 4 0
      false).bitsBeforeCol = 32 := by decide +kernel
  have hall := accepted_burst (onAirBuf [answerOf 0 1]) (onAirBuf [answerOf 0 2]) (fun _ => 0)
    (fun _ => 0) 10 10 0 0 false (show 0 < 4 by decide) (show 0 < 4 by decide) i
    (by decide +kernel) (by decide +kernel) (by decide +kernel) (by rw [hlen]; exact hsame) 8
    (by rw [hlen]; decide)
  revert hall
  decide +kernel

end

end Iso15693
end Hydra
