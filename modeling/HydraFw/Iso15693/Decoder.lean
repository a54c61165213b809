import HydraFw.Iso15693.Coder
import HydraFw.Lib.Loops

/-!
# The decoder of ISO 15693 answers

`rfalIso15693VICCDecode` takes the bits of an answer out of the modulation of the card: two half
bits for a bit, 10 for a 0 and 01 for a 1.

* `man`, `Decoding.pass`   the two half bits of a bit and what a pass of the loop does with them;
* `rfalIso15693VICCDecode`;
* `payloadBit`   the bit that two half bits are, or none;
* `eofBehind`    the end of the answer;
* `Passing`      what holds in the loop, `Passed` behind it;
* `decode_ends`, `decode_passed`   that the loop ends, and how.
-/

namespace Hydra
namespace Iso15693
open BitBuf hiding Byte
open Common Rams Loops

/-- the loop variables, of which `mp` and `bp` have 16 bits; `ended` is the break -/
structure Decoding where
  outBuf : Nat → Byte
  mp : Nat
  bp : Nat
  err : ReturnCode
  ended : Bool

def man (inBuf : Nat → Byte) (mp : Nat) : Byte :=
  (inBuf (mp / 8) >>> (mp % 8) &&& 1#8) |||
    (inBuf ((mp + 1) / 8) >>> ((mp + 1) % 8) &&& 1#8) <<< 1

/-- the test for the end of the answer -/
def Decoding.isEof (inBuf : Nat → Byte) (s : Decoding) : Bool :=
  s.bp % 8 = 0 ∧ inBuf (s.mp / 8) &&& 0xe0 = 0xa0 ∧ inBuf (s.mp / 8 + 1) = 0x03

def Decoding.count (s : Decoding) : Decoding := { s with bp := (s.bp + 1) % 65536 }

/-- a 0 is there already -/
def Decoding.take (m : Byte) (s : Decoding) : Decoding :=
  let s := if m = 1 then s.count else s
  if m = 2 then
    Decoding.count
      { s with
        outBuf := Function.update s.outBuf (s.bp / 8) (s.outBuf (s.bp / 8) ||| 1#8 <<< (s.bp % 8)) }
  else s

/-- a collision, which is left as 0 before `ignoreBits` -/
def Decoding.collide (ignoreBits : Nat) (m : Byte) (isEof : Bool) (s : Decoding) : Decoding :=
  if (m = 0 ∨ m = 3) ∧ isEof = false then
    if ignoreBits ≤ s.bp then { s with err := errRfCollision } else s.count
  else s

def Decoding.next (outBufLen : Nat) (isEof : Bool) (s : Decoding) : Decoding :=
  if outBufLen * 8 ≤ s.bp ∨ s.err = errRfCollision ∨ isEof then { s with ended := true }
  else { s with mp := (s.mp + 2) % 65536 }

def Decoding.pass (inBuf : Nat → Byte) (outBufLen ignoreBits : Nat) (s : Decoding) : Decoding :=
  let m := man inBuf s.mp
  let s := s.take m
  let isEof := s.isEof inBuf
  (s.collide ignoreBits m isEof).next outBufLen isEof

def Decoding.goes (inBufLen : Nat) (s : Decoding) : Bool :=
  !s.ended && decide (s.mp < inBufLen * 8 - 2)

def viccCrc (picopassMode : Bool) (l : List Byte) : BitVec 16 :=
  if picopassMode then rfalCrcCalculateCcitt 0xE012 l else ~~~ rfalCrcCalculateCcitt 0xFFFF l

/-- status, `outBuf`, `*outBufPos` and `*bitsBeforeCol` -/
structure Decoded where
  ret : ReturnCode
  outBuf : Nat → Byte
  outBufPos : Nat
  bitsBeforeCol : Nat

/-- behind the loop -/
def Decoding.result (picopassMode : Bool) (s : Decoding) : Decoded :=
  let outBufPos := s.bp / 8
  let ret :=
    if s.err ≠ .errNone then s.err
    else if s.bp % 8 ≠ 0 then errCrc
    else if 2 < outBufPos then
      let crc := viccCrc picopassMode (slice s.outBuf 0 (outBufPos - 2))
      if crc.setWidth 8 = s.outBuf (outBufPos - 2) ∧
          (crc >>> 8).setWidth 8 = s.outBuf (outBufPos - 1) then .errNone
      else errCrc
    else errCrc
  ⟨ret, s.outBuf, outBufPos, s.bp⟩

/-- the output buffer once it has been cleared, and the other variables of the loop -/
def Decoding.start (outBuf : Nat → Byte) (outBufLen : Nat) : Decoding :=
  ⟨fun i => if i < outBufLen then 0 else outBuf i, 5, 0, .errNone, false⟩

def rfalIso15693VICCDecode (inBuf : Nat → Byte) (inBufLen : Nat) (outBuf : Nat → Byte)
    (outBufLen ignoreBits : Nat) (picopassMode : Bool) : Decoded :=
  if inBuf 0 &&& 0x1f ≠ 0x17 then ⟨errFraming, outBuf, 0, 0⟩
  else if outBufLen = 0 then ⟨.errNone, outBuf, 0, 0⟩
  else
    let s := Decoding.start outBuf outBufLen
    if inBufLen = 0 then ⟨errCrc, s.outBuf, 0, 0⟩
    else
      -- each pass counts `bp` or ends the loop, so these suffice when a buffer is below 8192 bytes
      (whileN (Decoding.goes inBufLen) (Decoding.pass inBuf outBufLen ignoreBits) (inBufLen * 8)
        s).result picopassMode

/-! ## half bits -/

/-- the bit `k` of the answer -/
def payloadBit (inBuf : Nat → Byte) (k : Nat) : Option Bool :=
  if bit inBuf (5 + 2 * k) = bit inBuf (5 + 2 * k + 1) then none
  else some (bit inBuf (5 + 2 * k + 1))

/-- the end of an answer of `k` bits -/
def eofBehind (inBuf : Nat → Byte) (k : Nat) : Bool :=
  k % 8 = 0 ∧ inBuf (k / 4) &&& 0xe0 = 0xa0 ∧ inBuf (k / 4 + 1) = 0x03

section
variable {inBuf outBuf : Nat → Byte} {outBufLen ignoreBits inBufLen : Nat} {s : Decoding}

theorem shift_and_one (x : Byte) (i : Nat) :
    x >>> i &&& 1#8 = (BitVec.ofBool (x.getLsbD i)).setWidth 8 := by
  have h := BitVec.and_one_eq_setWidth_ofBool_getLsbD (x := x >>> i)
  rwa [BitVec.getLsbD_ushiftRight, Nat.add_zero] at h

theorem man_eq (inBuf : Nat → Byte) (mp : Nat) :
    man inBuf mp = (BitVec.ofBool (bit inBuf mp)).setWidth 8 |||
      (BitVec.ofBool (bit inBuf (mp + 1))).setWidth 8 <<< 1 := by
  unfold man bit
  rw [shift_and_one, shift_and_one]

theorem man_some {k : Nat} {b : Bool} (h : payloadBit inBuf k = some b) :
    man inBuf (5 + 2 * k) = if b then 2 else 1 := by
  unfold payloadBit at h
  rw [man_eq]
  split_ifs at h with heq
  rw [← Option.some.inj h]
  revert heq
  generalize bit inBuf (5 + 2 * k) = x
  generalize bit inBuf (5 + 2 * k + 1) = y
  revert x y
  decide

theorem man_none {k : Nat} (h : payloadBit inBuf k = none) :
    man inBuf (5 + 2 * k) = 0 ∨ man inBuf (5 + 2 * k) = 3 := by
  unfold payloadBit at h
  rw [man_eq]
  split_ifs at h with heq
  revert heq
  generalize bit inBuf (5 + 2 * k) = x
  generalize bit inBuf (5 + 2 * k + 1) = y
  revert x y
  decide

/-- two half bits that are none do not begin the end -/
theorem not_eof_of_none {k : Nat} (h : payloadBit inBuf k = none) : eofBehind inBuf k = false := by
  have hbits : ∀ x : Byte, x &&& 0xe0 = 0xa0 → x.getLsbD 5 ≠ x.getLsbD 6 := by decide +kernel
  unfold eofBehind
  rw [decide_eq_false_iff_not]
  rintro ⟨hk, hx, -⟩
  unfold payloadBit at h
  split_ifs at h with heq
  unfold bit at heq
  rw [show (5 + 2 * k) / 8 = k / 4 by omega, show (5 + 2 * k) % 8 = 5 by omega,
    show (5 + 2 * k + 1) / 8 = k / 4 by omega, show (5 + 2 * k + 1) % 8 = 6 by omega] at heq
  exact hbits _ hx heq

/-! ## a pass -/

/-- in the loop -/
structure Passing (inBuf outBuf : Nat → Byte) (outBufLen ignoreBits : Nat) (s : Decoding) :
    Prop where
  mp : s.mp = 5 + 2 * s.bp
  room : s.bp < outBufLen * 8
  err : s.err = .errNone
  bits : ∀ i, bit s.outBuf i = if i < outBufLen * 8 then
    decide (i < s.bp ∧ payloadBit inBuf i = some true) else bit outBuf i
  valid : ∀ i < s.bp, payloadBit inBuf i ≠ none ∨ i < ignoreBits
  open_ : ∀ i < s.bp, payloadBit inBuf i ≠ none → eofBehind inBuf (i + 1) = false

/-- behind a break -/
structure Passed (inBuf outBuf : Nat → Byte) (outBufLen ignoreBits : Nat) (s : Decoding) :
    Prop where
  bits : ∀ i, bit s.outBuf i = if i < outBufLen * 8 then
    decide (i < s.bp ∧ payloadBit inBuf i = some true) else bit outBuf i
  valid : ∀ i < s.bp, payloadBit inBuf i ≠ none ∨ i < ignoreBits
  open_ : ∀ i, i + 1 < s.bp → payloadBit inBuf i ≠ none → eofBehind inBuf (i + 1) = false
  reason : s.err = errRfCollision ∧ payloadBit inBuf s.bp = none ∧ ignoreBits ≤ s.bp ∧
      s.bp < outBufLen * 8 ∨
    s.err = .errNone ∧ s.bp ≤ outBufLen * 8 ∧ 0 < s.bp ∧
      (s.bp = outBufLen * 8 ∨ payloadBit inBuf (s.bp - 1) ≠ none ∧ eofBehind inBuf s.bp = true)

theorem count_eq (h : s.bp + 1 < 65536) : s.count = { s with bp := s.bp + 1 } := by
  unfold Decoding.count
  rw [Nat.mod_eq_of_lt h]

theorem isEof_eq (hmp : s.mp / 8 = s.bp / 4 ∨ s.bp % 8 ≠ 0) :
    s.isEof inBuf = eofBehind inBuf s.bp := by
  unfold Decoding.isEof eofBehind
  rcases hmp with h | h
  · rw [h]
  · simp only [h, false_and]

theorem collide_valid {m : Byte} {isEof : Bool} (h : ¬ (m = 0 ∨ m = 3)) :
    s.collide ignoreBits m isEof = s := if_neg fun hn => h hn.1

/-- a bit -/
theorem pass_some {b : Bool} (h : payloadBit inBuf s.bp = some b) (hmp : s.mp = 5 + 2 * s.bp)
    (hfit : s.bp + 1 < 65536) :
    s.pass inBuf outBufLen ignoreBits =
      Decoding.next outBufLen (eofBehind inBuf (s.bp + 1))
        { s with
          outBuf := if b then setBit s.outBuf (s.bp / 8) (s.bp % 8) true else s.outBuf
          bp := s.bp + 1 } := by
  have hman : man inBuf s.mp = if b then 2 else 1 := by rw [hmp]; exact man_some h
  have htake : s.take (if b then 2 else 1) = { s with
      outBuf := if b then setBit s.outBuf (s.bp / 8) (s.bp % 8) true else s.outBuf
      bp := s.bp + 1 } := by
    cases b
    · exact count_eq hfit
    · exact count_eq (s := { s with outBuf := _ }) hfit
  have hvalid : ¬ ((if b then 2 else 1 : Byte) = 0 ∨ (if b then 2 else 1 : Byte) = 3) := by
    cases b <;> decide
  unfold Decoding.pass
  dsimp only
  rw [hman, htake, isEof_eq (by dsimp only; omega), collide_valid hvalid]

/-- two half bits that are none -/
theorem pass_none (h : payloadBit inBuf s.bp = none) (hmp : s.mp = 5 + 2 * s.bp)
    (hfit : s.bp + 1 < 65536) :
    s.pass inBuf outBufLen ignoreBits =
      Decoding.next outBufLen false
        (if ignoreBits ≤ s.bp then { s with err := errRfCollision }
        else { s with bp := s.bp + 1 }) := by
  have hman : man inBuf s.mp = 0 ∨ man inBuf s.mp = 3 := by rw [hmp]; exact man_none h
  have htake : s.take (man inBuf s.mp) = s := by
    unfold Decoding.take
    rcases hman with hm | hm <;> rw [hm] <;> rfl
  have heof : s.isEof inBuf = false := by
    rw [isEof_eq (by omega)]
    exact not_eof_of_none h
  unfold Decoding.pass
  dsimp only
  rw [htake, heof, Decoding.collide, if_pos ⟨hman, rfl⟩, count_eq hfit]

theorem next_ended {isEof : Bool} (h : outBufLen * 8 ≤ s.bp ∨ s.err = errRfCollision ∨ isEof) :
    s.next outBufLen isEof = { s with ended := true } := if_pos h

theorem next_goes (h : ¬ outBufLen * 8 ≤ s.bp) (herr : s.err = .errNone)
    (hfit : s.mp + 2 < 65536) : s.next outBufLen false = { s with mp := s.mp + 2 } := by
  unfold Decoding.next
  rw [Nat.mod_eq_of_lt hfit]
  apply if_neg
  rw [herr]
  rintro (hn | hn | hn)
  · exact h hn
  · cases hn
  · cases hn

/-- the bits of the buffer behind another bit of the answer -/
theorem Passing.bits_succ (h : Passing inBuf outBuf outBufLen ignoreBits s) {o : Option Bool}
    (ho : payloadBit inBuf s.bp = o) (i : Nat) :
    bit (if o = some true then setBit s.outBuf (s.bp / 8) (s.bp % 8) true else s.outBuf) i =
      if i < outBufLen * 8 then decide (i < s.bp + 1 ∧ payloadBit inBuf i = some true)
      else bit outBuf i := by
  have hroom := h.room
  have hlt : i < s.bp + 1 ↔ i < s.bp ∨ i = s.bp := by omega
  by_cases heq : i = s.bp
  · subst heq
    rw [if_pos hroom, ho]
    split_ifs with hb
    · rw [bit_setBit _ _ (Nat.mod_lt _ (by decide)), if_pos (by omega)]
      exact (decide_eq_true ⟨Nat.lt_succ_self _, hb⟩).symm
    · rw [h.bits, if_pos hroom, decide_eq_false fun hn => Nat.lt_irrefl _ hn.1]
      exact (decide_eq_false fun hn => hb hn.2).symm
  · have hset : bit (if o = some true then setBit s.outBuf (s.bp / 8) (s.bp % 8) true
        else s.outBuf) i = bit s.outBuf i := by
      split_ifs with hb
      · rw [bit_setBit _ _ (Nat.mod_lt _ (by decide)), if_neg (by omega)]
      · rfl
    rw [hset, h.bits]
    simp only [hlt, heq, or_false]

/-- **A pass** goes on, or ends the loop for one of three reasons. -/
theorem Passing.pass (h : Passing inBuf outBuf outBufLen ignoreBits s) (hgo : s.ended = false)
    (hfit : s.mp + 2 < 65536) :
    (Passing inBuf outBuf outBufLen ignoreBits (s.pass inBuf outBufLen ignoreBits) ∧
        (s.pass inBuf outBufLen ignoreBits).ended = false ∧
        (s.pass inBuf outBufLen ignoreBits).bp = s.bp + 1) ∨
      (Passed inBuf outBuf outBufLen ignoreBits (s.pass inBuf outBufLen ignoreBits) ∧
        (s.pass inBuf outBufLen ignoreBits).ended = true) := by
  have hbits := h.bits_succ rfl
  have hvalid : payloadBit inBuf s.bp ≠ none ∨ s.bp < ignoreBits → ∀ i < s.bp + 1,
      payloadBit inBuf i ≠ none ∨ i < ignoreBits := by
    intro hs i hi
    rcases Nat.lt_succ_iff_lt_or_eq.mp hi with hi | rfl
    · exact h.valid i hi
    · exact hs
  have hopen : (payloadBit inBuf s.bp ≠ none → eofBehind inBuf (s.bp + 1) = false) →
      ∀ i < s.bp + 1, payloadBit inBuf i ≠ none → eofBehind inBuf (i + 1) = false := by
    intro hs i hi
    rcases Nat.lt_succ_iff_lt_or_eq.mp hi with hi | rfl
    · exact h.open_ i hi
    · exact hs
  have hroom := h.room
  have hcount : s.bp + 1 < 65536 := by
    rw [h.mp] at hfit
    omega
  cases hb : payloadBit inBuf s.bp with
  | some b =>
    have hsome : payloadBit inBuf s.bp ≠ none := by rw [hb]; exact Option.some_ne_none b
    rw [pass_some hb h.mp hcount]
    simp only [hb, Option.some.injEq] at hbits
    by_cases hend : outBufLen * 8 ≤ s.bp + 1 ∨ eofBehind inBuf (s.bp + 1) = true
    · rw [next_ended (hend.imp_right .inr)]
      refine .inr ⟨⟨hbits, hvalid (.inl hsome), fun i hi => h.open_ i (by dsimp only at hi; omega),
        .inr ⟨h.err, hroom, Nat.succ_pos _, ?_⟩⟩, rfl⟩
      rcases hend with hend | hend
      · exact .inl (Nat.le_antisymm hroom hend)
      · exact .inr ⟨hsome, hend⟩
    · rw [not_or, Bool.not_eq_true] at hend
      rw [hend.2, next_goes (by exact hend.1) (by exact h.err) (by exact hfit)]
      exact .inl ⟨⟨by dsimp only; rw [h.mp]; omega, Nat.lt_of_not_le hend.1, h.err, hbits,
        hvalid (.inl hsome), hopen fun _ => hend.2⟩, hgo, rfl⟩
  | none =>
    rw [pass_none hb h.mp hcount]
    have hopen' := hopen fun hn => absurd hb hn
    by_cases hign : ignoreBits ≤ s.bp
    · rw [if_pos hign, next_ended (.inr (.inl rfl))]
      exact .inr ⟨⟨h.bits, h.valid, fun i hi => h.open_ i (by dsimp only at hi; omega),
        .inl ⟨rfl, hb, hign, hroom⟩⟩, rfl⟩
    · simp only [hb, reduceCtorEq, if_false] at hbits
      rw [if_neg hign]
      by_cases hend : outBufLen * 8 ≤ s.bp + 1
      · rw [next_ended (.inl hend)]
        exact .inr ⟨⟨hbits, hvalid (.inr (Nat.lt_of_not_le hign)),
          fun i hi => hopen' i (by dsimp only at hi; omega),
          .inr ⟨h.err, hroom, Nat.succ_pos _, .inl (Nat.le_antisymm hroom hend)⟩⟩, rfl⟩
      · rw [next_goes (by exact hend) (by exact h.err) (by exact hfit)]
        exact .inl ⟨⟨by dsimp only; rw [h.mp]; omega, Nat.lt_of_not_le hend, h.err, hbits,
          hvalid (.inr (Nat.lt_of_not_le hign)), hopen'⟩, hgo, rfl⟩

/-! ## the loop -/

theorem goes_iff : s.goes inBufLen = true ↔ s.ended = false ∧ s.mp < inBufLen * 8 - 2 := by
  unfold Decoding.goes
  rw [Bool.and_eq_true, Bool.not_eq_true', decide_eq_true_eq]

theorem start_passing (hroom : 0 < outBufLen) :
    Passing inBuf outBuf outBufLen ignoreBits (Decoding.start outBuf outBufLen) where
  mp := rfl
  room := Nat.mul_pos hroom (by decide)
  err := rfl
  bits := by
    intro i
    have hlt : i / 8 < outBufLen ↔ i < outBufLen * 8 := Nat.div_lt_iff_lt_mul (by decide)
    unfold bit Decoding.start
    dsimp only
    simp only [hlt]
    split_ifs
    · rw [decide_eq_false fun hn => Nat.not_lt_zero i hn.1]
      exact BitVec.getLsbD_zero
    · rfl
  valid := fun i hi => absurd hi (Nat.not_lt_zero i)
  open_ := fun i hi => absurd hi (Nat.not_lt_zero i)

/-- the passes suffice where the 16-bit counters do -/
theorem decode_ends (inBuf outBuf : Nat → Byte) (inBufLen ignoreBits : Nat)
    (hroom : 0 < outBufLen) (hfit : inBufLen ≤ 8192) :
    (whileN (Decoding.goes inBufLen) (Decoding.pass inBuf outBufLen ignoreBits) (inBufLen * 8)
      (Decoding.start outBuf outBufLen)).goes inBufLen = false := by
  apply whileN_measure_inv (I := fun s => Passing inBuf outBuf outBufLen ignoreBits s ∨
    s.ended = true) (fun s => if s.ended then 0 else inBufLen * 8 - s.mp)
  · intro s hgo hs
    rw [goes_iff] at hgo
    have hs' := hs.resolve_right (by rw [hgo.1]; exact Bool.false_ne_true)
    have hmp := hs'.mp
    rw [hgo.1, if_neg Bool.false_ne_true]
    rcases hs'.pass hgo.1 (by omega) with ⟨hp, hended, hbp⟩ | ⟨-, hended⟩
    · have hmp' := hp.mp
      refine ⟨.inl hp, ?_⟩
      rw [hended, if_neg Bool.false_ne_true]
      omega
    · refine ⟨.inr hended, ?_⟩
      rw [hended, if_pos rfl]
      omega
  · exact .inl (start_passing hroom)
  · show inBufLen * 8 - 5 ≤ inBufLen * 8
    omega

/-- **How the loop ends**: with a break, or at the end of the input. -/
theorem decode_passed (inBuf outBuf : Nat → Byte) (inBufLen ignoreBits : Nat)
    (hroom : 0 < outBufLen) (hfit : inBufLen ≤ 8192) :
    let t := whileN (Decoding.goes inBufLen) (Decoding.pass inBuf outBufLen ignoreBits)
      (inBufLen * 8) (Decoding.start outBuf outBufLen)
    Passed inBuf outBuf outBufLen ignoreBits t ∨
      Passing inBuf outBuf outBufLen ignoreBits t ∧ inBufLen * 8 - 2 ≤ 5 + 2 * t.bp := by
  intro t
  have hinv : (Passing inBuf outBuf outBufLen ignoreBits t ∧ t.ended = false) ∨
      (Passed inBuf outBuf outBufLen ignoreBits t ∧ t.ended = true) := by
    apply whileN_inv (I := fun s => (Passing inBuf outBuf outBufLen ignoreBits s ∧ s.ended = false) ∨
      (Passed inBuf outBuf outBufLen ignoreBits s ∧ s.ended = true))
    · intro s hgo hs
      rw [goes_iff] at hgo
      rcases hs with hs | hs
      · exact (hs.1.pass hs.2 (by omega)).imp_left fun hp => ⟨hp.1, hp.2.1⟩
      · rw [hs.2] at hgo
        cases hgo.1
    · exact .inl ⟨start_passing hroom, rfl⟩
  have hend : t.goes inBufLen = false := decode_ends inBuf outBuf inBufLen ignoreBits hroom hfit
  rcases hinv with ⟨hp, hended⟩ | ⟨hp, -⟩
  · refine .inr ⟨hp, ?_⟩
    by_contra hlt
    rw [goes_iff.mpr ⟨hended, by rw [hp.mp]; omega⟩] at hend
    cases hend
  · exact .inl hp

end

end Iso15693
end Hydra
