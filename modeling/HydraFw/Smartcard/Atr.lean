import HydraFw.Common.Bytes
import HydraFw.Lib.Iso7816
import HydraFw.Lib.Loops

/-!
# Reading the answer to reset

`smartcard_get_atr` (`hydrabus_mode_smartcard.c`), for a card whose `TS` is one of the two that it
knows.

* `Card`            the bytes that a card sends;
* `Reader`          `atr`, and how far the card has been read;
* `Parse`           the variables of the loops, which stop at a store behind `atr`;
* `getAtr`          the function;
* `GetsAtr`         it reads the answer as ISO 7816-3 has it;
* `getsAtr_iff`     it does for answers of at most 32 bytes whose `TCK`, if they have one, is
                    announced by an odd protocol behind the third byte.
-/

namespace Hydra
namespace SmartcardAtr
open Common Loops
open Iso7816 hiding Byte

/-- where `TS` is: a first byte that is zero is read over -/
def tsAt (sent : Nat → Byte) : Nat := if sent 0 = 0 then 1 else 0

structure Card where
  sent : Nat → Byte
  standard : sent (tsAt sent) = 0x3b ∨ sent (tsAt sent) = 0x03

/-- `DEV_CONVENTION_INVERSE` is set -/
def Card.inverse (c : Card) : Bool := c.sent (tsAt c.sent) = 0x03

def applyConvention (inverse : Bool) (data : Byte) : Byte :=
  if inverse then reverseU8 (data ^^^ 0xff) else data

/-- the answer from `TS` on, in the convention of the card -/
def Card.bytes (c : Card) (k : Nat) : Byte :=
  applyConvention c.inverse (c.sent (tsAt c.sent + k))

/-! ## the function -/

structure Reader where
  atr : Nat → Byte
  /-- the next byte of the card -/
  next : Nat
  /-- a byte has been stored behind the 32 of `atr` -/
  outside : Bool

/-- `bsp_smartcard_read_u8` and `apply_convention` at `atr + i` -/
def Reader.read (c : Card) (x : Reader) (i : Nat) : Reader where
  atr := Function.update x.atr i (applyConvention c.inverse (c.sent x.next))
  next := x.next + 1
  outside := x.outside || 32 ≤ i

def fi : List Nat :=
  [372, 372, 558, 744, 1116, 1488, 1860, 0xFF, 0xFF, 512, 768, 1024, 1536, 2048, 0xFF, 0xFF]

def di : List Nat :=
  [0xFF, 1, 2, 4, 8, 16, 32, 64, 12, 20, 0xFF, 0xFF, 0xFF, 0xFF, 0xFF, 0xFF]

/-- what the print-out of the timing divides by: `D`, and twice `E` -/
def timingDivisors (atr : Nat → Byte) : List Nat :=
  let present := (atr 1 >>> 4) &&& 1 ≠ 0
  let f := if present then fi.getD (atr 2 >>> 4).toNat 0 else 372
  let d := if present then di.getD (atr 2 &&& 0x0f).toNat 0 else 1
  [d, f / d, f / d]

structure Parse where
  reader : Reader
  atrSize : Nat
  r : Nat
  checksum : Bool
  moreTd : Bool
  /-- what has been divided by -/
  divisors : List Nat

/-- a turn of the loop over the interface bytes -/
def forTurn (c : Card) (p : Parse) : Parse :=
  { p with
    reader := p.reader.read c p.r
    r := p.r + 1
    divisors := if p.r = 2 then p.divisors ++ timingDivisors (p.reader.read c p.r).atr
      else p.divisors }

def forTest (p : Parse) : Bool := p.r ≤ p.atrSize && !p.reader.outside

/-- `for(; r<=atr_size; r++)`, over at most the values of a byte -/
def readTi (c : Card) (p : Parse) : Parse := whileN forTest (forTurn c) 256 p

def countBits (y : Byte) : Nat := ((List.range 4).map fun i => ((y >>> (4 + i)) &&& 1).toNat).sum

/-- the head of a turn of the outer loop, with `r` at the byte `y` that announces more -/
def head (p : Parse) (y : Byte) : Parse :=
  { p with
    atrSize := p.atrSize + countBits y
    moreTd := (y >>> 7) &&& 1 ≠ 0
    checksum := p.checksum || (p.atrSize > 2 && y &&& 1 ≠ 0)
    r := p.atrSize + 1 }

def whileTurn (c : Card) (p : Parse) : Parse := readTi c (head p (p.reader.atr p.atrSize))

def whileTest (p : Parse) : Bool := p.moreTd && !p.reader.outside

/-- `TS`, in its normal form, and `T0` have been read -/
def start (c : Card) : Parse where
  reader := Reader.read c
    ⟨Function.update (fun _ => 0) 0 (if c.inverse then 0x3F else c.sent (tsAt c.sent)),
      tsAt c.sent + 1, false⟩ 1
  atrSize := 1
  r := 1
  checksum := false
  moreTd := true
  divisors := []

/-- `T0`, the interface bytes, and the loop for the last of them -/
def interface (c : Card) : Parse := readTi c (whileN whileTest (whileTurn c) 256 (start c))

/-- `n` bytes from `atr + i` on -/
def Reader.readMany (c : Card) : Nat → Reader → Nat → Reader
  | 0, x, _ => x
  | n + 1, x, i => if x.outside then x else readMany c n (x.read c i) (i + 1)

structure Answer where
  reader : Reader
  /-- how many bytes are printed -/
  length : Nat

def getAtr (c : Card) : Answer :=
  let p := interface c
  let count := (p.reader.atr 1 &&& 0x0f).toNat
  let x := Reader.readMany c count p.reader p.r
  if p.checksum then ⟨Reader.readMany c 1 x (p.r + count), p.r + count + 1⟩
  else ⟨x, p.r + count⟩

/-- the answer is read, stored and printed, and the function ends -/
structure GetsAtr (c : Card) (n : Nat) : Prop where
  isAtr : IsAtr c.bytes n
  ends : (interface c).moreTd = false
  inside : (getAtr c).reader.outside = false
  read : (getAtr c).reader.next = tsAt c.sent + n
  printed : (getAtr c).length = n
  stored : ∀ k < n, (getAtr c).reader.atr k = c.bytes k
  divides : ∀ d ∈ (interface c).divisors, d ≠ 0

/-! ## reading in order -/

/-- the first `k` bytes of the answer, and no others, have been read -/
structure Read (c : Card) (k : Nat) (x : Reader) : Prop where
  le : k ≤ 32
  inside : x.outside = false
  next : x.next = tsAt c.sent + k
  stored : ∀ j < k, x.atr j = c.bytes j

section
variable {c : Card} {k : Nat} {x : Reader}

theorem Read.read (h : Read c k x) (hk : k < 32) : Read c (k + 1) (x.read c k) := by
  refine ⟨hk, ?_, ?_, fun j hj => ?_⟩
  · show (x.outside || decide (32 ≤ k)) = false
    rw [h.inside, decide_eq_false (by omega), Bool.or_false]
  · show x.next + 1 = _
    rw [h.next]
    rfl
  · show Function.update x.atr k _ j = _
    by_cases hjk : j = k
    · subst hjk
      rw [Function.update_self, h.next]
      rfl
    · rw [Function.update_of_ne hjk, h.stored j (by omega)]

theorem read_outside (x : Reader) (hk : 32 ≤ k) : (x.read c k).outside = true := by
  show (x.outside || decide (32 ≤ k)) = true
  rw [decide_eq_true hk, Bool.or_true]

theorem readMany_outside (n i : Nat) (hx : x.outside = true) : Reader.readMany c n x i = x := by
  cases n with
  | zero => rfl
  | succ n => rw [Reader.readMany, if_pos hx]

/-- bytes that fit are read, and those that do not go outside -/
theorem Read.readMany (h : Read c k x) (n : Nat) :
    k + n ≤ 32 ∧ Read c (k + n) (Reader.readMany c n x k) ∨
      32 < k + n ∧ (Reader.readMany c n x k).outside = true := by
  induction n generalizing k x with
  | zero => exact .inl ⟨h.le, h⟩
  | succ n ih =>
    have hstep : Reader.readMany c (n + 1) x k = Reader.readMany c n (x.read c k) (k + 1) := by
      rw [Reader.readMany, h.inside]
      rfl
    rw [hstep, ← Nat.add_assoc, Nat.add_right_comm]
    by_cases hk : k < 32
    · exact ih (h.read hk)
    · have hout := read_outside (c := c) x (Nat.le_of_not_lt hk)
      rw [readMany_outside n (k + 1) hout]
      exact .inr ⟨by omega, hout⟩

end

/-! ## the loop over the interface bytes -/

/-- what a loop of reads does not touch -/
def Parse.Same (p q : Parse) : Prop :=
  q.atrSize = p.atrSize ∧ q.checksum = p.checksum ∧ q.moreTd = p.moreTd

section
variable {c : Card} {p : Parse}

theorem forLoop_same (n : Nat) : p.Same (whileN forTest (forTurn c) n p) :=
  whileN_inv (I := p.Same) (fun q _ h => show p.Same (forTurn c q) from h) ⟨rfl, rfl, rfl⟩ n

theorem forLoop_read {k n : Nat} (h : Read c k p.reader) (hr : p.r = k) (hk : k ≤ p.atrSize + 1)
    (hn : p.atrSize + 1 ≤ k + n) :
    p.atrSize < 32 ∧ Read c (p.atrSize + 1) (whileN forTest (forTurn c) n p).reader ∧
        (whileN forTest (forTurn c) n p).r = p.atrSize + 1 ∨
      32 ≤ p.atrSize ∧ (whileN forTest (forTurn c) n p).reader.outside = true := by
  induction n generalizing p k with
  | zero =>
    obtain rfl : k = p.atrSize + 1 := by omega
    exact .inl ⟨h.le, h, hr⟩
  | succ n ih =>
    by_cases hend : k = p.atrSize + 1
    · have htest : forTest p = false := by
        rw [forTest, hr, decide_eq_false (by omega), Bool.false_and]
      subst hend
      rw [whileN_done htest]
      exact .inl ⟨h.le, h, hr⟩
    · have htest : forTest p = true := by
        rw [forTest, hr, decide_eq_true (by omega), h.inside]
        rfl
      rw [whileN_pass htest]
      by_cases hk32 : k < 32
      · have hread : Read c (k + 1) (forTurn c p).reader := by
          show Read c (k + 1) (p.reader.read c p.r)
          rw [hr]
          exact h.read hk32
        have hr' : (forTurn c p).r = k + 1 := congrArg (· + 1) hr
        exact ih hread hr' (by show k + 1 ≤ p.atrSize + 1; omega)
          (by show p.atrSize + 1 ≤ k + 1 + n; omega)
      · have hout : (forTurn c p).reader.outside = true := by
          show (p.reader.read c p.r).outside = true
          rw [hr]
          exact read_outside p.reader (by omega)
        have hdone : forTest (forTurn c p) = false := by
          rw [forTest, hout, Bool.not_true, Bool.and_false]
        rw [whileN_done hdone]
        exact .inr ⟨by omega, hout⟩

theorem readTi_read {k : Nat} (h : Read c k p.reader) (hr : p.r = k) (hk : k ≤ p.atrSize + 1)
    (hn : p.atrSize ≤ 255) :
    p.atrSize < 32 ∧ Read c (p.atrSize + 1) (readTi c p).reader ∧
        (readTi c p).r = p.atrSize + 1 ∨
      32 ≤ p.atrSize ∧ (readTi c p).reader.outside = true := forLoop_read h hr hk (by omega)

end

/-! ## the loop over the `TDi` -/

theorem countBits_eq (y : Byte) : countBits y = announced y := by
  revert y
  decide

theorem moreTd_eq (y : Byte) : decide ((y >>> 7) &&& 1 ≠ 0) = announcesTd y := by
  revert y
  decide

theorem protocol_odd (y : Byte) : (protocol y).getLsbD 0 = y.getLsbD 0 := by
  revert y
  decide

theorem odd_eq (y : Byte) : decide (y &&& 1 ≠ 0) = y.getLsbD 0 := by
  revert y
  decide

/-- the test of the checksum, at the `TDi` at `i` -/
def seen (c : Card) (i : Nat) : Bool := 2 < i && (c.bytes i).getLsbD 0

/-- the outer loop is at the byte `i`, which announces more -/
structure At (c : Card) (i : Nat) (p : Parse) : Prop where
  read : Read c (i + 1) p.reader
  size : p.atrSize = i
  more : p.moreTd = true

section
variable {c : Card} {i : Nat} {p : Parse}

theorem At.whileTurn (h : At c i p) :
    (whileTurn c p).atrSize = i + announced (c.bytes i) ∧
      (whileTurn c p).moreTd = announcesTd (c.bytes i) ∧
      (whileTurn c p).checksum = (p.checksum || seen c i) ∧
      (i + announced (c.bytes i) < 32 ∧
          Read c (i + announced (c.bytes i) + 1) (whileTurn c p).reader ∧
          (whileTurn c p).r = i + announced (c.bytes i) + 1 ∨
        32 ≤ i + announced (c.bytes i) ∧ (whileTurn c p).reader.outside = true) := by
  have hy : p.reader.atr p.atrSize = c.bytes i := by
    rw [h.size, h.read.stored i (Nat.lt_succ_self i)]
  have hturn : SmartcardAtr.whileTurn c p = readTi c (head p (c.bytes i)) := by
    rw [SmartcardAtr.whileTurn, hy]
  have hsize : (head p (c.bytes i)).atrSize = i + announced (c.bytes i) := by
    rw [← countBits_eq, ← h.size]
    rfl
  obtain ⟨hs, hc, hm⟩ := forLoop_same (c := c) (p := head p (c.bytes i)) 256
  have hle := h.read.le
  have hbound : announced (c.bytes i) ≤ 4 := by
    generalize c.bytes i = y
    revert y
    decide
  rw [hturn]
  refine ⟨hs.trans hsize, hm.trans (moreTd_eq _), hc.trans ?_, ?_⟩
  · show (p.checksum || (decide (p.atrSize > 2) && decide (c.bytes i &&& 1 ≠ 0))) = _
    rw [odd_eq, h.size]
    rfl
  · have hloop := readTi_read (p := head p (c.bytes i)) h.read (congrArg (· + 1) h.size)
      (by rw [hsize]; omega) (by rw [hsize]; omega)
    rwa [hsize] at hloop

/-- what the outer loop leaves, from the byte `i` on -/
inductive Left (c : Card) (i : Nat) (checksum : Bool) (q : Parse) : Prop
  | outside (h : q.reader.outside = true) (hlong : ∀ e tds, Chain c.bytes i e tds → 32 < e)
  | read {e : Nat} {tds : List Nat} (hchain : Chain c.bytes i e tds) (hread : Read c e q.reader)
      (hr : q.r = e) (hsize : q.atrSize + 1 = e) (hmore : q.moreTd = false)
      (hsum : q.checksum = (checksum || seen c i || tds.any (seen c)))

theorem At.loop (h : At c i p) {n : Nat} (hn : 32 ≤ i + n) :
    Left c i p.checksum (whileN whileTest (SmartcardAtr.whileTurn c) n p) := by
  induction n generalizing i p with
  | zero =>
    have hle := h.read.le
    omega
  | succ n ih =>
    have htest : whileTest p = true := by
      rw [whileTest, h.more, h.read.inside]
      rfl
    rw [whileN_pass htest]
    obtain ⟨hsize, hmore, hsum, ⟨hlt, hread, hr⟩ | ⟨hge, hout⟩⟩ := h.whileTurn
    · cases htd : announcesTd (c.bytes i) with
      | false =>
        rw [htd] at hmore
        rw [whileN_done (by rw [whileTest, hmore]; rfl)]
        exact .read (.last htd) hread hr (by rw [hsize]) hmore (by rw [hsum]; simp)
      | true =>
        rw [htd] at hmore
        have hpos := announced_pos htd
        cases ih ⟨hread, hsize, hmore⟩ (by omega) with
        | outside hout hlong =>
          refine .outside hout fun e tds hchain => ?_
          cases hchain with
          | last hlast =>
            rw [htd] at hlast
            exact Bool.noConfusion hlast
          | td _ hrest => exact hlong _ _ hrest
        | @read e tds hchain hread hr hsize hmore' hsum' =>
          refine .read (.td htd hchain) hread hr hsize hmore' ?_
          rw [hsum', hsum, List.any_cons, Bool.or_assoc]
    · rw [whileN_done (by rw [whileTest, hout, Bool.not_true, Bool.and_false])]
      refine .outside hout fun e tds hchain => ?_
      cases hchain with
      | last _ => omega
      | td _ hrest =>
        have hlt := hrest.lt
        omega

end

/-! ## the timing -/

theorem timingDivisors_ne_zero (atr : Nat → Byte) : ∀ d ∈ timingDivisors atr, d ≠ 0 := by
  have htable : ∀ y : Byte, di.getD (y &&& 0x0f).toNat 0 ≠ 0 ∧
      fi.getD (y >>> 4).toNat 0 / di.getD (y &&& 0x0f).toNat 0 ≠ 0 := by decide
  obtain ⟨hd, he⟩ := htable (atr 2)
  intro d hmem
  by_cases hpresent : (atr 1 >>> 4) &&& 1 ≠ 0
  · simp only [timingDivisors, if_pos hpresent, List.mem_cons, List.not_mem_nil, or_false] at hmem
    rcases hmem with rfl | rfl | rfl
    · exact hd
    · exact he
    · exact he
  · simp only [timingDivisors, if_neg hpresent, List.mem_cons, List.not_mem_nil, or_false] at hmem
    rcases hmem with rfl | rfl | rfl <;> decide

def Divides (p : Parse) : Prop := ∀ d ∈ p.divisors, d ≠ 0

theorem Divides.forTurn {c : Card} {p : Parse} (h : Divides p) : Divides (forTurn c p) := by
  intro d hd
  change d ∈ (if p.r = 2 then _ else p.divisors) at hd
  by_cases hr : p.r = 2
  · rw [if_pos hr, List.mem_append] at hd
    rcases hd with hd | hd
    · exact h d hd
    · exact timingDivisors_ne_zero _ d hd
  · rw [if_neg hr] at hd
    exact h d hd

theorem Divides.readTi {c : Card} {p : Parse} (h : Divides p) : Divides (readTi c p) :=
  whileN_inv (fun _ _ h => h.forTurn) h 256

theorem divides_interface (c : Card) : Divides (interface c) := by
  refine Divides.readTi (whileN_inv (f := whileTurn c) (fun p _ h => ?_) ?_ 256)
  · exact Divides.readTi (p := head p _) h
  · exact fun _ hd => absurd hd List.not_mem_nil

/-! ## the answer -/

section
variable (c : Card)

theorem at_start : At c 1 (start c) := by
  have hts : Read c 1 ⟨Function.update (fun _ => 0) 0
      (if c.inverse then 0x3F else c.sent (tsAt c.sent)), tsAt c.sent + 1, false⟩ := by
    refine ⟨by decide, rfl, rfl, fun j hj => ?_⟩
    obtain rfl : j = 0 := by omega
    show (if c.inverse then 0x3F else c.sent (tsAt c.sent)) =
      applyConvention c.inverse (c.sent (tsAt c.sent))
    cases h : c.inverse with
    | false => rfl
    | true =>
      have h3 : c.sent (tsAt c.sent) = 0x03 := of_decide_eq_true h
      rw [h3]
      rfl
  exact ⟨hts.read (by decide), rfl, rfl⟩

/-- the loops for the interface bytes end, or go outside -/
theorem left_interface : Left c 1 false (interface c) := by
  have hleft : Left c 1 false (whileN whileTest (whileTurn c) 256 (start c)) :=
    (at_start c).loop (by decide)
  have hdone : ∀ p : Parse, forTest p = false → readTi c p = p := fun p hp => whileN_done hp 256
  rw [interface]
  cases hleft with
  | outside hout hlong =>
    rw [hdone _ (by rw [forTest, hout, Bool.not_true, Bool.and_false])]
    exact .outside hout hlong
  | read hchain hread hr hsize hmore hsum =>
    rw [hdone _ (by rw [forTest, hr, decide_eq_false (by omega), Bool.false_and])]
    exact .read hchain hread hr hsize hmore hsum

variable {c}

/-- the bytes behind the interface bytes -/
def behind (c : Card) (tds : List Nat) : Nat :=
  historical (c.bytes 1) + if tds.any (seen c) then 1 else 0

/-- the historical bytes and the checksum -/
theorem getAtr_read {e : Nat} {tds : List Nat} (he : 1 < e) (hread : Read c e (interface c).reader)
    (hr : (interface c).r = e) (hsum : (interface c).checksum = tds.any (seen c)) :
    e + behind c tds ≤ 32 ∧ Read c (e + behind c tds) (getAtr c).reader ∧
        (getAtr c).length = e + behind c tds ∨
      32 < e + behind c tds ∧ (getAtr c).reader.outside = true := by
  have hcount : ((interface c).reader.atr 1 &&& 0x0f).toNat = historical (c.bytes 1) := by
    rw [hread.stored 1 he]
    rfl
  have hmany := hread.readMany (historical (c.bytes 1))
  rw [behind, ← hsum, getAtr, hcount, hr]
  cases (interface c).checksum with
  | false =>
    rcases hmany with ⟨hle, hx⟩ | ⟨hlt, hout⟩
    · exact .inl ⟨hle, hx, rfl⟩
    · exact .inr ⟨hlt, hout⟩
  | true =>
    rcases hmany with ⟨hle, hx⟩ | ⟨hlt, hout⟩
    · rcases hx.readMany 1 with ⟨hle, hx'⟩ | ⟨hlt, hout⟩
      · exact .inl ⟨hle, hx', rfl⟩
      · exact .inr ⟨hlt, hout⟩
    · refine .inr ⟨by simp only [if_true]; omega, ?_⟩
      show (Reader.readMany c 1 _ _).outside = true
      rw [readMany_outside 1 _ hout]
      exact hout

/-- an interface that goes outside is not come back from -/
theorem getAtr_outside (h : (interface c).reader.outside = true) :
    (getAtr c).reader.outside = true := by
  rw [getAtr, readMany_outside _ _ h]
  split
  · rw [readMany_outside _ _ h]
    exact h
  · exact h

theorem seen_hasTck {tds : List Nat} (h : tds.any (seen c) = true) : HasTck c.bytes tds := by
  obtain ⟨i, hi, hseen⟩ := List.any_eq_true.mp h
  refine ⟨i, hi, fun hzero => ?_⟩
  have hbit := protocol_odd (c.bytes i)
  rw [seen, Bool.and_eq_true] at hseen
  rw [hseen.2, hzero] at hbit
  exact Bool.noConfusion hbit

variable (c)

/-- **The answer to reset.**  It is read as the standard has it exactly when it has at most 32
bytes and, where it has a `TCK`, an odd protocol is announced behind the third byte. -/
theorem getsAtr_iff :
    (∃ n, GetsAtr c n) ↔
      ∃ e tds, Chain c.bytes 1 e tds ∧
        e + historical (c.bytes 1) + tck c.bytes tds ≤ 32 ∧
        (HasTck c.bytes tds → ∃ i ∈ tds, 2 < i ∧ (c.bytes i).getLsbD 0 = true) := by
  have hany : ∀ tds : List Nat, tds.any (seen c) = true ↔
      ∃ i ∈ tds, 2 < i ∧ (c.bytes i).getLsbD 0 = true := by
    intro tds
    simp only [List.any_eq_true, seen, Bool.and_eq_true, decide_eq_true_eq]
  have htck : ∀ tds : List Nat, (HasTck c.bytes tds → tds.any (seen c) = true) ↔
      behind c tds = historical (c.bytes 1) + tck c.bytes tds := by
    intro tds
    rw [behind, tck]
    by_cases hseen : tds.any (seen c) = true
    · rw [if_pos hseen, if_pos (seen_hasTck hseen)]
      exact ⟨fun _ => rfl, fun _ _ => hseen⟩
    · rw [if_neg hseen]
      by_cases htck : HasTck c.bytes tds
      · rw [if_pos htck]
        exact ⟨fun h => absurd (h htck) hseen, fun h => by omega⟩
      · rw [if_neg htck]
        exact ⟨fun _ => rfl, fun _ h => absurd h htck⟩
  constructor
  · rintro ⟨n, h⟩
    obtain ⟨e, tds, hchain, hn⟩ := h.isAtr
    cases left_interface c with
    | outside hout _ =>
      have hin := h.inside
      rw [getAtr_outside hout] at hin
      exact Bool.noConfusion hin
    | read hchain' hread hr hsize hmore hsum =>
      obtain ⟨rfl, rfl⟩ := hchain.unique hchain'
      have hlt := hchain.lt
      rcases getAtr_read hlt hread hr hsum with ⟨hle, hx, -⟩ | ⟨-, hout⟩
      · have hnext := hx.next
        rw [h.read] at hnext
        have hbehind : behind c tds = historical (c.bytes 1) + tck c.bytes tds := by omega
        exact ⟨e, tds, hchain, by omega, fun h => (hany tds).mp ((htck tds).mpr hbehind h)⟩
      · have hin := h.inside
        rw [hout] at hin
        exact Bool.noConfusion hin
  · rintro ⟨e, tds, hchain, hle, hodd⟩
    have hbehind := (htck tds).mp fun h => (hany tds).mpr (hodd h)
    cases left_interface c with
    | outside _ hlong =>
      have := hlong e tds hchain
      omega
    | read hchain' hread hr hsize hmore hsum =>
      obtain ⟨rfl, rfl⟩ := hchain.unique hchain'
      rcases getAtr_read hchain.lt hread hr hsum with ⟨-, hx, hlength⟩ | ⟨hlong, -⟩
      · refine ⟨e + behind c tds, ⟨e, tds, hchain, by omega⟩, hmore, hx.inside, hx.next, hlength,
          hx.stored, divides_interface c⟩
      · omega

end

/-- the only interface byte is a `TD1` that announces `T=1`, and the checksum behind it -/
def shortCard : Card where
  sent k := [0x3b, 0x80, 0x01, 0x81].getD k 0
  standard := .inl rfl

/-- `TD1` is the third byte: the checksum that it makes the card send is not read -/
theorem tck_is_left : ¬ ∀ c : Card, ∃ n, GetsAtr c n := by
  intro h
  obtain ⟨n, ⟨e, tds, hchain, hn⟩, -, -, hread, -⟩ := h shortCard
  have hshort : Chain shortCard.bytes 1 3 [2] := .td rfl (.last rfl)
  obtain ⟨rfl, rfl⟩ := hchain.unique hshort
  have htck : n = 4 := hn
  have hnext : (getAtr shortCard).reader.next = 3 := by decide +kernel
  rw [hnext, htck] at hread
  exact absurd hread (by decide)

end SmartcardAtr
end Hydra
