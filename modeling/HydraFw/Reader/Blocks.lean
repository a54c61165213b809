import HydraFw.Reader.Apdu
import HydraFw.Lib.Iso14443
import HydraFw.Lib.Chunks
import Mathlib.Data.Nat.Bits

/-!
# The sender and the card, block by block

The card of `Lib.Iso14443` stands behind the link of `send_apdu`.

* `Ready`            the session of an exchange, with the number of the next block;
* `Heard`            `tpdu` is what `parse_r_tpdu` makes of a block;
* `commandBlocks`    how many I-blocks a command takes;
* `Sent`             the state between two passes of the first loop;
* `Turn`             the state between two passes of the second loop.
-/

namespace Hydra
namespace Reader
open Rams Loops Iso14443

structure Ready (r : State) (fsd : Fsd) (n : Bool) : Prop where
  addCid : r.session.addCid = true
  addNad : r.session.addNad = false
  blockSize : r.session.blockSize = fsd.value
  number : r.session.iblockPcbNumber = bit n

structure Heard (r : State) (fsd : Fsd) (n : Bool) (b : Block) : Prop where
  ready : Ready r fsd n
  pcb : r.tpdu.pcb = b.pcb
  ptr : r.tpdu.inf = .rxBuffer 2
  inf : r.inf = b.inf

section
variable {fsd : Fsd} {n : Bool} {r : State} {b : Block}

/-! ## what is sent -/

theorem initIso14443Session_ready (fsd : Fsd) (r : State) :
    Ready (r.initIso14443Session fsd) fsd false := ⟨rfl, rfl, rfl, rfl⟩

theorem bit_flip (n : Bool) : bit n ^^^ 1 = bit (!n) := by cases n <;> rfl

theorem iblock_pcb : ∀ n chaining : Bool,
    (if chaining then bit n + 0x02 ||| 0x08 ||| 0x10 else bit n + 0x02 ||| 0x08) =
      0x0A ||| bit n ||| (if chaining then 0x10 else 0) := by decide

theorem rblock_pcb : ∀ n : Bool, 0xB2 ||| 0x08 ||| bit n = 0xAA ||| bit n ||| 0x10 := by decide

theorem Ready.frame (h : Ready r fsd n) : r.frame = r.tpdu.pcb :: r.tpdu.cid :: r.inf := by
  unfold State.frame
  rw [h.addCid, h.addNad]
  rfl

theorem Ready.getIblock (h : Ready r fsd n) (p : Ptr) (len : UInt8) (chaining : Bool) :
    Ready (r.getIblock p len chaining) fsd !n ∧
      (r.getIblock p len chaining).frame =
        encode r.session.cid (.i n chaining (r.load p len.toNat)) := by
  have hready : Ready (r.getIblock p len chaining) fsd !n := by
    refine ⟨h.addCid, h.addNad, h.blockSize, ?_⟩
    show r.session.iblockPcbNumber ^^^ 1 = bit !n
    rw [h.number, bit_flip]
  refine ⟨hready, ?_⟩
  rw [hready.frame]
  simp only [State.getIblock, State.getAndUpdateIblockPcbNumber, h.addCid, h.addNad, h.number,
    if_true, Bool.false_eq_true, if_false, iblock_pcb]
  rfl

theorem Ready.getRblock (h : Ready r fsd n) :
    Ready r.getRblock fsd !n ∧ r.getRblock.frame = encode r.tpdu.cid (.r n true) := by
  have hready : Ready r.getRblock fsd !n := by
    refine ⟨h.addCid, h.addNad, h.blockSize, ?_⟩
    show r.session.iblockPcbNumber ^^^ 1 = bit !n
    rw [h.number, bit_flip]
  refine ⟨hready, ?_⟩
  rw [hready.frame]
  have hinf : r.getRblock.inf = [] := by
    show r.load r.tpdu.inf 0 = []
    cases r.tpdu.inf <;> rfl
  rw [hinf]
  simp only [State.getRblock, State.getAndUpdateIblockPcbNumber, h.addCid, h.number, if_true,
    rblock_pcb]
  rfl

theorem Heard.getWtxReply {x : UInt8} (h : Heard r fsd n (.wtx x)) :
    Ready r.getWtxReply fsd n ∧
      r.getWtxReply.frame = encode r.tpdu.cid (.wtx (x &&& 0x3F)) := by
  have hbyte : slice r.rxBuffer 2 1 = [x] := by
    have hinf : slice r.rxBuffer 2 r.tpdu.len.toNat = [x] := by
      have := h.inf
      unfold State.inf at this
      rwa [h.ptr] at this
    have hlen := congrArg List.length hinf
    rw [slice_length] at hlen
    rw [hlen] at hinf
    exact hinf
  have hreply : r.getWtxReply =
      { r with
        tpdu := { r.tpdu with len := 1 }
        rxBuffer := overwrite r.rxBuffer 2 [x &&& 0x3F] } := by
    unfold State.getWtxReply State.store State.load
    simp only [h.ptr, hbyte, List.map_cons, List.map_nil]
  have hready : Ready r.getWtxReply fsd n := by
    rw [hreply]
    exact ⟨h.ready.addCid, h.ready.addNad, h.ready.blockSize, h.ready.number⟩
  refine ⟨hready, ?_⟩
  have hinf : r.getWtxReply.inf = [x &&& 0x3F] := by
    rw [hreply]
    unfold State.inf State.load
    simp only [h.ptr]
    exact congrArg (fun y => [y]) (overwrite_in r.rxBuffer 2 [x &&& 0x3F] 0 Nat.one_pos)
  rw [hready.frame, hinf, hreply]
  exact congrArg (fun pcb => pcb :: r.tpdu.cid :: [x &&& 0x3F]) h.pcb

/-! ## what is heard -/

theorem Ready.sendTpdu (h : Ready r fsd n) {ch : Choices} {a : Air} {cid : UInt8} {answer : Block}
    (hframe : r.frame = encode cid b) (hanswer : (a.exchange ch b).2 = some answer)
    (hlen : answer.inf.length ≤ 252) :
    (r.sendTpdu (Air.transceive ch) a).2 = (a.exchange ch b).1 ∧
      Heard (r.sendTpdu (Air.transceive ch) a).1 fsd n answer := by
  have hlink : a.transceive ch r.frame = ((a.exchange ch b).1, encode cid answer) := by
    rw [hframe, Air.transceive_encode, hanswer]
  have hcount : (encode cid answer).length = answer.inf.length + 2 := rfl
  have hshort : (encode cid answer).take 0xFF = encode cid answer :=
    List.take_of_length_le (by omega)
  have hsend : r.sendTpdu (Air.transceive ch) a =
      (State.parseRTpdu { r with
        rxBuffer := overwrite r.rxBuffer 0 (encode cid answer)
        rxBufferLen := UInt16.ofNat (answer.inf.length + 2) }, (a.exchange ch b).1) := by
    unfold State.sendTpdu State.transceiveTxRx
    rw [hlink]
    simp only [hshort, hcount]
  have hover : ∀ k (hk : k < (encode cid answer).length),
      overwrite r.rxBuffer 0 (encode cid answer) k = (encode cid answer)[k] := fun k hk => by
    rw [← overwrite_in r.rxBuffer 0 (encode cid answer) k hk, Nat.zero_add]
  have hparse : (r.sendTpdu (Air.transceive ch) a).1 =
      { r with
        rxBuffer := overwrite r.rxBuffer 0 (encode cid answer)
        rxBufferLen := UInt16.ofNat (answer.inf.length + 2)
        tpdu :=
          { cid := cid
            pcb := answer.pcb
            nad := r.tpdu.nad
            len := UInt8.ofNat answer.inf.length
            inf := .rxBuffer 2 } } := by
    have hindex : (UInt16.ofNat (answer.inf.length + 2) - UInt16.ofNat 2).toUInt8 =
        UInt8.ofNat answer.inf.length := by
      rw [UInt16.ofNat_add, UInt16.add_sub_cancel]
      exact UInt16.toUInt8_ofNat' ..
    rw [hsend]
    unfold State.parseRTpdu
    simp only [h.addCid, h.addNad, if_true, Bool.false_eq_true, if_false]
    have h0 := hover 0 (by omega)
    have h1 := hover 1 (by omega)
    simp only [Nat.reduceAdd, h0, h1, hindex]
    rfl
  refine ⟨by rw [hsend], ?_⟩
  rw [hparse]
  refine ⟨⟨h.addCid, h.addNad, h.blockSize, h.number⟩, rfl, rfl, ?_⟩
  unfold State.inf State.load
  rw [show (UInt8.ofNat answer.inf.length).toNat = answer.inf.length from by simp; omega]
  refine slice_eq_list_iff.mpr fun k hk => ?_
  show overwrite r.rxBuffer 0 (encode cid answer) (2 + k) = answer.inf[k]
  rw [Nat.add_comm 2 k]
  exact hover (k + 2) (by omega)

end

/-! ## the command -/

def commandBlocks (fsd : Fsd) (apdu : Apdu) : Nat :=
  (apdu.bytes.length + fsd.value.toNat - 1) / fsd.value.toNat

section
variable {fsd : Fsd} {apdu : Apdu} {ch : Choices}

theorem lt_commandBlocks (fsd : Fsd) (apdu : Apdu) (j : Nat) :
    j < commandBlocks fsd apdu ↔ j * fsd.value.toNat < apdu.bytes.length :=
  Chunks.lt_count fsd.pos

theorem commandBlocks_pos (fsd : Fsd) (apdu : Apdu) : 0 < commandBlocks fsd apdu :=
  Chunks.count_pos fsd.pos (List.length_pos_iff.mpr apdu.nonempty)

theorem commandBlocks_le (fsd : Fsd) (apdu : Apdu) :
    commandBlocks fsd apdu ≤ apdu.bytes.length := Chunks.count_le fsd.pos _

/-- the length of a block with `n` bytes left -/
def blockLen (fsd : Fsd) (n : Nat) : UInt8 :=
  if n < fsd.value.toNat then UInt8.ofNat n else fsd.value

theorem blockLen_toNat (fsd : Fsd) (n : Nat) :
    (blockLen fsd n).toNat = min fsd.value.toNat n := by
  have hle := fsd.le
  unfold blockLen
  split
  · next h => rw [UInt8.toNat_ofNat', Nat.mod_eq_of_lt (by omega), Nat.min_eq_right h.le]
  · next h => rw [Nat.min_eq_left (Nat.not_lt.mp h)]

/-- a pass, with both counters in step -/
theorem Sending.pass_eq {κ : Type*} (link : κ → List UInt8 → κ × List UInt8) {n : Bool}
    {s : Sending κ} (hready : Ready s.reader fsd n) (hlen : s.rLen = s.len) :
    s.pass link =
      let x := (s.reader.getIblock (.buffer s.i.toNat) (blockLen fsd s.len)
        (decide (fsd.value.toNat < s.len))).sendTpdu link s.card
      { reader := x.1, card := x.2, i := s.i + blockLen fsd s.len,
        len := s.len - fsd.value.toNat, rLen := s.len - fsd.value.toNat } := by
  have hmin := blockLen_toNat fsd s.len
  have hrest : s.rLen - (blockLen fsd s.len).toNat = s.len - fsd.value.toNat := by omega
  have hchaining : decide (0 < s.rLen - (blockLen fsd s.len).toNat) =
      decide (fsd.value.toNat < s.len) := decide_eq_decide.mpr (by omega)
  unfold Sending.pass
  simp only [hready.blockSize]
  rw [← blockLen, hchaining, hrest]

theorem Sending.pass_spec {n : Bool} {s : Sending Air} (hready : Ready s.reader fsd n)
    (hlen : s.rLen = s.len) (ch : Choices) :
    let s' := s.pass (Air.transceive ch)
    ∃ data answer,
      s.card.exchange ch (.i n (decide (fsd.value.toNat < s.len)) data) = (s'.card, some answer) ∧
      Heard s'.reader fsd (!n) answer ∧ answer.inf.length ≤ 252 ∧
      s'.len = s.len - fsd.value.toNat ∧ s'.rLen = s'.len := by
  intro s'
  -- the block, and what the card answers
  obtain ⟨hnext, hframe⟩ := hready.getIblock (.buffer s.i.toNat) (blockLen fsd s.len)
    (decide (fsd.value.toNat < s.len))
  obtain ⟨-, -, answer, hanswer, hsmall⟩ := Picc.receive_i ch s.card.picc n
    (decide (fsd.value.toNat < s.len))
    (s.reader.load (.buffer s.i.toNat) (blockLen fsd s.len).toNat)
  obtain ⟨hcard, hheard⟩ := hnext.sendTpdu (a := s.card) hframe hanswer hsmall
  have hpass := Sending.pass_eq (Air.transceive ch) hready hlen
  refine ⟨s.reader.load (.buffer s.i.toNat) (blockLen fsd s.len).toNat, answer,
    Prod.ext ?_ hanswer, ?_, hsmall, congrArg Sending.len hpass, ?_⟩
  · exact ((congrArg Sending.card hpass).trans hcard).symm
  · unfold s'
    rw [hpass]
    exact hheard
  · unfold s'
    rw [hpass]

/-- between two passes: `j` blocks are sent; `c` was the number of the card -/
structure Sent (fsd : Fsd) (apdu : Apdu) (c : Bool) (s : Sending Air) (j : Nat) : Prop where
  ready : Ready s.reader fsd j.bodd
  number : s.card.picc.number = (c ^^ j.bodd)
  begun : s.card.picc.begun = j
  len : s.len = apdu.bytes.length - j * fsd.value.toNat
  rLen : s.rLen = s.len

/-- one block of the command -/
theorem Sent.pass {c : Bool} {s : Sending Air} {j : Nat} (h : Sent fsd apdu c s j)
    (hj : j < commandBlocks fsd apdu) (ch : Choices) :
    let s' := s.pass (Air.transceive ch)
    Sent fsd apdu c s' (j + 1) ∧
    ∃ data answer,
      s.card.exchange ch (.i j.bodd (decide (j + 1 < commandBlocks fsd apdu)) data) =
        (s'.card, some answer) ∧
      Heard s'.reader fsd (j + 1).bodd answer ∧ answer.inf.length ≤ 252 := by
  intro s'
  have hnow := (lt_commandBlocks fsd apdu j).mp hj
  obtain ⟨data, answer, hexchange, hheard, hsmall, hlen, hrLen⟩ :=
    Sending.pass_spec h.ready h.rLen ch
  have hchaining : decide (fsd.value.toNat < s.len) = decide (j + 1 < commandBlocks fsd apdu) := by
    rw [decide_eq_decide, lt_commandBlocks, h.len, Nat.succ_mul]
    omega
  rw [hchaining] at hexchange
  rw [← Nat.bodd_succ] at hheard
  obtain ⟨hnumber, hbegun, -⟩ := Picc.receive_i ch s.card.picc j.bodd
    (decide (j + 1 < commandBlocks fsd apdu)) data
  have hcard : s'.card.picc =
      (s.card.picc.receive ch (.i j.bodd (decide (j + 1 < commandBlocks fsd apdu)) data)).1 :=
    (congrArg (fun x => x.1.picc) hexchange).symm
  refine ⟨⟨hheard.ready, ?_, ?_, ?_, hrLen⟩, data, answer, hexchange, hheard, hsmall⟩
  · rw [hcard, hnumber, h.number, Nat.bodd_succ]
    cases c <;> cases j.bodd <;> rfl
  · rw [hcard, hbegun, h.begun]
  · rw [hlen, h.len, Nat.succ_mul, Nat.sub_sub]

/-- the state of the first loop after `j` passes -/
def sending (ch : Choices) (fsd : Fsd) (apdu : Apdu) (r : State) (p : Picc) (j : Nat) :
    Sending Air :=
  whileN Sending.more (Sending.pass (Air.transceive ch)) j
    (Sending.start fsd apdu r (Air.start p))

theorem Sent.more {c : Bool} {s : Sending Air} {j : Nat} (h : Sent fsd apdu c s j) :
    s.more = decide (j < commandBlocks fsd apdu) := by
  unfold Sending.more
  rw [decide_eq_decide, lt_commandBlocks, h.rLen, h.len]
  omega

theorem sending_succ (r : State) (p : Picc) {c : Bool} {j : Nat}
    (h : Sent fsd apdu c (sending ch fsd apdu r p j) j) (hj : j < commandBlocks fsd apdu) :
    sending ch fsd apdu r p (j + 1) = (sending ch fsd apdu r p j).pass (Air.transceive ch) := by
  unfold sending at h ⊢
  rw [whileN_succ, whileN_pass (by rw [h.more, decide_eq_true hj])]
  rfl

theorem sending_sent (ch : Choices) (fsd : Fsd) (apdu : Apdu) (r : State) (p : Picc) {j : Nat}
    (hj : j ≤ commandBlocks fsd apdu) :
    Sent fsd apdu p.number (sending ch fsd apdu r p j) j := by
  induction j with
  | zero =>
    exact ⟨initIso14443Session_ready fsd r, (Bool.xor_false _).symm, rfl, by
      rw [Nat.zero_mul]; rfl, rfl⟩
  | succ j ih =>
    have hsent := ih (Nat.le_of_succ_le hj)
    rw [sending_succ r p hsent hj]
    exact (hsent.pass hj ch).1

/-- the block that a pass sends -/
theorem sending_entry (ch : Choices) (fsd : Fsd) (apdu : Apdu) (r : State) (p : Picc) {j : Nat}
    (hj : j < commandBlocks fsd apdu) :
    ∃ data, (sending ch fsd apdu r p (j + 1)).card =
      ((sending ch fsd apdu r p j).card.exchange ch
        (.i j.bodd (decide (j + 1 < commandBlocks fsd apdu)) data)).1 := by
  have hsent := sending_sent ch fsd apdu r p hj.le
  obtain ⟨-, data, answer, hexchange, -⟩ := hsent.pass hj ch
  rw [sending_succ r p hsent hj]
  exact ⟨data, (congrArg Prod.fst hexchange).symm⟩

/-- a block of the chain that the card acknowledges at once -/
theorem sending_ack (r : State) (p : Picc) {j : Nat} (hj : j + 1 < commandBlocks fsd apdu)
    (hw : ch.waits j = []) :
    ∃ data, (sending ch fsd apdu r p (j + 1)).card.log = (sending ch fsd apdu r p j).card.log ++
      [⟨.i j.bodd true data, some (.r (p.number ^^ (j + 1).bodd) false), false⟩] := by
  have hsent := sending_sent ch fsd apdu r p (Nat.le_of_succ_le hj.le)
  obtain ⟨data, hcard⟩ := sending_entry ch fsd apdu r p (Nat.lt_of_succ_lt hj)
  rw [decide_eq_true hj, Air.exchange_of_begin_nil (Picc.receive_chained ..)
    (by rw [← hsent.begun] at hw; exact hw), hsent.number] at hcard
  refine ⟨data, ?_⟩
  rw [hcard, Nat.bodd_succ, Bool.xor_not]
  rfl

/-- a block of the chain that the card asks for an extension for -/
theorem sending_wait (r : State) (p : Picc) {j : Nat} (hj : j + 1 < commandBlocks fsd apdu)
    {x : UInt8} {xs : List UInt8} (hw : ch.waits j = x :: xs) :
    ∃ data, (sending ch fsd apdu r p (j + 1)).card.log = (sending ch fsd apdu r p j).card.log ++
      [⟨.i j.bodd true data, some (.wtx x), false⟩] := by
  have hsent := sending_sent ch fsd apdu r p (Nat.le_of_succ_le hj.le)
  obtain ⟨data, hcard⟩ := sending_entry ch fsd apdu r p (Nat.lt_of_succ_lt hj)
  rw [decide_eq_true hj, Air.exchange_of_begin_cons (Picc.receive_chained ..)
    (by rw [← hsent.begun] at hw; exact hw)] at hcard
  refine ⟨data, ?_⟩
  rw [hcard]
  rfl

/-- the reader does not grant that extension, but sends the next block -/
theorem sending_held (r : State) (p : Picc) {j : Nat} (hj : j + 1 < commandBlocks fsd apdu)
    (hw : ch.waits j ≠ []) :
    ∃ (x : UInt8) (data data' : List UInt8) (chaining : Bool) (e : Entry),
      e.sent = .i (j + 1).bodd chaining data' ∧
      (sending ch fsd apdu r p (j + 2)).card.log = (sending ch fsd apdu r p j).card.log ++
        [⟨.i j.bodd true data, some (.wtx x), false⟩, e] := by
  obtain ⟨x, xs, hx⟩ := List.exists_cons_of_ne_nil hw
  obtain ⟨data, hwait⟩ := sending_wait r p hj hx
  obtain ⟨data', hcard⟩ := sending_entry ch fsd apdu r p hj
  obtain ⟨e, hsent, hnext⟩ := Air.exchange_log ch (sending ch fsd apdu r p (j + 1)).card
    (.i (j + 1).bodd (decide (j + 1 + 1 < commandBlocks fsd apdu)) data')
  rw [← hcard, hwait, List.append_assoc] at hnext
  exact ⟨x, data, data', _, e, hsent, hnext⟩

theorem sendCommand_eq (ch : Choices) (fsd : Fsd) (apdu : Apdu) (r : State) (p : Picc) :
    sendCommand (Air.transceive ch) fsd apdu r (Air.start p) =
      sending ch fsd apdu r p (commandBlocks fsd apdu) := by
  have hsent := sending_sent ch fsd apdu r p (Nat.le_refl (commandBlocks fsd apdu))
  have hend : (sending ch fsd apdu r p (commandBlocks fsd apdu)).more = false := by
    rw [hsent.more, decide_eq_false (Nat.lt_irrefl _)]
  exact whileN_ended (commandBlocks_le fsd apdu) hend

/-! ## the first answer -/

/-- the answer that `send_apdu` takes for the first block of the response: it looks at one
extension only -/
def examined (first : Block) : List UInt8 → Block
  | _ :: y :: _ => .wtx y
  | _ => first

/-- what is recorded from the last block of the command up to that answer -/
def opening (sent first : Block) : List UInt8 → List Entry
  | [] => [⟨sent, some first, false⟩]
  | [x] => [⟨sent, some (.wtx x), false⟩, ⟨.wtx (x &&& 0x3F), some first, false⟩]
  | x :: y :: _ => [⟨sent, some (.wtx x), false⟩, ⟨.wtx (x &&& 0x3F), some (.wtx y), false⟩]

/-- between two passes of the second loop: the reader has the last block of the card -/
structure Turn (fsd : Fsd) (s : Receiving Air) (n c : Bool) (b : Block) (k : Nat) : Prop where
  heard : Heard s.reader fsd n b
  last : s.card.picc.last = some b
  number : s.card.picc.number = c
  begun : s.card.picc.begun = k
  small : b.inf.length ≤ 252

theorem answerWtx_other {n : Bool} {r : State} {b : Block} (h : Heard r fsd n b)
    (hb : ∀ x, b ≠ .wtx x) (a : Air) : answerWtx (Air.transceive ch) r a = (r, a) := by
  unfold answerWtx
  rw [h.pcb, if_neg]
  rw [Block.pcb_wtx]
  rintro ⟨x, rfl⟩
  exact hb x rfl

theorem answerWtx_wtx {n : Bool} {r : State} {x : UInt8} (h : Heard r fsd n (.wtx x)) {a : Air}
    {answer : Block} (hanswer : (a.exchange ch (.wtx (x &&& 0x3F))).2 = some answer)
    (hsmall : answer.inf.length ≤ 252) :
    (answerWtx (Air.transceive ch) r a).2 = (a.exchange ch (.wtx (x &&& 0x3F))).1 ∧
      Heard (answerWtx (Air.transceive ch) r a).1 fsd n answer := by
  unfold answerWtx
  rw [h.pcb, if_pos ((Block.pcb_wtx _).mpr ⟨x, rfl⟩)]
  obtain ⟨hready, hframe⟩ := h.getWtxReply
  exact hready.sendTpdu hframe hanswer hsmall

/-- from the last block of the command to the answer that is taken for the first of the
response -/
theorem answerWtx_spec {n number : Bool} {data : List UInt8} {r : State} {a a' : Air}
    {answer : Block} (hexchange : a.exchange ch (.i number false data) = (a', some answer))
    (hheard : Heard r fsd n answer) :
    let x := answerWtx (Air.transceive ch) r a'
    let first := ch.firstBlock !a.picc.number
    let b := examined first (ch.waits a.picc.begun)
    Heard x.1 fsd n b ∧ x.2.picc.last = some b ∧ x.2.picc.number = (!a.picc.number) ∧
      x.2.picc.begun = a.picc.begun + 1 ∧
      x.2.log = a.log ++ opening (.i number false data) first (ch.waits a.picc.begun) := by
  intro x first b
  cases hw : ch.waits a.picc.begun with
  | nil =>
    rw [Air.exchange_of_begin_nil (Picc.receive_last ..) hw] at hexchange
    obtain ⟨rfl, hanswer⟩ := Prod.mk.inj hexchange
    obtain rfl := Option.some.inj hanswer
    have hb : b = first := by unfold b; rw [hw]; rfl
    have hx : x = (r, _) := answerWtx_other hheard (fun y => Block.noConfusion) _
    rw [hx, hb]
    exact ⟨hheard, rfl, rfl, rfl, rfl⟩
  | cons y ys =>
    rw [Air.exchange_of_begin_cons (Picc.receive_last ..) hw] at hexchange
    obtain ⟨ha, hanswer⟩ := Prod.mk.inj hexchange
    obtain rfl := Option.some.inj hanswer
    cases ys with
    | nil =>
      have hdue : a'.picc.due = some ([], first) := by rw [← ha]
      have hreply := Air.exchange_wtx_nil ch hdue (y &&& 0x3F)
      obtain ⟨hcard, hfirst⟩ := answerWtx_wtx hheard (congrArg Prod.snd hreply) ch.first_le
      have hb : b = first := by unfold b; rw [hw]; rfl
      rw [hb]
      refine ⟨hfirst, ?_⟩
      unfold x
      rw [hcard, hreply, ← ha]
      exact ⟨rfl, rfl, rfl, List.append_assoc ..⟩
    | cons z zs =>
      have hdue : a'.picc.due = some (z :: zs, first) := by rw [← ha]
      have hreply := Air.exchange_wtx_cons ch hdue (y &&& 0x3F)
      obtain ⟨hcard, hfirst⟩ := answerWtx_wtx hheard (congrArg Prod.snd hreply)
        (Nat.le_of_ble_eq_true rfl)
      have hb : b = .wtx z := by unfold b; rw [hw]; rfl
      rw [hb]
      refine ⟨hfirst, ?_⟩
      unfold x
      rw [hcard, hreply, ← ha]
      exact ⟨rfl, rfl, rfl, List.append_assoc ..⟩

/-- the state before the second loop -/
theorem firstAnswer_spec (ch : Choices) (fsd : Fsd) (apdu : Apdu) (r : State) (p : Picc) {j : Nat}
    (hj : j + 1 = commandBlocks fsd apdu) :
    let s := firstAnswer (Air.transceive ch) fsd apdu r (Air.start p)
    let c := p.number ^^ (j + 1).bodd
    let b := examined (ch.firstBlock c) (ch.waits j)
    Turn fsd s (j + 1).bodd c b (j + 1) ∧ s.rapdu = b.inf ∧
      ∃ data, s.card.log = (sending ch fsd apdu r p j).card.log ++
        opening (.i j.bodd false data) (ch.firstBlock c) (ch.waits j) := by
  intro s c b
  have hlt : j < commandBlocks fsd apdu := hj ▸ Nat.lt_succ_self j
  have hsent := sending_sent ch fsd apdu r p hlt.le
  obtain ⟨-, data, answer, hexchange, hheard, -⟩ := hsent.pass hlt ch
  rw [hj, decide_eq_false (Nat.lt_irrefl _)] at hexchange
  have hc : (!(sending ch fsd apdu r p j).card.picc.number) = c := by
    rw [hsent.number]
    unfold c
    rw [Nat.bodd_succ]
    cases p.number <;> cases j.bodd <;> rfl
  obtain ⟨hfirst, hlast, hnumber, hbegun, hlog⟩ := answerWtx_spec hexchange hheard
  rw [hc, hsent.begun] at hfirst hlast hlog
  rw [hc] at hnumber
  rw [hsent.begun] at hbegun
  have hs : s = 
      let x := answerWtx (Air.transceive ch)
        ((sending ch fsd apdu r p j).pass (Air.transceive ch)).reader
        ((sending ch fsd apdu r p j).pass (Air.transceive ch)).card
      { reader := x.1, card := x.2, rapdu := x.1.inf } := by
    unfold s firstAnswer
    rw [sendCommand_eq, ← hj, sending_succ r p hsent hlt]
  have hsmall : b.inf.length ≤ 252 := by
    unfold b examined
    split
    · exact Nat.le_of_ble_eq_true rfl
    · exact ch.first_le
  rw [hs]
  exact ⟨⟨hfirst, hlast, hnumber, hbegun, hsmall⟩, hfirst.inf, data, hlog⟩

theorem firstAnswer_log (ch : Choices) (fsd : Fsd) (apdu : Apdu) (r : State) (p : Picc) :
    (sending ch fsd apdu r p (commandBlocks fsd apdu)).card.log <+:
      (firstAnswer (Air.transceive ch) fsd apdu r (Air.start p)).card.log := by
  unfold firstAnswer
  rw [sendCommand_eq]
  show _ <+: (answerWtx (Air.transceive ch) _ _).2.log
  unfold answerWtx
  split
  · exact Air.transceive_log ..
  · exact List.prefix_refl _

/-! ## the rest of the response -/

section
variable {s : Receiving Air} {n c : Bool} {b : Block} {k : Nat}

theorem Heard.more (h : Heard s.reader fsd n b) : s.more = b.bit5 := by
  unfold Receiving.more
  rw [h.pcb, Block.pcb_bit5]

theorem Receiving.pass_card (ch : Choices) (h : Heard s.reader fsd n b) :
    (s.pass (Air.transceive ch)).card = (s.card.exchange ch (.r n true)).1 := by
  obtain ⟨-, hframe⟩ := h.ready.getRblock
  show (Air.transceive ch s.card s.reader.getRblock.frame).1 = _
  rw [hframe, Air.transceive_encode]

/-- every pass sends R(NAK) -/
theorem Receiving.pass_entry (ch : Choices) (h : Heard s.reader fsd n b) :
    ∃ e : Entry, e.sent = .r n true ∧
      (s.pass (Air.transceive ch)).card.log = s.card.log ++ [e] := by
  rw [Receiving.pass_card ch h]
  exact Air.exchange_log ..

theorem Receiving.pass_spec (h : Heard s.reader fsd n b) {answer : Block}
    (hanswer : (s.card.exchange ch (.r n true)).2 = some answer)
    (hsmall : answer.inf.length ≤ 252) :
    Heard (s.pass (Air.transceive ch)).reader fsd (!n) answer ∧
      (s.pass (Air.transceive ch)).rapdu = s.rapdu ++ answer.inf := by
  obtain ⟨hready, hframe⟩ := h.ready.getRblock
  obtain ⟨-, hheard⟩ := hready.sendTpdu hframe hanswer hsmall
  exact ⟨hheard, congrArg (s.rapdu ++ ·) hheard.inf⟩

/-- R(NAK) with the number of the card: the last block comes again -/
theorem Turn.again (h : Turn fsd s n n b k) (ch : Choices) :
    let s' := s.pass (Air.transceive ch)
    Turn fsd s' (!n) n b k ∧ s'.rapdu = s.rapdu ++ b.inf ∧
      s'.card.log = s.card.log ++ [⟨.r n true, some b, true⟩] := by
  intro s'
  have hexchange := Air.exchange_same ch s.card true
  rw [h.number, h.last] at hexchange
  have hcard : s'.card = _ := Receiving.pass_card ch h.heard
  rw [hexchange] at hcard
  obtain ⟨hheard, hrapdu⟩ := Receiving.pass_spec h.heard (congrArg Prod.snd hexchange) h.small
  refine ⟨⟨hheard, ?_, ?_, ?_, h.small⟩, hrapdu, by rw [hcard]⟩
  · rw [hcard]
    exact h.last
  · rw [hcard]
    exact h.number
  · rw [hcard]
    exact h.begun

/-- R(NAK) with the other number: the card sends R(ACK), and not the next block of the chain -/
theorem Turn.receive_other (h : Turn fsd s n (!n) b k) :
    s.card.picc.receive ch (.r n true) = s.card.picc.begin ch (.r (!n) false) := by
  have hreceive := Picc.receive_nak ch s.card.picc
  rwa [h.number, Bool.not_not] at hreceive

theorem Turn.repeats_other (h : Turn fsd s n (!n) b k) :
    s.card.picc.repeats (.r n true) = false := by
  unfold Picc.repeats
  rw [h.number]
  cases n <;> rfl

theorem Turn.ack (h : Turn fsd s n (!n) b k) (hw : ch.waits k = []) :
    let s' := s.pass (Air.transceive ch)
    s'.more = false ∧ s'.rapdu = s.rapdu ∧
      s'.card.log = s.card.log ++ [⟨.r n true, some (.r (!n) false), false⟩] := by
  intro s'
  have hexchange := Air.exchange_of_begin_nil (a := s.card) h.receive_other
    (by rw [h.begun]; exact hw)
  rw [h.repeats_other] at hexchange
  have hcard : s'.card = _ := Receiving.pass_card ch h.heard
  obtain ⟨hheard, hrapdu⟩ := Receiving.pass_spec h.heard (congrArg Prod.snd hexchange)
    (Nat.zero_le _)
  refine ⟨hheard.more, hrapdu.trans (List.append_nil _), ?_⟩
  rw [hcard, hexchange]

theorem Turn.wait (h : Turn fsd s n (!n) b k) {x : UInt8} {xs : List UInt8}
    (hw : ch.waits k = x :: xs) :
    let s' := s.pass (Air.transceive ch)
    Turn fsd s' (!n) (!n) (.wtx x) (k + 1) ∧ s'.rapdu = s.rapdu ++ [x] ∧
      s'.card.log = s.card.log ++ [⟨.r n true, some (.wtx x), false⟩] := by
  intro s'
  have hexchange := Air.exchange_of_begin_cons (a := s.card) h.receive_other
    (by rw [h.begun]; exact hw)
  rw [h.repeats_other] at hexchange
  have hcard : s'.card = _ := Receiving.pass_card ch h.heard
  rw [hexchange] at hcard
  have hsmall : (Block.wtx x).inf.length ≤ 252 := Nat.le_of_ble_eq_true rfl
  obtain ⟨hheard, hrapdu⟩ := Receiving.pass_spec h.heard (congrArg Prod.snd hexchange) hsmall
  refine ⟨⟨hheard, by rw [hcard], ?_, ?_, hsmall⟩, hrapdu, by rw [hcard]⟩
  · rw [hcard]
    exact h.number
  · rw [hcard]
    exact congrArg (· + 1) h.begun

/-- the state of the second loop after `i` passes -/
def receiving (ch : Choices) (i : Nat) (s : Receiving Air) : Receiving Air :=
  whileN Receiving.more (Receiving.pass (Air.transceive ch)) i s

theorem receiving_log (ch : Choices) (i : Nat) (s : Receiving Air) :
    s.card.log <+: (receiving ch i s).card.log :=
  whileN_inv (I := fun t : Receiving Air => s.card.log <+: t.card.log)
    (fun t _ h => h.trans (Air.transceive_log ch t.card _)) (List.prefix_refl _) i

theorem receiving_rapdu (ch : Choices) (i : Nat) (s : Receiving Air) :
    s.rapdu <+: (receiving ch i s).rapdu :=
  whileN_inv (I := fun t : Receiving Air => s.rapdu <+: t.rapdu)
    (fun _ _ h => h.trans (List.prefix_append ..)) (List.prefix_refl _) i

theorem receiving_succ (hmore : s.more = true) (i : Nat) :
    receiving ch (i + 1) s = receiving ch i (s.pass (Air.transceive ch)) := whileN_pass hmore i

theorem receiving_add (ch : Choices) (i j : Nat) (s : Receiving Air) :
    receiving ch (i + j) s = receiving ch j (receiving ch i s) := whileN_add i j s

theorem receiving_done (hmore : s.more = false) (i : Nat) : receiving ch i s = s :=
  whileN_done hmore i

end

theorem sending_log (ch : Choices) (fsd : Fsd) (apdu : Apdu) (r : State) (p : Picc) (i j : Nat) :
    (sending ch fsd apdu r p j).card.log <+: (sending ch fsd apdu r p (j + i)).card.log := by
  have hadd : sending ch fsd apdu r p (j + i) = whileN Sending.more
      (Sending.pass (Air.transceive ch)) i (sending ch fsd apdu r p j) := whileN_add ..
  rw [hadd]
  exact whileN_inv (I := fun t : Sending Air => (sending ch fsd apdu r p j).card.log <+: t.card.log)
    (fun t _ h => h.trans (Air.transceive_log ch t.card _)) (List.prefix_refl _) i

end

end Reader
end Hydra
