import HydraFw.Reader.Blocks
import Mathlib.Data.Nat.Find

/-!
# The response in `rapdu_buffer`

What `send_apdu` makes of the chain of the card.  It asks for the next block with R(NAK), never
with R(ACK): a card with the other block number then answers R(ACK), which ends the loop, and one
with the same number sends its last block again.

* `Exchange`       a command, with what the card chooses to answer;
* `Reassembled`    what `send_apdu` owes;
* `Prompt`         no S(WTX) but at most one before the response;
* `Whole`          the exchanges for which it keeps it.
-/

namespace Hydra
namespace Reader
open Rams Loops Iso14443

/-- a command, the frame size it is sent with, and the choices of the card -/
structure Exchange where
  apdu : Apdu
  fsd : Fsd
  card : Choices

/-- the I-blocks of the command -/
def Exchange.blocks (x : Exchange) : Nat := commandBlocks x.fsd x.apdu

/-- `hydranfc_v2_reader_send`, with at most `passes` passes of its second loop -/
def Exchange.run (x : Exchange) (r : State) (p : Picc) (passes : Nat) : Receiving Air :=
  send (Air.transceive x.card) x.fsd x.apdu passes r (Air.start p)

/-- a response that fits is stored as it is, with every S(WTX) answered; a longer one stays inside
the buffer, however often the loop runs -/
def Reassembled (x : Exchange) (r : State) (p : Picc) : Prop :=
  if x.card.response.length ≤ rapduBufferSize then
    ∃ passes, (x.run r p passes).more = false ∧
      (x.run r p passes).rapdu = x.card.response ∧
      WaitsAnswered (x.run r p passes).card.log
  else ∀ passes, (x.run r p passes).rapdu.length ≤ rapduBufferSize

structure Prompt (x : Exchange) : Prop where
  command : ∀ k, k + 1 < x.blocks → x.card.waits k = []
  response : (x.card.waits (x.blocks - 1)).length ≤ 1

/-- the condition, with the number of the card before the exchange -/
def Whole (x : Exchange) (number : Bool) : Prop :=
  if x.card.response.length ≤ rapduBufferSize then
    Prompt x ∧ (x.card.rest = [] ∨ x.card.waits x.blocks = [] ∧
      x.card.rest.flatten = if number then [] else x.card.first)
  else
    ∃ j, x.card.waits (x.blocks + j) = [] ∧
      (examined (x.card.firstBlock true) (x.card.waits (x.blocks - 1))).inf.length *
        (if number then 1 else 2) + 2 * j ≤ rapduBufferSize

section
variable {fsd : Fsd} {ch : Choices} {s : Receiving Air} {n : Bool} {b : Block} {k : Nat}

/-! ## S(WTX) -/

/-- the second loop answers an S(WTX) with R(NAK), or not at all -/
theorem Heard.unanswered {x : UInt8} (h : Heard s.reader fsd n (.wtx x)) {log : List Entry}
    {e : Entry} (hlog : s.card.log = log ++ [e]) (he : e.received = some (.wtx x)) (i : Nat) :
    ¬ WaitsAnswered (receiving ch i s).card.log := by
  cases i with
  | zero =>
    show ¬ WaitsAnswered s.card.log
    rw [hlog]
    exact not_waitsAnswered_end he
  | succ i =>
    rw [receiving_succ h.more]
    obtain ⟨next, hsent, hnext⟩ := Receiving.pass_entry ch h
    rw [hlog, List.append_assoc] at hnext
    exact not_waitsAnswered he (fun y => by rw [hsent]; exact Block.noConfusion)
      (hnext ▸ receiving_log ch i _)

/-! ## a response that fits -/

/-- the response as it stands after `i` passes -/
def Fits (ch : Choices) (s : Receiving Air) (i : Nat) (response : List UInt8) : Prop :=
  (receiving ch i s).more = false ∧ (receiving ch i s).rapdu = response ∧
    WaitsAnswered (receiving ch i s).card.log

theorem fits_pass (hmore : s.more = true) (response : List UInt8) :
    (∃ i, Fits ch s i response) ↔ ∃ i, Fits ch (s.pass (Air.transceive ch)) i response := by
  constructor
  · rintro ⟨i, h⟩
    cases i with
    | zero => exact absurd (hmore.symm.trans h.1) Bool.noConfusion
    | succ i => exact ⟨i, by unfold Fits at h; rwa [receiving_succ hmore] at h⟩
  · rintro ⟨i, h⟩
    exact ⟨i + 1, by unfold Fits; rwa [receiving_succ hmore]⟩

theorem fits_done (hmore : s.more = false) (hlog : WaitsAnswered s.card.log)
    (response : List UInt8) : (∃ i, Fits ch s i response) ↔ s.rapdu = response := by
  constructor
  · rintro ⟨i, -, h, -⟩
    rwa [receiving_done hmore] at h
  · exact fun h => ⟨0, hmore, h, hlog⟩

/-- a card with the other number: what is stored is never added to -/
theorem Turn.fits_other (h : Turn fsd s n (!n) b k) (hb : b.bit5 = true)
    (hlog : WaitsAnswered s.card.log) (response : List UInt8) :
    (∃ i, Fits ch s i response) ↔ ch.waits k = [] ∧ s.rapdu = response := by
  rw [fits_pass (h.heard.more.trans hb)]
  cases hw : ch.waits k with
  | nil =>
    obtain ⟨hmore, hrapdu, hnext⟩ := h.ack hw
    rw [fits_done hmore (by rw [hnext]; exact hlog.snoc fun _ => by simp), hrapdu]
    exact (and_iff_right rfl).symm
  | cons x xs =>
    obtain ⟨hturn, -, hnext⟩ := h.wait hw
    refine iff_of_false ?_ (by rintro ⟨⟨⟩, -⟩)
    rintro ⟨i, -, -, hwaits⟩
    exact hturn.heard.unanswered hnext rfl i hwaits

/-- a card with the same number: the last block is stored twice -/
theorem Turn.fits_same (h : Turn fsd s n n b k) (hb : b.bit5 = true)
    (hlog : WaitsAnswered s.card.log) (hnot : ∀ x, b ≠ .wtx x) (response : List UInt8) :
    (∃ i, Fits ch s i response) ↔ ch.waits k = [] ∧ s.rapdu ++ b.inf = response := by
  rw [fits_pass (h.heard.more.trans hb)]
  obtain ⟨hturn, hrapdu, hnext⟩ := h.again ch
  have hother : Turn fsd (s.pass (Air.transceive ch)) (!n) (!!n) b k := by rwa [Bool.not_not]
  rw [hother.fits_other hb, hrapdu]
  rw [hnext]
  exact hlog.snoc fun x hx => hnot x (Option.some.inj hx)

/-! ## a longer response -/

def Inside (ch : Choices) (s : Receiving Air) : Prop :=
  ∀ i, (receiving ch i s).rapdu.length ≤ rapduBufferSize

theorem inside_pass (hmore : s.more = true) :
    Inside ch s ↔ Inside ch (s.pass (Air.transceive ch)) := by
  constructor
  · intro h i
    have := h (i + 1)
    rwa [receiving_succ hmore] at this
  · intro h i
    cases i with
    | zero => exact (List.prefix_append ..).length_le.trans (h 0)
    | succ i =>
      rw [receiving_succ hmore]
      exact h i

/-- a loop that ends: what it has stored then is all it stores -/
theorem inside_of_end {i : Nat} (hmore : (receiving ch i s).more = false)
    (h : (receiving ch i s).rapdu.length ≤ rapduBufferSize) : Inside ch s := by
  intro k
  have hprefix := receiving_rapdu ch i (receiving ch k s)
  rw [← receiving_add, Nat.add_comm k, receiving_add, receiving_done hmore] at hprefix
  exact hprefix.length_le.trans h

/-- while the card asks for extensions, two passes store two bytes: the S(WTX), and the same again
for the R(NAK) that has the number of the card -/
theorem Turn.waiting (h : Turn fsd s n (!n) b k) (hb : b.bit5 = true) (j : Nat)
    (hw : ∀ i, i < j → ch.waits (k + i) ≠ []) :
    ∃ b', Turn fsd (receiving ch (2 * j) s) n (!n) b' (k + j) ∧ b'.bit5 = true ∧
      (receiving ch (2 * j) s).rapdu.length = s.rapdu.length + 2 * j := by
  induction j generalizing s b k with
  | zero => exact ⟨b, h, hb, rfl⟩
  | succ j ih =>
    obtain ⟨x, xs, hx⟩ := List.exists_cons_of_ne_nil (hw 0 (Nat.succ_pos j))
    obtain ⟨hturn, hrapdu, -⟩ := h.wait hx
    obtain ⟨hagain, hrapdu', -⟩ := hturn.again ch
    rw [Bool.not_not] at hagain
    obtain ⟨b', hend, hmore, hlength⟩ := ih hagain rfl fun i hi => by
      have := hw (i + 1) (Nat.succ_lt_succ hi)
      rwa [show k + 1 + i = k + (i + 1) by omega]
    have htwo : receiving ch (2 * (j + 1)) s = receiving ch (2 * j)
        ((s.pass (Air.transceive ch)).pass (Air.transceive ch)) := by
      rw [Nat.mul_succ, receiving_succ (h.heard.more.trans hb),
        receiving_succ (hturn.heard.more.trans rfl)]
    rw [htwo, show k + (j + 1) = k + 1 + j by omega]
    refine ⟨b', hend, hmore, ?_⟩
    rw [hlength, hrapdu', hrapdu]
    simp only [List.length_append, List.length_singleton, Block.inf]
    omega

theorem Turn.inside_other (h : Turn fsd s n (!n) b k) (hb : b.bit5 = true) :
    Inside ch s ↔
      ∃ j, ch.waits (k + j) = [] ∧ s.rapdu.length + 2 * j ≤ rapduBufferSize := by
  constructor
  · intro hinside
    by_contra hnot
    -- without an end, the loop runs over any bound
    have hall : ∀ j i, i < j → ch.waits (k + i) ≠ [] := by
      intro j
      induction j with
      | zero => exact fun i hi => absurd hi (Nat.not_lt_zero i)
      | succ j ih =>
        intro i hi hw
        obtain ⟨-, -, -, hlength⟩ := h.waiting hb i fun i' hi' => ih i' (by omega)
        exact hnot ⟨i, hw, hlength ▸ hinside (2 * i)⟩
    obtain ⟨-, -, -, hlength⟩ := h.waiting hb rapduBufferSize (hall _)
    have := hinside (2 * rapduBufferSize)
    unfold rapduBufferSize at *
    omega
  · rintro ⟨j, hw, hle⟩
    -- the first block without an extension ends the loop
    have hex : ∃ j, ch.waits (k + j) = [] := ⟨j, hw⟩
    obtain ⟨b', hturn, hmore, hlength⟩ :=
      h.waiting hb (Nat.find hex) fun i hi => Nat.find_min hex hi
    have hfirst : ch.waits (k + Nat.find hex) = [] := Nat.find_spec hex
    obtain ⟨hend, hrapdu, -⟩ := hturn.ack hfirst
    have hlast : receiving ch (2 * Nat.find hex + 1) s =
        (receiving ch (2 * Nat.find hex) s).pass (Air.transceive ch) := by
      rw [receiving_add, receiving_succ (hturn.heard.more.trans hmore)]
      rfl
    refine inside_of_end (i := 2 * Nat.find hex + 1) (by rw [hlast]; exact hend) ?_
    rw [hlast, hrapdu, hlength]
    have := Nat.find_min' hex hw
    omega

theorem Turn.inside_same (h : Turn fsd s n n b k) (hb : b.bit5 = true) :
    Inside ch s ↔
      ∃ j, ch.waits (k + j) = [] ∧ s.rapdu.length + b.inf.length + 2 * j ≤ rapduBufferSize := by
  obtain ⟨hturn, hrapdu, -⟩ := h.again ch
  have hother : Turn fsd (s.pass (Air.transceive ch)) (!n) (!!n) b k := by rwa [Bool.not_not]
  rw [inside_pass (h.heard.more.trans hb), hother.inside_other hb, hrapdu, List.length_append]

end

/-! ## the command -/

section
variable {x : Exchange} {r : State} {p : Picc}

/-- the exchange as far as the card has acknowledged its chain at once -/
theorem sending_waitsAnswered {j : Nat} (hj : j < x.blocks)
    (hw : ∀ i, i < j → x.card.waits i = []) :
    WaitsAnswered (sending x.card x.fsd x.apdu r p j).card.log := by
  induction j with
  | zero => exact waitsAnswered_nil
  | succ j ih =>
    obtain ⟨data, hlog⟩ := sending_ack r p hj (hw j (Nat.lt_succ_self j))
    rw [hlog]
    exact (ih (by omega) fun i hi => hw i (by omega)).snoc fun y hy => by simp at hy

/-! ## the exchange -/

/-- the reader with the command in `buffer` -/
def Exchange.reader (x : Exchange) (r : State) : State :=
  { r with buffer := overwrite r.buffer 0 x.apdu.bytes }

/-- the state before the second loop -/
def Exchange.answered (x : Exchange) (r : State) (p : Picc) : Receiving Air :=
  firstAnswer (Air.transceive x.card) x.fsd x.apdu (x.reader r) (Air.start p)

theorem Exchange.run_eq (x : Exchange) (r : State) (p : Picc) (passes : Nat) :
    x.run r p passes = receiving x.card passes (x.answered r p) := rfl

/-- what is recorded during the command stays in the record -/
theorem Exchange.run_log (x : Exchange) (r : State) (p : Picc) (passes : Nat) {j : Nat}
    (hj : j ≤ x.blocks) :
    (sending x.card x.fsd x.apdu (x.reader r) p j).card.log <+: (x.run r p passes).card.log := by
  obtain ⟨i, hi⟩ := Nat.exists_eq_add_of_le hj
  have hcommand := sending_log x.card x.fsd x.apdu (x.reader r) p i j
  rw [← hi] at hcommand
  exact hcommand.trans ((firstAnswer_log ..).trans (receiving_log ..))

theorem Exchange.blocks_succ (x : Exchange) : ∃ j, x.blocks = j + 1 :=
  Nat.exists_eq_succ_of_ne_zero (Nat.pos_iff_ne_zero.mp (commandBlocks_pos x.fsd x.apdu))

theorem Exchange.answered_spec (x : Exchange) (r : State) (p : Picc) {j : Nat}
    (hj : x.blocks = j + 1) :
    let c := p.number ^^ (j + 1).bodd
    let b := examined (x.card.firstBlock c) (x.card.waits j)
    Turn x.fsd (x.answered r p) (j + 1).bodd c b (j + 1) ∧ (x.answered r p).rapdu = b.inf ∧
      ∃ data, (x.answered r p).card.log =
        (sending x.card x.fsd x.apdu (x.reader r) p j).card.log ++
          opening (.i j.bodd false data) (x.card.firstBlock c) (x.card.waits j) :=
  firstAnswer_spec x.card x.fsd x.apdu (x.reader r) p hj.symm

theorem examined_of_le {first : Block} {waits : List UInt8} (h : waits.length ≤ 1) :
    examined first waits = first := by
  match waits, h with
  | [], _ => rfl
  | [_], _ => rfl

/-- the record of an exchange whose command is not held up, as far as the first answer -/
theorem opening_waitsAnswered {log : List Entry} (h : WaitsAnswered log) (sent : Block)
    {number chaining : Bool} {inf : List UInt8} {waits : List UInt8} (hw : waits.length ≤ 1) :
    WaitsAnswered (log ++ opening sent (.i number chaining inf) waits) := by
  match waits, hw with
  | [], _ => exact h.snoc fun _ => by simp
  | [_], _ => exact h.reply rfl rfl fun _ => by simp

/-- extensions that the reader does not grant -/
theorem not_prompt {j : Nat} (hj : x.blocks = j + 1) (h : ¬ Prompt x) (passes : Nat) :
    ¬ WaitsAnswered (x.run r p passes).card.log := by
  by_cases hcommand : ∀ k, k + 1 < x.blocks → x.card.waits k = []
  · obtain ⟨hturn, -, data, hanswered⟩ := x.answered_spec r p hj
    have hlong : 1 < (x.card.waits j).length := by
      by_contra hle
      exact h ⟨hcommand, by rw [hj]; exact Nat.not_lt.mp hle⟩
    match hw : x.card.waits j, hlong with
    | y :: z :: zs, _ =>
      rw [hw] at hturn hanswered
      exact hturn.heard.unanswered (hanswered.trans (List.append_assoc _ [_] [_]).symm) rfl passes
  · push Not at hcommand
    obtain ⟨k, hk, hw⟩ := hcommand
    obtain ⟨y, data, data', chaining, e, hsent, hheld⟩ := sending_held (x.reader r) p hk hw
    refine not_waitsAnswered rfl (fun z => by rw [hsent]; exact Block.noConfusion)
      (hheld ▸ x.run_log r p passes hk)

/-- a response that fits, when the extensions are granted -/
theorem fits_iff {j : Nat} (hj : x.blocks = j + 1) (hprompt : Prompt x) :
    (∃ i, Fits x.card (x.answered r p) i x.card.response) ↔
      (x.card.rest = [] ∨ x.card.waits x.blocks = [] ∧
        x.card.rest.flatten = if p.number then [] else x.card.first) := by
  obtain ⟨hturn, hrapdu, data, hanswered⟩ := x.answered_spec r p hj
  have hle := hprompt.response
  rw [hj, Nat.add_sub_cancel] at hle
  rw [examined_of_le hle] at hturn hrapdu
  have hlog : WaitsAnswered (x.answered r p).card.log := by
    rw [hanswered]
    refine opening_waitsAnswered (sending_waitsAnswered (by omega) fun i hi => ?_) _ hle
    exact hprompt.command i (by omega)
  cases hrest : x.card.rest with
  | nil =>
    -- one block, and the loop does not begin
    have hmore : (x.answered r p).more = false := by
      refine hturn.heard.more.trans ?_
      simp [Choices.firstBlock, Block.bit5, hrest]
    rw [fits_done hmore hlog]
    refine iff_of_true ?_ (Or.inl rfl)
    rw [hrapdu, Choices.response, hrest]
    exact (List.append_nil _).symm
  | cons b bs =>
    have hbit : (x.card.firstBlock (p.number ^^ (j + 1).bodd)).bit5 = true := by
      simp [Choices.firstBlock, Block.bit5, hrest]
    rw [hj, ← hrest, or_iff_right (by rw [hrest]; exact List.cons_ne_nil b bs)]
    unfold Choices.response
    cases hnumber : p.number with
    | false =>
      rw [hnumber, Bool.false_xor] at hturn hrapdu hbit
      rw [hturn.fits_same hbit hlog fun _ => Block.noConfusion, hrapdu]
      refine and_congr_right' ?_
      show x.card.first ++ x.card.first = x.card.first ++ x.card.rest.flatten ↔
        x.card.rest.flatten = x.card.first
      rw [List.append_right_inj, eq_comm]
    | true =>
      rw [hnumber, Bool.true_xor] at hturn hrapdu hbit
      rw [hturn.fits_other hbit hlog, hrapdu]
      refine and_congr_right' ?_
      show x.card.first = x.card.first ++ x.card.rest.flatten ↔ x.card.rest.flatten = []
      rw [List.self_eq_append_right]

/-- a longer response -/
theorem inside_iff {j : Nat} (hj : x.blocks = j + 1)
    (hlong : rapduBufferSize < x.card.response.length) :
    Inside x.card (x.answered r p) ↔ ∃ i, x.card.waits (x.blocks + i) = [] ∧
      (examined (x.card.firstBlock true) (x.card.waits (x.blocks - 1))).inf.length *
        (if p.number then 1 else 2) + 2 * i ≤ rapduBufferSize := by
  obtain ⟨hturn, hrapdu, -⟩ := x.answered_spec r p hj
  have hrest : x.card.rest ≠ [] := by
    intro hnil
    have := x.card.first_le
    unfold Choices.response at hlong
    rw [hnil, List.flatten_nil, List.append_nil] at hlong
    unfold rapduBufferSize at hlong
    omega
  have hbit : ∀ c, (examined (x.card.firstBlock c) (x.card.waits j)).bit5 = true := by
    intro c
    unfold examined
    split
    · rfl
    · simp [Choices.firstBlock, Block.bit5, hrest]
  have hinf : ∀ c, (examined (x.card.firstBlock c) (x.card.waits j)).inf =
      (examined (x.card.firstBlock true) (x.card.waits j)).inf := by
    intro c
    unfold examined
    split <;> rfl
  rw [hj, Nat.add_sub_cancel]
  cases hnumber : p.number with
  | false =>
    rw [hnumber, Bool.false_xor] at hturn hrapdu
    rw [hturn.inside_same (hbit _), hrapdu, hinf]
    simp only [Bool.false_eq_true, if_false, Nat.mul_two]
  | true =>
    rw [hnumber, Bool.true_xor] at hturn hrapdu
    rw [hturn.inside_other (hbit _), hrapdu, hinf]
    simp only [if_true, Nat.mul_one]

/-- **The response is reassembled exactly when its card does with one block.**  `send_apdu` stores
the first block, or that block twice; it grants at most one extension. -/
theorem reassembled_iff (x : Exchange) (r : State) (p : Picc) :
    Reassembled x r p ↔ Whole x p.number := by
  obtain ⟨j, hj⟩ := x.blocks_succ
  unfold Reassembled Whole
  split
  · by_cases hprompt : Prompt x
    · rw [and_iff_right hprompt]
      exact fits_iff hj hprompt
    · refine iff_of_false ?_ fun h => hprompt h.1
      rintro ⟨i, -, -, hwaits⟩
      exact not_prompt hj hprompt i hwaits
  · next hlong => exact inside_iff hj (Nat.not_le.mp hlong)

end

/-- SELECT -/
def select : Apdu := ⟨[0x00, 0xA4, 0x04, 0x00], by decide⟩

/-- the frame size at power-on -/
def fsd16 : Fsd := ⟨16, by decide, by decide⟩

/-- SELECT to a card that answers `6F 00` in two blocks -/
def selectChained : Exchange where
  apdu := select
  fsd := fsd16
  card := ⟨fun _ => [], [0x6F], [[0x00]], by decide, by decide⟩

/-- only the first block of the chain arrives -/
theorem selectChained_cut : ¬ Reassembled selectChained State.zero Picc.activated := by
  have hfirst : (selectChained.run State.zero Picc.activated 0).more = true := by decide
  have hend : (selectChained.run State.zero Picc.activated 1).more = false := by decide
  have hbytes : (selectChained.run State.zero Picc.activated 1).rapdu = [0x6F] := by decide
  unfold Reassembled
  rw [if_pos (by decide)]
  rintro ⟨i, hmore, hrapdu, -⟩
  rw [Exchange.run_eq] at *
  cases i with
  | zero => exact absurd (hfirst.symm.trans hmore) Bool.noConfusion
  | succ i =>
    rw [Nat.add_comm i, receiving_add, receiving_done hend, hbytes] at hrapdu
    exact absurd hrapdu (by decide)

end Reader
end Hydra
