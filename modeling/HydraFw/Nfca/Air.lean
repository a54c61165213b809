import HydraFw.Nfca.Frames

/-!
# The field in front of the NFC-A poller

What the poller relies on when cards of ISO 14443-3 are in the field.  Every card hears every
frame.  What the radio makes of the answers to an anticollision frame is left open: bits may be
wrong, collisions missed or imagined, as long as nothing is told behind the frame of a cascade
level.  A select has a CRC, so its answer is one that a card gave.

* `Population`     the cards;
* `Air`            the promises of the radio;
* `sdd_cases`      what a call in the state `sdd` can do, `collided_cases` what it does then;
* `send_pos`, `send_buf_lt`, `send_buf_ge`   the frame behind an exchange.
-/

namespace Hydra
namespace Nfca
open BitBuf hiding Byte
open Picc hiding Byte
open Rams Common

structure Population where
  cards : List TypeA
  distinct : (cards.map TypeA.uid).Nodup
  /-- the SENS_RES of a card that takes part in the anticollision -/
  resolvable : ∀ c ∈ cards, rfalNfcaIsSensResT1T ⟨c.atqa.1, c.atqa.2⟩ = false

def ShortFrameCmd.command : ShortFrameCmd → Command
  | .wupa => .wupa
  | .reqa => .reqa

/-- the bits before a collision, those sent included -/
def Heard.place (h : Heard) : Nat :=
  8 * (h.collData >>> 4 &&& 0x0f).toNat + (h.collData >>> 1 &&& 0x07).toNat

structure Air {ω : Type*} (p : Population) (r : Radio ω) (σ : ω → TypeA → State) : Prop where
  short : ∀ cmd w, σ (r.short cmd w).2 = hear (σ w) cmd.command
  anticollision : ∀ f w, σ (r.anticollision f w).2 = hear (σ w) (.ofBits f)
  transceive : ∀ f w, σ (r.transceive f w).2 = hear (σ w) (.ofBytes f)
  /-- a frame with a right CRC was sent by a card -/
  answered : ∀ f w b, (r.transceive f w).1.ret = .errNone → (r.transceive f w).1.data = [b] →
    bitsOf [b] ∈ replies p.cards (σ w) (.ofBytes f)
  woken : ∀ w, (r.short .wupa w).1.ret = .errNone →
    ∃ c ∈ p.cards, (r.short .wupa w).1.data = [c.atqa.1, c.atqa.2]
  /-- a collision is found while an answer is received, and there -/
  sent : ∀ f w, (r.anticollision f w).1.tx ≠ errRfCollision
  place : ∀ f w, (r.anticollision f w).1.rx = errRfCollision →
    f.length ≤ (r.anticollision f w).1.place ∧ (r.anticollision f w).1.place < 56
  /-- the calls block until they have ended -/
  blocks : (∀ f w, (r.anticollision f w).1.tx ≠ .errBusy ∧ (r.anticollision f w).1.rx ≠ .errBusy) ∧
    ∀ f w, (r.transceive f w).1.ret ≠ .errBusy
  /-- an answer ends with the frame of a cascade level: what came behind it would be stored behind
  `selReq` -/
  room : ∀ f w, f.length ≤ 56 → f.length / 8 + (r.anticollision f w).1.data.length ≤ 7

section
variable {ω : Type*} {p : Population} {r : Radio ω} {σ : ω → TypeA → State} {w : ω} {c : ColRes}
  {f : Frame}

/-! ## one exchange -/

/-- what is on the air -/
def Frame.sent (f : Frame) : List Bool := slice (bit f.trimmed) 0 f.len

theorem Frame.sent_length (f : Frame) : f.sent.length = f.len := slice_length ..

def Frame.pos (f : Frame) : Nat := 8 * f.bytes + f.bits

/-- status, frame and field behind an exchange -/
theorem send_cases (r : Radio ω) (f : Frame) (w : ω) :
    (f.send r w).world = (r.anticollision f.sent w).2 ∧
      ((r.anticollision f.sent w).1.tx ≠ .errNone ∧
          (f.send r w).ret = (r.anticollision f.sent w).1.tx ∧
          (f.send r w).frame = { f with buf := f.trimmed } ∨
        (r.anticollision f.sent w).1.tx = .errNone ∧
          (r.anticollision f.sent w).1.rx = errRfCollision ∧ (f.send r w).ret = errRfCollision ∧
          (f.send r w).frame.buf = f.merged (r.anticollision f.sent w).1.data ∧
          (f.send r w).frame.bits < 8 ∧
          (f.send r w).frame.pos = (r.anticollision f.sent w).1.place ∨
        (r.anticollision f.sent w).1.tx = .errNone ∧
          (r.anticollision f.sent w).1.rx ≠ errRfCollision ∧
          (f.send r w).ret = (r.anticollision f.sent w).1.rx ∧
          (f.send r w).frame = { f with buf := f.merged (r.anticollision f.sent w).1.data } ∧
          (f.send r w).rxLen = (r.anticollision f.sent w).1.rcvdLen) := by
  have hbits : ∀ x : Byte, (x >>> 1 &&& 0x07).toNat < 8 := by
    intro x
    rw [BitVec.toNat_and]
    exact Nat.lt_of_le_of_lt Nat.and_le_right (by decide)
  unfold Frame.send
  rw [show slice (bit f.trimmed) 0 f.len = f.sent from rfl]
  dsimp only
  by_cases htx : (r.anticollision f.sent w).1.tx = .errNone
  · by_cases hrx : (r.anticollision f.sent w).1.rx = errRfCollision
    · rw [if_neg (not_not.mpr htx), if_pos hrx]
      exact ⟨rfl, .inr (.inl ⟨htx, hrx, hrx, rfl, hbits _, rfl⟩)⟩
    · rw [if_neg (not_not.mpr htx), if_neg hrx]
      exact ⟨rfl, .inr (.inr ⟨htx, hrx, rfl, rfl, rfl⟩)⟩
  · rw [if_pos htx]
    exact ⟨rfl, .inl ⟨htx, rfl, rfl⟩⟩

/-- and nothing is stored behind the frame of a cascade level -/
theorem send_buf_ge (air : Air p r σ) (hb : f.bits < 8) (hlen : f.len ≤ 56) {i : Nat} (hi : 7 ≤ i) :
    (f.send r w).frame.buf i = f.buf i := by
  have hroom := air.room f.sent w (by rwa [Frame.sent_length])
  rw [Frame.sent_length] at hroom
  rw [Frame.len_eq] at hlen hroom
  have hbegun : 0 < f.bits → f.bytes ≠ i := by omega
  obtain ⟨-, ⟨-, -, hf⟩ | ⟨-, -, -, hbuf, -⟩ | ⟨-, -, -, hf, -⟩⟩ := send_cases r f w
  · rw [hf]
    show f.trimmed i = f.buf i
    by_cases h0 : 0 < f.bits
    · exact trimmed_of_ne (hbegun h0).symm
    · rw [Frame.trimmed, if_neg h0]
  · rw [hbuf]
    exact merged_of_ge (by omega) hbegun
  · rw [hf]
    exact merged_of_ge (by omega) hbegun

/-- the resolution behind the exchange of an SDD_REQ -/
def ColRes.heard (r : Radio ω) (c : ColRes) (w : ω) : ColRes :=
  c.exchanged (c.request.send r w).frame

/-- the bits before the place where the resolution is -/
def ColRes.pos (c : ColRes) : Nat := 8 * c.bytesTxRx + c.bitsTxRx

end

end Nfca
end Hydra
