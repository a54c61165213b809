import HydraFw.Lib.Runs
import Mathlib.Data.List.Chain

/-!
# ISO/IEC 14443-4 half-duplex block transmission

The blocks with a CID, the rules of the card (PICC) for them, and what the reader (PCD) owes it.

* `Block`           I-, R- and S(WTX) blocks; `encode`, `decode` their frames;
* `Picc.receive`    rules D, E, 9, 11, 12 and 13: what a card makes of a block;
* `Choices`         what the standard leaves to the card in one exchange: its response, and the
                    waiting time extensions before each of its blocks;
* `Air`             the card with a record of the blocks;
* `RuleB`           the block number of the reader, kept along a record;
* `WaitsAnswered`   every S(WTX) is answered by one with the same WTXM.
-/

namespace Iso14443

inductive Block where
  | i (number chaining : Bool) (inf : List UInt8)
  | r (number nak : Bool)
  /-- S(WTX), as request or as response -/
  | wtx (inf : UInt8)
  deriving DecidableEq

def bit (b : Bool) : UInt8 := if b then 1 else 0

/-- the protocol control byte; bit 4 says that a CID follows -/
def Block.pcb : Block → UInt8
  | .i number chaining _ => 0x0A ||| bit number ||| (if chaining then 0x10 else 0)
  | .r number nak => 0xAA ||| bit number ||| (if nak then 0x10 else 0)
  | .wtx _ => 0xFA

def Block.inf : Block → List UInt8
  | .i _ _ inf => inf
  | .r _ _ => []
  | .wtx x => [x]

/-- the block number, which an S-block has not -/
def Block.number : Block → Option Bool
  | .i number _ _ => some number
  | .r number _ => some number
  | .wtx _ => none

/-- the frame of a block, without its CRC -/
def encode (cid : UInt8) (b : Block) : List UInt8 := b.pcb :: cid :: b.inf

def decode : List UInt8 → Option (UInt8 × Block)
  | pcb :: cid :: inf =>
    if pcb &&& 0xEE = 0x0A then
      some (cid, .i (pcb &&& 0x01 = 0x01) (pcb &&& 0x10 = 0x10) inf)
    else
      match inf with
      | [] =>
        if pcb &&& 0xEE = 0xAA then
          some (cid, .r (pcb &&& 0x01 = 0x01) (pcb &&& 0x10 = 0x10))
        else none
      | [x] => if pcb = 0xFA then some (cid, .wtx x) else none
      | _ => none
  | _ => none

theorem i_pcb_bits : ∀ number chaining : Bool,
    let pcb := 0x0A ||| bit number ||| (if chaining then 0x10 else 0)
    pcb &&& 0xEE = 0x0A ∧ decide (pcb &&& 0x01 = 0x01) = number ∧
      decide (pcb &&& 0x10 = 0x10) = chaining ∧ ¬ pcb &&& 0xF0 = 0xF0 := by decide

theorem r_pcb_bits : ∀ number nak : Bool,
    let pcb := 0xAA ||| bit number ||| (if nak then 0x10 else 0)
    pcb &&& 0xEE = 0xAA ∧ decide (pcb &&& 0x01 = 0x01) = number ∧
      decide (pcb &&& 0x10 = 0x10) = nak ∧ ¬ pcb &&& 0xF0 = 0xF0 := by decide

theorem decode_encode (cid : UInt8) (b : Block) : decode (encode cid b) = some (cid, b) := by
  cases b with
  | i number chaining inf =>
    obtain ⟨hkind, hnumber, hchaining, -⟩ := i_pcb_bits number chaining
    simp only [encode, decode, Block.pcb, Block.inf, hkind, hnumber, hchaining, if_true]
  | r number nak =>
    obtain ⟨hkind, hnumber, hnak, -⟩ := r_pcb_bits number nak
    simp only [encode, decode, Block.pcb, Block.inf, hkind, hnumber, hnak, if_true]
    rfl
  | wtx x =>
    have hkind : ¬ (0xFA : UInt8) &&& 0xEE = 0x0A := by decide
    simp only [encode, decode, Block.pcb, Block.inf, hkind, if_false, if_true]

/-- bit 5 of the control byte: chaining in an I-block, but set in S(WTX) as well -/
def Block.bit5 : Block → Bool
  | .i _ chaining _ => chaining
  | .r _ nak => nak
  | .wtx _ => true

theorem Block.pcb_bit5 (b : Block) : decide (b.pcb &&& 0x10 = 0x10) = b.bit5 := by
  cases b with
  | i number chaining inf => exact (i_pcb_bits number chaining).2.2.1
  | r number nak => exact (r_pcb_bits number nak).2.2.1
  | wtx x => exact decide_eq_true (show (0xFA : UInt8) &&& 0x10 = 0x10 by decide)

theorem Block.pcb_wtx (b : Block) : b.pcb &&& 0xF0 = 0xF0 ↔ ∃ x, b = .wtx x := by
  cases b with
  | i number chaining inf =>
    refine iff_of_false (i_pcb_bits number chaining).2.2.2 ?_
    rintro ⟨x, h⟩
    cases h
  | r number nak =>
    refine iff_of_false (r_pcb_bits number nak).2.2.2 ?_
    rintro ⟨x, h⟩
    cases h
  | wtx x => exact iff_of_true (show (0xFA : UInt8) &&& 0xF0 = 0xF0 by decide) ⟨x, rfl⟩

/-! ## the card -/

/-- what the standard leaves to the card in one exchange -/
structure Choices where
  /-- the extensions it asks for before the `k`-th of its blocks -/
  waits : Nat → List UInt8
  /-- the INF fields of the response: one block, or a chain -/
  first : List UInt8
  rest : List (List UInt8)
  first_le : first.length ≤ 252
  rest_le : ∀ b ∈ rest, b.length ≤ 252

/-- the whole response -/
def Choices.response (ch : Choices) : List UInt8 := ch.first ++ ch.rest.flatten

/-- its first block -/
def Choices.firstBlock (ch : Choices) (number : Bool) : Block :=
  .i number (!ch.rest.isEmpty) ch.first

structure Picc where
  number : Bool
  /-- the last block sent -/
  last : Option Block
  /-- the block that waits for S(WTX) responses, with the extensions still to ask for -/
  due : Option (List UInt8 × Block)
  /-- the blocks of the response that are still to come -/
  chain : List (List UInt8)
  /-- blocks begun in this exchange -/
  begun : Nat

/-- rule C -/
def Picc.activated : Picc := ⟨true, none, none, [], 0⟩

def Picc.say (p : Picc) (b : Block) (due : Option (List UInt8 × Block)) : Picc × Option Block :=
  ({ p with last := some b, due := due }, some b)

/-- a new block, behind the extensions that the card wants for it (rule 9) -/
def Picc.begin (ch : Choices) (p : Picc) (b : Block) : Picc × Option Block :=
  match ch.waits p.begun with
  | [] => { p with begun := p.begun + 1 }.say b none
  | x :: xs => { p with begun := p.begun + 1 }.say (.wtx x) (some (xs, b))

/-- what the card makes of a block, and its answer, if it is not mute -/
def Picc.receive (ch : Choices) (p : Picc) : Block → Picc × Option Block
  | .i _ chaining _ =>
    -- rule D: the number is toggled whatever the block carries
    if chaining then
      { p with number := !p.number, chain := [] }.begin ch (.r (!p.number) false)
    else
      { p with number := !p.number, chain := ch.rest }.begin ch (ch.firstBlock !p.number)
  | .r number nak =>
    -- rule 11
    if number = p.number then (p, p.last)
    -- rule 12
    else if nak then p.begin ch (.r p.number false)
    else
      -- rules E and 13
      match p.chain with
      | b :: bs =>
        { p with number := !p.number, chain := bs }.begin ch (.i (!p.number) (!bs.isEmpty) b)
      | [] => (p, none)
  | .wtx _ =>
    match p.due with
    | some ([], b) => p.say b none
    | some (x :: xs, b) => p.say (.wtx x) (some (xs, b))
    | none => (p, none)

/-- the card takes the block for a request to send its last one again -/
def Picc.repeats (p : Picc) : Block → Bool
  | .r number _ => number == p.number
  | _ => false

section
variable {ch : Choices}

theorem Picc.begin_nil {p : Picc} (h : ch.waits p.begun = []) (b : Block) :
    p.begin ch b = { p with begun := p.begun + 1 }.say b none := by
  unfold Picc.begin
  rw [h]

theorem Picc.begin_cons {p : Picc} {x : UInt8} {xs : List UInt8} (h : ch.waits p.begun = x :: xs)
    (b : Block) : p.begin ch b = { p with begun := p.begun + 1 }.say (.wtx x) (some (xs, b)) := by
  unfold Picc.begin
  rw [h]

/-- what a new block leaves of the card, with or without an extension before it -/
theorem Picc.begin_spec (ch : Choices) (p : Picc) {b : Block} (hb : b.inf.length ≤ 252) :
    (p.begin ch b).1.number = p.number ∧ (p.begin ch b).1.begun = p.begun + 1 ∧
      ∃ answer, (p.begin ch b).2 = some answer ∧ answer.inf.length ≤ 252 := by
  cases h : ch.waits p.begun with
  | nil =>
    rw [Picc.begin_nil h]
    exact ⟨rfl, rfl, b, rfl, hb⟩
  | cons x xs =>
    rw [Picc.begin_cons h]
    exact ⟨rfl, rfl, .wtx x, rfl, by simp [Block.inf]⟩

/-- an I-block toggles the number, and a new block answers it -/
theorem Picc.receive_i (ch : Choices) (p : Picc) (number chaining : Bool) (inf : List UInt8) :
    (p.receive ch (.i number chaining inf)).1.number = !p.number ∧
      (p.receive ch (.i number chaining inf)).1.begun = p.begun + 1 ∧
      ∃ answer, (p.receive ch (.i number chaining inf)).2 = some answer ∧
        answer.inf.length ≤ 252 := by
  cases chaining with
  | true => exact Picc.begin_spec ch { p with number := !p.number, chain := [] } (Nat.zero_le _)
  | false =>
    exact Picc.begin_spec ch { p with number := !p.number, chain := ch.rest } ch.first_le

end

/-! ## the link -/

structure Entry where
  sent : Block
  received : Option Block
  repeated : Bool
  deriving DecidableEq

structure Air where
  picc : Picc
  log : List Entry

/-- the card at the start of an exchange -/
def Air.start (p : Picc) : Air := ⟨{ p with begun := 0 }, []⟩

/-- a block of the reader and the answer of the card -/
def Air.exchange (ch : Choices) (a : Air) (b : Block) : Air × Option Block :=
  let x := a.picc.receive ch b
  ({ picc := x.1, log := a.log ++ [⟨b, x.2, a.picc.repeats b⟩] }, x.2)

theorem Air.exchange_log (ch : Choices) (a : Air) (b : Block) :
    ∃ e : Entry, e.sent = b ∧ (a.exchange ch b).1.log = a.log ++ [e] := ⟨_, rfl, rfl⟩

/-- the same with frames; a mute card answers nothing -/
def Air.transceive (ch : Choices) (a : Air) (frame : List UInt8) : Air × List UInt8 :=
  match decode frame with
  | some (cid, b) =>
    let x := a.exchange ch b
    (x.1, match x.2 with
      | some answer => encode cid answer
      | none => [])
  | none => (a, [])

theorem Air.transceive_encode (ch : Choices) (a : Air) (cid : UInt8) (b : Block) :
    a.transceive ch (encode cid b) = ((a.exchange ch b).1, match (a.exchange ch b).2 with
      | some answer => encode cid answer
      | none => []) := by
  unfold Air.transceive
  rw [decode_encode]

/-- the record only grows -/
theorem Air.transceive_log (ch : Choices) (a : Air) (frame : List UInt8) :
    a.log <+: (a.transceive ch frame).1.log := by
  unfold Air.transceive
  split
  · exact List.prefix_append ..
  · exact List.prefix_refl _

section
variable {ch : Choices} {a : Air}

/-- a block that the card begins without an extension -/
theorem Air.exchange_of_begin_nil {sent b : Block} {q : Picc}
    (hreceive : a.picc.receive ch sent = q.begin ch b) (h : ch.waits q.begun = []) :
    a.exchange ch sent =
      ({ picc := { q with begun := q.begun + 1, last := some b, due := none }
         log := a.log ++ [⟨sent, some b, a.picc.repeats sent⟩] }, some b) := by
  unfold Air.exchange
  rw [hreceive, Picc.begin_nil h]
  rfl

/-- a block that the card asks for an extension for -/
theorem Air.exchange_of_begin_cons {sent b : Block} {q : Picc} {x : UInt8} {xs : List UInt8}
    (hreceive : a.picc.receive ch sent = q.begin ch b) (h : ch.waits q.begun = x :: xs) :
    a.exchange ch sent =
      ({ picc := { q with begun := q.begun + 1, last := some (.wtx x), due := some (xs, b) }
         log := a.log ++ [⟨sent, some (.wtx x), a.picc.repeats sent⟩] }, some (.wtx x)) := by
  unfold Air.exchange
  rw [hreceive, Picc.begin_cons h]
  rfl

theorem Picc.receive_chained (p : Picc) (number : Bool) (inf : List UInt8) :
    p.receive ch (.i number true inf) =
      { p with number := !p.number, chain := [] }.begin ch (.r (!p.number) false) := rfl

theorem Picc.receive_last (p : Picc) (number : Bool) (inf : List UInt8) :
    p.receive ch (.i number false inf) =
      { p with number := !p.number, chain := ch.rest }.begin ch (ch.firstBlock !p.number) := rfl

theorem Picc.receive_nak (ch : Choices) (p : Picc) :
    p.receive ch (.r (!p.number) true) = p.begin ch (.r p.number false) := by
  simp [Picc.receive]

theorem Air.exchange_wtx_nil (ch : Choices) {b : Block} (h : a.picc.due = some ([], b))
    (x : UInt8) :
    a.exchange ch (.wtx x) =
      ({ picc := { a.picc with last := some b, due := none }
         log := a.log ++ [⟨.wtx x, some b, false⟩] }, some b) := by
  simp [Air.exchange, Picc.receive, h, Picc.say, Picc.repeats]

theorem Air.exchange_wtx_cons (ch : Choices) {y : UInt8} {ys : List UInt8} {b : Block}
    (h : a.picc.due = some (y :: ys, b)) (x : UInt8) :
    a.exchange ch (.wtx x) =
      ({ picc := { a.picc with last := some (.wtx y), due := some (ys, b) }
         log := a.log ++ [⟨.wtx x, some (.wtx y), false⟩] }, some (.wtx y)) := by
  simp [Air.exchange, Picc.receive, h, Picc.say, Picc.repeats]

/-- rule 11 -/
theorem Air.exchange_same (ch : Choices) (a : Air) (nak : Bool) :
    a.exchange ch (.r a.picc.number nak) =
      ({ a with log := a.log ++ [⟨.r a.picc.number nak, a.picc.last, true⟩] }, a.picc.last) := by
  simp [Air.exchange, Picc.receive, Picc.repeats]

end

/-! ## the reader -/

/-- rule B: an I-block or an R(ACK) with the current number toggles it -/
def RuleB.next (n : Bool) (e : Entry) : Bool :=
  match e.received with
  | some (.i number _ _) => if number = n then !n else n
  | some (.r number false) => if number = n then !n else n
  | _ => n

/-- the block carries the current number, if it carries one, and the card takes it for a new one -/
def RuleB.Ok (n : Bool) (e : Entry) : Prop := e.sent.number ≠ some (!n) ∧ e.repeated = false

instance (n : Bool) (e : Entry) : Decidable (RuleB.Ok n e) := inferInstanceAs (Decidable (_ ∧ _))

/-- the next block of the reader answers an S(WTX), with its WTXM -/
def Answers (e e' : Entry) : Prop :=
  ∀ x, e.received = some (.wtx x) → e'.sent = .wtx (x &&& 0x3F)

def WaitsAnswered (log : List Entry) : Prop :=
  log.IsChain Answers ∧ ∀ e ∈ log.getLast?, ∀ x, e.received ≠ some (.wtx x)

theorem waitsAnswered_nil : WaitsAnswered [] := ⟨.nil, fun _ h => nomatch h⟩

theorem WaitsAnswered.snoc {log : List Entry} (h : WaitsAnswered log) {e : Entry}
    (he : ∀ x, e.received ≠ some (.wtx x)) : WaitsAnswered (log ++ [e]) := by
  refine ⟨List.isChain_append.mpr ⟨h.1, .singleton e, ?_⟩, ?_⟩
  · intro last hlast _ _ x hx
    exact absurd hx (h.2 last hlast x)
  · rw [List.getLast?_concat]
    rintro _ ⟨⟩
    exact he

theorem WaitsAnswered.reply {log : List Entry} (h : WaitsAnswered log) {e e' : Entry} {x : UInt8}
    (he : e.received = some (.wtx x)) (hreply : e'.sent = .wtx (x &&& 0x3F))
    (he' : ∀ y, e'.received ≠ some (.wtx y)) : WaitsAnswered (log ++ [e, e']) := by
  have hpair : Answers e e' := by
    intro y hy
    rw [he] at hy
    cases hy
    exact hreply
  refine ⟨List.isChain_append.mpr ⟨h.1, List.isChain_cons_cons.mpr ⟨hpair, .singleton e'⟩, ?_⟩, ?_⟩
  · intro last hlast _ _ y hy
    exact absurd hy (h.2 last hlast y)
  · rw [show log ++ [e, e'] = (log ++ [e]) ++ [e'] by rw [List.append_assoc]; rfl,
      List.getLast?_concat]
    rintro _ ⟨⟩
    exact he'

/-- a record in which another block follows an S(WTX) -/
theorem not_waitsAnswered {log l : List Entry} {e e' : Entry} {x : UInt8}
    (he : e.received = some (.wtx x)) (he' : ∀ y, e'.sent ≠ .wtx y) (h : log ++ [e, e'] <+: l) :
    ¬ WaitsAnswered l := by
  rintro ⟨hchain, -⟩
  obtain ⟨t, rfl⟩ := h
  have hpair := hchain.left_of_append.right_of_append
  exact he' _ ((List.isChain_cons_cons.mp hpair).1 x he)

theorem not_waitsAnswered_end {log : List Entry} {e : Entry} {x : UInt8}
    (he : e.received = some (.wtx x)) : ¬ WaitsAnswered (log ++ [e]) := fun h =>
  h.2 e List.getLast?_concat x he

end Iso14443
