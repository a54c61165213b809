import HydraFw.Reader.Reassembly

/-!
# Block numbers from one APDU to the next

`init_iso_14443_session` sets the block number to 0 for every APDU, and `send_apdu` toggles it for
each block that it sends.  Rule B wants neither.

* `Activation`   the reader, the card and the number of rule B since the activation of the card;
* `Numbered`     what a call of `send_apdu` owes;
* `InStep`       the calls for which it keeps it.
-/

namespace Hydra
namespace Reader
open Runs Loops Iso14443

structure Activation where
  reader : State
  picc : Picc
  /-- the number of the reader by rule B -/
  number : Bool

/-- rule A -/
def Activation.start (r : State) : Activation := ⟨r, Picc.activated, false⟩

/-- an APDU is sent; the second loop makes at most `passes` passes -/
structure Call where
  exchange : Exchange
  passes : Nat

def Activation.ruleB (a : Activation) (log : List Entry) : Bool := run RuleB.next a.number log

def Activation.step (a : Activation) (c : Call) : Activation :=
  let s := c.exchange.run a.reader a.picc c.passes
  { reader := s.reader, picc := s.card.picc, number := a.ruleB s.card.log }

/-- however far the second loop comes, all blocks sent carry the number of rule B, none is taken
for a retransmission request, and the number for the next one is that of rule B -/
def Numbered (a : Activation) (c : Call) : Prop :=
  ∀ passes,
    let s := c.exchange.run a.reader a.picc passes
    StepsOk RuleB.Ok RuleB.next a.number s.card.log ∧
      s.reader.session.iblockPcbNumber = bit (a.ruleB s.card.log)

/-- the card has the number 1 it had at its activation, and its response is one block -/
def InStep (a : Activation) (c : Call) : Prop :=
  a.picc.number = true ∧ Prompt c.exchange ∧ c.exchange.card.rest = []

section
variable {x : Exchange} {r : State} {p : Picc}

theorem stepsOk_prefix {n : Bool} {l l' : List Entry} (h : l <+: l')
    (hok : StepsOk RuleB.Ok RuleB.next n l') : StepsOk RuleB.Ok RuleB.next n l := by
  obtain ⟨t, rfl⟩ := h
  exact ((stepsOk_append n l t).mp hok).1

/-- the chain of a command that the card acknowledges at once -/
theorem sending_ruleB {j : Nat} (hp : p.number = true) (hj : j < x.blocks)
    (hw : ∀ i, i < j → x.card.waits i = []) :
    let log := (sending x.card x.fsd x.apdu r p j).card.log
    StepsOk RuleB.Ok RuleB.next false log ∧ run RuleB.next false log = j.bodd := by
  induction j with
  | zero => exact ⟨trivial, rfl⟩
  | succ j ih =>
    obtain ⟨hok, hnumber⟩ := ih (by omega) fun i hi => hw i (by omega)
    obtain ⟨data, hlog⟩ := sending_ack r p hj (hw j (Nat.lt_succ_self j))
    rw [hp, Nat.bodd_succ, Bool.true_xor, Bool.not_not] at hlog
    intro log
    unfold log
    rw [hlog, stepsOk_append, run_concat, hnumber, Nat.bodd_succ]
    refine ⟨⟨hok, ⟨by simp [Block.number], rfl⟩, trivial⟩, ?_⟩
    exact if_pos rfl

/-- the first block of a call has the number 0 -/
theorem numbered_first {passes : Nat} {n : Bool}
    (h : StepsOk RuleB.Ok RuleB.next n (x.run r p passes).card.log) : n = false := by
  obtain ⟨data, hcard⟩ := sending_entry x.card x.fsd x.apdu (x.reader r) p
    (commandBlocks_pos x.fsd x.apdu)
  obtain ⟨e, hsent, hlog⟩ := Air.exchange_log x.card
    (sending x.card x.fsd x.apdu (x.reader r) p 0).card
    (.i (Nat.bodd 0) (decide (0 + 1 < commandBlocks x.fsd x.apdu)) data)
  rw [← hcard] at hlog
  have hfirst := stepsOk_prefix (hlog ▸ x.run_log r p passes
    (commandBlocks_pos x.fsd x.apdu)) h
  have hnumber : e.sent.number ≠ some (!n) := hfirst.1.1
  rw [hsent] at hnumber
  cases n with
  | false => rfl
  | true => exact absurd rfl hnumber

/-- an extension for a block of the chain: the next block has the number of the one after it -/
theorem numbered_command {passes : Nat} (hp : p.number = true)
    (h : StepsOk RuleB.Ok RuleB.next false (x.run r p passes).card.log) (k : Nat)
    (hk : k + 1 < x.blocks) : x.card.waits k = [] := by
  induction k using Nat.strong_induction_on with
  | _ k ih =>
    by_contra hw
    obtain ⟨-, hnumber⟩ := sending_ruleB (r := x.reader r) hp (Nat.lt_of_succ_lt hk)
      fun i hi => ih i hi (by omega)
    obtain ⟨y, data, data', chaining, e, hsent, hheld⟩ := sending_held (x.reader r) p hk hw
    have hpair := stepsOk_prefix (hheld ▸ x.run_log r p passes hk) h
    have hnext := ((stepsOk_append _ _ _).mp hpair).2.2.1.1
    rw [hnumber, hsent] at hnext
    refine hnext ?_
    rw [Nat.bodd_succ]
    rfl

/-- the number of the reader after a pass of the second loop -/
theorem Receiving.pass_number {fsd : Fsd} {s : Receiving Air} {n : Bool} {b : Block}
    (h : Heard s.reader fsd n b) (ch : Choices) :
    (s.pass (Air.transceive ch)).reader.session.iblockPcbNumber = bit !n :=
  h.ready.getRblock.1.number

/-! ## the answer -/

/-- the record of a command that is sent as rule B has it, up to the first answer: the number
stays behind that of the reader exactly when the answer is another S(WTX) -/
theorem opening_ruleB {log : List Entry} {n : Bool} (data inf waits : List UInt8)
    (chaining : Bool) (hok : StepsOk RuleB.Ok RuleB.next false log)
    (hn : run RuleB.next false log = n) :
    let l := log ++ opening (.i n false data) (.i n chaining inf) waits
    StepsOk RuleB.Ok RuleB.next false l ∧
      run RuleB.next false l = if waits.length ≤ 1 then !n else n := by
  intro l
  unfold l
  rw [stepsOk_append, run_append, hn]
  match waits with
  | [] => simp [opening, StepsOk, RuleB.Ok, RuleB.next, Block.number, hok]
  | [_] => simp [opening, StepsOk, RuleB.Ok, RuleB.next, Block.number, hok]
  | _ :: _ :: _ => simp [opening, StepsOk, RuleB.Ok, RuleB.next, Block.number, hok]

/-- a card with the number 1, a command that is not held up: the state before the second loop -/
theorem answered_ruleB {j : Nat} (hj : x.blocks = j + 1) (hp : p.number = true)
    (hw : ∀ k, k + 1 < x.blocks → x.card.waits k = []) :
    let s := x.answered r p
    let n := (j + 1).bodd
    Turn x.fsd s n (!n) (examined (x.card.firstBlock !n) (x.card.waits j)) (j + 1) ∧
      StepsOk RuleB.Ok RuleB.next false s.card.log ∧
      run RuleB.next false s.card.log = if (x.card.waits j).length ≤ 1 then n else !n := by
  intro s n
  obtain ⟨hturn, -, data, hlog⟩ := x.answered_spec r p hj
  obtain ⟨hok, hnumber⟩ := sending_ruleB (r := x.reader r) hp (by omega : j < x.blocks)
    fun i hi => hw i (by omega)
  rw [hp, Bool.true_xor] at hturn hlog
  have hn : (!n) = j.bodd := by
    unfold n
    rw [Nat.bodd_succ, Bool.not_not]
  refine ⟨hturn, ?_⟩
  rw [hlog, show (!(j + 1).bodd) = j.bodd from hn]
  have hopening :=
    opening_ruleB data x.card.first (x.card.waits j) (!x.card.rest.isEmpty) hok hnumber
  rw [← hn] at hopening ⊢
  rw [Bool.not_not] at hopening
  exact hopening

/-- the answer to the first R(NAK) does not carry the current number -/
theorem Turn.ruleB_pass {fsd : Fsd} {s : Receiving Air} {n : Bool} {b : Block} {k : Nat}
    (h : Turn fsd s n (!n) b k) (ch : Choices) (hn : run RuleB.next false s.card.log = n) :
    run RuleB.next false (s.pass (Air.transceive ch)).card.log = n := by
  cases hw : ch.waits k with
  | nil =>
    obtain ⟨-, -, hlog⟩ := h.ack hw
    rw [hlog, run_concat, hn]
    exact if_neg (Bool.not_ne_self n)
  | cons x xs =>
    obtain ⟨-, -, hlog⟩ := h.wait hw
    rw [hlog, run_concat, hn]
    rfl

/-! ## a call -/

/-- the number of rule B is the one that the card does not have -/
def Coupling (a : Activation) : Prop := a.number = !a.picc.number

/-- a call in step ends with the first answer; reader, rule B and card agree on the number -/
theorem InStep.run {a : Activation} {c : Call} (ha : Coupling a) (h : InStep a c) (passes : Nat) :
    let s := c.exchange.run a.reader a.picc passes
    ∃ n, StepsOk RuleB.Ok RuleB.next a.number s.card.log ∧ a.ruleB s.card.log = n ∧
      s.reader.session.iblockPcbNumber = bit n ∧ s.card.picc.number = !n := by
  intro s
  obtain ⟨hp, hprompt, hrest⟩ := h
  obtain ⟨j, hj⟩ := c.exchange.blocks_succ
  obtain ⟨hturn, hok, hnumber⟩ := answered_ruleB (r := a.reader) hj hp hprompt.command
  have hle := hprompt.response
  rw [hj, Nat.add_sub_cancel] at hle
  rw [examined_of_le hle] at hturn
  rw [if_pos hle] at hnumber
  have hmore : (c.exchange.answered a.reader a.picc).more = false := by
    refine hturn.heard.more.trans ?_
    simp [Choices.firstBlock, Block.bit5, hrest]
  have hs : s = c.exchange.answered a.reader a.picc := receiving_done hmore passes
  have ha' : a.number = false := by rw [ha, hp]; rfl
  unfold Activation.ruleB
  rw [hs, ha']
  exact ⟨_, hok, hnumber, hturn.heard.ready.number, hturn.number⟩

theorem InStep.numbered {a : Activation} {c : Call} (ha : Coupling a) (h : InStep a c) :
    Numbered a c := by
  intro passes s
  obtain ⟨n, hok, hnumber, hreader, -⟩ := h.run ha passes
  exact ⟨hok, hreader.trans (congrArg bit hnumber.symm)⟩

theorem InStep.coupling {a : Activation} {c : Call} (ha : Coupling a) (h : InStep a c) :
    Coupling (a.step c) := by
  obtain ⟨n, -, hnumber, -, hpicc⟩ := h.run ha c.passes
  show a.ruleB (c.exchange.run a.reader a.picc c.passes).card.log =
    !(c.exchange.run a.reader a.picc c.passes).card.picc.number
  rw [hnumber, hpicc, Bool.not_not]

theorem bit_ne_not (n : Bool) : bit n ≠ bit !n := by cases n <;> decide

theorem Numbered.inStep {a : Activation} {c : Call} (ha : Coupling a) (h : Numbered a c) :
    InStep a c := by
  obtain ⟨j, hj⟩ := c.exchange.blocks_succ
  have ha' : a.number = false := numbered_first (h 0).1
  have hp : a.picc.number = true := by
    have := ha.symm.trans ha'
    simpa using this
  have hcommand := numbered_command hp (ha' ▸ (h 0).1)
  obtain ⟨hturn, -, hnumber⟩ := answered_ruleB (r := a.reader) hj hp hcommand
  -- another S(WTX) leaves the number of rule B behind
  have hle : (c.exchange.card.waits j).length ≤ 1 := by
    by_contra hlong
    have hnext : (c.exchange.answered a.reader a.picc).reader.session.iblockPcbNumber =
        bit (run RuleB.next a.number (c.exchange.answered a.reader a.picc).card.log) := (h 0).2
    rw [ha'] at hnext
    rw [if_neg hlong] at hnumber
    exact bit_ne_not _ (hturn.heard.ready.number.symm.trans (hnext.trans (congrArg bit hnumber)))
  refine ⟨hp, ⟨hcommand, by rwa [hj]⟩, ?_⟩
  -- R(NAK) takes the number of the reader past that of rule B
  by_contra hrest
  rw [examined_of_le hle] at hturn
  rw [if_pos hle] at hnumber
  have hmore : (c.exchange.answered a.reader a.picc).more = true := by
    refine hturn.heard.more.trans ?_
    simp [Choices.firstBlock, Block.bit5, hrest]
  have hnext : (receiving c.exchange.card 1 (c.exchange.answered a.reader
      a.picc)).reader.session.iblockPcbNumber = bit (run RuleB.next a.number
        (receiving c.exchange.card 1 (c.exchange.answered a.reader a.picc)).card.log) := (h 1).2
  rw [receiving_succ hmore, ha'] at hnext
  have hafter := Receiving.pass_number hturn.heard c.exchange.card
  have hkept := hturn.ruleB_pass c.exchange.card hnumber
  exact bit_ne_not _ (((hnext.trans (congrArg bit hkept)).symm.trans hafter))

end

/-- **The numbers are those of rule B exactly in the sessions whose calls are all in step.**  The
card has to be asked with an even number of blocks so far, and to answer with one block. -/
theorem stepsOk_numbered_iff (r : State) (cs : List Call) :
    StepsOk Numbered Activation.step (Activation.start r) cs ↔
      StepsOk InStep Activation.step (Activation.start r) cs := by
  have h0 : Coupling (Activation.start r) := rfl
  constructor
  · exact StepsOk.mono (I := Coupling) (fun _ _ ha h => (h.inStep ha).coupling ha)
      (fun _ _ ha h => h.inStep ha) h0
  · exact StepsOk.mono (I := Coupling) (fun _ _ ha h => h.coupling ha)
      (fun _ _ ha h => h.numbered ha) h0

/-- a command of one block, answered with `90 00` -/
def oneBlock : Call where
  exchange :=
    { apdu := select
      fsd := fsd16
      card := ⟨fun _ => [], [0x90, 0x00], [], by decide, by decide⟩ }
  passes := 0

/-- the second APDU begins with the number 0 again -/
theorem second_apdu_resets :
    ¬ StepsOk Numbered Activation.step (Activation.start State.zero) [oneBlock, oneBlock] := by
  rintro ⟨-, h, -⟩
  exact absurd (h 0).1 (by decide)

end Reader
end Hydra
