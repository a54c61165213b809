import HydraFw.Card.State

/-!
# The Mifare Ultralight command processor

`processCmdMifUL` as `hydranfc_v2_ce.c` has it, over the 76-byte `ul_image` (sixteen pages of four
bytes and a copy of the first three behind them, so that a READ rolls over without a check).

* `ulStore`           the address chain that WRITE and the second phase of COMPATIBILITY WRITE share;
* `processCmdMifUL`   one frame;
* `ulExchange`        one frame received into `rxtxFrameBuf` and processed in a listen state.

The accesses recorded are the stores and the `memcpy`s.
-/

namespace Hydra
open Rams

def cmdUlRead : UInt8 := 0x30
def cmdUlWrite : UInt8 := 0xA2
def cmdUlCwrite : UInt8 := 0xA0
def mifAck : UInt8 := 0xA
def mifNak : UInt8 := 0x0

/-- `rspData[0] = MIF_NAK; *card_reset = true; return 4;` -/
def ulNak (c : Card) (rspData : Obj) : Rsp := ⟨{ c with ram := c.ram.set rspData 0 mifNak }, 4, true⟩

/-- `rspData[0] = MIF_ACK; return 4;` -/
def ulAck (c : Card) (rspData : Obj) : Rsp := ⟨{ c with ram := c.ram.set rspData 0 mifAck }, 4, false⟩

/-- the four `ul_image[0x3*4+k] |= cmdData[off+k];` -/
def ulOr (r : Mem) (cmdData : Obj) (off : Nat) : Mem :=
  let cmd := r.mem cmdData
  let otp := r.mem .ulImage
  ((((r.set .ulImage 12 (otp 12 ||| cmd off)).set .ulImage 13 (otp 13 ||| cmd (off + 1))).set
    .ulImage 14 (otp 14 ||| cmd (off + 2))).set .ulImage 15 (otp 15 ||| cmd (off + 3)))

def ulStore (c : Card) (ulAddr : UInt8) (cmdData : Obj) (off : Nat) (rspData : Obj) : Rsp :=
  if ulAddr ≥ 0x4 ∧ ulAddr ≤ 0xf then
    ulAck { c with ram := c.ram.copy .ulImage (ulAddr.toNat * 4) cmdData off 4 } rspData
  else if ulAddr = 0x3 then ulAck { c with ram := ulOr c.ram cmdData off } rspData
  -- lock bytes are not supported: a write to page 2 is acknowledged and yields nothing
  else if ulAddr = 0x2 then ulAck c rspData
  else ulNak c rspData

def ulRead (c : Card) (cmdData rspData : Obj) : Rsp :=
  let ulAddr := (c.ram.mem cmdData 1).toNat
  if ulAddr ≤ 0xf then
    ⟨{ c with ram := c.ram.copy rspData 0 .ulImage (ulAddr * 4) 16 }, 8 * 16, false⟩
  else ulNak c rspData

/-- first part: the page number plus one waits for the second part -/
def ulCwrite (c : Card) (cmdData rspData : Obj) : Rsp :=
  let ulAddr := c.ram.mem cmdData 1
  if ulAddr ≥ 0x2 ∧ ulAddr ≤ 0xf then ulAck { c with ulCwritePageSet := ulAddr + 1 } rspData
  else ulNak c rspData

/-- the `switch` on the listen state -/
def ulDispatch (state : LmState) (c : Card) (cwritePhase2 : Bool) (ulCwriteAddr : UInt8)
    (cmdData : Obj) (cmdLen : Nat) (rspData : Obj) : Rsp :=
  let cmd := c.ram.mem cmdData
  match state with
  | .activeA | .activeAx =>
    if cmdLen = 2 ∧ cmd 0 = 0x50 ∧ cmd 1 = 0x00 then ⟨c, 0, true⟩
    else if cwritePhase2 then
      if cmdLen ≠ 16 then ulNak c rspData else ulStore c ulCwriteAddr cmdData 0 rspData
    else if cmd 0 = cmdUlRead then
      if cmdLen ≠ 2 then ulNak c rspData else ulRead c cmdData rspData
    else if cmd 0 = cmdUlWrite then
      if cmdLen ≠ 6 then ulNak c rspData else ulStore c (cmd 1) cmdData 2 rspData
    else if cmd 0 = cmdUlCwrite then
      if cmdLen ≠ 2 then ulNak c rspData else ulCwrite c cmdData rspData
    else ⟨c, 0, true⟩
  | .cardemu4A => ⟨c, 0, true⟩
  | _ => ⟨c, 0, false⟩

/-- a pending first phase is taken off before anything else, in every listen state -/
def processCmdMifUL (state : LmState) (c : Card) (cmdData : Obj) (cmdLen : Nat) (rspData : Obj) :
    Rsp :=
  ulDispatch state (if c.ulCwritePageSet ≠ 0 then { c with ulCwritePageSet := 0 } else c)
    (c.ulCwritePageSet ≠ 0) (c.ulCwritePageSet - 1) cmdData cmdLen rspData

/-! ## one frame -/

/-- a frame and the listen state its processing sees -/
structure UlFrame where
  state : LmState
  bytes : List UInt8

def ulExchange (c : Card) (f : UlFrame) : Rsp :=
  processCmdMifUL f.state (c.received f.bytes) .rxtxFrameBuf f.bytes.length .rxtxFrameBuf

def ulStep (c : Card) (f : UlFrame) : Card := (ulExchange c f).card

def LmState.active : LmState → Prop
  | .activeA | .activeAx => True
  | _ => False

instance : DecidablePred LmState.active
  | .activeA | .activeAx => isTrue trivial
  | .notInit | .powerOff | .idle | .readyA | .readyB | .readyF | .cardemu4A | .cardemu4B
  | .cardemu3 | .targetA | .targetF | .sleepA | .sleepB | .readyAx | .sleepAF =>
    isFalse fun h => h

end Hydra
