import HydraFw.T4t.Commands
import HydraFw.MifUl.Commands

/-!
# The console card emulator

`ceHandler`, `ceGetRx`, `ceSetTx` (`ce.c`) and `ceRun` (`hydranfc_v2_ce.c`).  RFAL is outside: an
iteration of `ceRun` takes its `Answers`, one field for each call it may make, and any of these
calls may deliver a frame into `rxBuf_ce`.

* `Ce`         the globals of both files, on top of those of the command processors;
* `Answers`    what RFAL answers during one iteration;
* `Ev`         what an iteration does, in order; `Ce.log` is the record of the current one;
* `ceHandler`, `ceGetRx`, `ceSetTx`, `ceRun`   the functions of the source.
-/

namespace Hydra
open Rams

/-! ## state -/

/-- `current_processCmdPtr` -/
inductive Processor where
  | processCmd
  | processCmdMifUL
  deriving DecidableEq

/-- the fields of `transceiveCtx` that change after `ceInit` -/
structure TransceiveContext where
  txBuf : Obj
  txBufLen : Nat
  flags : Nat

/-- the fields of `isoDepTxRxParam` that change after `ceInit` -/
structure IsoDepTxRxParam where
  txBuf : Obj
  txBufLen : Nat
  fsx : Nat

/-- `rfalIsoDepAtsParam` with the historical bytes -/
structure AtsParam where
  fsci : UInt8
  fwi : UInt8
  sfgi : UInt8
  ta : UInt8
  hbLen : UInt8
  hb : List UInt8

/-- what an iteration does -/
inductive Ev where
  /-- RFAL reports a frame of this length -/
  | rx (len : Nat)
  | rats
  | ratsIgnored
  | hlta
  /-- `rfalListenStop` and `rfalListenStart` -/
  | restart
  | getRx (err : ReturnCode)
  /-- the command processor runs on a frame of this length, with this `ul_cwrite_page_set`, and
  asks for a card reset or not -/
  | process (activated : Bool) (len : Nat) (pending : UInt8) (reset : Bool)
  | setTx (txReady : Bool)
  | isoTx (bytes : Nat)
  | startTx (bits : Nat)
  /-- `rfalListenSleepStart` by `ceSetTx`, alone when there is nothing to transmit -/
  | sleep (alone : Bool)
  deriving DecidableEq

structure Ce extends Card where
  rxRcvdLen : Nat
  ceEnabled : Bool
  configMask : Nat
  configA : List UInt8
  configB : List UInt8
  configF : List UInt8
  atsParam : AtsParam
  transceiveCtx : TransceiveContext
  emuMode : Nat
  isActivatedA : Bool
  isFirstF_Frame : Bool
  isFirstA3_Frame : Bool
  isoDepTxRxParam : IsoDepTxRxParam
  rxReady : Bool
  txReady : Bool
  level4Enabled : Bool
  currentProcessCmd : Processor
  log : List Ev

/-! ## RFAL -/

/-- a call that returns a status and may deliver a frame -/
structure Call where
  status : ReturnCode
  rx : Option Reception

/-- one turn of the blocking transmission: `rfalWorker`, `rfalGetTransceiveStatus`,
`rfalIsTransceiveInTx` -/
structure Poll where
  worker : Option Reception
  call : Call
  inTx : Bool

structure Answers where
  /-- `rfalWorker` -/
  worker : Option Reception
  /-- `rfalListenGetState` as `ceHandler` calls it -/
  state : LmState
  dataFlag : Bool
  /-- the status or start call of the branch `ceHandler` takes -/
  handler : Call
  /-- the status call of `ceGetRx` -/
  getRx : Call
  /-- `rfalListenGetState` as the command processor calls it -/
  processState : LmState
  /-- `rfalIsoDepStartTransceive` in `ceSetTx` -/
  isoTx : Call
  /-- `rfalStartTransceive` in `ceSetTx` -/
  startTx : Call
  polls : List Poll
  lastPoll : Poll
  /-- `rfalIsTransceiveInRx` -/
  inRx : Bool
  /-- `rfalListenSleepStart`: it clears the length unless it fails -/
  sleep : ReturnCode

/-! ## small steps -/

def Ce.note (ce : Ce) (e : Ev) : Ce := { ce with log := ce.log ++ [e] }

/-- RFAL delivers a frame -/
def Ce.recv (ce : Ce) : Option Reception → Ce
  | none => ce
  | some f =>
    { ce with
      ram := { ce.ram with
        mem := Function.update ce.ram.mem .rxBufCe (overwrite (ce.ram.mem .rxBufCe) 0 f.bytes) }
      rxRcvdLen := f.len
      log := ce.log ++ [.rx f.len] }

/-- `rfalListenStop(); rfalListenStart(configMask, …, &rxRcvdLen);` with the configuration that
`ceStart` had accepted -/
def Ce.relisten (ce : Ce) : Ce := { ce with rxRcvdLen := 0, log := ce.log ++ [.restart] }

/-- `rfalListenSleepStart(RFAL_LM_STATE_SLEEP_A, …, &rxRcvdLen)` -/
def Ce.sleepStart (ce : Ce) (r : ReturnCode) : Ce :=
  if r = .errNone then { ce with rxRcvdLen := 0 } else ce

def Ce.rxBuf (ce : Ce) : Nat → UInt8 := ce.ram.mem .rxBufCe

/-! ## `ceHandler` -/

def cardemulationModeNdef : Nat := 0x01
def cardemulationModeReflect : Nat := 0x02
def cardemulationProcessInternal : Nat := 0x80

/-- `rfalIsoDepFSxI2FSx` (NFC Forum limits) -/
def rfalIsoDepFSxI2FSx (fsxi : UInt8) : Nat :=
  match min fsxi.toNat 8 with
  | 0 => 16
  | 1 => 24
  | 2 => 32
  | 3 => 40
  | 4 => 48
  | 5 => 64
  | 6 => 96
  | 7 => 128
  | _ => 256

def ceNfcaCardemu4A (ce : Ce) (a : Answers) : Ce :=
  if ce.emuMode = cardemulationModeReflect then
    ({ ce with
      isoDepTxRxParam := { ce.isoDepTxRxParam with txBuf := .rxBufCe, txBufLen := ce.rxRcvdLen }
      log := ce.log ++ [.isoTx ce.rxRcvdLen] } : Ce).recv a.isoTx.rx
  else ce

def ceNfcfCardemu3 (ce : Ce) (a : Answers) : Ce :=
  if ce.emuMode = cardemulationModeReflect then
    ({ ce with
      transceiveCtx := { ce.transceiveCtx with txBuf := .rxBufCe, txBufLen := ce.rxRcvdLen }
      isFirstF_Frame := false
      log := ce.log ++ [.startTx ce.rxRcvdLen] } : Ce).recv a.startTx.rx
  else ce

/-- `ACTIVE_A` and `ACTIVE_Ax` with the data flag set -/
def handlerData (ce : Ce) (a : Answers) : Ce :=
  if rfalIsoDepIsRats ce.rxBuf (rfalConvBitsToBytes ce.rxRcvdLen) then
    if ce.level4Enabled then
      ({ ce with
        isoDepTxRxParam := { ce.isoDepTxRxParam with fsx := rfalIsoDepFSxI2FSx ce.atsParam.fsci }
        log := ce.log ++ [.rats] } : Ce).recv a.handler.rx
    else if ce.rxRcvdLen > 0 then
      -- only the asterisk state goes to sleep, ACTIVE_A goes back to idle
      if a.state = .activeAx then (ce.note .ratsIgnored).sleepStart a.handler.status
      else ce.note .ratsIgnored
    else ce
  else if rfalNfcaListenerIsSleepReq ce.rxBuf (rfalConvBitsToBytes ce.rxRcvdLen) then
    (ce.note .hlta).sleepStart a.handler.status
  else if ce.rxRcvdLen > 0 then { ce with rxReady := true }
  else ce

/-- `ACTIVE_A` and `ACTIVE_Ax` without data -/
def handlerNoData (ce : Ce) (a : Answers) : Ce :=
  if ce.isFirstA3_Frame then ce
  else
    let ce := ce.recv a.handler.rx
    match a.handler.status with
    | .errLinkLoss =>
      -- LLoss1
      { ce.relisten with
        rxReady := false, txReady := false, isFirstA3_Frame := true, ulCwritePageSet := 0 }
    | _ => ce

def handlerCardemu4A (ce : Ce) (a : Answers) : Ce :=
  if ce.isActivatedA then
    if ce.emuMode &&& cardemulationProcessInternal = cardemulationProcessInternal then
      let ce := ce.recv a.handler.rx
      match a.handler.status with
      | .errLinkLoss => { ce.relisten with rxReady := false, txReady := false, isActivatedA := false }
      | .errNone => ceNfcaCardemu4A ce a
      | _ => ce
    else ce
  else
    let ce := ce.recv a.handler.rx
    match a.handler.status with
    | .errLinkLoss =>
      -- LLoss2
      { ce.relisten with isActivatedA := false, isFirstA3_Frame := true, ulCwritePageSet := 0 }
    | .errNone => { ce with isActivatedA := true }
    | _ => ce

def handlerCardemu3 (ce : Ce) (a : Answers) : Ce :=
  if ce.isFirstF_Frame then ceNfcfCardemu3 ce a
  else
    let ce := ce.recv a.handler.rx
    match a.handler.status with
    | .errLinkLoss => { ce.relisten with rxReady := false, txReady := false }
    | .errNone => ceNfcfCardemu3 ce a
    | _ => ce

def ceHandler (ce : Ce) (a : Answers) : Ce :=
  if ce.ceEnabled then
    match a.state with
    | .activeA | .activeAx => if a.dataFlag then handlerData ce a else handlerNoData ce a
    | .cardemu4A => handlerCardemu4A ce a
    | .readyF => if a.dataFlag then { ce with isFirstF_Frame := true } else ce
    | .cardemu3 => handlerCardemu3 ce a
    | _ => ce
  else ce

/-! ## `ceGetRx` -/

inductive CeCmd where
  | getRxA
  | getRxB
  | getRxF
  | setTxA
  | setTxB
  | setTxF
  | other
  deriving DecidableEq

/-- `*txSize` counts only with `ERR_NONE` -/
structure Got where
  err : ReturnCode
  ce : Ce
  txSize : Nat

/-- `ST_MEMCPY(txData, src, *rxLen)` and the two flags -/
def Ce.handOver (ce : Ce) (off : Nat) : Ce :=
  { ce with
    ram := ce.ram.copy .rxtxFrameBuf 0 .rxBufCe off ce.rxRcvdLen
    rxReady := false
    txReady := true }

def ceGetRxActivated (ce : Ce) (a : Answers) (txSize : Nat) : Got :=
  let ce := ce.recv a.getRx.rx
  match a.getRx.status with
  | .errBusy => ⟨.errBusy, ce, txSize⟩
  | .errAgain => ⟨.errAgain, ce, txSize⟩
  -- the INF bytes
  | .errNone => ⟨.errNone, ce.handOver prologueSize, ce.rxRcvdLen⟩
  | err =>
    -- LLoss3
    ⟨err, { ce.relisten with
      rxReady := false, txReady := false, isActivatedA := false, isFirstA3_Frame := true,
      ulCwritePageSet := 0 }, txSize⟩

/-- layer 3, before the first transmission: no status may be asked for -/
def ceGetRxFirst (ce : Ce) : Got :=
  if ce.rxReady then ⟨.errNone, ce.handOver 0, rfalConvBitsToBytes ce.rxRcvdLen⟩
  else ⟨.errBusy, ce, 0⟩

def ceGetRxLater (ce : Ce) (a : Answers) (txSize : Nat) : Got :=
  let ce := ce.recv a.getRx.rx
  match a.getRx.status with
  | .errBusy => ⟨.errBusy, ce, txSize⟩
  | .errNone =>
    if ce.rxRcvdLen > 0 then ⟨.errNone, ce.handOver 0, rfalConvBitsToBytes ce.rxRcvdLen⟩
    else ⟨.errBusy, ce, txSize⟩
  | err =>
    -- LLoss4
    ⟨err, { ce.relisten with
      rxReady := false, txReady := false, isFirstA3_Frame := true, ulCwritePageSet := 0 }, txSize⟩

def ceGetRxF (ce : Ce) (a : Answers) (txSize : Nat) : Got :=
  if ce.isFirstF_Frame then
    let ce := ce.handOver 0
    ⟨.errNone, ce, (ce.ram.mem .rxtxFrameBuf 0).toNat⟩
  else
    let ce := ce.recv a.getRx.rx
    match a.getRx.status with
    | .errBusy => ⟨.errBusy, ce, txSize⟩
    | .errNone =>
      let ce := ce.handOver 0
      ⟨.errNone, ce, (ce.ram.mem .rxtxFrameBuf 0).toNat⟩
    | err => ⟨err, { ce.relisten with rxReady := false, txReady := false }, txSize⟩

def ceGetRx (cmd : CeCmd) (ce : Ce) (a : Answers) (txSize : Nat) : Got :=
  match cmd with
  | .getRxA =>
    if ce.isActivatedA then ceGetRxActivated ce a txSize
    else if ce.isFirstA3_Frame then ceGetRxFirst ce
    else ceGetRxLater ce a txSize
  | .getRxF => ceGetRxF ce a txSize
  | _ => ⟨.errNotfound, ce, txSize⟩

/-! ## `ceSetTx` -/

/-- `RFAL_TXRX_FLAGS_DEFAULT` -/
def flagsDefault : Nat := 0

/-- `CRC_TX_MANUAL` and `PAR_TX_NONE`: four-bit answers -/
def flagsMifare : Nat := 1 + 32

/-- `do { rfalWorker(); err = …; } while (rfalIsTransceiveInTx() && err == ERR_BUSY)` -/
def blockingTx (ce : Ce) (last : Poll) : List Poll → Ce × ReturnCode
  | [] => ((ce.recv last.worker).recv last.call.rx, last.call.status)
  | p :: ps =>
    let ce := (ce.recv p.worker).recv p.call.rx
    if p.inTx ∧ p.call.status = .errBusy then blockingTx ce last ps else (ce, p.call.status)

def ceSetTxActivated (ce : Ce) (a : Answers) (rxSize : Nat) : ReturnCode × Ce :=
  if ce.txReady then
    let rxSizeBytes := rfalConvBitsToBytes rxSize
    let ce := ({ ce with
      ram := ce.ram.copy ce.isoDepTxRxParam.txBuf prologueSize .rxtxFrameBuf 0 rxSizeBytes
      isoDepTxRxParam := { ce.isoDepTxRxParam with txBufLen := rxSizeBytes }
      rxRcvdLen := 0
      log := ce.log ++ [.isoTx rxSizeBytes] } : Ce).recv a.isoTx.rx
    (a.isoTx.status,
      if a.isoTx.status = .errNone then { ce with rxReady := false, txReady := false } else ce)
  else (.errNotfound, ce)

/-- the response in `transceiveCtx.txBuf`, its length in bits -/
def Ce.prepareTx (ce : Ce) (rxSize : Nat) : Ce :=
  { ce with
    ram := ce.ram.copy ce.transceiveCtx.txBuf 0 .rxtxFrameBuf 0 (rfalConvBitsToBytes rxSize)
    transceiveCtx := { ce.transceiveCtx with txBufLen := rxSize }
    rxRcvdLen := 0 }

/-- transmit what there is, then sleep -/
def ceSetTxReset (ce : Ce) (a : Answers) (rxSize : Nat) : ReturnCode × Ce :=
  let p : Ce × ReturnCode :=
    if rxSize > 0 then
      blockingTx (({ ce with
        transceiveCtx := { ce.transceiveCtx with flags := flagsMifare }
        log := ce.log ++ [.startTx rxSize] } : Ce).recv a.startTx.rx) a.lastPoll a.polls
    else (ce, .errNotfound)
  let ce := (p.1.note (.sleep (rxSize = 0))).sleepStart a.sleep
  (if rxSize > 0 ∧ a.inRx then .errNone else p.2,
    { ce with
      rxReady := false, txReady := false, isActivatedA := false, isFirstA3_Frame := true,
      ulCwritePageSet := 0 })

def ceSetTxPlain (ce : Ce) (a : Answers) (rxSize : Nat) : ReturnCode × Ce :=
  let ce := ({ ce with
    transceiveCtx := { ce.transceiveCtx with
      flags := if rxSize < 8 then flagsMifare else flagsDefault }
    log := ce.log ++ [.startTx rxSize] } : Ce).recv a.startTx.rx
  (a.startTx.status,
    if a.startTx.status = .errNone then
      { ce with isFirstA3_Frame := false, rxReady := false, txReady := false }
    else ce)

def ceSetTxLayer3 (ce : Ce) (a : Answers) (rxSize : Nat) (isCardResetNeeded : Bool) :
    ReturnCode × Ce :=
  if ce.txReady then
    if isCardResetNeeded then ceSetTxReset (ce.prepareTx rxSize) a rxSize
    else ceSetTxPlain (ce.prepareTx rxSize) a rxSize
  else (.errNotfound, ce)

def ceSetTxF (ce : Ce) (a : Answers) (rxSize : Nat) : ReturnCode × Ce :=
  if ce.txReady then
    let bits := rfalConvBytesToBits (rfalConvBitsToBytes rxSize)
    let ce := ({ ce.prepareTx rxSize with
      transceiveCtx := { ce.transceiveCtx with txBufLen := bits }
      log := ce.log ++ [.startTx bits] } : Ce).recv a.startTx.rx
    (a.startTx.status,
      if a.startTx.status = .errNone then
        { ce with isFirstF_Frame := false, rxReady := false, txReady := false }
      else ce)
  else (.errNotfound, ce)

def ceSetTx (cmd : CeCmd) (ce : Ce) (a : Answers) (rxSize : Nat) (isCardResetNeeded : Bool) :
    ReturnCode × Ce :=
  let ce := ce.note (.setTx ce.txReady)
  match cmd with
  | .setTxA =>
    if ce.isActivatedA then ceSetTxActivated ce a rxSize
    else ceSetTxLayer3 ce a rxSize isCardResetNeeded
  | .setTxF => ceSetTxF ce a rxSize
  | _ => (.errNotfound, ce)

/-! ## `ceRun` -/

def Processor.run : Processor → LmState → Card → Obj → Nat → Obj → Rsp
  | .processCmd => Hydra.processCmd
  | .processCmdMifUL => Hydra.processCmdMifUL

/-- `(*current_processCmdPtr)(rxtxFrameBuf, dataSize, rxtxFrameBuf, &is_card_reset_needed)` -/
def Ce.process (ce : Ce) (a : Answers) (dataSize : Nat) : Rsp :=
  ce.currentProcessCmd.run a.processState ce.toCard .rxtxFrameBuf dataSize .rxtxFrameBuf

/-- the part of `ceRun` that answers a received frame -/
def ceAnswer (ce : Ce) (a : Answers) (dataSize : Nat) : Ce :=
  let r := ce.process a dataSize
  let ce := { ce with
    toCard := r.card
    log := ce.log ++ [.process ce.isActivatedA ce.rxRcvdLen ce.ulCwritePageSet r.reset] }
  (ceSetTx .setTxA ce a r.bits r.reset).2

/-- the records start afresh, then `rfalWorker` runs -/
def Ce.woken (ce : Ce) (a : Answers) : Ce :=
  ({ ce with ram := { ce.ram with trace := [] }, log := [] } : Ce).recv a.worker

def ceRun (ce : Ce) (a : Answers) : Ce :=
  let ce := ceHandler (ce.woken a) a
  let got := ceGetRx .getRxA ce a (objSize .rxtxFrameBuf)
  let ce := got.ce.note (.getRx got.err)
  if got.err = .errNone then ceAnswer ce a got.txSize else ce

/-- what the iteration did -/
def logOf (ce : Ce) (a : Answers) : List Ev := (ceRun ce a).log

end Hydra
