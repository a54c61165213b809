import HydraFw.Ce.Engine

/-!
# The BBIO card emulator

`ceGetRx`, `ceSetTx`, `ceHandler`, `ceRun` and `bbio_processCmd` of
`hydranfc_v2_bbio_card_emulator.c`, with `ceInit` and `ceStart`.  The commands are processed by the
host: a frame is printed to it, and its response is read back.

* `Bbio.Ce`        the globals of that file;
* `Bbio.Answers`   what RFAL and the host answer during one iteration;
* `Bbio.Ev`        what an iteration does.

Its `ceSetTx` has no layer-3 branch, and its `ceGetRx` none for a later layer-3 frame.
-/

namespace Hydra
namespace Bbio
open Rams

/-! ## state -/

inductive Ev where
  | rx (len : Nat)
  | rats
  | hlta
  | restart
  /-- the host is told of the activation -/
  | activation
  | getRx (err : ReturnCode)
  /-- the bytes printed to the host for a frame -/
  | forward (bytes : List UInt8)
  | setTx (txReady : Bool)
  /-- the response given to RFAL -/
  | isoTx (bytes : List UInt8)
  deriving DecidableEq

structure Ce where
  ram : Mem
  rxRcvdLen : Nat
  ceEnabled : Bool
  configMask : Nat
  atsParam : AtsParam
  transceiveCtx : TransceiveContext
  isActivatedA : Bool
  isFirstA3_Frame : Bool
  isoDepTxRxParam : IsoDepTxRxParam
  rxReady : Bool
  txReady : Bool
  rawMode : Bool
  log : List Ev

structure Answers where
  worker : Option Reception
  state : LmState
  dataFlag : Bool
  handler : Call
  /-- `rfalIsoDepGetTransceiveStatus` or its raw mode -/
  getRx : Call
  /-- the response of the host; its length is sent in sixteen bits -/
  host : List UInt8
  host_lt : host.length < 2 ^ 16
  isoTx : Call

/-! ## small steps -/

def Ce.note (ce : Ce) (e : Ev) : Ce := { ce with log := ce.log ++ [e] }

def Ce.recv (ce : Ce) : Option Reception → Ce
  | none => ce
  | some f =>
    { ce with
      ram := { ce.ram with
        mem := Function.update ce.ram.mem .rxBufCe (overwrite (ce.ram.mem .rxBufCe) 0 f.bytes) }
      rxRcvdLen := f.len
      log := ce.log ++ [.rx f.len] }

def Ce.relisten (ce : Ce) : Ce := { ce with rxRcvdLen := 0, log := ce.log ++ [.restart] }

def Ce.sleepStart (ce : Ce) (r : ReturnCode) : Ce :=
  if r = .errNone then { ce with rxRcvdLen := 0 } else ce

def Ce.rxBuf (ce : Ce) : Nat → UInt8 := ce.ram.mem .rxBufCe

/-! ## `ceGetRx` -/

structure Got where
  err : ReturnCode
  ce : Ce
  txSize : Nat

def Ce.handOver (ce : Ce) (off : Nat) : Ce :=
  { ce with
    ram := ce.ram.copy .rxtxFrameBuf 0 .rxBufCe off ce.rxRcvdLen
    rxReady := false
    txReady := true }

def ceGetRxActivated (ce : Ce) (a : Answers) (txSize : Nat) : Got :=
  let ce := ce.recv a.getRx.rx
  match a.getRx.status with
  | .errBusy => ⟨.errBusy, ce, txSize⟩
  | .errAgain => ⟨.errAgain, ce, txSize⟩
  -- the whole block in raw mode, else its INF bytes
  | .errNone => ⟨.errNone, ce.handOver (if ce.rawMode then 0 else prologueSize), ce.rxRcvdLen⟩
  | err =>
    -- LLoss3
    ⟨err, { ce.relisten with
      rxReady := false, txReady := false, isActivatedA := false, isFirstA3_Frame := true }, txSize⟩

def ceGetRx (cmd : CeCmd) (ce : Ce) (a : Answers) (txSize : Nat) : Got :=
  match cmd with
  | .getRxA =>
    if ce.isActivatedA then ceGetRxActivated ce a txSize
    else if ce.isFirstA3_Frame then
      if ce.rxReady then ⟨.errNone, ce.handOver 0, rfalConvBitsToBytes ce.rxRcvdLen⟩
      else ⟨.errBusy, ce, 0⟩
    else ⟨.errNotfound, ce, txSize⟩
  | _ => ⟨.errNotfound, ce, txSize⟩

/-! ## `ceSetTx` -/

def ceSetTxActivated (ce : Ce) (a : Answers) (rxSize : Nat) : ReturnCode × Ce :=
  if ce.txReady then
    let rxSizeBytes := rfalConvBitsToBytes rxSize
    let ram := ce.ram.copy ce.isoDepTxRxParam.txBuf prologueSize .rxtxFrameBuf 0 rxSizeBytes
    let ce := ({ ce with
      ram := ram
      isoDepTxRxParam := { ce.isoDepTxRxParam with txBufLen := rxSizeBytes }
      rxRcvdLen := 0
      log := ce.log ++
        [.isoTx (slice (ram.mem ce.isoDepTxRxParam.txBuf) prologueSize rxSizeBytes)] } : Ce).recv
          a.isoTx.rx
    (a.isoTx.status,
      if a.isoTx.status = .errNone then { ce with rxReady := false, txReady := false } else ce)
  else (.errNotfound, ce)

def ceSetTx (cmd : CeCmd) (ce : Ce) (a : Answers) (rxSize : Nat) : ReturnCode × Ce :=
  let ce := ce.note (.setTx ce.txReady)
  match cmd with
  | .setTxA => if ce.isActivatedA then ceSetTxActivated ce a rxSize else (.errNotfound, ce)
  | _ => (.errNotfound, ce)

/-! ## `ceHandler` -/

def handlerData (ce : Ce) (a : Answers) : Ce :=
  if rfalIsoDepIsRats ce.rxBuf (rfalConvBitsToBytes ce.rxRcvdLen) then
    ({ ce with
      isoDepTxRxParam := { ce.isoDepTxRxParam with fsx := rfalIsoDepFSxI2FSx ce.atsParam.fsci }
      log := ce.log ++ [.rats] } : Ce).recv a.handler.rx
  else if rfalNfcaListenerIsSleepReq ce.rxBuf (rfalConvBitsToBytes ce.rxRcvdLen) then
    (ce.note .hlta).sleepStart a.handler.status
  -- also without a frame
  else { ce with rxReady := true }

def handlerCardemu4A (ce : Ce) (a : Answers) : Ce :=
  if ce.isActivatedA then ce
  else
    let ce := ce.recv a.handler.rx
    match a.handler.status with
    | .errLinkLoss => { ce.relisten with isActivatedA := false, isFirstA3_Frame := true }
    | .errNone => { ce with isActivatedA := true, log := ce.log ++ [.activation] }
    | _ => ce

def ceHandler (ce : Ce) (a : Answers) : Ce :=
  if ce.ceEnabled then
    match a.state with
    | .activeA | .activeAx => if a.dataFlag then handlerData ce a else ce
    | .cardemu4A => handlerCardemu4A ce a
    | _ => ce
  else ce

/-! ## `ceRun` -/

/-- `BBIO_NFC_CE_CARD_CMD` -/
def bbioNfcCeCardCmd : UInt8 := 0b00001000

/-- a command byte, two length bytes and the frame -/
def hostFrame (cmdDatalen : Nat) (data : List UInt8) : List UInt8 :=
  bbioNfcCeCardCmd :: UInt8.ofNat cmdDatalen :: UInt8.ofNat (cmdDatalen / 256) :: data

/-- what is printed to the host, the memory with its response, and the length in bits -/
def bbioProcessCmd (ram : Mem) (cmdData : Obj) (cmdDatalen : Nat) (rspData : Obj)
    (host : List UInt8) : List UInt8 × Mem × Nat :=
  (hostFrame cmdDatalen (slice (ram.mem cmdData) 0 cmdDatalen),
    (ram.rd cmdData 0 cmdDatalen).put rspData 0 host,
    host.length * 8 % 2 ^ 16)

def ceAnswer (ce : Ce) (a : Answers) (dataSize : Nat) : Ce :=
  let p := bbioProcessCmd ce.ram .rxtxFrameBuf dataSize .rxtxFrameBuf a.host
  (ceSetTx .setTxA { ce with ram := p.2.1, log := ce.log ++ [.forward p.1] } a p.2.2).2

def Ce.woken (ce : Ce) (a : Answers) : Ce :=
  ({ ce with ram := { ce.ram with trace := [] }, log := [] } : Ce).recv a.worker

def ceRun (ce : Ce) (a : Answers) : Ce :=
  let ce := ceHandler (ce.woken a) a
  let got := ceGetRx .getRxA ce a (objSize .rxtxFrameBuf)
  let ce := got.ce.note (.getRx got.err)
  if got.err = .errNone then ceAnswer ce a got.txSize else ce

def logOf (ce : Ce) (a : Answers) : List Ev := (ceRun ce a).log

/-! ## `ceInit`, `ceStart` -/

def ceInit (ce : Ce) : Ce :=
  { ce with
    transceiveCtx := { txBuf := .txBufCe, txBufLen := 0, flags := flagsDefault }
    isoDepTxRxParam := { ce.isoDepTxRxParam with txBuf := .txBufCe }
    configMask := 0
    isActivatedA := false
    isFirstA3_Frame := true
    rxReady := false
    txReady := false
    ceEnabled := false }

def ceStart (ce : Ce) : Ce :=
  { ce with ceEnabled := true, rxRcvdLen := 0, configMask := 2 ^ 10 }

/-- `BBIO_NFC_CE_START_EMULATION` and its raw variant -/
def startEmulation (ce : Ce) (rawMode : Bool) : Ce := ceStart (ceInit { ce with rawMode := rawMode })

/-- the globals at power-on -/
def Ce.boot : Ce where
  ram := Card.boot.ram
  rxRcvdLen := 0
  ceEnabled := false
  configMask := 0
  atsParam := { fsci := 0x08, fwi := 0x0A, sfgi := 0x00, ta := 0x00, hbLen := 2, hb := [0x73, 0x74] }
  transceiveCtx := { txBuf := .null, txBufLen := 0, flags := 0 }
  isActivatedA := false
  isFirstA3_Frame := true
  isoDepTxRxParam := { txBuf := .null, txBufLen := 0, fsx := 0 }
  rxReady := false
  txReady := false
  rawMode := false
  log := []

end Bbio
end Hydra
