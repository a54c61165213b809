import HydraFw.Lib.BitBuf
import HydraFw.Lib.Polling
import HydraFw.Rfal.Codes
import HydraFw.Common.Bytes

/-!
# The NFC-A poller

Anticollision, selection and sleep of `rfal_nfca.c`, with the anticollision frame of
`rfal_rfst25r3916.c`.  The transceive functions and the radio chip below them are a parameter;
time is not modelled: the timer between two retries has always expired.

* `Radio`           the transceive functions, on a state `ω` of the field;
* `Frame.send`      `rfalISO14443ATransceiveAnticollisionFrame`;
* `ColRes`          the single collision resolution, `ColRes.status` one call of it;
* `Full`            the resolution of all devices, `Full.status` one call of it;
* `wakeSelect`      `rfalNfcaPollerSelect` behind a wake-up, as the NFC state machine does it.
-/

namespace Hydra
namespace Nfca
open BitBuf hiding Byte
open Rams Common Polling

/-- what the transceive function reports for an anticollision frame -/
structure Heard where
  /-- `rfalTransceiveRunBlockingTx` -/
  tx : ReturnCode
  /-- `rfalTransceiveBlockingRx` -/
  rx : ReturnCode
  /-- the bytes stored at `rxBuf` -/
  data : List Byte
  /-- the bits received -/
  rcvdLen : Nat
  /-- `ST25R3916_REG_COLLISION_STATUS` -/
  collData : Byte

/-- status and bytes of any other transceive -/
structure Reply where
  ret : ReturnCode
  data : List Byte
  /-- the bits received -/
  rcvdLen : Nat

inductive ShortFrameCmd where
  | wupa
  | reqa
  deriving DecidableEq

structure Radio (ω : Type*) where
  /-- `rfalISO14443ATransceiveShortFrame` -/
  short : ShortFrameCmd → ω → Reply × ω
  /-- the bits of an anticollision frame -/
  anticollision : List Bool → ω → Heard × ω
  /-- `rfalTransceiveBlockingTxRx` with the default flags and a buffer of one byte -/
  transceive : List Byte → ω → Reply × ω
  /-- `rfalT1TPollerInitialize` and `rfalT1TPollerRid`: the UID of the answer -/
  rid : ω → (ReturnCode × (Nat → Byte)) × ω

/-! ## `rfalISO14443ATransceiveAnticollisionFrame` -/

structure Frame where
  buf : Nat → Byte
  bytes : Nat
  bits : Nat

/-- the bits above `bitsToSend` are shifted out of the last byte -/
def Frame.trimmed (f : Frame) : Nat → Byte :=
  if 0 < f.bits then Function.update f.buf f.bytes (keepLow (f.buf f.bytes) f.bits) else f.buf

/-- `txBufLen` -/
def Frame.len (f : Frame) : Nat := rfalConvBytesToBits f.bytes + f.bits

/-- the bits that were sent take their place again below those received -/
def Frame.merged (f : Frame) (data : List Byte) : Nat → Byte :=
  let buf := overwrite f.trimmed f.bytes data
  if 0 < f.bits then
    Function.update buf f.bytes (keepHigh (buf f.bytes) f.bits ||| f.trimmed f.bytes)
  else buf

/-- status, buffer with the bytes and bits, `rxLength`, field -/
structure Exchanged (ω : Type*) where
  ret : ReturnCode
  frame : Frame
  rxLen : Nat
  world : ω

def Frame.send {ω : Type*} (r : Radio ω) (f : Frame) (w : ω) : Exchanged ω :=
  let (h, w) := r.anticollision (slice (bit f.trimmed) 0 f.len) w
  if h.tx ≠ .errNone then ⟨h.tx, { f with buf := f.trimmed }, h.rcvdLen, w⟩
  else if h.rx = errRfCollision then
    ⟨h.rx, ⟨f.merged h.data, (h.collData >>> 4 &&& 0x0f).toNat, (h.collData >>> 1 &&& 0x07).toNat⟩,
      h.rcvdLen, w⟩
  else ⟨h.rx, { f with buf := f.merged h.data }, h.rcvdLen, w⟩

/-! ## the single collision resolution -/

def rfalNfcaCascade1UidLen : Nat := 4

def rfalNfcaCascade3UidLen : Nat := 10

/-- `RFAL_NFCA_SDD_REQ_LEN` -/
def sddReqLen : Nat := 2

/-- `RFAL_NFCA_SDD_RES_LEN` -/
def sddResLen : Nat := rfalNfcaCascade1UidLen + 1

/-- `RFAL_NFCA_SDD_CT` -/
def sddCt : Byte := 0x88

def rfalNfcaSelPar (nBy nbi : Nat) : Byte :=
  BitVec.ofNat 8 nBy <<< 4 &&& 0xf0 ||| BitVec.ofNat 8 nbi &&& 0x0f

def rfalNfcaCLn2SELCMD (cl : Nat) : Byte := BitVec.ofNat 8 (0x93 + 2 * cl)

/-- `RFAL_NFCA_SEL_SELPAR` -/
def selSelPar : Byte := rfalNfcaSelPar 7 0

def rfalNfcaCalculateBcc (buf : List Byte) : Byte := buf.foldl (fun bcc b => bcc ^^^ b) 0

inductive ColResState where
  | idle
  | cl
  | sdd
  | sel
  | done
  deriving DecidableEq

/-- `rfalNfcaColResParams`, with what its pointers point to.  `selReq` is the bytes of a
`rfalNfcaSelReq`: the command, SEL_PAR, four bytes of the UID and their BCC. -/
structure ColRes where
  devLimit : Nat
  collPend : Bool
  selReq : Nat → Byte
  selRes : Byte
  nfcId1 : Nat → Byte
  nfcId1Len : Nat
  cascadeLv : Nat
  state : ColResState
  bytesTxRx : Nat
  bitsTxRx : Nat
  retries : Nat
  backtrackCnt : Nat
  doBacktrack : Bool

/-- `RFAL_NFCA_N_RETRANS` -/
def nRetrans : Nat := 2

def rfalNfcaPollerStartSingleCollisionResolution (c : ColRes) (devLimit : Nat) : ColRes :=
  { c with
    devLimit
    collPend := false
    nfcId1 := fun i => if i < rfalNfcaCascade3UidLen then 0 else c.nfcId1 i
    nfcId1Len := 0
    cascadeLv := 0
    state := .cl
    retries := nRetrans
    backtrackCnt := 3
    doBacktrack := false }

section
variable {ω : Type*}

/-- status, resolution and field behind a call -/
structure Called (ω : Type*) where
  ret : ReturnCode
  cr : ColRes
  world : ω

/-- the SDD_REQ of a new cascade level -/
def ColRes.newLevel (c : ColRes) : ColRes :=
  { c with
    selReq := fun i => if i < sddReqLen + sddResLen then 0 else c.selReq i
    bytesTxRx := sddReqLen
    bitsTxRx := 0
    state := .sdd }

/-- `bytesTxRx`, and one more for a byte that has begun -/
def ColRes.bytesBegun (c : ColRes) : Nat := c.bytesTxRx + if c.bitsTxRx ≠ 0 then 1 else 0

def ColRes.collisionBit (c : ColRes) : Bool := bit c.selReq (8 * c.bytesTxRx + c.bitsTxRx)

/-- the bit behind those sent is set to `b` and counted -/
def ColRes.setCollision (c : ColRes) (b : Bool) : ColRes :=
  let c := { c with selReq := setBit c.selReq c.bytesTxRx c.bitsTxRx b }
  if c.bitsTxRx + 1 = 8 then { c with bitsTxRx := 0, bytesTxRx := c.bytesTxRx + 1 }
  else { c with bitsTxRx := c.bitsTxRx + 1 }

/-- back to the last bit of the UID -/
def ColRes.lastUidBit (c : ColRes) : ColRes :=
  { c with
    backtrackCnt := c.backtrackCnt - 1
    bytesTxRx := rfalNfcaCascade1UidLen + sddReqLen - 1
    bitsTxRx := 7 }

/-- a collision in the BCC, of which only the UID part is resolved -/
def ColRes.inBcc (c : ColRes) : Bool :=
  rfalNfcaCascade1UidLen + sddReqLen < c.bytesBegun ∧ c.backtrackCnt ≠ 0

/-- `ret == ERR_RF_COLLISION` -/
def ColRes.collided (c : ColRes) (collBit : Bool) (w : ω) : Called ω :=
  if sddResLen + sddReqLen < c.bytesBegun then ⟨errProto, c, w⟩
  else
    let c' := if c.inBcc then c.lastUidBit else c
    let collBit := if c.inBcc then c'.collisionBit else collBit
    if c'.devLimit = 0 ∧ c'.collPend = false then ⟨errIgnore, { c' with collPend := true }, w⟩
    else ⟨.errBusy, { c' with collPend := true }.setCollision collBit, w⟩

/-- the bit that was set last -/
def ColRes.stepBack (c : ColRes) : ColRes :=
  if c.bitsTxRx = 0 then { c with bitsTxRx := 7, bytesTxRx := c.bytesTxRx - 1 }
  else { c with bitsTxRx := c.bitsTxRx - 1 }

def ColRes.uidPart (c : ColRes) : List Byte := slice c.selReq sddReqLen rfalNfcaCascade1UidLen

/-- the frame was received without a collision -/
def ColRes.received (c : ColRes) (ret : ReturnCode) (rxLen : Nat) (w : ω) : Called ω :=
  if ret ≠ .errNone then ⟨ret, c, w⟩
  else if c.devLimit = 0 ∧ rxLen ≠ sddResLen then ⟨errProto, c, w⟩
  else if c.selReq 6 ≠ rfalNfcaCalculateBcc c.uidPart then ⟨errProto, c, w⟩
  else
    ⟨.errBusy, { c with
      selReq := Function.update c.selReq 1 selSelPar
      retries := nRetrans
      state := .sel }, w⟩

def rfalNfcaPollerCheckPresence (r : Radio ω) (cmd : ShortFrameCmd) (w : ω) : Reply × ω :=
  let (reply, w) := r.short cmd w
  if reply.ret ∈ [errRfCollision, errCrc, errNomem, errFraming, errPar] then
    ({ reply with ret := .errNone }, w)
  else (reply, w)

/-- the SDD_REQ with its command and SEL_PAR -/
def ColRes.request (c : ColRes) : Frame where
  buf := Function.update (Function.update c.selReq 0 (rfalNfcaCLn2SELCMD c.cascadeLv)) 1
    (rfalNfcaSelPar c.bytesTxRx c.bitsTxRx)
  bytes := c.bytesTxRx
  bits := c.bitsTxRx

def ColRes.exchanged (c : ColRes) (f : Frame) : ColRes :=
  { c with selReq := f.buf, bytesTxRx := f.bytes, bitsTxRx := f.bits }

/-- `RFAL_NFCA_CR_SDD` -/
def ColRes.sdd (r : Radio ω) (c : ColRes) (w : ω) : Called ω :=
  let e := c.request.send r w
  let c := c.exchanged e.frame
  if e.ret = errTimeout ∧ c.devLimit = 0 ∧ c.retries ≠ 0 then
    ⟨.errBusy, { c with retries := c.retries - 1 }, e.world⟩
  else
    let rxLen := rfalConvBitsToBytes e.rxLen
    if e.ret = errTimeout ∧ c.backtrackCnt ≠ 0 ∧ c.doBacktrack = false ∧
        ¬ (c.bytesTxRx = sddReqLen ∧ c.bitsTxRx = 0) then
      -- a collision was missed: the bit that was guessed last is tried the other way
      let c := c.stepBack
      { c with doBacktrack := true, backtrackCnt := c.backtrackCnt - 1 }.collided (!c.collisionBit)
        (rfalNfcaPollerCheckPresence r .reqa e.world).2
    else if e.ret = errRfCollision then
      { c with doBacktrack := false }.collided true e.world
    else { c with doBacktrack := false }.received e.ret rxLen e.world

def ColRes.cascades (c : ColRes) : Bool := c.selReq 2 = sddCt

/-- the UID bytes of this level behind those of the levels before -/
def ColRes.keep (c : ColRes) (bytes : List Byte) : ColRes :=
  { c with
    nfcId1 := overwrite c.nfcId1 c.nfcId1Len bytes
    nfcId1Len := c.nfcId1Len + bytes.length }

def ColRes.selected (c : ColRes) : ColRes :=
  if c.cascades then
    { c.keep (slice c.selReq 3 3) with state := .cl, cascadeLv := c.cascadeLv + 1 }
  else { c.keep c.uidPart with state := .done }

/-- `RFAL_NFCA_CR_SEL` -/
def ColRes.sel (r : Radio ω) (c : ColRes) (w : ω) : Called ω :=
  let (reply, w) := r.transceive (slice c.selReq 0 (sddReqLen + sddResLen)) w
  let c := { c with selRes := reply.data.headD c.selRes }
  if reply.ret = errTimeout ∧ c.devLimit = 0 ∧ c.retries ≠ 0 then
    ⟨.errBusy, { c with retries := c.retries - 1 }, w⟩
  else if reply.ret ≠ .errNone then ⟨reply.ret, c, w⟩
  else if reply.data.length ≠ 1 then ⟨errProto, c, w⟩
  else ⟨.errBusy, c.selected, w⟩

/-- `rfalNfcaPollerGetSingleCollisionResolutionStatus` -/
def ColRes.status (r : Radio ω) (c : ColRes) (w : ω) : Called ω :=
  if 2 < c.cascadeLv then ⟨errInternal, c, w⟩
  else
    match c.state with
    | .cl => c.newLevel.sdd r w
    | .sdd => c.sdd r w
    | .sel => c.sel r w
    | .done => ⟨.errNone, c, w⟩
    | .idle => ⟨errWrongState, c, w⟩

/-! ## the resolution of all devices -/

structure SensRes where
  anticollisionInfo : Byte
  platformInfo : Byte
  deriving DecidableEq

def rfalNfcaIsSensResT1T (s : SensRes) : Bool := s.platformInfo &&& 0x0f = 0x0c

/-- the bytes of an answer stored over a `rfalNfcaSensRes` -/
def SensRes.store (s : SensRes) (data : List Byte) : SensRes where
  anticollisionInfo := data.headD s.anticollisionInfo
  platformInfo := data.tail.headD s.platformInfo

/-- `rfalNfcaListenDevice`; `type` has the value of the enumeration -/
structure ListenDevice where
  type : Byte
  sensRes : SensRes
  selRes : Byte
  nfcId1Len : Nat
  nfcId1 : Nat → Byte
  ridRes : Nat → Byte
  isSleep : Bool

/-- all bytes zero -/
def ListenDevice.zero : ListenDevice where
  type := 0
  sensRes := ⟨0, 0⟩
  selRes := 0
  nfcId1Len := 0
  nfcId1 := fun _ => 0
  ridRes := fun _ => 0
  isSleep := false

/-- `RFAL_NFCA_T1T` -/
def rfalNfcaT1T : Byte := 0x01

/-- `RFAL_NFCA_SEL_RES_CONF_MASK` -/
def selResConfMask : Byte := 0x60

inductive ComplianceMode where
  | nfc
  | emv
  | iso
  deriving DecidableEq

/-- the resolution, the device list, the count and the field -/
structure Full (ω : Type*) where
  cr : ColRes
  nfcaDevList : Nat → ListenDevice
  devCnt : Nat
  world : ω

def Full.device (s : Full ω) : ListenDevice := s.nfcaDevList s.devCnt

/-- entry `k` of the device list -/
def Full.setDevice (s : Full ω) (k : Nat) (d : ListenDevice) : Full ω :=
  { s with nfcaDevList := Function.update s.nfcaDevList k d }

/-- the outputs of the single resolution are those of the entry `devCnt` -/
def Full.startSingle (s : Full ω) (devLimit : Nat) : Full ω :=
  let cr := rfalNfcaPollerStartSingleCollisionResolution
    { s.cr with
      selRes := s.device.selRes
      nfcId1 := s.device.nfcId1 } devLimit
  { s with cr }.setDevice s.devCnt
    { s.device with nfcId1 := cr.nfcId1, nfcId1Len := cr.nfcId1Len }

def rfalNfcaPollerSleep (r : Radio ω) (w : ω) : ω := (r.transceive [0x50, 0x00] w).2

/-- the device list behind the wake-up: cleared, with the SENS_RES in its first entry -/
def Full.cleared (s : Full ω) (devLimit : Nat) : Full ω :=
  let sensRes := (s.nfcaDevList 0).sensRes
  let list := fun i => if i < devLimit then .zero else s.nfcaDevList i
  { s with nfcaDevList := Function.update list 0 { list 0 with sensRes } }

/-- behind the wake-up, which ended with `ret` -/
def Full.begin (r : Radio ω) (s : Full ω) (compMode : ComplianceMode) (devLimit : Nat)
    (ret : ReturnCode) : ReturnCode × Full ω :=
  let s := s.cleared devLimit
  let first := s.nfcaDevList 0
  if rfalNfcaIsSensResT1T first.sensRes ∧ devLimit ≠ 0 ∧ ret = .errNone ∧ compMode ≠ .emv then
    let (rid, w) := r.rid s.world
    if rid.1 ≠ .errNone then (rid.1, { s with world := w })
    else
      (.errNone, { s with devCnt := 1, world := w }.setDevice 0
        { first with
          ridRes := rid.2
          isSleep := false
          type := rfalNfcaT1T
          nfcId1Len := rfalNfcaCascade1UidLen
          nfcId1 := overwrite first.nfcId1 0 (slice rid.2 0 rfalNfcaCascade1UidLen) })
  else (.errNone, s.startSingle devLimit)

/-- the single resolution has found a device -/
def Full.assign (s : Full ω) : Full ω :=
  { s with devCnt := s.devCnt + 1 }.setDevice s.devCnt
    { s.device with type := s.device.selRes &&& selResConfMask, isSleep := false }

/-- the device found last is put to sleep -/
def Full.sleepLast (r : Radio ω) (s : Full ω) : Full ω :=
  { s with world := rfalNfcaPollerSleep r s.world }.setDevice (s.devCnt - 1)
    { s.nfcaDevList (s.devCnt - 1) with isSleep := true }

/-- the others are asked for -/
def Full.ask (r : Radio ω) (s : Full ω) : Full ω :=
  let a := rfalNfcaPollerCheckPresence r .reqa s.world
  { s with world := a.2, cr := { s.cr with collPend := a.1.ret ≠ errTimeout } }.setDevice s.devCnt
    { s.device with sensRes := s.device.sensRes.store a.1.data }

/-- one call of the single resolution, whose outputs are in the entry `devCnt` -/
def Full.single (r : Radio ω) (s : Full ω) : ReturnCode × Full ω :=
  let a := s.cr.status r s.world
  (a.ret, { s with cr := a.cr, world := a.world }.setDevice s.devCnt
    { s.device with
      selRes := a.cr.selRes
      nfcId1 := a.cr.nfcId1
      nfcId1Len := a.cr.nfcId1Len })

/-- behind a device that was found -/
def Full.proceed (r : Radio ω) (s : Full ω) : ReturnCode × Full ω :=
  if s.devCnt < s.cr.devLimit ∧ s.cr.collPend then
    let s := (s.sleepLast r).ask r
    if s.cr.collPend then (.errBusy, s.startSingle s.cr.devLimit) else (.errNone, s)
  else (.errNone, { s with cr := { s.cr with collPend := false } })

/-- `rfalNfcaPollerGetFullCollisionResolutionStatus` -/
def Full.status (r : Radio ω) (s : Full ω) : ReturnCode × Full ω :=
  if rfalNfcaIsSensResT1T (s.nfcaDevList 0).sensRes ∧ (s.nfcaDevList 0).type = rfalNfcaT1T then
    (.errNone, s)
  else
    let (ret, s) := s.single r
    if ret ≠ .errNone then (ret, s) else s.assign.proceed r

/-- the UID bytes of the SEL_REQ for level `i` of `cl` -/
def selectWord (nfcid1 : Nat → Byte) (cl i : Nat) : List Byte :=
  if cl ≠ i then sddCt :: slice nfcid1 (3 * i) 3
  else slice nfcid1 (3 * i) rfalNfcaCascade1UidLen

end

end Nfca
end Hydra
