import HydraFw.Lib.Loops
import HydraFw.Nfca.Poller

/-!
# The NFC-V poller

Inventory, collision resolution and sleep of `rfal_nfcv.c`.  The transceive functions below are a
parameter; the delays between two frames are not modelled.

The array `colFound` is a memory of bytes, nine for each entry, since one of the stores into an
entry can be behind its end.

* `Radio`             the transceive functions, on a state `ω` of the field;
* `rfalNfcvPollerInventory`   one INVENTORY_REQ and its answer;
* `Resolution`        the variables of the collision resolution, and what its pointers point to;
* `Resolution.slot`   the body of the slot loop, `Resolution.collision` that of the outer loop;
* `rfalNfcvPollerCollisionResolution`, `rfalNfcvPollerSleepCollisionResolution`.
-/

namespace Hydra
namespace Nfcv
open Rams Common Loops
open Nfca (Reply ComplianceMode)

structure Radio (ω : Type*) where
  /-- `rfalISO15693TransceiveAnticollisionFrame` with a buffer of an INVENTORY_RES; nothing to send
  is `rfalISO15693TransceiveEOFAnticollision` -/
  anticollision : List Byte → ω → Reply × ω
  /-- `rfalTransceiveBlockingTxRx` with the default flags and a buffer that is not read -/
  transceive : List Byte → ω → ReturnCode × ω

/-! ## `rfalNfcvPollerInventory` -/

inductive NumSlots where
  | one
  | sixteen
  deriving DecidableEq

def NumSlots.value : NumSlots → Byte
  | .one => 0x20
  | .sixteen => 0x00

/-- `RFAL_NFCV_MASKVAL_MAX_1SLOT_LEN` and `RFAL_NFCV_MASKVAL_MAX_16SLOT_LEN` -/
def NumSlots.maskvalMaxLen : NumSlots → Nat
  | .one => 64
  | .sixteen => 60

def rfalNfcvUidLen : Nat := 8

/-- `RFAL_NFCV_INV_REQ_FLAG` -/
def invReqFlag : Byte := 0x06

/-- `RFAL_NFCV_INV_RES_LEN` -/
def invResLen : Nat := 10

/-- `RFAL_CRC_LEN` -/
def crcLen : Nat := 2

/-- `f` is the RES_FLAG, `l` counts bits -/
def rfalNfcvCheckInvRes (f : Byte) (l : Nat) : Bool :=
  l = rfalConvBytesToBits (invResLen + crcLen) ∧ f = 0x00

/-- the bytes of a `rfalNfcvInventoryReq` that are sent -/
def inventoryReq (nSlots : NumSlots) (maskLen : Nat) (maskVal : Nat → Byte) : List Byte :=
  let len := min maskLen nSlots.maskvalMaxLen
  [invReqFlag ||| nSlots.value, 0x01, BitVec.ofNat 8 len] ++
    slice maskVal 0 (rfalConvBitsToBytes len)

/-- status, bytes of the `rfalNfcvInventoryRes`, bits received, field -/
structure Inventoried (ω : Type*) where
  ret : ReturnCode
  invRes : Nat → Byte
  rcvdLen : Nat
  world : ω

section
variable {ω : Type*}

def transceiveAnticollision (r : Radio ω) (txBuf : List Byte) (invRes : Nat → Byte) (w : ω) :
    Inventoried ω :=
  let (reply, w) := r.anticollision txBuf w
  ⟨reply.ret, overwrite invRes 0 reply.data, reply.rcvdLen, w⟩

/-- no `maskVal` is the null pointer -/
def rfalNfcvPollerInventory (r : Radio ω) (nSlots : NumSlots) (maskLen : Nat)
    (maskVal : Option (Nat → Byte)) (invRes : Nat → Byte) (w : ω) : Inventoried ω :=
  if maskVal.isNone ∧ maskLen ≠ 0 then ⟨errParam, invRes, 0, w⟩
  else
    let e := transceiveAnticollision r
      (inventoryReq nSlots maskLen (maskVal.getD fun _ => 0)) invRes w
    if e.ret = .errNone ∧ rfalNfcvCheckInvRes (e.invRes 0) e.rcvdLen = false then
      { e with ret := errProto }
    else e

/-- `invRes` is not read -/
def rfalNfcvPollerCheckPresence (r : Radio ω) (invRes : Nat → Byte) (w : ω) : ReturnCode × ω :=
  let e := rfalNfcvPollerInventory r .one 0 none invRes w
  (if e.ret ∈ [errRfCollision, errCrc, errFraming, errProto] then .errNone else e.ret, e.world)

/-! ## `rfalNfcvPollerCollisionResolution` -/

/-- `rfalNfcvListenDevice`; RES_FLAG, DSFID, UID and CRC are the bytes of `invRes` -/
structure ListenDevice where
  invRes : Nat → Byte
  isSleep : Bool

/-- all bytes zero -/
def ListenDevice.zero : ListenDevice := ⟨fun _ => 0, false⟩

def ListenDevice.uid (d : ListenDevice) : List Byte := slice d.invRes 2 rfalNfcvUidLen

structure Resolution (ω : Type*) where
  colFound : Nat → Byte
  nfcvDevList : Nat → ListenDevice
  devCnt : Nat
  colIt : Nat
  colCnt : Nat
  slotNum : Nat
  /-- the function has returned from the loops -/
  returned : Bool
  world : ω

/-- `RFAL_NFCV_MAX_COLL_SUPPORTED` -/
def maxCollSupported : Nat := 16

/-- `RFAL_NFCV_MAX_SLOTS` -/
def maxSlots : Nat := 16

/-- where `colFound[i]` is -/
def entry (i : Nat) : Nat := (1 + rfalNfcvUidLen) * i

/-- where `colFound[i].maskVal` is -/
def entryVal (i : Nat) : Nat := entry i + 1

def maskLen (colFound : Nat → Byte) (i : Nat) : Nat := (colFound (entry i)).toNat

def maskVal (colFound : Nat → Byte) (i : Nat) : Nat → Byte := fun k => colFound (entryVal i + k)

/-- the mask of entry `colIt` with the number of the slot behind it, in entry `colCnt` -/
def addCollision (colFound : Nat → Byte) (colIt colCnt slot : Nat) : Nat → Byte :=
  let m := overwrite colFound (entryVal colCnt) (slice colFound (entryVal colIt) rfalNfcvUidLen)
  let colPos := maskLen m colIt
  let at_ := entryVal colCnt + colPos / 8
  let m := Function.update m at_ (m at_ &&& BitVec.ofNat 8 (2 ^ (colPos % 8) - 1))
  let m := Function.update m at_ (m at_ ||| BitVec.ofNat 8 slot <<< (colPos % 8))
  let m := Function.update m (at_ + 1) (BitVec.ofNat 8 slot >>> (8 - colPos % 8))
  Function.update m (entry colCnt) (m (entry colIt) + 4)

def Resolution.device (s : Resolution ω) : ListenDevice := s.nfcvDevList s.devCnt

/-- the bytes received are in the entry `devCnt` -/
def Resolution.store (s : Resolution ω) (invRes : Nat → Byte) : Resolution ω :=
  { s with nfcvDevList := Function.update s.nfcvDevList s.devCnt { s.device with invRes } }

/-- the request with sixteen slots, or the end of frame that starts the next slot -/
def Resolution.exchange (r : Radio ω) (s : Resolution ω) : Inventoried ω :=
  if s.slotNum = 0 then
    rfalNfcvPollerInventory r .sixteen (maskLen s.colFound s.colIt)
      (some (maskVal s.colFound s.colIt)) s.device.invRes s.world
  else transceiveAnticollision r [] s.device.invRes s.world

/-- behind an exchange that ended with `ret`, in the slot before `slotNum` -/
def Resolution.received (s : Resolution ω) (ret : ReturnCode) (rcvdLen : Nat) : Resolution ω :=
  if ret = errTimeout then s
  else if ret = .errNone ∨ ret = errProto then
    if rfalNfcvCheckInvRes (s.device.invRes 0) rcvdLen then { s with devCnt := s.devCnt + 1 } else s
  else if s.colCnt < maxCollSupported then
    { s with
      colFound := addCollision s.colFound s.colIt s.colCnt (s.slotNum - 1)
      colCnt := s.colCnt + 1 }
  else s

/-- one slot -/
def Resolution.slot (r : Radio ω) (devLimit : Nat) (s : Resolution ω) : Resolution ω :=
  let e := s.exchange r
  let s := { s.store e.invRes with slotNum := s.slotNum + 1, world := e.world }
  let s := s.received e.ret e.rcvdLen
  if devLimit ≤ s.devCnt then { s with returned := true } else s

def Resolution.inSlots (s : Resolution ω) : Bool := !s.returned && decide (s.slotNum < maxSlots)

/-- one request with its slots -/
def Resolution.collision (r : Radio ω) (devLimit : Nat) (s : Resolution ω) : Resolution ω :=
  let s := whileN Resolution.inSlots (Resolution.slot r devLimit) maxSlots { s with slotNum := 0 }
  if s.returned then s else { s with colIt := s.colIt + 1 }

def Resolution.pending (s : Resolution ω) : Bool := !s.returned && decide (s.colIt < s.colCnt)

/-- the requests for the collisions found, of which `n` are made at most -/
def Resolution.resolve (r : Radio ω) (devLimit n : Nat) (s : Resolution ω) :
    Option (ReturnCode × Resolution ω) :=
  let s := whileN Resolution.pending (Resolution.collision r devLimit) n s
  if s.pending then none else some (.errNone, s)

/-- the variables and the device list as they start -/
def Resolution.init (s : Resolution ω) (devLimit : Nat) : Resolution ω :=
  { s with
    colFound := fun i => if i < entry maxCollSupported then 0 else s.colFound i
    nfcvDevList := fun i => if i < devLimit then .zero else s.nfcvDevList i
    devCnt := 0
    colIt := 0
    colCnt := 0
    returned := false }

def rfalNfcvPollerCollisionResolution (r : Radio ω) (compMode : ComplianceMode)
    (devLimit n : Nat) (s : Resolution ω) : Option (ReturnCode × Resolution ω) :=
  let s := s.init devLimit
  if compMode = .nfc then
    let e := rfalNfcvPollerInventory r .one 0 none s.device.invRes s.world
    let s := { s.store e.invRes with world := e.world }
    if e.ret = errTimeout ∨ e.ret = errProto then some (.errNone, s)
    else if e.ret = .errNone then some (.errNone, { s with devCnt := 1 })
    else if devLimit = 0 then some (errRfCollision, { s with colCnt := 1 })
    else { s with colCnt := 1 }.resolve r devLimit n
  else { s with colCnt := 1 }.resolve r devLimit n

/-! ## sleep -/

/-- `RFAL_NFCV_REQ_FLAG_ADDRESS` -/
def reqFlagAddress : Byte := 0x20

def rfalNfcvPollerSleep (r : Radio ω) (flags : Byte) (uid : List Byte) (w : ω) : ReturnCode × ω :=
  let (ret, w) := r.transceive ([flags ||| reqFlagAddress, 0x02] ++ uid) w
  if ret ≠ errTimeout then (ret, w) else (.errNone, w)

/-- the devices from `i` on are put to sleep, `left` of them -/
def sleepFrom (r : Radio ω) : Nat → Nat → (Nat → ListenDevice) × ω → (Nat → ListenDevice) × ω
  | 0, _, s => s
  | left + 1, i, (list, w) =>
    let w := (rfalNfcvPollerSleep r 0x00 (list i).uid w).2
    sleepFrom r left (i + 1) (Function.update list i { list i with isSleep := true }, w)

/-- status, devices found by the last resolution, and all of them -/
structure SleepRound (ω : Type*) where
  ret : ReturnCode
  tmpDevCnt : Nat
  nfcvDevList : Nat → ListenDevice
  devCnt : Nat
  /-- what the stack holds -/
  colFound : Nat → Byte
  world : ω

/-- a resolution on the part of the list that is free, and its devices put to sleep -/
def SleepRound.round (r : Radio ω) (devLimit n : Nat) (s : SleepRound ω) :
    Option (SleepRound ω) :=
  (rfalNfcvPollerCollisionResolution r .iso (devLimit - s.devCnt) n
    { colFound := s.colFound
      nfcvDevList := fun i => s.nfcvDevList (s.devCnt + i)
      devCnt := 0
      colIt := 0
      colCnt := 0
      slotNum := 0
      returned := false
      world := s.world }).map fun (ret, t) =>
    let list := fun i => if i < s.devCnt then s.nfcvDevList i else t.nfcvDevList (i - s.devCnt)
    let (list, w) := sleepFrom r t.devCnt s.devCnt (list, t.world)
    { ret
      tmpDevCnt := t.devCnt
      nfcvDevList := list
      devCnt := s.devCnt + t.devCnt
      colFound := t.colFound
      world := w }

/-- `n` bounds the resolutions, and the requests in each of them -/
def SleepRound.rounds (r : Radio ω) (devLimit n : Nat) : Nat → SleepRound ω → Option (SleepRound ω)
  | 0, _ => none
  | k + 1, s =>
    (s.round r devLimit n).bind fun t =>
      if t.ret = .errNone ∧ 0 < t.tmpDevCnt ∧ t.devCnt < devLimit then t.rounds r devLimit n k
      else some t

def rfalNfcvPollerSleepCollisionResolution (r : Radio ω) (devLimit n k : Nat)
    (s : SleepRound ω) : Option (SleepRound ω) :=
  { s with devCnt := 0 }.rounds r devLimit n k

end

end Nfcv
end Hydra
