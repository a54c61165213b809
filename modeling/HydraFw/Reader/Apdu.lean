import HydraFw.Lib.Loops
import HydraFw.Lib.Rams

/-!
# The APDU sender

The ISO 14443-4 part of `hydranfc_v2_reader.c`.  The radio link with the card behind it is a
parameter: it takes a frame and gives the frame of the answer, empty when none comes.

* `Session`, `Tpdu`, `Reader`     the static data of the file;
* `getIblock`, `getRblock`, `getWtxReply`     the blocks, built in `tpdu`;
* `sendTpdu`         a frame and its answer; `parseRTpdu` leaves `tpdu.inf` inside `rx_buffer`;
* `Sending.pass`     a pass of the loop that sends the command;
* `Receiving.pass`   a pass of the loop that asks for the rest of the response;
* `sendApdu`         `send_apdu`, the second loop stopped after a number of passes.
-/

namespace Hydra
namespace Reader
open Rams Loops

/-- `tpdu.inf`: nothing, or a place in `buffer` or in `rx_buffer` -/
inductive Ptr where
  | null
  | buffer (i : Nat)
  | rxBuffer (i : Nat)

/-- `iso_14443_tpdu` -/
structure Tpdu where
  cid : UInt8
  pcb : UInt8
  nad : UInt8
  len : UInt8
  inf : Ptr

/-- `iso_14443_session` -/
structure Session where
  blockSize : UInt8
  iblockPcbNumber : UInt8
  pcbBlockNumber : UInt8
  cid : UInt8
  addCid : Bool
  nad : UInt8
  addNad : Bool

/-- the frame size option, which the console keeps between 1 and 250 -/
structure Fsd where
  value : UInt8
  pos : 0 < value.toNat
  le : value.toNat ≤ 250

/-- the bytes of a command; there is at least one -/
structure Apdu where
  bytes : List UInt8
  nonempty : bytes ≠ []

structure State where
  tpdu : Tpdu
  session : Session
  buffer : Nat → UInt8
  rxBuffer : Nat → UInt8
  rxBufferLen : UInt16

/-- at power-on -/
def State.zero : State :=
  { tpdu := ⟨0, 0, 0, 0, .null⟩
    session := ⟨0, 0, 0, 0, false, 0, false⟩
    buffer := fun _ => 0
    rxBuffer := fun _ => 0
    rxBufferLen := 0 }

/-- `n` bytes from the pointer on -/
def State.load (r : State) (p : Ptr) (n : Nat) : List UInt8 :=
  match p with
  | .null => List.replicate n 0
  | .buffer i => slice r.buffer i n
  | .rxBuffer i => slice r.rxBuffer i n

def State.store (r : State) (p : Ptr) (data : List UInt8) : State :=
  match p with
  | .null => r
  | .buffer i => { r with buffer := overwrite r.buffer i data }
  | .rxBuffer i => { r with rxBuffer := overwrite r.rxBuffer i data }

/-- the information field of `tpdu` -/
def State.inf (r : State) : List UInt8 := r.load r.tpdu.inf r.tpdu.len.toNat

/-! ## blocks -/

def State.getAndUpdateIblockPcbNumber (r : State) : UInt8 × State :=
  (r.session.iblockPcbNumber,
    { r with session := { r.session with iblockPcbNumber := r.session.iblockPcbNumber ^^^ 1 } })

def State.getIblock (r : State) (inf : Ptr) (len : UInt8) (chainingBlock : Bool) : State :=
  let (number, r) := r.getAndUpdateIblockPcbNumber
  let pcb := number + 0x02
  let pcb := if r.session.addCid then pcb ||| 0x08 else pcb
  let pcb := if chainingBlock then pcb ||| 0x10 else pcb
  let pcb := if r.session.addNad then pcb ||| 0x04 else pcb
  { r with
    tpdu :=
      { cid := if r.session.addCid then r.session.cid else r.tpdu.cid
        pcb := pcb
        nad := if r.session.addNad then r.session.nad else r.tpdu.nad
        len := len
        inf := inf } }

/-- the answer is made in place: `tpdu.pcb`, `tpdu.cid` and the byte are those just received -/
def State.getWtxReply (r : State) : State :=
  let r := { r with tpdu := { r.tpdu with len := 1 } }
  r.store r.tpdu.inf ((r.load r.tpdu.inf 1).map (· &&& 0x3F))

def State.getRblock (r : State) : State :=
  let pcb : UInt8 := 0xB2
  let pcb := if r.session.addCid then pcb ||| 0x08 else pcb
  let (number, r) := r.getAndUpdateIblockPcbNumber
  { r with tpdu := { r.tpdu with pcb := pcb ||| number, len := 0 } }

def State.parseRTpdu (r : State) : State :=
  let index := 1
  let (nad, index) :=
    if r.session.addNad then (r.rxBuffer index, index + 1) else (r.tpdu.nad, index)
  let (cid, index) :=
    if r.session.addCid then (r.rxBuffer index, index + 1) else (r.tpdu.cid, index)
  { r with
    tpdu :=
      { cid := cid
        pcb := r.rxBuffer 0
        nad := nad
        len := (r.rxBufferLen - UInt16.ofNat index).toUInt8
        inf := .rxBuffer index } }

/-- what `send_tpdu` puts into `tx_buffer` -/
def State.frame (r : State) : List UInt8 :=
  r.tpdu.pcb ::
    ((if r.session.addNad then [r.tpdu.nad] else []) ++
      (if r.session.addCid then [r.tpdu.cid] else []) ++ r.inf)

section
variable {κ : Type*} (link : κ → List UInt8 → κ × List UInt8)

/-- `rfalTransceiveBlockingTxRx` stores at most `0xFF` bytes and reports all -/
def State.transceiveTxRx (r : State) (card : κ) : State × κ :=
  let (card, answer) := link card r.frame
  ({ r with
    rxBuffer := overwrite r.rxBuffer 0 (answer.take 0xFF)
    rxBufferLen := UInt16.ofNat answer.length }, card)

def State.sendTpdu (r : State) (card : κ) : State × κ :=
  let (r, card) := r.transceiveTxRx link card
  (r.parseRTpdu, card)

def State.initIso14443Session (fsd : Fsd) (r : State) : State :=
  { r with
    session :=
      { r.session with
        blockSize := fsd.value
        addNad := false
        addCid := true
        iblockPcbNumber := 0
        pcbBlockNumber := 0 } }

/-! ## `send_apdu` -/

/-- the loop that sends the command -/
structure Sending (κ : Type*) where
  reader : State
  card : κ
  i : UInt8
  len : Nat
  rLen : Nat

def Sending.pass (s : Sending κ) : Sending κ :=
  let blockSize := s.reader.session.blockSize
  let len : UInt8 := if s.len < blockSize.toNat then UInt8.ofNat s.len else blockSize
  let rLen := s.rLen - len.toNat
  let (reader, card) :=
    (s.reader.getIblock (.buffer s.i.toNat) len (0 < rLen)).sendTpdu link s.card
  { reader := reader
    card := card
    i := s.i + len
    -- the last subtraction may wrap in the source, but nothing reads its result
    len := s.len - blockSize.toNat
    rLen := rLen }

/-- the answer to the command, after the one S(WTX) that is looked at -/
def answerWtx (r : State) (card : κ) : State × κ :=
  if r.tpdu.pcb &&& 0xF0 = 0xF0 then r.getWtxReply.sendTpdu link card else (r, card)

/-- the loop that asks for the rest of the response; `rapdu` are the bytes stored from
`rapdu_buffer[0]` on, `rapdu_len` is their number -/
structure Receiving (κ : Type*) where
  reader : State
  card : κ
  rapdu : List UInt8

def Receiving.more (s : Receiving κ) : Bool := s.reader.tpdu.pcb &&& 0x10 = 0x10

def Receiving.pass (s : Receiving κ) : Receiving κ :=
  let (reader, card) := s.reader.getRblock.sendTpdu link s.card
  { reader := reader, card := card, rapdu := s.rapdu ++ reader.inf }

/-- `sizeof(rapdu_buffer)` -/
def rapduBufferSize : Nat := 260

def Sending.start (fsd : Fsd) (apdu : Apdu) (r : State) (card : κ) : Sending κ :=
  { reader := r.initIso14443Session fsd
    card := card
    i := 0
    len := apdu.bytes.length
    rLen := apdu.bytes.length }

def Sending.more (s : Sending κ) : Bool := 0 < s.rLen

/-- the command loop; each pass sends at least a byte, so the length bounds the passes -/
def sendCommand (fsd : Fsd) (apdu : Apdu) (r : State) (card : κ) : Sending κ :=
  whileN Sending.more (Sending.pass link) apdu.bytes.length (Sending.start fsd apdu r card)

/-- the state before the second loop -/
def firstAnswer (fsd : Fsd) (apdu : Apdu) (r : State) (card : κ) : Receiving κ :=
  let s := sendCommand link fsd apdu r card
  let (r, card) := answerWtx link s.reader s.card
  { reader := r, card := card, rapdu := r.inf }

def sendApdu (fsd : Fsd) (apdu : Apdu) (passes : Nat) (r : State) (card : κ) : Receiving κ :=
  whileN Receiving.more (Receiving.pass link) passes (firstAnswer link fsd apdu r card)

/-- `hydranfc_v2_reader_send` for a card of ISO 14443 A or B -/
def send (fsd : Fsd) (apdu : Apdu) (passes : Nat) (r : State) (card : κ) : Receiving κ :=
  sendApdu link fsd apdu passes { r with buffer := overwrite r.buffer 0 apdu.bytes } card

end

end Reader
end Hydra
