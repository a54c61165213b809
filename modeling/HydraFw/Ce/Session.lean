import HydraFw.MifUl.Tag
import HydraFw.Ce.Engine

/-!
# An emulation session

`hydranfc_ce_common` up to its loop (`hydranfc_v2_ce.c`), with `ceInit`, `ceStart` and `ceStop`
(`ce.c`).  A session starts from whatever the last one left.

* `UserTagProperties`   what the user has set, with the image file if it can be opened;
* `readUlImageFile`     the image of the Ultralight tag from that file;
* `startCmd`            the record of TLVs given to `ceStart`;
* `hydranfcCeCommon`    the state in which the loop starts;
* `Fresh`               what is known of that state, `session_mirrored` of the Ultralight image.
-/

namespace Hydra
open Rams

/-- `eL3EmulationMode` -/
inductive L3Mode where
  | notSet
  | mifUl
  | mifClassic

/-- a file: its `f_size` and the bytes that `file_read` stores of the 64 it is asked for -/
structure ImageFile where
  size : Nat
  data : List UInt8
  data_le : data.length ≤ 64

structure UserTagProperties where
  uid : List UInt8
  sak : List UInt8
  level4Enabled : Bool
  l3EmulationMode : L3Mode
  ceImage : Option ImageFile

/-! ## the Ultralight image -/

def mfcUltralightDataSize : Nat := 16 * 4

def Card.putImage (c : Card) (image : Nat → UInt8) : Card :=
  { c with ram := { c.ram with mem := Function.update c.ram.mem .ulImage image } }

theorem putImage_image (c : Card) (image : Nat → UInt8) : (c.putImage image).image = image := by
  show Function.update c.ram.mem .ulImage image .ulImage = image
  rw [Function.update_self]

def resetUlImageFile (c : Card) : Card := c.putImage (overwrite c.image 0 ulImageFactory)

/-- `none` when the source returns `FALSE` -/
def readUlImageFile (c : Card) (file : Option ImageFile) : Option Card :=
  match file with
  | none => none
  | some f =>
    if f.size ≠ mfcUltralightDataSize then none
    else if f.data.length = 0 then none
    else
      let image := overwrite c.image 0 f.data
      -- the roll-over piece
      some (c.putImage (overwrite image mfcUltralightDataSize (slice image 0 12)))

/-! ## `ceInit`, `ceStart`, `ceStop` -/

def ceInit (ce : Ce) : Ce :=
  { ce with
    transceiveCtx := { txBuf := .txBufCe, txBufLen := 0, flags := flagsDefault }
    isoDepTxRxParam := { ce.isoDepTxRxParam with txBuf := .txBufCe }
    configMask := 0
    emuMode := 0
    isActivatedA := false
    isFirstF_Frame := false
    isFirstA3_Frame := true
    rxReady := false
    txReady := false
    ceEnabled := false
    ulCwritePageSet := 0 }

/-- the place of the value of TLV `i` of a start record, and `offset` behind it -/
def tlv (rxData : List UInt8) (i offset : Nat) : Option Nat × Nat :=
  let len := rxData.getD (i * 2 + 1 + offset) 0
  if len > 0 then (some (i * 2 + 2 + offset), offset + len.toNat) else (none, offset)

/-- `config[i]` -/
def config (rxData : List UInt8) : Nat → Option Nat × Nat
  | 0 => tlv rxData 0 1
  | i + 1 => tlv rxData (i + 1) (config rxData i).2

/-- `ST_MEMCPY(&conf, config[i], n)`, or `n` zeros -/
def configValue (rxData : List UInt8) (i n : Nat) : List UInt8 :=
  match (config rxData i).1 with
  | some p => (List.range n).map fun k => rxData.getD (p + k) 0
  | none => List.replicate n 0

def maskValue (rxData : List UInt8) (i mask : Nat) : Nat :=
  if (config rxData i).1.isSome then mask else 0

def startAts (rxData : List UInt8) : AtsParam :=
  match (config rxData 3).1 with
  | some p =>
    let b := fun k => rxData.getD (p + k) 0
    { fsci := b 0, fwi := b 1, sfgi := b 2, ta := b 3, hbLen := b 4
      hb := (List.range (b 4).toNat).map fun k => b (5 + k) }
  | none => { fsci := 0, fwi := 0, sfgi := 0, ta := 0, hbLen := 0, hb := [] }

/-- the records are longer than the four TLVs that the loop of the source looks for -/
def ceStart (ce : Ce) (rxData : List UInt8) : Ce :=
  { ce with
    emuMode := (rxData.getD 0 0).toNat
    configMask := maskValue rxData 0 (2 ^ 10) + maskValue rxData 1 (2 ^ 11)
      + maskValue rxData 2 (2 ^ 12)
    configA := configValue rxData 0 14
    configB := configValue rxData 1 13
    configF := configValue rxData 2 21
    atsParam := startAts rxData
    ceEnabled := true
    rxRcvdLen := 0 }

def ceStop (ce : Ce) : Ce := ceInit ce

/-! ## `hydranfc_ce_common` -/

/-- `memcpy(&l[off], data, …)` -/
def splice (l : List UInt8) (off : Nat) (data : List UInt8) : List UInt8 :=
  l.take off ++ data ++ l.drop (off + data.length)

def startCmdDefault : List UInt8 :=
  [0x01, 0x04, 0x0E, 0x07, 0x02, 0x11, 0x22, 0x33, 0x44, 0x55, 0x66, 0x00, 0x00, 0x00, 0x44, 0x00,
    0x20, 0x04, 0x00, 0x04, 0x00, 0x04, 0x07, 0x08, 0x0A, 0x00, 0x00, 0x02, 0x73, 0x74]

def startCmd (u : UserTagProperties) : List UInt8 :=
  let cmd := if u.sak.length ≠ 0 then splice startCmdDefault 16 u.sak else startCmdDefault
  if u.uid.length ≠ 0 then
    let cmd := splice (cmd.set 3 (UInt8.ofNat u.uid.length)) 4 u.uid
    if u.uid.length = 4 then cmd.set 14 0x04
    else if u.uid.length = 7 then cmd.set 14 0x44
    else cmd
  else cmd

/-- the processor and what it works on -/
def prepareProcessor (ce : Ce) (u : UserTagProperties) : Ce :=
  match u.l3EmulationMode with
  | .mifUl =>
    { ce with
      toCard := (readUlImageFile ce.toCard u.ceImage).getD (resetUlImageFile ce.toCard)
      currentProcessCmd := .processCmdMifUL }
  | _ => { ce with currentProcessCmd := .processCmd }

def hydranfcCeCommon (ce : Ce) (u : UserTagProperties) (message : List UInt8) : Ce :=
  let ce := { ce with toCard := ce.toCard.prepareNdef message, level4Enabled := u.level4Enabled }
  ceStart (ceInit (prepareProcessor ce u)) (startCmd u)

/-- the globals at power-on -/
def Ce.boot : Ce where
  toCard := Card.boot
  rxRcvdLen := 0
  ceEnabled := false
  configMask := 0
  configA := []
  configB := []
  configF := []
  atsParam := { fsci := 0, fwi := 0, sfgi := 0, ta := 0, hbLen := 0, hb := [] }
  transceiveCtx := { txBuf := .null, txBufLen := 0, flags := 0 }
  emuMode := 0
  isActivatedA := false
  isFirstF_Frame := false
  isFirstA3_Frame := true
  isoDepTxRxParam := { txBuf := .null, txBufLen := 0, fsx := 0 }
  rxReady := false
  txReady := false
  level4Enabled := false
  currentProcessCmd := .processCmd
  log := []

/-! ## the state in which the loop starts -/

structure Fresh (ce : Ce) : Prop where
  emuMode : ce.emuMode = cardemulationModeNdef
  isActivatedA : ce.isActivatedA = false
  isFirstA3_Frame : ce.isFirstA3_Frame = true
  rxReady : ce.rxReady = false
  txReady : ce.txReady = false
  rxRcvdLen : ce.rxRcvdLen = 0
  ulCwritePageSet : ce.ulCwritePageSet = 0
  isoTxBuf : ce.isoDepTxRxParam.txBuf = .txBufCe
  txBuf : ce.transceiveCtx.txBuf = .txBufCe

/-- the first byte of the record is not the user's -/
theorem startCmd_mode (u : UserTagProperties) : (startCmd u).getD 0 0 = 0x01 := by
  have hsak : ∃ l, (if u.sak.length ≠ 0 then splice startCmdDefault 16 u.sak else startCmdDefault)
      = 0x01 :: l := by
    split_ifs
    · exact ⟨_, rfl⟩
    · exact ⟨_, rfl⟩
  obtain ⟨l, hl⟩ := hsak
  unfold startCmd
  rw [hl]
  split_ifs <;> rfl

theorem hydranfcCeCommon_fresh (ce : Ce) (u : UserTagProperties) (message : List UInt8) :
    Fresh (hydranfcCeCommon ce u message) where
  emuMode := by
    show ((startCmd u).getD 0 0).toNat = cardemulationModeNdef
    rw [startCmd_mode]
    rfl
  isActivatedA := rfl
  isFirstA3_Frame := rfl
  rxReady := rfl
  txReady := rfl
  rxRcvdLen := rfl
  ulCwritePageSet := rfl
  isoTxBuf := rfl
  txBuf := rfl

theorem resetUlImageFile_mirrored (c : Card) : Mirrored (resetUlImageFile c).image := by
  have hlen : ulImageFactory.length = 76 := rfl
  have hrep : ∀ i (_ : i < 12), ulImageFactory[64 + i]? = ulImageFactory[i]? := by decide
  intro i hi
  have h1 := overwrite_in c.image 0 ulImageFactory (64 + i) (by omega)
  have h2 := overwrite_in c.image 0 ulImageFactory i (by omega)
  have h := hrep i hi
  rw [Nat.zero_add] at h1 h2
  rw [List.getElem?_eq_getElem (by omega), List.getElem?_eq_getElem (by omega)] at h
  unfold resetUlImageFile
  rw [putImage_image, h1, h2]
  exact Option.some.inj h

theorem readUlImageFile_mirrored {c c' : Card} {file : Option ImageFile}
    (h : readUlImageFile c file = some c') : Mirrored c'.image := by
  cases file with
  | none => exact absurd h (by simp [readUlImageFile])
  | some f =>
    unfold readUlImageFile at h
    simp only at h
    split_ifs at h
    obtain rfl := Option.some.inj h
    intro i hi
    have hs : mfcUltralightDataSize = 64 := rfl
    rw [putImage_image, hs, overwrite_slice, overwrite_slice, if_pos (by omega),
      if_neg (by omega)]
    congr 1
    omega

/-- every Ultralight session starts with an image as the memory law wants it -/
theorem session_mirrored (ce : Ce) {u : UserTagProperties} (message : List UInt8)
    (h : u.l3EmulationMode = .mifUl) :
    Mirrored (hydranfcCeCommon ce u message).toCard.image := by
  have hp : (hydranfcCeCommon ce u message).toCard.image
      = ((readUlImageFile (ce.toCard.prepareNdef message) u.ceImage).getD
        (resetUlImageFile (ce.toCard.prepareNdef message))).image := by
    unfold hydranfcCeCommon prepareProcessor
    rw [h]
    rfl
  rw [hp]
  cases hr : readUlImageFile (ce.toCard.prepareNdef message) u.ceImage with
  | none => exact resetUlImageFile_mirrored _
  | some c => exact readUlImageFile_mirrored hr

/-! ## a tag, and answers of RFAL -/

/-- an Ultralight with the factory image -/
def ultralight : UserTagProperties where
  uid := [0x04, 0x3B, 0x99, 0x2E]
  sak := [0x00]
  level4Enabled := false
  l3EmulationMode := .mifUl
  ceImage := none

/-- an Ultralight that also answers RATS -/
def ultralightLevel4 : UserTagProperties := { ultralight with level4Enabled := true }

/-- whole bytes at layer 3 -/
def Reception.ofBytes (bytes : List UInt8) (h : bytes.length ≤ rxBufLength) : Reception where
  len := rfalConvBytesToBits bytes.length
  bytes := bytes
  len_le := Nat.mul_le_mul_left 8 h
  bytes_le := h

/-- READ of page 0, and RATS -/
def frameRead : Reception := .ofBytes [0x30, 0x00] (by decide)
def frameRats : Reception := .ofBytes [0xE0, 0x80] (by decide)

/-- two INF bytes behind a prologue, at layer 4 -/
def blockOfTwo : Reception := ⟨2, [0x02, 0x00, 0x00, 0x00, 0xB0], by decide, by decide⟩

/-- an iteration in which the field is quiet -/
def Answers.quiet : Answers where
  worker := none
  state := .idle
  dataFlag := false
  handler := ⟨.errBusy, none⟩
  getRx := ⟨.errBusy, none⟩
  processState := .idle
  isoTx := ⟨.errNone, none⟩
  startTx := ⟨.errNone, none⟩
  polls := []
  lastPoll := ⟨none, ⟨.errNone, none⟩, false⟩
  inRx := false
  sleep := .errNone

/-- `rfalWorker` has received a frame at layer 3 -/
def Answers.layer3 (state : LmState) (f : Reception) : Answers :=
  { Answers.quiet with
    worker := some f
    state := state
    dataFlag := true
    handler := ⟨.errNone, none⟩
    getRx := ⟨.errNone, none⟩
    processState := state }

/-- READ of page 0, answered; READ, and RATS, while RFAL is busy; the field lost in `CARDEMU_4A` -/
def answersRead : Answers := .layer3 .activeA frameRead
def answersReadBusy : Answers := { answersRead with getRx := ⟨.errBusy, none⟩ }
def answersRats : Answers :=
  { Answers.layer3 .activeA frameRats with getRx := ⟨.errBusy, none⟩ }
def answersActivationLost : Answers :=
  { Answers.quiet with state := .cardemu4A, handler := ⟨.errLinkLoss, none⟩ }

end Hydra
