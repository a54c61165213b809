import HydraFw.Lib.Rams
import HydraFw.Rfal.Api

/-!
# The emulated card: objects, globals, answers

* `Obj`            the arrays of the two card emulators that a command can reach;
* `objSize`        their sizes in bytes;
* `Card`           the globals of the command processors;
* `Rsp`            what a command processor returns: the new globals, the length of the response
                   in bits and `*card_reset`;
* `Card.boot`      the globals at power-on; `Card.prepareNdef` the NDEF part of
                   `hydranfc_ce_common`;
* `Card.received`  the globals after `apdu` was copied to the start of `rxtxFrameBuf`;
* `Rsp.answer`     the bytes that `ceSetTx` takes from `rxtxFrameBuf` for that response.

The record of accesses starts afresh with every received frame.
-/

namespace Hydra
open Rams

inductive Obj where
  | rxtxFrameBuf
  | ccfile
  | ndefBuffer
  | ulImage
  | rxBufCe
  | txBufCe
  /-- no object: `NULL` -/
  | null
  deriving DecidableEq

/-- `NDEF_MAX_SIZE`, the size of `NDEF_Buffer` -/
def ndefMaxSize : Nat := 0xC00

/-- `NDEF_SIZE`, the size the capability container announces -/
def ndefSize : Nat := 0xFFFE

def objSize : Obj → Nat
  | .rxtxFrameBuf => 512
  | .ccfile => 15
  | .ndefBuffer => ndefMaxSize
  | .ulImage => 76
  | .rxBufCe => rxBufLength
  | .txBufCe => txBufLength
  | .null => 0

abbrev Mem := Ram Obj UInt8

/-- `enum States` -/
inductive States where
  | idle
  | appSelected
  | ccSelected
  | fidSelected
  deriving DecidableEq

def States.toNat : States → Nat
  | .idle => 0
  | .appSelected => 1
  | .ccSelected => 2
  | .fidSelected => 3

structure Card where
  ram : Mem
  nState : States
  nSelectedIdx : Int
  ndefFile : Obj
  ulCwritePageSet : UInt8

structure Rsp where
  card : Card
  bits : Nat
  reset : Bool

/-! ## initial values -/

def ccfileInit : List UInt8 :=
  [0x00, 0x0F, 0x20, 0x00, 0x7F, 0x00, 0x7F, 0x04, 0x06, 0xE1, 0x04, 0xFF, 0xFE, 0x00, 0x00]

/-- `ul_image_factory`, also the initial `ul_image`; the last 12 bytes repeat the first -/
def ulImageFactory : List UInt8 :=
  [0x04, 0x3b, 0x99, 0x2e, 0x0a, 0x9d, 0x32, 0x80, 0x25, 0x48, 0x00, 0x00, 0x00, 0x00, 0x00, 0x00,
    0xff, 0xff, 0xff, 0xff] ++ List.replicate 44 0x00 ++
  [0x04, 0x3b, 0x99, 0x2e, 0x0a, 0x9d, 0x32, 0x80, 0x25, 0x48, 0x00, 0x00]

def Card.boot : Card where
  ram :=
    { mem := fun o i => match o with
        | .ccfile => ccfileInit.getD i 0
        | .ulImage => ulImageFactory.getD i 0
        | _ => 0
      trace := [] }
  nState := .idle
  nSelectedIdx := -1
  ndefFile := .null
  ulCwritePageSet := 0

/-- `NDEF_PrepareURIMessage` leaves `message` behind the two length bytes -/
def Card.prepareNdef (c : Card) (message : List UInt8) : Card :=
  { c with
    ram := { c.ram with
      mem := Function.update c.ram.mem .ndefBuffer
        (overwrite (c.ram.mem .ndefBuffer) 0
          (UInt8.ofNat (message.length / 256) :: UInt8.ofNat message.length :: message)) }
    ndefFile := .ndefBuffer }

/-! ## received frames and responses -/

/-- two consecutive stores, as for a status word -/
def put2 (r : Mem) (o : Obj) (i : Nat) (a b : UInt8) : Mem := (r.set o i a).set o (i + 1) b

/-- the frame buffer once `apdu` has been copied to its start -/
def Card.frame (c : Card) (apdu : List UInt8) : Nat → UInt8 :=
  overwrite (c.ram.mem .rxtxFrameBuf) 0 apdu

def Card.received (c : Card) (apdu : List UInt8) : Card :=
  { c with ram := ⟨Function.update c.ram.mem .rxtxFrameBuf (c.frame apdu), []⟩ }

def Rsp.answer (r : Rsp) : List UInt8 :=
  slice (r.card.ram.mem .rxtxFrameBuf) 0 (rfalConvBitsToBytes r.bits)

section
variable (c : Card) (apdu : List UInt8) (r : Mem) (o o' : Obj) (i : Nat) (a b : UInt8)

@[simp] theorem received_trace : (c.received apdu).ram.trace = [] := rfl

@[simp] theorem received_frame : (c.received apdu).ram.mem .rxtxFrameBuf = c.frame apdu := by
  show Function.update c.ram.mem .rxtxFrameBuf (c.frame apdu) .rxtxFrameBuf = _
  rw [Function.update_self]

theorem received_mem_ne (h : o ≠ .rxtxFrameBuf) : (c.received apdu).ram.mem o = c.ram.mem o := by
  show Function.update c.ram.mem .rxtxFrameBuf (c.frame apdu) o = _
  rw [Function.update_of_ne h]

/-- the bytes of the command itself are those received -/
theorem frame_getElem (k : Nat) (h : k < apdu.length) : c.frame apdu k = apdu[k] := by
  have e := overwrite_in (c.ram.mem .rxtxFrameBuf) 0 apdu k h
  rwa [Nat.zero_add] at e

/-- what a command reads inside its own bytes is what it carries -/
theorem frame_slice (off n : Nat) (h : off + n ≤ apdu.length) :
    slice (c.frame apdu) off n = (apdu.drop off).take n := by
  refine List.ext_getElem (by simp; omega) fun k hk hk' => ?_
  rw [slice_length] at hk
  have e := frame_getElem c apdu (off + k) (by omega)
  simp [slice, e]

theorem put2_mem_ne (h : o' ≠ o) : (put2 r o i a b).mem o' = r.mem o' := by
  unfold put2
  rw [Ram.set_mem_ne _ _ _ _ _ h, Ram.set_mem_ne _ _ _ _ _ h]

theorem put2_cell (k : Nat) : (put2 r o i a b).mem o k
    = if k = i + 1 then b else if k = i then a else r.mem o k := by
  unfold put2
  rw [Ram.set_cell, Ram.set_cell]

@[simp] theorem put2_trace : (put2 r o i a b).trace
    = r.trace ++ [⟨.wr, o, i, 1⟩, ⟨.wr, o, i + 1, 1⟩] := by
  unfold put2
  rw [Ram.set_trace, Ram.set_trace, List.append_assoc]
  rfl

end

end Hydra
