import HydraFw.Card.State

/-!
# The Type 4 Tag command processor

`cmdFind`, `t4select`, `read`, `update` and `processCmd` as `hydranfc_v2_ce.c` has them.  The two
buffer parameters name objects; `ceRun` passes `rxtxFrameBuf` for both, so a response overwrites
the command it answers.

* `processCmd`   one command in a given listen state (`cmdLen` is ignored, as in the source);
* `exchange`     one APDU received into `rxtxFrameBuf` and processed in `CARDEMU_4A`;
* `step`         the card after that exchange;
* `decode`       which command the frame buffer spells, with its offset and length.
-/

set_option linter.unusedSectionVars false

namespace Hydra
open Rams

/-! ## values of the source -/

def aid : List UInt8 := [0xD2, 0x76, 0x00, 0x00, 0x85, 0x01, 0x01]
def fidCC : List UInt8 := [0xE1, 0x03]
def fidNDEF : List UInt8 := [0xE1, 0x04]
def selectFileId : List UInt8 := [0xA4, 0x00, 0x0C, 0x02, 0x00, 0x01]

def nFiles : Int := 2

def pdwFileSize (idx : Int) : Nat := if idx = 0 then objSize .ccfile else ndefSize

/-! ## the commands -/

/-- `memcmp(&cmd[i], find, len)` for `i` from 0 to 19 -/
def cmdFind (cmd : Nat → UInt8) (find : List UInt8) : Bool :=
  (List.range 20).any fun i => slice cmd i find.length == find

/-- the if-chain of `t4select`: the new `nState`, the new `nSelectedIdx` and `success` -/
def selectFile (cmd : Nat → UInt8) (nState : States) (nSelectedIdx : Int) : States × Int × Bool :=
  if cmdFind cmd aid then (.appSelected, nSelectedIdx, true)
  else if nState.toNat ≥ States.appSelected.toNat ∧ cmdFind cmd fidCC then (.ccSelected, 0, true)
  else if nState.toNat ≥ States.appSelected.toNat ∧
      (cmdFind cmd fidNDEF ∨ cmdFind cmd selectFileId) then (.fidSelected, 1, true)
  else (.idle, nSelectedIdx, false)

def t4select (c : Card) (cmdData rspData : Obj) : Card × Nat :=
  let s := selectFile (c.ram.mem cmdData) c.nState c.nSelectedIdx
  -- no search looks past cmd[19 + 7)
  let ram := c.ram.rd cmdData 0 26
  ({ c with
      ram := put2 ram rspData 0 (if s.2.2 then 0x90 else 0x6A) (if s.2.2 then 0x00 else 0x82)
      nState := s.1
      nSelectedIdx := s.2.1 }, 2)

/-- P1 and P2 -/
def cmdOffset (cmd : Nat → UInt8) : Nat := (cmd 2).toNat * 256 + (cmd 3).toNat

/-- Lc or Le -/
def cmdLength (cmd : Nat → UInt8) : Nat := (cmd 4).toNat

/-- `toRead` after the size check: a 32-bit difference stored in an `unsigned short` -/
def clipped (idx : Int) (offset toRead : Nat) : Nat :=
  if offset + toRead > pdwFileSize idx then (pdwFileSize idx + 2 ^ 32 - offset) % 2 ^ 32 % 2 ^ 16
  else toRead

def read (c : Card) (cmdData rspData : Obj) : Card × Nat :=
  let cmd := c.ram.mem cmdData
  let ram := c.ram.rd cmdData 2 3
  if c.nSelectedIdx < 0 ∨ c.nSelectedIdx ≥ nFiles then
    ({ c with ram := put2 ram rspData 0 0x6A 0x82 }, 2)
  else
    let toRead := clipped c.nSelectedIdx (cmdOffset cmd) (cmdLength cmd)
    let ppbMemory := if c.nSelectedIdx = 0 then .ccfile else c.ndefFile
    let ram := ram.copy rspData 0 ppbMemory (cmdOffset cmd) toRead
    ({ c with ram := put2 ram rspData toRead 0x90 0x00 }, (toRead + 2) % 2 ^ 16)

def update (c : Card) (cmdData rspData : Obj) : Card × Nat :=
  let cmd := c.ram.mem cmdData
  let ram := c.ram.rd cmdData 2 3
  if c.nSelectedIdx ≠ 1 then
    ({ c with ram := put2 ram rspData 0 0x6A 0x82 }, 2)
  else if cmdOffset cmd + cmdLength cmd > pdwFileSize c.nSelectedIdx then
    ({ c with ram := put2 ram rspData 0 0x62 0x82 }, 2)
  else
    let ram := ram.copy .ndefBuffer (cmdOffset cmd) cmdData 5 (cmdLength cmd)
    ({ c with ram := put2 ram rspData 0 0x90 0x00, ndefFile := .ndefBuffer }, 2)

/-- `return 8*…`: bytes to bits, in sixteen bits -/
def reply (p : Card × Nat) : Rsp := ⟨p.1, 8 * p.2 % 2 ^ 16, false⟩

def processCmd (state : LmState) (c : Card) (cmdData : Obj) (_cmdLen : Nat) (rspData : Obj) :
    Rsp :=
  match state with
  | .activeA | .activeAx => ⟨c, 0, true⟩
  | .cardemu4A =>
    let cmd := c.ram.mem cmdData
    let c := { c with ram := c.ram.rd cmdData 0 2 }
    if cmd 0 = 0x00 ∧ cmd 1 = 0xA4 then reply (t4select c cmdData rspData)
    else if cmd 0 = 0x00 ∧ cmd 1 = 0xB0 then reply (read c cmdData rspData)
    else if cmd 0 = 0x00 ∧ cmd 1 = 0xD6 then reply (update c cmdData rspData)
    else ⟨{ c with ram := put2 c.ram rspData 0 0x68 0x00 }, 8 * 2, false⟩
  | _ => ⟨c, 0, false⟩

/-! ## one APDU -/

/-- one APDU of a reader at layer 4 -/
def exchange (c : Card) (apdu : List UInt8) : Rsp :=
  processCmd .cardemu4A (c.received apdu) .rxtxFrameBuf apdu.length .rxtxFrameBuf

def step (c : Card) (apdu : List UInt8) : Card := (exchange c apdu).card

inductive Command where
  | select
  | read (off le : Nat)
  | update (off lc : Nat)
  | unsupported
  deriving DecidableEq

def decode (cmd : Nat → UInt8) : Command :=
  if cmd 0 = 0x00 ∧ cmd 1 = 0xA4 then .select
  else if cmd 0 = 0x00 ∧ cmd 1 = 0xB0 then .read (cmdOffset cmd) (cmdLength cmd)
  else if cmd 0 = 0x00 ∧ cmd 1 = 0xD6 then .update (cmdOffset cmd) (cmdLength cmd)
  else .unsupported

/-- the object that READ BINARY copies from -/
def selectedObj (c : Card) : Option Obj :=
  if c.nSelectedIdx = 0 then some .ccfile
  else if c.nSelectedIdx = 1 then some c.ndefFile
  else none

theorem cmdOffset_lt (cmd : Nat → UInt8) : cmdOffset cmd < 2 ^ 16 := by
  have h2 := (cmd 2).toNat_lt
  have h3 := (cmd 3).toNat_lt
  unfold cmdOffset
  omega

theorem cmdLength_lt (cmd : Nat → UInt8) : cmdLength cmd < 2 ^ 8 := (cmd 4).toNat_lt

theorem cmdFind_iff (cmd : Nat → UInt8) (find : List UInt8) :
    cmdFind cmd find = true ↔ ∃ i, i < 20 ∧ slice cmd i find.length = find := by
  simp [cmdFind, List.any_eq_true]

/-- the searches look at the first 26 bytes only -/
theorem cmdFind_congr {cmd cmd' : Nat → UInt8} {find : List UInt8} (hf : find.length ≤ 7)
    (h : ∀ k, k < 26 → cmd k = cmd' k) : cmdFind cmd find = cmdFind cmd' find := by
  have e : ∀ i, i < 20 → slice cmd i find.length = slice cmd' i find.length := fun i hi =>
    slice_congr fun k hk => h (i + k) (by omega)
  rw [Bool.eq_iff_iff, cmdFind_iff, cmdFind_iff]
  constructor
  · rintro ⟨i, hi, hs⟩
    exact ⟨i, hi, by rw [← e i hi, hs]⟩
  · rintro ⟨i, hi, hs⟩
    exact ⟨i, hi, by rw [e i hi, hs]⟩

end Hydra
