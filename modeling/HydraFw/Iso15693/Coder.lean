import HydraFw.Rfal.Codes
import HydraFw.Rfal.Crc

/-!
# The coder of ISO 15693 frames

`rfalIso15693VCDCode` turns a frame into the pulses of the reader, in portions that fit into a
buffer.  What it writes is the list of the stored bytes; nothing keeps the list inside the buffer.

* `rfalIso15693PhyVCDCode1Of4`, `rfalIso15693PhyVCDCode1Of256`   the codes of a byte;
* `codeAll`      both loops of the coder;
* `rfalIso15693VCDCode`;
* `codeAll_eq`   as many bytes are coded as fit;
* `wire`         a frame with the start and the end, and `vcdCode_eq` the portion of a call.
-/

namespace Hydra
namespace Iso15693
open Common

inductive VcdCoding where
  | one4
  | one256
  deriving DecidableEq

/-- `ISO15693_DAT_SOF_1_4` and `ISO15693_DAT_SOF_1_256` -/
def VcdCoding.sof : VcdCoding → Byte
  | .one4 => 0x21
  | .one256 => 0x81

/-- `ISO15693_DAT_EOF_1_4` and `ISO15693_DAT_EOF_1_256` -/
def VcdCoding.eof : VcdCoding → Byte
  | .one4 => 0x04
  | .one256 => 0x04

/-- the bytes that a byte becomes -/
def VcdCoding.size : VcdCoding → Nat
  | .one4 => 4
  | .one256 => 64

/-! ## a byte -/

/-- the switch over two bits -/
def dat1Of4 (two : Byte) : Byte :=
  if two = 0 then 0x02 else if two = 1 then 0x08 else if two = 2 then 0x20 else 0x80

/-- the passes that are left of the loop over `a` -/
def code1Of4 : Nat → Byte → List Byte
  | 0, _ => []
  | a + 1, tmp => dat1Of4 (tmp &&& 0x3) :: code1Of4 a (tmp >>> 2)

def rfalIso15693PhyVCDCode1Of4 (data : Byte) (maxOutBufLen : Nat) : ReturnCode × List Byte :=
  if maxOutBufLen < 4 then (errNomem, []) else (.errNone, code1Of4 4 data)

def slot1Of256 (tmp : Byte) : Byte :=
  if tmp = 0 then 0x02 else if tmp = 1 then 0x08 else if tmp = 2 then 0x20
  else if tmp = 3 then 0x80 else 0

/-- the subtraction wraps around -/
def code1Of256 : Nat → Byte → List Byte
  | 0, _ => []
  | a + 1, tmp => slot1Of256 tmp :: code1Of256 a (tmp - 4)

def rfalIso15693PhyVCDCode1Of256 (data : Byte) (maxOutBufLen : Nat) : ReturnCode × List Byte :=
  if maxOutBufLen < 64 then (errNomem, []) else (.errNone, code1Of256 64 data)

def VcdCoding.txFunc : VcdCoding → Byte → Nat → ReturnCode × List Byte
  | .one4 => rfalIso15693PhyVCDCode1Of4
  | .one256 => rfalIso15693PhyVCDCode1Of256

/-! ## a frame -/

/-- status, bytes coded, their codes -/
structure Codes where
  err : ReturnCode
  count : Nat
  out : List Byte

/-- the loop over the bytes from `*offset` on, with `room` bytes left in the buffer -/
def codeAll (txFunc : Byte → Nat → ReturnCode × List Byte) : List Byte → Nat → Codes
  | [], _ => ⟨.errNone, 0, []⟩
  | b :: rest, room =>
    let (err, code) := txFunc b room
    if err = .errNone then
      let r := codeAll txFunc rest (room - code.length)
      ⟨r.err, r.count + 1, code ++ r.out⟩
    else ⟨err, 0, code⟩

/-- `ISO15693_REQ_FLAG_HIGH_DATARATE` set, `ISO15693_REQ_FLAG_TWO_SUBCARRIERS` cleared -/
def setFlags : List Byte → List Byte
  | [] => []
  | flags :: rest => ((flags ||| 0x02) &&& ~~~0x01) :: rest

/-- a CRC that comes out as 0 is computed again, with the same result -/
def vcdCrc (buffer : List Byte) (picopassMode : Bool) : BitVec 16 :=
  if buffer = [] then 0
  else if picopassMode then rfalCrcCalculateCcitt 0xE012 (buffer.drop 1)
  else ~~~ rfalCrcCalculateCcitt 0xFFFF buffer

/-- the low byte first -/
def crcBytes (crc : BitVec 16) : List Byte := [crc.setWidth 8, (crc >>> 8).setWidth 8]

/-- what a frame is sent with -/
structure VcdMode where
  coding : VcdCoding
  sendCrc : Bool
  sendFlags : Bool
  picopassMode : Bool
  deriving DecidableEq

def VcdMode.crcLen (m : VcdMode) : Nat := if m.sendCrc then 2 else 0

def VcdMode.minSize (m : VcdMode) (offset : Nat) : Nat :=
  match m.coding with
  | .one4 => 5
  | .one256 => if offset ≠ 0 then 64 else 65

/-- the frame once its flags are set -/
def VcdMode.frame (m : VcdMode) (buffer : List Byte) : List Byte :=
  if m.sendFlags ∧ ¬ m.picopassMode then setFlags buffer else buffer

/-- status, frame, `*subbit_total_length`, `*offset` and the bytes written -/
structure VcdCode where
  ret : ReturnCode
  buffer : List Byte
  subbitTotalLength : Nat
  offset : Nat
  out : List Byte

def VcdMode.subbits (m : VcdMode) (length : Nat) : Nat :=
  (1 + (length + m.crcLen) * m.coding.size + 1) % 65536

def rfalIso15693VCDCode (m : VcdMode) (buffer : List Byte) (offset outBufSize : Nat) : VcdCode :=
  let length := buffer.length
  let total := m.subbits length
  if outBufSize < m.minSize offset then ⟨errNomem, buffer, total, offset, []⟩
  else
    let total := if length = 0 then 1 else total
    let start := length ≠ 0 ∧ offset = 0
    let buffer := if start then m.frame buffer else buffer
    let sof := if start then [m.coding.sof] else []
    let room := outBufSize - sof.length
    let data := codeAll m.coding.txFunc (buffer.drop offset) room
    let offset := offset + data.count
    let out := sof ++ data.out
    if data.err ≠ .errNone then ⟨.errAgain, buffer, total, offset, out⟩
    else
      let crc := if m.sendCrc then
          codeAll m.coding.txFunc ((crcBytes (vcdCrc buffer m.picopassMode)).drop (offset - length))
            (room - data.out.length)
        else ⟨.errNone, 0, []⟩
      let offset := offset + crc.count
      let out := out ++ crc.out
      if crc.err ≠ .errNone then ⟨.errAgain, buffer, total, offset, out⟩
      else if offset = length + m.crcLen then
        ⟨.errNone, buffer, total, offset, out ++ [m.coding.eof]⟩
      else ⟨.errAgain, buffer, total, offset, out⟩

/-! ## what fits -/

/-- the code of a byte -/
def VcdCoding.code : VcdCoding → Byte → List Byte
  | .one4 => code1Of4 4
  | .one256 => code1Of256 64

def VcdCoding.codes (c : VcdCoding) (l : List Byte) : List Byte := l.flatMap c.code

theorem code1Of4_length (a : Nat) (tmp : Byte) : (code1Of4 a tmp).length = a := by
  induction a generalizing tmp with
  | zero => rfl
  | succ a ih => rw [code1Of4, List.length_cons, ih]

theorem code1Of256_length (a : Nat) (tmp : Byte) : (code1Of256 a tmp).length = a := by
  induction a generalizing tmp with
  | zero => rfl
  | succ a ih => rw [code1Of256, List.length_cons, ih]

section
variable (c : VcdCoding) (m : VcdMode)

theorem code_length (b : Byte) : (c.code b).length = c.size := by
  cases c with
  | one4 => exact code1Of4_length 4 b
  | one256 => exact code1Of256_length 64 b

theorem size_pos : 0 < c.size := by
  cases c <;> decide

theorem codes_length (l : List Byte) : (c.codes l).length = c.size * l.length := by
  induction l with
  | nil => rfl
  | cons b l ih =>
    rw [VcdCoding.codes, List.flatMap_cons, List.length_append, code_length, ← VcdCoding.codes, ih,
      List.length_cons, Nat.mul_succ, Nat.add_comm]

theorem codes_append (l l' : List Byte) : c.codes (l ++ l') = c.codes l ++ c.codes l' :=
  List.flatMap_append

theorem txFunc_eq (b : Byte) (room : Nat) :
    c.txFunc b room = if room < c.size then (errNomem, []) else (.errNone, c.code b) := by
  cases c <;> rfl

/-- **A loop codes as many bytes as fit.** -/
theorem codeAll_eq (l : List Byte) (room : Nat) :
    codeAll c.txFunc l room =
      ⟨if l.length ≤ room / c.size then .errNone else errNomem, min l.length (room / c.size),
        c.codes (l.take (room / c.size))⟩ := by
  induction l generalizing room with
  | nil =>
    rw [List.take_nil, List.length_nil, if_pos (Nat.zero_le _), Nat.zero_min]
    rfl
  | cons b l ih =>
    unfold codeAll
    rw [txFunc_eq]
    by_cases hroom : room < c.size
    · rw [if_pos hroom, Nat.div_eq_of_lt hroom, List.take_zero, Nat.min_zero, List.length_cons,
        if_neg (Nat.not_succ_le_zero _)]
      rfl
    · have hdiv : room / c.size = (room - c.size) / c.size + 1 :=
        Nat.div_eq_sub_div (size_pos c) (Nat.not_lt.mp hroom)
      rw [if_neg hroom]
      dsimp only
      rw [if_pos rfl, code_length, ih, hdiv, List.length_cons, List.take_succ_cons,
        Nat.add_min_add_right]
      simp only [Nat.add_le_add_iff_right]
      rfl

/-! ## the portions of a frame -/

/-- the bytes that are sent between the start and the end of a frame -/
def VcdMode.payload (buffer : List Byte) : List Byte :=
  m.frame buffer ++ if m.sendCrc then crcBytes (vcdCrc (m.frame buffer) m.picopassMode) else []

/-- all that is sent of a frame, or of none -/
def VcdMode.wire (buffer : List Byte) : List Byte :=
  if buffer = [] then [m.coding.eof]
  else m.coding.sof :: m.coding.codes (m.payload buffer) ++ [m.coding.eof]

theorem setFlags_length (l : List Byte) : (setFlags l).length = l.length := by
  cases l <;> rfl

theorem frame_length (buffer : List Byte) : (m.frame buffer).length = buffer.length := by
  unfold VcdMode.frame
  split_ifs
  · exact setFlags_length buffer
  · rfl

theorem payload_length (buffer : List Byte) :
    (m.payload buffer).length = buffer.length + m.crcLen := by
  unfold VcdMode.payload VcdMode.crcLen
  rw [List.length_append, frame_length]
  congr 1
  split_ifs <;> rfl

theorem codeAll_fits {l : List Byte} {room : Nat} (h : l.length ≤ room / c.size) :
    codeAll c.txFunc l room = ⟨.errNone, l.length, c.codes l⟩ := by
  rw [codeAll_eq, if_pos h, Nat.min_eq_left h, List.take_of_length_le h]

/-- both loops, one behind the other -/
theorem codeAll_append (l l' : List Byte) {room : Nat} (h : l.length ≤ room / c.size) :
    codeAll c.txFunc (l ++ l') room =
      ⟨(codeAll c.txFunc l' (room - c.size * l.length)).err,
        l.length + (codeAll c.txFunc l' (room - c.size * l.length)).count,
        c.codes l ++ (codeAll c.txFunc l' (room - c.size * l.length)).out⟩ := by
  have hdiv : (room - c.size * l.length) / c.size = room / c.size - l.length :=
    Nat.sub_mul_div ..
  rw [codeAll_eq, codeAll_eq, hdiv, List.length_append, List.take_append, codes_append,
    List.take_of_length_le h]
  dsimp only
  congr 1
  · split_ifs <;> first | rfl | omega
  · omega

/-- the end of a frame alone -/
theorem vcdCode_nil (outBufSize : Nat) (hcrc : m.sendCrc = false)
    (hmin : m.minSize 0 ≤ outBufSize) :
    rfalIso15693VCDCode m [] 0 outBufSize = ⟨.errNone, [], 1, 0, [m.coding.eof]⟩ := by
  unfold rfalIso15693VCDCode VcdMode.crcLen
  rw [if_neg (Nat.not_lt.mpr hmin), hcrc]
  rfl

/-- what is left of the bytes and of their CRC -/
theorem payload_drop (buffer : List Byte) (offset : Nat) :
    (m.payload buffer).drop offset = (m.frame buffer).drop offset ++
      (if m.sendCrc then crcBytes (vcdCrc (m.frame buffer) m.picopassMode) else []).drop
        (offset - buffer.length) := by
  rw [VcdMode.payload, List.drop_append, frame_length]

/-- no CRC is an empty one -/
theorem codeAll_crc (l : List Byte) (k room : Nat) :
    (if m.sendCrc then codeAll m.coding.txFunc (l.drop k) room else ⟨.errNone, 0, []⟩) =
      codeAll m.coding.txFunc ((if m.sendCrc then l else []).drop k) room := by
  split_ifs
  · rfl
  · rw [List.drop_nil]
    rfl

/-- **A call.**  The bytes from the offset on are coded as far as they fit; the end is written
behind the last one, whether it fits or not. -/
theorem vcdCode_eq {buffer b : List Byte} {offset outBufSize : Nat} (hne : buffer ≠ [])
    (hb : offset = 0 ∧ b = buffer ∨ 0 < offset ∧ b = m.frame buffer)
    (hoff : offset ≤ (m.payload buffer).length) (hmin : m.minSize offset ≤ outBufSize) {q : Nat}
    (hq : q = min ((m.payload buffer).length - offset)
      ((outBufSize - if offset = 0 then 1 else 0) / m.coding.size)) :
    rfalIso15693VCDCode m b offset outBufSize =
      ⟨if offset + q = (m.payload buffer).length then .errNone else .errAgain, m.frame buffer,
        m.subbits buffer.length, offset + q,
        (if offset = 0 then [m.coding.sof] else []) ++
          m.coding.codes (((m.payload buffer).drop offset).take q) ++
          if offset + q = (m.payload buffer).length then [m.coding.eof] else []⟩ := by
  have hlen : b.length = buffer.length := by
    rcases hb with ⟨-, rfl⟩ | ⟨-, rfl⟩
    · rfl
    · exact frame_length m buffer
  have hpos : buffer.length ≠ 0 := fun h => hne (List.eq_nil_of_length_eq_zero h)
  have hframe : (if buffer.length ≠ 0 ∧ offset = 0 then m.frame b else b) = m.frame buffer := by
    rcases hb with ⟨h0, rfl⟩ | ⟨h0, rfl⟩
    · exact if_pos ⟨hpos, h0⟩
    · exact if_neg fun h => absurd h.2 (by omega)
  have hsof : (if buffer.length ≠ 0 ∧ offset = 0 then [m.coding.sof] else []) =
      if offset = 0 then [m.coding.sof] else [] := by
    simp only [hpos, ne_eq, not_false_eq_true, true_and]
  have hsize : (if offset = 0 then [m.coding.sof] else []).length = if offset = 0 then 1 else 0 := by
    split_ifs <;> rfl
  have hrest := payload_drop m buffer offset
  have hwhole := codeAll_eq m.coding ((m.payload buffer).drop offset)
    (outBufSize - if offset = 0 then 1 else 0)
  rw [List.length_drop, ← hq] at hwhole
  unfold rfalIso15693VCDCode
  dsimp only
  rw [hlen, if_neg (Nat.not_lt.mpr hmin), if_neg hpos, hframe, hsof, hsize]
  generalize (if offset = 0 then [m.coding.sof] else []) = sof
  generalize (outBufSize - if offset = 0 then 1 else 0) = room at hq hwhole ⊢
  have htake : ((m.payload buffer).drop offset).take q =
      ((m.payload buffer).drop offset).take (room / m.coding.size) := by
    rw [hq, Nat.min_comm, ← List.length_drop, ← List.take_eq_take_min]
  have hlast : offset + q = (m.payload buffer).length ↔
      (m.payload buffer).length - offset ≤ room / m.coding.size := by omega
  rw [← htake] at hwhole
  simp only [hlast]
  by_cases hfit : ((m.frame buffer).drop offset).length ≤ room / m.coding.size
  · rw [hrest, codeAll_append m.coding _ _ hfit, ← hrest] at hwhole
    have hdone : offset + ((m.frame buffer).drop offset).length - buffer.length =
        offset - buffer.length := by
      rw [List.length_drop, frame_length]
      omega
    rw [codeAll_fits m.coding hfit, if_neg (not_not.mpr rfl)]
    dsimp only
    rw [hdone, codeAll_crc, codes_length]
    generalize codeAll m.coding.txFunc _ (room - _) = r at hwhole ⊢
    obtain ⟨herr, hcount, hout⟩ := Codes.mk.inj hwhole
    rw [herr, Nat.add_assoc, hcount, List.append_assoc, hout, ← payload_length]
    by_cases hle : (m.payload buffer).length - offset ≤ room / m.coding.size
    · rw [if_pos hle, if_neg (not_not.mpr rfl), if_pos (hlast.mpr hle), if_pos hle, if_pos hle]
    · rw [if_neg hle, if_pos (by decide), if_neg hle, if_neg hle, List.append_nil]
  · have hlong : ¬ (m.payload buffer).length - offset ≤ room / m.coding.size := by
      rw [List.length_drop, frame_length] at hfit
      rw [payload_length]
      omega
    rw [codeAll_eq, if_neg hfit]
    dsimp only
    rw [if_pos (by decide), if_neg hlong, if_neg hlong, htake, hrest,
      List.take_append_of_le_length (Nat.le_of_not_le hfit), List.append_nil,
      Nat.min_eq_right (Nat.le_of_not_le hfit), show q = room / m.coding.size by omega]

end

end Iso15693
end Hydra
