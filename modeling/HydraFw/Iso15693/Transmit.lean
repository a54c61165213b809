import HydraFw.Iso15693.Coder
import HydraFw.Lib.Chunks

/-!
# The transmission of an ISO 15693 frame

The part of `rfalTransceiveTx` that loads the FIFO of the chip: once before the transmission starts
and again at every water level, with what the coder writes next.  The synchronisation callback and
the observation mode are not modelled.

* `Transmission`, `Transmission.worker`   the state and one call of the worker;
* `loaded`            the bytes coded after a number of reloads;
* `Loaded`            the state after them;
* `transmission_safe`   what holds whenever the chip interrupts;
* `transmission_ends`   the whole frame is loaded.
-/

namespace Hydra
namespace Iso15693
open Common

/-- `ST25R3916_FIFO_DEPTH` -/
def fifoDepth : Nat := 512

/-- `RFAL_FIFO_IN_WL` -/
def fifoInWl : Nat := 200

/-- `RFAL_FIFO_OUT_WL` -/
def fifoOutWl : Nat := fifoDepth - fifoInWl

/-- `sizeof(gRFAL.nfcvData.codingBuffer)` -/
def codingBufferSize : Nat := (2 + 255 + 3) * 2

inductive TxState where
  | prepTx
  | waitWl
  | waitTxe
  | done
  | fail
  deriving DecidableEq

/-- FIFO water level and end of transmission -/
structure Irqs where
  fwl : Bool
  txe : Bool

structure Transmission where
  txBuf : List Byte
  nfcvOffset : Nat
  bytesTotal : Nat
  bytesWritten : Nat
  /-- the bits the chip has been told to send -/
  numTxBits : Nat
  /-- what has been loaded, load by load -/
  fifo : List (List Byte)
  status : ReturnCode
  state : TxState

/-- `rfalStartTransceive` -/
def Transmission.start (txBuf : List Byte) : Transmission := ⟨txBuf, 0, 0, 0, 0, [], .errBusy, .prepTx⟩

def st25r3916WriteFifo (fifo : List (List Byte)) (values : List Byte) : List (List Byte) :=
  if fifoDepth < values.length then fifo
  else if 0 < values.length then fifo ++ [values] else fifo

/-- the state behind a load -/
def Transmission.waits (s : Transmission) : TxState :=
  if s.bytesWritten < s.bytesTotal then .waitWl else .waitTxe

/-- TX_PREP_TX and TX_TRANSMIT -/
def Transmission.prepTx (m : VcdMode) (s : Transmission) : Transmission :=
  let r := rfalIso15693VCDCode m s.txBuf 0 (min fifoDepth codingBufferSize)
  let s := { s with
    txBuf := r.buffer, nfcvOffset := r.offset
    bytesTotal := r.subbitTotalLength, bytesWritten := r.out.length }
  if r.ret ≠ .errNone ∧ r.ret ≠ .errAgain then { s with status := r.ret, state := .fail }
  else
    { s with
      numTxBits := rfalConvBytesToBits s.bytesTotal % 65536
      fifo := st25r3916WriteFifo s.fifo r.out
      state := s.waits }

/-- TX_RELOAD_FIFO -/
def Transmission.reloadFifo (m : VcdMode) (s : Transmission) : Transmission :=
  let maxLen := min (min (s.bytesTotal - s.bytesWritten) fifoOutWl) codingBufferSize
  let r := rfalIso15693VCDCode m s.txBuf s.nfcvOffset maxLen
  let s := { s with txBuf := r.buffer, nfcvOffset := r.offset, bytesTotal := r.subbitTotalLength }
  if r.ret ≠ .errNone ∧ r.ret ≠ .errAgain then { s with status := r.ret, state := .fail }
  else
    let s := { s with
      fifo := st25r3916WriteFifo s.fifo r.out
      bytesWritten := s.bytesWritten + r.out.length }
    { s with state := s.waits }

def Transmission.worker (m : VcdMode) (s : Transmission) (irqs : Irqs) : Transmission :=
  match s.state with
  | .prepTx => s.prepTx m
  | .waitWl =>
    if irqs.fwl = false ∧ irqs.txe = false then s
    else if irqs.fwl ∧ ¬ irqs.txe then s.reloadFifo m
    else { s with status := errIo, state := .fail }
  | .waitTxe => if irqs.txe then { s with state := .done } else s
  | .done => s
  | .fail => s

/-! ## the loads -/

/-- the bytes that the first load codes, and every other one, when there are enough -/
def VcdCoding.first (c : VcdCoding) : Nat := (fifoDepth - 1) / c.size

def VcdCoding.more (c : VcdCoding) : Nat := fifoOutWl / c.size

/-- the bytes coded after `k` reloads -/
def loaded (c : VcdCoding) (n k : Nat) : Nat := min n (c.first + k * c.more)

structure Loaded (m : VcdMode) (buffer : List Byte) (k : Nat) (s : Transmission) : Prop where
  txBuf : s.txBuf = m.frame buffer
  nfcvOffset : s.nfcvOffset = loaded m.coding (m.payload buffer).length k
  bytesTotal : s.bytesTotal = (m.wire buffer).length
  bytesWritten : s.bytesWritten = s.fifo.flatten.length
  fifo : s.fifo.flatten = if loaded m.coding (m.payload buffer).length k = (m.payload buffer).length
    then m.wire buffer
    else m.coding.sof :: m.coding.codes ((m.payload buffer).take
      (loaded m.coding (m.payload buffer).length k))
  loads : s.fifo.length = k + 1
  fits : ∀ l ∈ s.fifo, l.length ≤ fifoDepth
  numTxBits : s.numTxBits = rfalConvBytesToBits (m.wire buffer).length % 65536

section
variable {m : VcdMode} {buffer : List Byte} {k : Nat} {s : Transmission}

theorem wire_length (hne : buffer ≠ []) :
    (m.wire buffer).length = 2 + m.coding.size * (m.payload buffer).length := by
  rw [VcdMode.wire, if_neg hne, List.length_append, List.length_cons, codes_length,
    List.length_singleton]
  omega

theorem subbits_eq (hne : buffer ≠ []) (hfit : (m.wire buffer).length < 65536) :
    m.subbits buffer.length = (m.wire buffer).length := by
  rw [wire_length hne, payload_length] at hfit ⊢
  rw [VcdMode.subbits, Nat.mul_comm, Nat.mod_eq_of_lt (by omega)]
  omega

/-- the frame is there, or only the end of one is sent -/
def Sendable (m : VcdMode) (buffer : List Byte) : Prop :=
  (buffer ≠ [] ∨ m.sendCrc = false) ∧ (m.wire buffer).length < 65536

theorem payload_nil (hcrc : m.sendCrc = false) : m.payload [] = [] := by
  apply List.eq_nil_of_length_eq_zero
  rw [payload_length, VcdMode.crcLen, hcrc]
  rfl

theorem Sendable.ne_nil (h : Sendable m buffer) (hk : loaded m.coding (m.payload buffer).length k <
    (m.payload buffer).length) : buffer ≠ [] := by
  rintro rfl
  rw [payload_nil (h.1.resolve_left fun hn => hn rfl)] at hk
  exact absurd hk (Nat.not_lt_zero _)

theorem writeFifo_eq {fifo : List (List Byte)} {values : List Byte} (hpos : 0 < values.length)
    (hle : values.length ≤ fifoDepth) : st25r3916WriteFifo fifo values = fifo ++ [values] := by
  rw [st25r3916WriteFifo, if_neg (Nat.not_lt.mpr hle), if_pos hpos]

theorem first_le (c : VcdCoding) : c.size * c.first + 2 ≤ fifoDepth := by
  cases c <;> decide

theorem first_pos (c : VcdCoding) : 0 < c.first := by
  cases c <;> decide

theorem more_le (c : VcdCoding) : c.size * c.more + 1 ≤ fifoOutWl + 1 := by
  cases c <;> decide

theorem more_pos (c : VcdCoding) : 0 < c.more := by
  cases c <;> decide

/-- what the room left in the FIFO and what is left of the frame allow -/
theorem room_eq (c : VcdCoding) (r : Nat) :
    min r (min (min (1 + c.size * r) fifoOutWl) codingBufferSize / c.size) = min r c.more := by
  cases c with
  | one4 =>
    show min r (min (min (1 + 4 * r) 312) 520 / 4) = min r 78
    omega
  | one256 =>
    show min r (min (min (1 + 64 * r) 312) 520 / 64) = min r 4
    omega

theorem loaded_succ {c : VcdCoding} {n : Nat} (h : loaded c n k < n) :
    loaded c n (k + 1) = loaded c n k + min (n - loaded c n k) c.more := by
  unfold loaded at h ⊢
  rw [Nat.succ_mul]
  omega

theorem loaded_pos {c : VcdCoding} {n : Nat} (h : 0 < n) : 0 < loaded c n k := by
  have := first_pos c
  unfold loaded
  omega

/-- the size of what a reload writes -/
def reloadSize (c : VcdCoding) (n k : Nat) : Nat :=
  c.size * (loaded c n (k + 1) - loaded c n k) + if loaded c n (k + 1) = n then 1 else 0

theorem out_length {c : VcdCoding} {l : List Byte} {i q : Nat} (hq : i + q ≤ l.length) {p : Prop}
    [Decidable p] : (c.codes ((l.drop i).take q) ++ if p then [c.eof] else []).length =
      c.size * q + if p then 1 else 0 := by
  rw [List.length_append, codes_length, List.length_take, List.length_drop,
    Nat.min_eq_left (by omega)]
  split_ifs <;> rfl

/-! ## one load -/

theorem loaded_le (c : VcdCoding) (n k : Nat) : loaded c n k ≤ n := Nat.min_le_left ..

/-- behind a load -/
theorem Loaded.waits (h : Loaded m buffer k s) (hs : Sendable m buffer) : s.waits =
    if loaded m.coding (m.payload buffer).length k = (m.payload buffer).length then .waitTxe
    else .waitWl := by
  unfold Transmission.waits
  rw [h.bytesTotal, h.bytesWritten, h.fifo]
  by_cases hk : loaded m.coding (m.payload buffer).length k = (m.payload buffer).length
  · rw [if_pos hk, if_pos hk, if_neg (Nat.lt_irrefl _)]
  · have hlt := Nat.lt_of_le_of_ne (loaded_le ..) hk
    have hmul := Nat.mul_le_mul_left m.coding.size hlt.le
    rw [if_neg hk, if_neg hk, wire_length (hs.ne_nil hlt), List.length_cons, codes_length,
      List.length_take, Nat.min_eq_left hlt.le, if_pos (by omega)]

/-- what a call of the coder must return for the load to be right -/
structure Portion (m : VcdMode) (buffer : List Byte) (k : Nat) (r : VcdCode) : Prop where
  ret : r.ret = .errNone ∨ r.ret = .errAgain
  frame : r.buffer = m.frame buffer
  total : r.subbitTotalLength = (m.wire buffer).length
  offset : r.offset = loaded m.coding (m.payload buffer).length k
  pos : 0 < r.out.length
  le : r.out.length ≤ fifoDepth

theorem Portion.ok {r : VcdCode} (h : Portion m buffer k r) :
    ¬ (r.ret ≠ .errNone ∧ r.ret ≠ .errAgain) := fun hn => h.ret.elim hn.1 hn.2

theorem prepTx_eq {r : VcdCode}
    (hr : rfalIso15693VCDCode m buffer 0 (min fifoDepth codingBufferSize) = r)
    (h : Portion m buffer 0 r) :
    (Transmission.start buffer).prepTx m =
      ⟨r.buffer, r.offset, r.subbitTotalLength, r.out.length,
        rfalConvBytesToBits r.subbitTotalLength % 65536, [r.out], .errBusy,
        if r.out.length < r.subbitTotalLength then .waitWl else .waitTxe⟩ := by
  unfold Transmission.prepTx
  dsimp only [Transmission.start]
  rw [hr, if_neg h.ok, writeFifo_eq h.pos h.le]
  rfl

theorem reloadFifo_eq {r : VcdCode} {offset left : Nat} (hoff : s.nfcvOffset = offset)
    (hleft : s.bytesTotal - s.bytesWritten = left)
    (hr : rfalIso15693VCDCode m s.txBuf offset (min (min left fifoOutWl) codingBufferSize) = r)
    (h : Portion m buffer k r) :
    s.reloadFifo m =
      { s with
        txBuf := r.buffer, nfcvOffset := r.offset, bytesTotal := r.subbitTotalLength
        fifo := s.fifo ++ [r.out], bytesWritten := s.bytesWritten + r.out.length
        state := if s.bytesWritten + r.out.length < r.subbitTotalLength then .waitWl
          else .waitTxe } := by
  unfold Transmission.reloadFifo
  dsimp only
  rw [hoff, hleft, hr, if_neg h.ok, writeFifo_eq h.pos h.le]
  rfl

/-- the portions from the start on -/
theorem codes_full {n : Nat} {l : List Byte} (h : n = l.length) (c : VcdCoding) :
    c.codes (l.take n) = c.codes l := by rw [h, List.take_length]

/-- the frame as far as it is coded -/
theorem wire_cut (hne : buffer ≠ []) (n : Nat) :
    m.coding.sof :: (m.coding.codes ((m.payload buffer).take n) ++
        if n = (m.payload buffer).length then [m.coding.eof] else []) =
      if n = (m.payload buffer).length then m.wire buffer
      else m.coding.sof :: m.coding.codes ((m.payload buffer).take n) := by
  split_ifs with hlast
  · rw [codes_full hlast, VcdMode.wire, if_neg hne]
    rfl
  · rw [List.append_nil]

/-- the end of a frame alone is loaded at once -/
theorem prepTx_nil (hs : Sendable m []) :
    Loaded m [] 0 ((Transmission.start []).prepTx m) ∧
      ((Transmission.start []).prepTx m).status = .errBusy ∧
      ((Transmission.start []).prepTx m).state = ((Transmission.start []).prepTx m).waits := by
  have hcrc := hs.1.resolve_left fun hn => hn rfl
  have hcall := vcdCode_nil m (min fifoDepth codingBufferSize) hcrc
    (by unfold VcdMode.minSize; cases m.coding <;> decide)
  have hframe : m.frame [] = [] := List.eq_nil_of_length_eq_zero (frame_length m [])
  have hzero : loaded m.coding (m.payload []).length 0 = (m.payload []).length := by
    rw [payload_nil hcrc]
    exact Nat.zero_min _
  have hpayload : (m.payload []).length = 0 := by rw [payload_nil hcrc]; rfl
  rw [prepTx_eq hcall ⟨.inl rfl, hframe.symm, rfl, (hzero.trans hpayload).symm, Nat.one_pos,
    show 1 ≤ 512 by decide⟩]
  exact ⟨⟨hframe.symm, (hzero.trans hpayload).symm, rfl, rfl, (if_pos hzero).symm, rfl,
    List.forall_mem_singleton.mpr (show 1 ≤ 512 by decide), rfl⟩, rfl, rfl⟩

/-- the first load -/
theorem prepTx_loaded (hs : Sendable m buffer) :
    Loaded m buffer 0 ((Transmission.start buffer).prepTx m) ∧
      ((Transmission.start buffer).prepTx m).status = .errBusy ∧
      ((Transmission.start buffer).prepTx m).state =
        ((Transmission.start buffer).prepTx m).waits := by
  by_cases hne : buffer = []
  · subst hne
    exact prepTx_nil hs
  · have hq : loaded m.coding (m.payload buffer).length 0 = min ((m.payload buffer).length - 0)
        ((min fifoDepth codingBufferSize - if 0 = 0 then 1 else 0) / m.coding.size) := by
      rw [loaded, Nat.zero_mul]
      rfl
    have hcall := vcdCode_eq m hne (.inl ⟨rfl, rfl⟩) (Nat.zero_le _)
      (by unfold VcdMode.minSize; cases m.coding <;> decide) hq
    rw [Nat.zero_add, List.drop_zero, if_pos rfl, subbits_eq hne hs.2] at hcall
    have hle := loaded_le m.coding (m.payload buffer).length 0
    have hfirst : loaded m.coding (m.payload buffer).length 0 ≤ m.coding.first := by
      unfold loaded
      omega
    generalize hk : loaded m.coding (m.payload buffer).length 0 = q at hcall hle hfirst
    have hout : ([m.coding.sof] ++ m.coding.codes ((m.payload buffer).take q) ++
        if q = (m.payload buffer).length then [m.coding.eof] else []) =
          if q = (m.payload buffer).length then m.wire buffer
          else m.coding.sof :: m.coding.codes ((m.payload buffer).take q) :=
      (List.append_assoc ..).trans (wire_cut hne q)
    rw [hout] at hcall
    have hlen : (if q = (m.payload buffer).length then m.wire buffer
        else m.coding.sof :: m.coding.codes ((m.payload buffer).take q)).length =
          1 + m.coding.size * q + if q = (m.payload buffer).length then 1 else 0 := by
      split_ifs with hlast
      · rw [wire_length hne, hlast]
        omega
      · rw [List.length_cons, codes_length, List.length_take, Nat.min_eq_left hle, Nat.add_comm]
        rfl
    have hmul := Nat.mul_le_mul_left m.coding.size hfirst
    have hdepth := first_le m.coding
    have hbound : 1 + m.coding.size * q + (if q = (m.payload buffer).length then 1 else 0) ≤
        fifoDepth := by
      split_ifs <;> omega
    rw [prepTx_eq hcall ⟨by dsimp only; split_ifs; exacts [.inl rfl, .inr rfl], rfl, rfl, hk.symm,
      by dsimp only; omega, hlen.le.trans hbound⟩]
    exact ⟨⟨rfl, hk.symm, rfl, by simp, by simp [hk], rfl,
      List.forall_mem_singleton.mpr (hlen.le.trans hbound), rfl⟩, rfl, rfl⟩

/-- what is left of the frame -/
theorem Loaded.left (h : Loaded m buffer k s) (hs : Sendable m buffer)
    (hk : loaded m.coding (m.payload buffer).length k < (m.payload buffer).length) :
    s.bytesTotal - s.bytesWritten = 1 + m.coding.size *
      ((m.payload buffer).length - loaded m.coding (m.payload buffer).length k) := by
  have hmul := Nat.mul_le_mul_left m.coding.size hk.le
  rw [h.bytesTotal, h.bytesWritten, h.fifo, if_neg hk.ne, wire_length (hs.ne_nil hk),
    List.length_cons, codes_length, List.length_take, Nat.min_eq_left hk.le, Nat.mul_sub]
  omega

theorem minSize_le (m : VcdMode) {offset r : Nat} (hoff : 0 < offset) (hr : 0 < r) :
    m.minSize offset ≤ min (min (1 + m.coding.size * r) fifoOutWl) codingBufferSize := by
  unfold VcdMode.minSize
  cases m.coding with
  | one4 =>
    show 5 ≤ min (min (1 + 4 * r) 312) 520
    omega
  | one256 =>
    show (if offset ≠ 0 then 64 else 65) ≤ min (min (1 + 64 * r) 312) 520
    rw [if_pos (by omega)]
    omega

/-- **A reload** writes the next portion. -/
theorem reloadFifo_loaded (hs : Sendable m buffer) (h : Loaded m buffer k s)
    (hk : loaded m.coding (m.payload buffer).length k < (m.payload buffer).length) :
    Loaded m buffer (k + 1) (s.reloadFifo m) ∧ (s.reloadFifo m).status = s.status ∧
      (s.reloadFifo m).state = (s.reloadFifo m).waits ∧
      ∃ out, (s.reloadFifo m).fifo = s.fifo ++ [out] ∧
        out.length = reloadSize m.coding (m.payload buffer).length k := by
  have hne := hs.ne_nil hk
  have hpos := loaded_pos (k := k) (c := m.coding) (show 0 < (m.payload buffer).length by omega)
  have hsucc := loaded_succ hk
  have hmore := Nat.mul_le_mul_left m.coding.size
    (Nat.min_le_right ((m.payload buffer).length - loaded m.coding (m.payload buffer).length k)
      m.coding.more)
  have hmoreLe := more_le m.coding
  have hpos' : 0 < min ((m.payload buffer).length - loaded m.coding (m.payload buffer).length k)
      m.coding.more := Nat.lt_min.mpr ⟨by omega, more_pos m.coding⟩
  have hroom := room_eq m.coding
    ((m.payload buffer).length - loaded m.coding (m.payload buffer).length k)
  have hcall := vcdCode_eq m (b := s.txBuf) hne (.inr ⟨hpos, h.txBuf⟩) hk.le
    (minSize_le m hpos (show 0 < (m.payload buffer).length -
      loaded m.coding (m.payload buffer).length k by omega))
    (q := min ((m.payload buffer).length - loaded m.coding (m.payload buffer).length k)
      m.coding.more) (by rw [if_neg hpos.ne', Nat.sub_zero]; exact hroom.symm)
  rw [if_neg hpos.ne', List.nil_append, ← hsucc, subbits_eq hne hs.2] at hcall
  have hle := loaded_le m.coding (m.payload buffer).length (k + 1)
  generalize hq : min ((m.payload buffer).length - loaded m.coding (m.payload buffer).length k)
    m.coding.more = q at hsucc hmore hpos' hcall
  have hlen := out_length (c := m.coding) (l := m.payload buffer)
    (i := loaded m.coding (m.payload buffer).length k) (q := q) (hsucc ▸ hle)
    (p := loaded m.coding (m.payload buffer).length (k + 1) = (m.payload buffer).length)
  have hsize : m.coding.size * q = m.coding.size *
      (loaded m.coding (m.payload buffer).length (k + 1) -
        loaded m.coding (m.payload buffer).length k) := by
    rw [hsucc, Nat.add_sub_cancel_left]
  have hjoin : s.fifo.flatten ++ (m.coding.codes (((m.payload buffer).drop
        (loaded m.coding (m.payload buffer).length k)).take q) ++
      if loaded m.coding (m.payload buffer).length (k + 1) = (m.payload buffer).length then
        [m.coding.eof] else []) =
      if loaded m.coding (m.payload buffer).length (k + 1) = (m.payload buffer).length then
        m.wire buffer
      else m.coding.sof :: m.coding.codes ((m.payload buffer).take
        (loaded m.coding (m.payload buffer).length (k + 1))) := by
    rw [h.fifo, if_neg hk.ne, List.cons_append, ← List.append_assoc, ← codes_append,
      ← List.take_add, ← hsucc]
    exact wire_cut hne _
  have hbound : m.coding.size * q + (if loaded m.coding (m.payload buffer).length (k + 1) =
      (m.payload buffer).length then 1 else 0) ≤ fifoDepth := by
    have hdepth : fifoOutWl + 1 ≤ fifoDepth := by decide
    split_ifs <;> omega
  have hmul : 0 < m.coding.size * q := Nat.mul_pos (size_pos m.coding) hpos'
  rw [reloadFifo_eq h.nfcvOffset (h.left hs hk) hcall
    ⟨by dsimp only; split_ifs; exacts [.inl rfl, .inr rfl], rfl, rfl, rfl,
      by dsimp only; rw [hlen]; omega, hlen.le.trans hbound⟩]
  refine ⟨⟨rfl, rfl, rfl, ?_, ?_, ?_, ?_, h.numTxBits⟩, rfl, rfl, _, rfl, ?_⟩
  · dsimp only
    rw [h.bytesWritten, List.flatten_append, List.flatten_singleton]
    exact List.length_append.symm
  · dsimp only
    rw [List.flatten_append, List.flatten_singleton, hjoin]
  · dsimp only
    rw [List.length_append, h.loads]
    rfl
  · intro l hl
    rcases List.mem_append.mp hl with hl | hl
    · exact h.fits l hl
    · rw [List.mem_singleton.mp hl]
      exact hlen.le.trans hbound
  · rw [hlen, hsize]
    rfl

/-! ## a run -/

/-- the states in which the frame is not loaded yet, and in which it is -/
def Phase (complete : Prop) (s : Transmission) : Prop :=
  match s.state with
  | .prepTx => False
  | .waitWl => ¬ complete ∧ s.status = .errBusy
  | .waitTxe => complete ∧ s.status = .errBusy
  | .done => complete ∧ s.status = .errBusy
  | .fail => ¬ complete ∧ s.status = errIo

structure Running (m : VcdMode) (buffer : List Byte) (k : Nat) (s : Transmission) : Prop where
  data : Loaded m buffer k s
  sizes : ∀ j < k, loaded m.coding (m.payload buffer).length j < (m.payload buffer).length ∧
    ∃ l, s.fifo[j + 1]? = some l ∧ l.length = reloadSize m.coding (m.payload buffer).length j
  phase : Phase (loaded m.coding (m.payload buffer).length k = (m.payload buffer).length) s

theorem Phase.of_waits {complete : Prop} [Decidable complete] (hstatus : s.status = .errBusy)
    (hstate : s.state = if complete then .waitTxe else .waitWl) : Phase complete s := by
  unfold Phase
  rw [hstate]
  split_ifs with h
  · exact ⟨h, hstatus⟩
  · exact ⟨h, hstatus⟩

theorem prepTx_running (hs : Sendable m buffer) :
    Running m buffer 0 ((Transmission.start buffer).prepTx m) := by
  obtain ⟨hl, hstatus, hstate⟩ := prepTx_loaded hs
  refine ⟨hl, fun j hj => absurd hj (Nat.not_lt_zero j), Phase.of_waits hstatus ?_⟩
  rw [hstate, hl.waits hs]

theorem Running.reload (hs : Sendable m buffer) (h : Running m buffer k s)
    (hst : s.state = .waitWl) : Running m buffer (k + 1) (s.reloadFifo m) := by
  have hphase := h.phase
  unfold Phase at hphase
  rw [hst] at hphase
  have hlt := Nat.lt_of_le_of_ne (loaded_le ..) hphase.1
  obtain ⟨hl, hstatus, hstate, out, hfifo, hout⟩ := reloadFifo_loaded hs h.data hlt
  refine ⟨hl, ?_, Phase.of_waits (hstatus.trans hphase.2) (by rw [hstate, hl.waits hs])⟩
  intro j hj
  rw [hfifo]
  by_cases hjk : j < k
  · obtain ⟨hopen, l, hget, hlen⟩ := h.sizes j hjk
    refine ⟨hopen, l, ?_, hlen⟩
    rw [List.getElem?_append_left (by rw [h.data.loads]; omega), hget]
  · have heq : j = k := by omega
    subst heq
    refine ⟨hlt, out, ?_, hout⟩
    rw [List.getElem?_append_right (by rw [h.data.loads]), h.data.loads, Nat.sub_self]
    rfl

/-- **One call of the worker.** -/
theorem Running.worker (hs : Sendable m buffer) (h : Running m buffer k s) (irqs : Irqs) :
    Running m buffer k (s.worker m irqs) ∨ Running m buffer (k + 1) (s.worker m irqs) := by
  have hphase := h.phase
  unfold Transmission.worker
  cases hst : s.state with
  | prepTx =>
    unfold Phase at hphase
    rw [hst] at hphase
    exact hphase.elim
  | waitWl =>
    dsimp only
    unfold Phase at hphase
    rw [hst] at hphase
    split_ifs
    · exact .inl h
    · exact .inr (h.reload hs hst)
    · exact .inl ⟨⟨h.data.txBuf, h.data.nfcvOffset, h.data.bytesTotal, h.data.bytesWritten,
        h.data.fifo, h.data.loads, h.data.fits, h.data.numTxBits⟩, h.sizes, hphase.1, rfl⟩
  | waitTxe =>
    dsimp only
    unfold Phase at hphase
    rw [hst] at hphase
    split_ifs
    · exact .inl ⟨⟨h.data.txBuf, h.data.nfcvOffset, h.data.bytesTotal, h.data.bytesWritten,
        h.data.fifo, h.data.loads, h.data.fits, h.data.numTxBits⟩, h.sizes, hphase⟩
    · exact .inl h
  | done => exact .inl h
  | fail => exact .inl h

theorem Running.run (hs : Sendable m buffer) (h : Running m buffer k s) (irqs : List Irqs) :
    ∃ k', Running m buffer k' (irqs.foldl (Transmission.worker m) s) := by
  induction irqs generalizing k s with
  | nil => exact ⟨k, h⟩
  | cons i irqs ih =>
    rcases h.worker hs i with hw | hw
    · exact ih hw
    · exact ih hw

/-- the calls of the worker from the start on; the first one does not look at the interrupts -/
def transmit (m : VcdMode) (buffer : List Byte) (irqs : List Irqs) : Transmission :=
  irqs.foldl (Transmission.worker m) ((Transmission.start buffer).prepTx m)

theorem Loaded.complete_iff (h : Loaded m buffer k s) (hs : Sendable m buffer) :
    s.fifo.flatten = m.wire buffer ↔
      loaded m.coding (m.payload buffer).length k = (m.payload buffer).length := by
  rw [h.fifo]
  by_cases hk : loaded m.coding (m.payload buffer).length k = (m.payload buffer).length
  · rw [if_pos hk]
    exact ⟨fun _ => hk, fun _ => rfl⟩
  · rw [if_neg hk]
    refine ⟨fun heq => ?_, fun hn => absurd hn hk⟩
    have hlt := Nat.lt_of_le_of_ne (loaded_le ..) hk
    have hmul := Nat.mul_le_mul_left m.coding.size hlt.le
    have hlen := congrArg List.length heq
    rw [wire_length (hs.ne_nil hlt), List.length_cons, codes_length, List.length_take,
      Nat.min_eq_left hlt.le] at hlen
    omega

theorem Loaded.fifo_prefix (h : Loaded m buffer k s) (hs : Sendable m buffer) :
    s.fifo.flatten <+: m.wire buffer := by
  rw [h.fifo]
  split_ifs with hk
  · exact List.prefix_rfl
  · have hlt := Nat.lt_of_le_of_ne (loaded_le ..) hk
    rw [VcdMode.wire, if_neg (hs.ne_nil hlt), List.cons_append, List.cons_prefix_cons]
    refine ⟨rfl, ?_⟩
    obtain ⟨rest, hrest⟩ := List.take_prefix (loaded m.coding (m.payload buffer).length k)
      (m.payload buffer)
    conv_rhs => rw [← hrest, codes_append, List.append_assoc]
    exact List.prefix_append ..

/-- the reload that writes a byte more than there is room for -/
theorem reloadSize_le (c : VcdCoding) {n j : Nat} (hj : loaded c n j < n) :
    reloadSize c n j ≤ fifoOutWl + 1 ∧
      (reloadSize c n j = fifoOutWl + 1 ↔ c = .one4 ∧ n = 127 + 78 * (j + 1)) := by
  have hsucc := loaded_succ hj
  have hlt : c.first + j * c.more < n := by
    unfold loaded at hj
    omega
  unfold reloadSize
  rw [hsucc, Nat.add_sub_cancel_left, loaded, Nat.min_eq_right hlt.le]
  cases c with
  | one4 =>
    change 127 + j * 78 < n at hlt
    show 4 * min (n - (127 + j * 78)) 78 +
        (if 127 + j * 78 + min (n - (127 + j * 78)) 78 = n then 1 else 0) ≤ 313 ∧
      (4 * min (n - (127 + j * 78)) 78 +
        (if 127 + j * 78 + min (n - (127 + j * 78)) 78 = n then 1 else 0) = 313 ↔ _)
    rw [eq_self, true_and]
    split_ifs <;> omega
  | one256 =>
    show 64 * min (n - (7 + j * 4)) 4 +
        (if 7 + j * 4 + min (n - (7 + j * 4)) 4 = n then 1 else 0) ≤ 313 ∧
      (64 * min (n - (7 + j * 4)) 4 +
        (if 7 + j * 4 + min (n - (7 + j * 4)) 4 = n then 1 else 0) = 313 ↔ _)
    have hone : ¬ (VcdCoding.one256 = .one4 ∧ n = 127 + 78 * (j + 1)) := fun h => nomatch h.1
    rw [iff_false_intro hone, iff_false]
    split_ifs <;> omega

theorem Running.loaded_iff (h : Running m buffer k s) :
    loaded m.coding (m.payload buffer).length k = (m.payload buffer).length ↔
      s.state = .waitTxe ∨ s.state = .done := by
  have hphase := h.phase
  unfold Phase at hphase
  cases hst : s.state with
  | prepTx =>
    rw [hst] at hphase
    exact hphase.elim
  | waitWl =>
    rw [hst] at hphase
    exact ⟨fun hn => absurd hn hphase.1, fun hn => hn.elim (fun hn => (nomatch hn))
      fun hn => (nomatch hn)⟩
  | waitTxe =>
    rw [hst] at hphase
    exact ⟨fun _ => .inl rfl, fun _ => hphase.1⟩
  | done =>
    rw [hst] at hphase
    exact ⟨fun _ => .inr rfl, fun _ => hphase.1⟩
  | fail =>
    rw [hst] at hphase
    exact ⟨fun hn => absurd hn hphase.1, fun hn => hn.elim (fun hn => (nomatch hn))
      fun hn => (nomatch hn)⟩

/-- **Whenever the chip interrupts**, what has been loaded is the beginning of the frame, and the
transmission counts as loaded or done exactly when it is all of it.  No load but the first is
longer than the room that the water level leaves, except the one that writes the end of the frame
behind a full portion: that one is a byte longer. -/
theorem transmission_safe (hs : Sendable m buffer) (irqs : List Irqs) :
    (transmit m buffer irqs).fifo.flatten <+: m.wire buffer ∧
      ((transmit m buffer irqs).fifo.flatten = m.wire buffer ↔
        (transmit m buffer irqs).state = .waitTxe ∨ (transmit m buffer irqs).state = .done) ∧
      ((transmit m buffer irqs).state = .fail → (transmit m buffer irqs).status = errIo) ∧
      (∀ l ∈ (transmit m buffer irqs).fifo, l.length ≤ fifoDepth) ∧
      ∀ i l, (transmit m buffer irqs).fifo[i + 1]? = some l → l.length ≤ fifoOutWl + 1 ∧
        (l.length = fifoOutWl + 1 ↔
          m.coding = .one4 ∧ (m.payload buffer).length = 127 + 78 * (i + 1)) := by
  obtain ⟨k, h⟩ := (prepTx_running hs).run hs irqs
  refine ⟨h.data.fifo_prefix hs, (h.data.complete_iff hs).trans h.loaded_iff, ?_, h.data.fits, ?_⟩
  · intro hfail
    have hphase := h.phase
    unfold Phase at hphase
    rw [show (irqs.foldl (Transmission.worker m) ((Transmission.start buffer).prepTx m)).state =
      .fail from hfail] at hphase
    exact hphase.2
  · intro i l hl
    have hlen := (List.getElem?_eq_some_iff.mp hl).1
    rw [transmit, h.data.loads] at hlen
    obtain ⟨hopen, l', hl', hsize⟩ := h.sizes i (by omega)
    rw [show l = l' from Option.some.inj (hl.symm.trans hl'), hsize]
    exact reloadSize_le m.coding hopen

/-- a frame as it is sent by default, in one of four -/
def autoMode : VcdMode := ⟨.one4, true, true, false⟩

def longFrame : List Byte := List.replicate 203 0

theorem longFrame_payload : (autoMode.payload longFrame).length = 205 := by
  rw [payload_length, longFrame, List.length_replicate]
  rfl

theorem longFrame_sendable : Sendable autoMode longFrame := by
  have hne : longFrame ≠ [] := List.cons_ne_nil _ _
  refine ⟨.inl hne, ?_⟩
  rw [wire_length hne, longFrame_payload]
  decide

/-- the frame whose reload is a byte longer than the room -/
theorem transmission_safe_overfull :
    ∃ l, (transmit autoMode longFrame [⟨true, false⟩]).fifo[1]? = some l ∧
      l.length = fifoOutWl + 1 := by
  have hlt : 1 < (transmit autoMode longFrame [⟨true, false⟩]).fifo.length := by decide +kernel
  have hl := List.getElem?_eq_getElem hlt
  refine ⟨_, hl, ((transmission_safe longFrame_sendable _).2.2.2.2 0 _ hl).2.mpr
    ⟨rfl, longFrame_payload⟩⟩

/-! ## the end of a run -/

/-- the reloads that a frame needs -/
def VcdCoding.reloads (c : VcdCoding) (n : Nat) : Nat := Chunks.count c.more (n - c.first)

theorem loaded_iff_reloads (c : VcdCoding) (n k : Nat) :
    loaded c n k = n ↔ c.reloads n ≤ k := by
  have hlt := Chunks.lt_count (f := c.more) (n := n - c.first) (j := k) (more_pos c)
  unfold loaded VcdCoding.reloads
  omega

theorem waits_or (s : Transmission) : s.waits = .waitWl ∨ s.waits = .waitTxe := by
  unfold Transmission.waits
  split_ifs
  · exact .inl rfl
  · exact .inr rfl

theorem prepTx_waits (hs : Sendable m buffer) :
    ((Transmission.start buffer).prepTx m).state = .waitWl ∨
      ((Transmission.start buffer).prepTx m).state = .waitTxe := by
  rw [(prepTx_loaded hs).2.2]
  exact waits_or _

theorem Running.reload_waits (hs : Sendable m buffer) (h : Running m buffer k s)
    (hst : s.state = .waitWl) :
    (s.reloadFifo m).state = .waitWl ∨ (s.reloadFifo m).state = .waitTxe := by
  have hphase := h.phase
  unfold Phase at hphase
  rw [hst] at hphase
  rw [(reloadFifo_loaded hs h.data (Nat.lt_of_le_of_ne (loaded_le ..) hphase.1)).2.2.1]
  exact waits_or _

/-- without an end of transmission the worker reloads at every water level that it needs -/
theorem Running.waiting (hs : Sendable m buffer) {irqs : List Irqs}
    (htxe : ∀ i ∈ irqs, i.txe = false) (h : Running m buffer k s)
    (hst : s.state = .waitWl ∨ s.state = .waitTxe) :
    (irqs.foldl (Transmission.worker m) s).state =
      if m.coding.reloads (m.payload buffer).length ≤ k + irqs.countP Irqs.fwl then .waitTxe
      else .waitWl := by
  induction irqs generalizing k s with
  | nil =>
    have hiff := h.loaded_iff
    rw [loaded_iff_reloads] at hiff
    rw [List.countP_nil, Nat.add_zero, List.foldl_nil]
    rcases hst with hst | hst
    · rw [if_neg fun hn => ?_, hst]
      rcases hiff.mp hn with hn | hn
      · cases hst.symm.trans hn
      · cases hst.symm.trans hn
    · rw [if_pos (hiff.mpr (.inl hst)), hst]
  | cons i irqs ih =>
    have hi := htxe i List.mem_cons_self
    have htail : ∀ i ∈ irqs, i.txe = false := fun i h => htxe i (List.mem_cons_of_mem _ h)
    rw [List.foldl_cons]
    rcases hst with hst | hst
    · by_cases hfwl : i.fwl = true
      · have hw : s.worker m i = s.reloadFifo m := by
          unfold Transmission.worker
          rw [hst]
          dsimp only
          rw [hfwl, hi, if_neg (by decide), if_pos (by decide)]
        rw [hw, ih htail (h.reload hs hst) (h.reload_waits hs hst), List.countP_cons_of_pos hfwl,
          Nat.add_right_comm, Nat.add_assoc]
      · have hw : s.worker m i = s := by
          unfold Transmission.worker
          rw [hst]
          dsimp only
          rw [if_pos ⟨eq_false_of_ne_true hfwl, hi⟩]
        rw [hw, ih htail h (.inl hst), List.countP_cons_of_neg hfwl]
    · have hw : s.worker m i = s := by
        unfold Transmission.worker
        rw [hst]
        dsimp only
        rw [hi, if_neg Bool.false_ne_true]
      have hle := (loaded_iff_reloads ..).mp (h.loaded_iff.mpr (.inl hst))
      rw [hw, ih htail h (.inr hst), if_pos (by omega), if_pos (by omega)]

/-- the whole frame is behind the calls that the chip asks for, and no sooner; an end of
transmission then ends it, and the chip has been told to send all its bits when there are less
than 65536 -/
theorem transmission_completes (hs : Sendable m buffer) {irqs : List Irqs}
    (htxe : ∀ i ∈ irqs, i.txe = false) :
    ((transmit m buffer irqs).fifo.flatten = m.wire buffer ↔
        m.coding.reloads (m.payload buffer).length ≤ irqs.countP Irqs.fwl) ∧
      (m.coding.reloads (m.payload buffer).length ≤ irqs.countP Irqs.fwl → ∀ i : Irqs,
        i.txe = true → ((transmit m buffer irqs).worker m i).state = .done) ∧
      ((transmit m buffer irqs).numTxBits = 8 * (m.wire buffer).length ↔
        (m.wire buffer).length < 8192) := by
  have hrun := prepTx_running hs
  have hst := hrun.waiting hs htxe (prepTx_waits hs)
  rw [Nat.zero_add] at hst
  obtain ⟨k, h⟩ := hrun.run hs irqs
  refine ⟨?_, ?_, ?_⟩
  · rw [transmit, h.data.complete_iff hs, h.loaded_iff, hst]
    split_ifs with hle
    · exact ⟨fun _ => hle, fun _ => .inl rfl⟩
    · exact ⟨fun hn => hn.elim (fun hn => (nomatch hn)) fun hn => (nomatch hn),
        fun hn => absurd hn hle⟩
  · intro hle i hi
    rw [if_pos hle] at hst
    unfold Transmission.worker
    rw [transmit, hst]
    dsimp only
    rw [if_pos hi]
  · rw [transmit, h.data.numTxBits]
    unfold rfalConvBytesToBits
    omega

theorem transmission_completes_long :
    (transmit autoMode longFrame [⟨true, false⟩]).fifo.flatten = autoMode.wire longFrame := by
  have htxe : ∀ i ∈ [(⟨true, false⟩ : Irqs)], i.txe = false := List.forall_mem_singleton.mpr rfl
  apply (transmission_completes longFrame_sendable htxe).1.mpr
  rw [longFrame_payload]
  decide

end

end Iso15693
end Hydra
