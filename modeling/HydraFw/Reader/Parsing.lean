import HydraFw.Reader.Blocks

/-!
# The block that was received

`parse_r_tpdu` takes off what the session adds to the reader's own blocks, not what the PCB of the
card announces, and `send_tpdu` does not look at the result of the transceive.

* `Reception`        what the transceive leaves in `rx_buffer`;
* `Reception.inf`    the INF field of the block;
* `sessionHeader`    what `parse_r_tpdu` takes off;
* `received_inf`     what is in `tpdu` afterwards;
* `parsed_iff`       when that is the INF field.
-/

namespace Hydra
namespace Reader
open Rams Loops

/-- the result of `rfalTransceiveBlockingTxRx` and the bytes in `rx_buffer` -/
structure Reception where
  ok : Bool
  bytes : List UInt8
  short : bytes.length ≤ 255

/-! ## the block -/

def hasDid (pcb : UInt8) : Bool := pcb &&& 0x08 = 0x08
def hasNad (pcb : UInt8) : Bool := pcb &&& 0x04 = 0x04

/-- PCB, CID and NAD, as the PCB has it -/
def headerLength (pcb : UInt8) : Nat := 1 + (hasDid pcb).toNat + (hasNad pcb).toNat

def Reception.header (x : Reception) : Nat := headerLength (x.bytes.headD 0)

/-- a block, with all that its PCB announces -/
def Reception.Complete (x : Reception) : Prop := x.ok = true ∧ x.header ≤ x.bytes.length

instance (x : Reception) : Decidable x.Complete := inferInstanceAs (Decidable (_ ∧ _))

def Reception.inf (x : Reception) : List UInt8 := if x.Complete then x.bytes.drop x.header else []

/-! ## the reader -/

def sessionHeader (s : Session) : Nat := 1 + s.addNad.toNat + s.addCid.toNat

/-- `send_tpdu`; nothing looks at `x.ok` -/
def State.receive (r : State) (x : Reception) : State :=
  (r.sendTpdu (fun (_ : Unit) _ => ((), x.bytes)) ()).1

/-- `tpdu` holds the INF field and its length -/
structure Parsed (r : State) (x : Reception) : Prop where
  len : r.tpdu.len.toNat = x.inf.length
  inf : r.inf = x.inf

section
variable {r : State} {x : Reception}

@[simp] theorem State.inf_length (r : State) : r.inf.length = r.tpdu.len.toNat := by
  unfold State.inf State.load
  cases r.tpdu.inf with
  | null => exact List.length_replicate
  | buffer i => exact slice_length ..
  | rxBuffer i => exact slice_length ..

theorem parsed_iff_inf : Parsed r x ↔ r.inf = x.inf :=
  ⟨Parsed.inf, fun h => ⟨by rw [← h, State.inf_length], h⟩⟩

theorem sessionHeader_le (s : Session) : sessionHeader s ≤ 3 := by
  unfold sessionHeader
  have := s.addNad.toNat_le
  have := s.addCid.toNat_le
  omega

/-- where `parse_r_tpdu` leaves the pointer, and the length, cut to eight bits -/
theorem receive_tpdu (r : State) (x : Reception) :
    (r.receive x).tpdu.inf = .rxBuffer (sessionHeader r.session) ∧
      (r.receive x).tpdu.len =
        (UInt16.ofNat x.bytes.length - UInt16.ofNat (sessionHeader r.session)).toUInt8 ∧
      (r.receive x).rxBuffer = overwrite r.rxBuffer 0 x.bytes := by
  have hstored : x.bytes.take 0xFF = x.bytes := List.take_of_length_le x.short
  unfold State.receive State.sendTpdu State.transceiveTxRx State.parseRTpdu sessionHeader
  simp only [hstored]
  cases r.session.addNad <;> cases r.session.addCid <;> exact ⟨rfl, rfl, trivial⟩

theorem receive_len (r : State) (x : Reception) :
    (r.receive x).tpdu.len.toNat = (256 + x.bytes.length - sessionHeader r.session) % 256 := by
  obtain ⟨-, hlen, -⟩ := receive_tpdu r x
  have hshort := x.short
  have hle := sessionHeader_le r.session
  rw [hlen, UInt16.toNat_toUInt8, UInt16.toNat_sub, UInt16.toNat_ofNat', UInt16.toNat_ofNat']
  omega

theorem receive_inf (r : State) (x : Reception) :
    (r.receive x).inf =
      slice (overwrite r.rxBuffer 0 x.bytes) (sessionHeader r.session)
        ((256 + x.bytes.length - sessionHeader r.session) % 256) := by
  obtain ⟨hptr, -, hbuffer⟩ := receive_tpdu r x
  unfold State.inf State.load
  rw [hptr, receive_len, hbuffer]

/-- a reception that holds what the session takes off -/
theorem receive_len_long (h : sessionHeader r.session ≤ x.bytes.length) :
    (r.receive x).tpdu.len.toNat = x.bytes.length - sessionHeader r.session := by
  have hshort := x.short
  rw [receive_len]
  omega

theorem receive_inf_long (h : sessionHeader r.session ≤ x.bytes.length) :
    (r.receive x).inf = x.bytes.drop (sessionHeader r.session) := by
  have hlen : (256 + x.bytes.length - sessionHeader r.session) % 256 =
      (x.bytes.drop (sessionHeader r.session)).length := by
    rw [← receive_len, receive_len_long h, List.length_drop]
  have hpart := slice_overwrite_part r.rxBuffer 0 x.bytes
    (show sessionHeader r.session + (x.bytes.drop (sessionHeader r.session)).length ≤ _ by
      rw [List.length_drop]
      omega)
  rw [receive_inf, hlen]
  rwa [Nat.zero_add, List.take_length] at hpart

/-- and one that does not: the length wraps -/
theorem receive_len_short (h : x.bytes.length < sessionHeader r.session) :
    253 ≤ (r.receive x).tpdu.len.toNat := by
  have hle := sessionHeader_le r.session
  rw [receive_len]
  omega

theorem receive_inf_complete (h : x.Complete) :
    (r.receive x).inf = x.inf ↔ x.header = sessionHeader r.session := by
  have hinf : x.inf = x.bytes.drop x.header := if_pos h
  have hle := h.2
  constructor
  · intro heq
    have hlen := congrArg List.length heq
    rw [State.inf_length, hinf, List.length_drop] at hlen
    by_cases hlong : sessionHeader r.session ≤ x.bytes.length
    · have hsame := receive_len_long hlong
      omega
    · have hwrapped := receive_len_short (Nat.lt_of_not_le hlong)
      have hsession := sessionHeader_le r.session
      omega
  · intro heq
    rw [hinf, heq]
    exact receive_inf_long (heq ▸ hle)

theorem receive_inf_incomplete (h : ¬ x.Complete) :
    (r.receive x).inf = x.inf ↔ x.bytes.length = sessionHeader r.session := by
  have hinf : x.inf = [] := if_neg h
  rw [hinf, ← List.length_eq_zero_iff, State.inf_length]
  by_cases hlong : sessionHeader r.session ≤ x.bytes.length
  · have hsame := receive_len_long hlong
    omega
  · have hwrapped := receive_len_short (Nat.lt_of_not_le hlong)
    omega

/-- **The INF field of a block.**  For a complete block the PCB has to announce what the session
adds; a failed or short reception reads as empty only with exactly that many bytes. -/
theorem parsed_iff (r : State) (x : Reception) :
    Parsed (r.receive x) x ↔
      if x.Complete then x.header = sessionHeader r.session
      else x.bytes.length = sessionHeader r.session := by
  rw [parsed_iff_inf]
  split
  · next h => exact receive_inf_complete h
  · next h => exact receive_inf_incomplete h

/-- in the session of `send_apdu` the block has to carry a CID or a NAD, and not both -/
theorem Ready.parsed_iff_did {fsd : Fsd} {n : Bool} (h : Ready r fsd n) (hx : x.Complete) :
    Parsed (r.receive x) x ↔ hasDid (x.bytes.headD 0) ≠ hasNad (x.bytes.headD 0) := by
  have hsession : sessionHeader r.session = 2 := by
    unfold sessionHeader
    rw [h.addCid, h.addNad]
    rfl
  rw [parsed_iff, if_pos hx, hsession]
  unfold Reception.header headerLength
  cases hasDid (x.bytes.headD 0) <;> cases hasNad (x.bytes.headD 0) <;> decide

end

/-- `90 00` in a block without CID: the reader takes `90` for the CID -/
theorem cid_taken_off : ¬ ∀ (r : State) (x : Reception), Parsed (r.receive x) x := by
  intro hall
  let r : State := State.zero.initIso14443Session ⟨16, by decide, by decide⟩
  have h := (hall r ⟨true, [0x02, 0x90, 0x00], by decide⟩).inf
  rw [receive_inf_complete (by decide)] at h
  exact absurd h (by decide)

end Reader
end Hydra
