import HydraFw.Bbio.Exchange

/-!
# The length of the host's response

The host gives the length of its response in sixteen bits.  `bbio_processCmd` stores as many bytes
into `rxtxFrameBuf` and returns the length in bits, `ceSetTx` converts it back and copies the bytes
into the INF part of `txBuf_ce`.

* `infSize`          the size of the INF part;
* `heard`, `hearing`   the frame of an iteration, and the state in which it is answered;
* `Bounded`          what the answer to a frame owes, `BoundedStep` an iteration;
* `Fits`             the lengths for which it is so;
* `bounded_run`      the law over whole runs.
-/

namespace Hydra
namespace Bbio
open Rams Runs

/-- the INF part of `txBuf_ce` -/
def infSize : Nat := txBufLength - prologueSize

/-! ## the law -/

/-- the accesses between two states -/
def accesses (ce ce' : Ce) : List (Access Obj) := ce'.ram.trace.drop ce.ram.trace.length

/-- the events between two states -/
def events (ce ce' : Ce) : List Ev := ce'.log.drop ce.log.length

/-- what the answer to a frame owes -/
structure Bounded (ce : Ce) (a : Answers) (dataSize : Nat) : Prop where
  stores : ∀ acc ∈ accesses ce (ceAnswer ce a dataSize), acc.dir = .wr → acc.Inside objSize
  inf : ∀ acc ∈ accesses ce (ceAnswer ce a dataSize), acc.obj = .txBufCe → prologueSize ≤ acc.off
  length : rfalConvBitsToBytes
    (bbioProcessCmd ce.ram .rxtxFrameBuf dataSize .rxtxFrameBuf a.host).2.2 = a.host.length
  unsent : infSize < a.host.length → ∀ bytes, .isoTx bytes ∉ events ce (ceAnswer ce a dataSize)

/-- what `ceGetRx` reports in an iteration -/
def heard (ce : Ce) (a : Answers) : Got :=
  ceGetRx .getRxA (ceHandler (ce.woken a) a) a (objSize .rxtxFrameBuf)

/-- the state in which a frame is answered -/
def hearing (ce : Ce) (a : Answers) : Ce := (heard ce a).ce.note (.getRx (heard ce a).err)

def BoundedStep (ce : Ce) (a : Answers) : Prop :=
  (heard ce a).err = .errNone → Bounded (hearing ce a) a (heard ce a).txSize

/-- a response that fits the INF part, or one that only the frame buffer has to take -/
def Fits (ce : Ce) (a : Answers) : Prop :=
  (heard ce a).err = .errNone →
    a.host.length ≤ infSize ∨
      (heard ce a).ce.isActivatedA = false ∧ a.host.length ≤ objSize .rxtxFrameBuf

/-! ## one answer -/

section
variable {ce : Ce} {a : Answers}

theorem ceRun_eq (ce : Ce) (a : Answers) : ceRun ce a =
    if (heard ce a).err = .errNone then ceAnswer (hearing ce a) a (heard ce a).txSize
    else hearing ce a := rfl

/-- the bits of a response are its bytes again as long as they fit sixteen bits -/
theorem returned_iff (n : Nat) : rfalConvBitsToBytes (n * 8 % 2 ^ 16) = n ↔ n < 8192 := by
  unfold rfalConvBitsToBytes
  omega

/-- the stores of an answer that is not given to RFAL -/
theorem dropped_accesses (n : Nat) (ha : ce.isActivatedA = false) :
    accesses ce (ceAnswer ce a n) =
      [⟨.rd, .rxtxFrameBuf, 0, n⟩, ⟨.wr, .rxtxFrameBuf, 0, a.host.length⟩] ∧
    ∀ bytes, .isoTx bytes ∉ events ce (ceAnswer ce a n) := by
  unfold accesses events ceAnswer ceSetTx
  simp only [Ce.note, ha, if_neg Bool.false_ne_true, bbioProcessCmd, Ram.put, Ram.rd_trace]
  constructor
  · rw [List.append_assoc, List.drop_left]
    rfl
  · rw [List.append_assoc, List.drop_left]
    simp

theorem recv_trace (ce : Ce) (f : Option Reception) : (ce.recv f).ram.trace = ce.ram.trace := by
  cases f <;> rfl

@[simp] theorem recv_txBuf (ce : Ce) (f : Option Reception) :
    (ce.recv f).isoDepTxRxParam.txBuf = ce.isoDepTxRxParam.txBuf := by
  cases f <;> rfl

/-- the stores of an answer that is given to RFAL -/
theorem sent_accesses (n : Nat) (ha : ce.isActivatedA = true) (ht : ce.txReady = true)
    (hbuf : ce.isoDepTxRxParam.txBuf = .txBufCe) :
    accesses ce (ceAnswer ce a n) =
      [⟨.rd, .rxtxFrameBuf, 0, n⟩, ⟨.wr, .rxtxFrameBuf, 0, a.host.length⟩,
        ⟨.rd, .rxtxFrameBuf, 0, rfalConvBitsToBytes (a.host.length * 8 % 2 ^ 16)⟩,
        ⟨.wr, .txBufCe, prologueSize, rfalConvBitsToBytes (a.host.length * 8 % 2 ^ 16)⟩] := by
  have htrace : (ceAnswer ce a n).ram.trace = ce.ram.trace ++
      [⟨.rd, .rxtxFrameBuf, 0, n⟩, ⟨.wr, .rxtxFrameBuf, 0, a.host.length⟩,
        ⟨.rd, .rxtxFrameBuf, 0, rfalConvBitsToBytes (a.host.length * 8 % 2 ^ 16)⟩,
        ⟨.wr, .txBufCe, prologueSize, rfalConvBitsToBytes (a.host.length * 8 % 2 ^ 16)⟩] := by
    unfold ceAnswer ceSetTx ceSetTxActivated
    simp only [Ce.note, ha, ht, hbuf, if_true]
    split_ifs
    · simp only [recv_trace, bbioProcessCmd, Ram.copy_trace, Ram.put, Ram.rd_trace,
        List.append_assoc, List.cons_append, List.nil_append]
    · simp only [recv_trace, bbioProcessCmd, Ram.copy_trace, Ram.put, Ram.rd_trace,
        List.append_assoc, List.cons_append, List.nil_append]
  rw [accesses, htrace, List.drop_left]

theorem sent_event (n : Nat) (ha : ce.isActivatedA = true) (ht : ce.txReady = true) :
    ∃ bytes, .isoTx bytes ∈ events ce (ceAnswer ce a n) := by
  obtain ⟨hlog, -⟩ := answered a n ha ht
  refine ⟨given (ce.ram.rd .rxtxFrameBuf 0 n) a.host, ?_⟩
  rw [events, hlog, List.drop_left]
  simp

theorem inside_iff (o : Obj) (off n : Nat) :
    (⟨.wr, o, off, n⟩ : Access Obj).Inside objSize ↔ n = 0 ∨ off + n ≤ objSize o := Iff.rfl

/-- **One answer** of the host. -/
theorem bounded_iff (n : Nat) (ht : ce.txReady = true)
    (hbuf : ce.isoDepTxRxParam.txBuf = .txBufCe) :
    Bounded ce a n ↔ a.host.length ≤ infSize ∨
      ce.isActivatedA = false ∧ a.host.length ≤ objSize .rxtxFrameBuf := by
  have hinf : infSize = 256 := rfl
  have hframe : objSize .rxtxFrameBuf = 512 := rfl
  cases ha : ce.isActivatedA with
  | false =>
    obtain ⟨hacc, hunsent⟩ := dropped_accesses (a := a) n ha
    constructor
    · intro h
      have hstore := h.stores ⟨.wr, .rxtxFrameBuf, 0, a.host.length⟩ (by rw [hacc]; simp) rfl
      rw [inside_iff] at hstore
      right
      exact ⟨rfl, by omega⟩
    · intro h
      have hlen : a.host.length ≤ 512 := by omega
      refine ⟨?_, ?_, (returned_iff _).mpr (by omega), fun _ => hunsent⟩
      · rw [hacc]
        simp only [List.forall_mem_cons, inside_iff, hframe]
        exact ⟨Dir.noConfusion, fun _ => by omega, nofun⟩
      · rw [hacc]
        simp only [List.forall_mem_cons]
        exact ⟨Obj.noConfusion, Obj.noConfusion, nofun⟩
  | true =>
    have hacc := sent_accesses (a := a) n ha ht hbuf
    constructor
    · intro h
      left
      by_contra hlong
      obtain ⟨bytes, hsent⟩ := sent_event (a := a) n ha ht
      exact h.unsent (Nat.lt_of_not_le hlong) bytes hsent
    · intro h
      have hlen : a.host.length ≤ 256 := h.resolve_right fun h => Bool.noConfusion h.1
      have hback := (returned_iff a.host.length).mpr (by omega)
      refine ⟨?_, ?_, hback, fun hlong => absurd hlong (by omega)⟩
      · rw [hacc, hback]
        simp only [List.forall_mem_cons, inside_iff, hframe]
        exact ⟨Dir.noConfusion, fun _ => by omega, Dir.noConfusion,
          fun _ => .inr (Nat.add_le_add_left hlen prologueSize), nofun⟩
      · rw [hacc]
        simp only [List.forall_mem_cons]
        exact ⟨Obj.noConfusion, Obj.noConfusion, Obj.noConfusion, fun _ => Nat.le_refl _, nofun⟩

/-! ## runs -/

/-- a frame that is reported makes the emulator ready to answer -/
theorem heard_txReady (h : (heard ce a).err = .errNone) : (heard ce a).ce.txReady = true := by
  unfold heard ceGetRx ceGetRxActivated at h ⊢
  by_cases ha : (ceHandler (ce.woken a) a).isActivatedA = true
  · simp only [if_pos ha] at h ⊢
    cases hs : a.getRx.status <;> rw [hs] at h <;> first | rfl | exact absurd h (by simp)
  · simp only [if_neg ha] at h ⊢
    split_ifs at h ⊢ with hfirst hready
    rfl

/-- where the responses go -/
def Mapped (ce : Ce) : Prop := ce.isoDepTxRxParam.txBuf = .txBufCe

theorem Mapped.recv (h : Mapped ce) (f : Option Reception) : Mapped (ce.recv f) :=
  (recv_txBuf ce f).trans h

theorem Mapped.handled {x : Ce} (h : Mapped ce) (hh : Handled ce a x) : Mapped x := by
  have hrecv : ∀ x : Ce, Mapped x → Mapped (x.recv a.handler.rx) := fun _ hx => hx.recv _
  cases hh with
  | stay => exact h
  | heard => exact h.recv _
  | rats => exact hrecv _ h
  | hlta =>
    unfold Ce.sleepStart
    split_ifs
    · exact h
    · exact h
  | data => exact h
  | loss2 => exact h.recv a.handler.rx
  | activated => exact h.recv a.handler.rx

theorem Mapped.got (h : Mapped ce) (n : Nat) : Mapped (ceGetRx .getRxA ce a n).ce := by
  have hrecv := h.recv a.getRx.rx
  unfold ceGetRx
  by_cases ha : ce.isActivatedA = true
  · simp only [if_pos ha]
    unfold ceGetRxActivated
    cases a.getRx.status <;> exact hrecv
  · simp only [if_neg ha]
    split_ifs <;> exact h

theorem Mapped.answer (h : Mapped ce) (n : Nat) : Mapped (ceAnswer ce a n) := by
  have hrecv : ∀ x : Ce, Mapped x → Mapped (x.recv a.isoTx.rx) := fun _ hx => hx.recv _
  unfold ceAnswer ceSetTx ceSetTxActivated
  simp only
  split_ifs
  · exact hrecv _ h
  · exact hrecv _ h
  · exact h
  · exact h

theorem Mapped.hearing (h : Mapped ce) (a : Answers) : Mapped (hearing ce a) := by
  have hwoken : Mapped (ce.woken a) := by
    have h0 : Mapped { ce with ram := { ce.ram with trace := [] }, log := [] } := h
    exact h0.recv a.worker
  exact (Mapped.handled hwoken Bbio.handled).got (objSize .rxtxFrameBuf)

theorem Mapped.ceRun (h : Mapped ce) (a : Answers) : Mapped (ceRun ce a) := by
  rw [ceRun_eq]
  split_ifs
  · exact (h.hearing a).answer _
  · exact h.hearing a

/-- one iteration -/
theorem boundedStep_iff (h : Mapped ce) (a : Answers) : BoundedStep ce a ↔ Fits ce a :=
  forall_congr' fun herr =>
    bounded_iff (heard ce a).txSize (heard_txReady herr) (h.hearing a)

/-- **The length of the host's response.**  In every run the responses stay in their buffers with
the length that the host gives exactly when each fits the INF part, or goes no further than the
frame buffer and fits that. -/
theorem bounded_run (ce : Ce) (rawMode : Bool) (as : List Answers) :
    StepsOk BoundedStep ceRun (startEmulation ce rawMode) as ↔
      StepsOk Fits ceRun (startEmulation ce rawMode) as := by
  have hstart : Mapped (startEmulation ce rawMode) := rfl
  constructor
  · exact StepsOk.mono (I := Mapped) (fun _ a h _ => h.ceRun a)
      (fun _ a h => (boundedStep_iff h a).mp) hstart
  · exact StepsOk.mono (I := Mapped) (fun _ a h _ => h.ceRun a)
      (fun _ a h => (boundedStep_iff h a).mpr) hstart

end

/-- a response of 257 bytes -/
def answersLong : Answers :=
  { answersBlock with
    host := List.replicate 257 0x00
    host_lt := by rw [List.length_replicate]; decide }

/-- it goes over the end of `txBuf_ce`, and is given to RFAL -/
theorem response_behind_inf :
    ¬ ∀ (ce : Ce) (rawMode : Bool) (as : List Answers),
      StepsOk BoundedStep ceRun (startEmulation ce rawMode) as := by
  intro hall
  let active := ceRun (ceRun (startEmulation Ce.boot false) answersRats) answersActivated
  have hstart : Mapped (startEmulation Ce.boot false) := rfl
  have hmapped : Mapped active := (hstart.ceRun answersRats).ceRun answersActivated
  have hstep : BoundedStep active answersLong :=
    (hall Ce.boot false [answersRats, answersActivated, answersLong]).2.2.1
  rcases (boundedStep_iff hmapped answersLong).mp hstep (by decide +kernel) with hlen | ⟨ha, -⟩
  · exact absurd hlen (by decide +kernel)
  · exact absurd ha (by decide +kernel)

end Bbio
end Hydra
