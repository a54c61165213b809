import HydraFw.Lib.Runs
import HydraFw.Ce.Session
import HydraFw.Bbio.Engine

/-!
# Frames to the host, responses to the reader

* `Exchanged`       the law of one iteration: a frame that `ceGetRx` reports is printed to the host
                    once, the host's response is given to RFAL once, and `txReady` is clear again;
* `Served`          the steps that keep it: no layer-3 frame outside the activated state, and RFAL
                    takes the response;
* `Handled`, `handled`   the ways through `ceHandler`;
* `exchanged_step`       a served iteration keeps the law, `Exchanged.served` no other does;
* `exchanged_run`        the law over whole runs.

A layer-3 frame is printed to the host, but its response is dropped, and the frame is printed
again in the next iteration.
-/

namespace Hydra
namespace Bbio
open Rams Runs

/-! ## the law -/

/-- neither a forwarded frame nor a response, nor a call of `ceGetRx` or `ceSetTx` -/
def Ev.quiet : Ev → Bool
  | .rx _ | .rats | .hlta | .restart | .activation => true
  | _ => false

def Ev.isRx : Ev → Bool
  | .rx _ => true
  | _ => false

/-- the frame that `ceGetRx` reports: at layer 4 what is in `rxBuf_ce` once RFAL has been asked -/
def reported (ce : Ce) (a : Answers) : List UInt8 :=
  let ce := ceHandler (ce.woken a) a
  if ce.isActivatedA then
    let ce := ce.recv a.getRx.rx
    slice ce.rxBuf (if ce.rawMode then 0 else prologueSize) ce.rxRcvdLen
  else slice ce.rxBuf 0 (rfalConvBitsToBytes ce.rxRcvdLen)

/-- The law of one iteration. -/
structure Exchanged (ce : Ce) (a : Answers) : Prop where
  log : ∃ pre err post, logOf ce a = pre ++ .getRx err :: post ∧ (∀ e ∈ pre, e.quiet = true) ∧
    (err ≠ .errNone → post = []) ∧
    (err = .errNone → post.filter (fun e => !e.isRx) =
      [.forward (hostFrame (reported ce a).length (reported ce a)), .setTx true, .isoTx a.host])
  txReady : (ceRun ce a).txReady = false

/-! ## the ways of an iteration -/

/-- a frame at layer 3, neither RATS nor HLTA -/
def Ce.HearsLayer3 (ce : Ce) (a : Answers) : Prop :=
  a.state.active ∧ a.dataFlag = true ∧
    rfalIsoDepIsRats ce.rxBuf (rfalConvBitsToBytes ce.rxRcvdLen) = false ∧
    rfalNfcaListenerIsSleepReq ce.rxBuf (rfalConvBitsToBytes ce.rxRcvdLen) = false

/-- the activation is complete -/
def Answers.activates (a : Answers) : Prop := a.state = .cardemu4A ∧ a.handler.status = .errNone

inductive Handled (ce : Ce) (a : Answers) : Ce → Prop
  | stay : Handled ce a ce
  | heard : Handled ce a (ce.recv a.handler.rx)
  | rats : Handled ce a (({ ce with
      isoDepTxRxParam := { ce.isoDepTxRxParam with fsx := rfalIsoDepFSxI2FSx ce.atsParam.fsci }
      log := ce.log ++ [.rats] } : Ce).recv a.handler.rx)
  | hlta : Handled ce a ((ce.note .hlta).sleepStart a.handler.status)
  | data (h : ce.HearsLayer3 a) : Handled ce a { ce with rxReady := true }
  | loss2 (ha : ce.isActivatedA = false) : Handled ce a { (ce.recv a.handler.rx).relisten with
      isActivatedA := false, isFirstA3_Frame := true }
  | activated (h : a.activates) :
      Handled ce a { (ce.recv a.handler.rx).note .activation with isActivatedA := true }

section
variable {ce : Ce} {a : Answers}

@[simp] theorem recv_isActivatedA (f : Option Reception) :
    (ce.recv f).isActivatedA = ce.isActivatedA := by cases f <;> rfl
@[simp] theorem recv_rxReady (f : Option Reception) : (ce.recv f).rxReady = ce.rxReady := by
  cases f <;> rfl
@[simp] theorem recv_txReady (f : Option Reception) : (ce.recv f).txReady = ce.txReady := by
  cases f <;> rfl

@[simp] theorem sleepStart_isActivatedA (r : ReturnCode) :
    (ce.sleepStart r).isActivatedA = ce.isActivatedA := by unfold Ce.sleepStart; split <;> rfl
@[simp] theorem sleepStart_rxReady (r : ReturnCode) :
    (ce.sleepStart r).rxReady = ce.rxReady := by unfold Ce.sleepStart; split <;> rfl
@[simp] theorem sleepStart_txReady (r : ReturnCode) :
    (ce.sleepStart r).txReady = ce.txReady := by unfold Ce.sleepStart; split <;> rfl
@[simp] theorem sleepStart_log (r : ReturnCode) :
    (ce.sleepStart r).log = ce.log := by unfold Ce.sleepStart; split <;> rfl

theorem handled_data (hs : a.state.active) (hd : a.dataFlag = true) :
    Handled ce a (handlerData ce a) := by
  unfold handlerData
  by_cases hr : rfalIsoDepIsRats ce.rxBuf (rfalConvBitsToBytes ce.rxRcvdLen) = true
  · rw [if_pos hr]
    exact .rats
  · rw [if_neg hr]
    by_cases hl : rfalNfcaListenerIsSleepReq ce.rxBuf (rfalConvBitsToBytes ce.rxRcvdLen) = true
    · rw [if_pos hl]
      exact .hlta
    · rw [if_neg hl]
      exact .data ⟨hs, hd, Bool.eq_false_iff.mpr hr, Bool.eq_false_iff.mpr hl⟩

theorem handled_cardemu4A (hs : a.state = .cardemu4A) : Handled ce a (handlerCardemu4A ce a) := by
  unfold handlerCardemu4A
  by_cases ha : ce.isActivatedA = true
  · rw [if_pos ha]
    exact .stay
  · rw [if_neg ha]
    cases h : a.handler.status with
    | errLinkLoss => exact .loss2 (Bool.eq_false_iff.mpr ha)
    | errNone => exact .activated ⟨hs, h⟩
    | _ => exact .heard

/-- **What `ceHandler` can do.** -/
theorem handled : Handled ce a (ceHandler ce a) := by
  unfold ceHandler
  by_cases he : ce.ceEnabled = true
  swap
  · rw [if_neg he]
    exact .stay
  rw [if_pos he]
  have act : a.state.active → Handled ce a (if a.dataFlag = true then handlerData ce a else ce) := by
    intro hs
    by_cases hd : a.dataFlag = true
    · rw [if_pos hd]
      exact handled_data hs hd
    · rw [if_neg hd]
      exact .stay
  cases hs : a.state with
  | activeA => exact act (by rw [hs]; trivial)
  | activeAx => exact act (by rw [hs]; trivial)
  | cardemu4A => exact handled_cardemu4A hs
  | _ => exact .stay

/-- the handler activates the card only at the end of the activation -/
theorem Handled.activatedA {h : Ce} (hh : Handled ce a h) (ha : h.isActivatedA = true) :
    ce.isActivatedA = true ∨ a.activates := by
  cases hh with
  | stay => exact Or.inl ha
  | heard => exact Or.inl ((recv_isActivatedA _).symm.trans ha)
  | rats =>
    rw [recv_isActivatedA] at ha
    exact Or.inl ha
  | hlta =>
    rw [sleepStart_isActivatedA] at ha
    exact Or.inl ha
  | data => exact Or.inl ha
  | loss2 => exact Bool.noConfusion ha
  | activated h => exact Or.inr h

/-! ## what the phases keep -/

/-- the log grows by the frame's length, if there is a frame -/
def received (f : Option Reception) : List Ev :=
  match f with
  | none => []
  | some f => [.rx f.len]

@[simp] theorem recv_log (f : Option Reception) : (ce.recv f).log = ce.log ++ received f := by
  cases f with
  | none => exact (List.append_nil _).symm
  | some f => rfl

theorem received_quiet (f : Option Reception) : ∀ e ∈ received f, e.quiet = true := by
  intro e he
  cases f with
  | none => exact absurd he List.not_mem_nil
  | some f =>
    obtain rfl := List.mem_singleton.mp he
    rfl

theorem filter_received (f : Option Reception) :
    (received f).filter (fun e => !e.isRx) = [] := by
  cases f <;> rfl

/-- before the report of `ceGetRx`: nothing answered, and no layer-3 frame outside the activated
state -/
structure Opened (ce : Ce) : Prop where
  quiet : ∀ e ∈ ce.log, e.quiet = true
  noFirst : ce.isActivatedA = false → ce.rxReady = false
  txReady : ce.txReady = false

theorem Opened.add (h : Opened ce) {ce' : Ce} (es : List Ev) (hlog : ce'.log = ce.log ++ es)
    (hes : ∀ e ∈ es, e.quiet = true) (hn : ce'.isActivatedA = false → ce'.rxReady = false)
    (ht : ce'.txReady = ce.txReady) : Opened ce' := by
  refine ⟨?_, hn, ht.trans h.txReady⟩
  intro e he
  rw [hlog] at he
  rcases List.mem_append.mp he with he | he
  · exact h.quiet e he
  · exact hes e he

theorem Opened.recv (h : Opened ce) (f : Option Reception) : Opened (ce.recv f) :=
  h.add _ (recv_log f) (received_quiet f)
    (by simp only [recv_isActivatedA, recv_rxReady]; exact h.noFirst) (recv_txReady f)

theorem Opened.handled {h : Ce} (hs : Opened ce)
    (hl : ce.isActivatedA = false → ¬ ce.HearsLayer3 a) (hh : Handled ce a h) : Opened h := by
  cases hh with
  | stay => exact hs
  | heard => exact hs.recv _
  | rats =>
    have hr : Opened ({ ce with
        isoDepTxRxParam := { ce.isoDepTxRxParam with fsx := rfalIsoDepFSxI2FSx ce.atsParam.fsci }
        log := ce.log ++ [.rats] } : Ce) := hs.add [.rats] rfl (by simp [Ev.quiet]) hs.noFirst rfl
    exact hr.recv _
  | hlta =>
    refine hs.add [.hlta] (by rw [sleepStart_log]; rfl) (by simp [Ev.quiet]) ?_
      (by rw [sleepStart_txReady]; rfl)
    simp only [sleepStart_isActivatedA, sleepStart_rxReady]
    exact hs.noFirst
  | data hi => exact hs.add [] (List.append_nil _).symm (by simp) (fun ha => absurd hi (hl ha)) rfl
  | loss2 ha =>
    refine (hs.recv a.handler.rx).add [.restart] rfl (by simp [Ev.quiet]) (fun _ => ?_) rfl
    show (ce.recv a.handler.rx).rxReady = false
    rw [recv_rxReady]
    exact hs.noFirst ha
  | activated =>
    exact (hs.recv a.handler.rx).add [.activation] rfl (by simp [Ev.quiet])
      (fun ha => absurd ha (by simp)) rfl

/-- the ways through `ceGetRx` when no layer-3 frame waits -/
inductive GotA (ce : Ce) (a : Answers) : Got → Prop
  | idle (err : ReturnCode) (n : Nat) (he : err ≠ .errNone) : GotA ce a ⟨err, ce, n⟩
  | waiting (err : ReturnCode) (n : Nat) (he : err ≠ .errNone) :
      GotA ce a ⟨err, ce.recv a.getRx.rx, n⟩
  | loss3 (err : ReturnCode) (n : Nat) (he : err ≠ .errNone) :
      GotA ce a ⟨err, { (ce.recv a.getRx.rx).relisten with
        rxReady := false, txReady := false, isActivatedA := false, isFirstA3_Frame := true }, n⟩
  | layer4 (ha : ce.isActivatedA = true) (hs : a.getRx.status = .errNone) :
      GotA ce a ⟨.errNone, (ce.recv a.getRx.rx).handOver
        (if (ce.recv a.getRx.rx).rawMode then 0 else prologueSize),
        (ce.recv a.getRx.rx).rxRcvdLen⟩

theorem gotA (hn : ce.isActivatedA = false → ce.rxReady = false) (n : Nat) :
    GotA ce a (ceGetRx .getRxA ce a n) := by
  unfold ceGetRx
  by_cases ha : ce.isActivatedA = true
  · simp only [if_pos ha]
    unfold ceGetRxActivated
    cases h : a.getRx.status with
    | errNone => exact .layer4 ha h
    | errBusy => exact .waiting .errBusy n (by decide)
    | errAgain => exact .waiting .errAgain n (by decide)
    | errNotfound => exact .loss3 .errNotfound n (by decide)
    | errSleepReq => exact .loss3 .errSleepReq n (by decide)
    | errLinkLoss => exact .loss3 .errLinkLoss n (by decide)
    | other k => exact .loss3 (.other k) n ReturnCode.noConfusion
  · have hr : ¬ ce.rxReady = true := by
      rw [hn (Bool.eq_false_iff.mpr ha)]
      exact Bool.false_ne_true
    simp only [if_neg ha, if_neg hr]
    split_ifs
    · exact .idle .errBusy 0 (by decide)
    · exact .idle .errNotfound n (by decide)

/-- the bytes of the host's response that are given to RFAL: their number has gone through sixteen
bits of bits -/
def given (ram : Mem) (host : List UInt8) : List UInt8 :=
  slice ((ram.put .rxtxFrameBuf 0 host).mem .rxtxFrameBuf) 0
    (rfalConvBitsToBytes (host.length * 8 % 2 ^ 16))

theorem given_eq_iff (ram : Mem) (host : List UInt8) :
    given ram host = host ↔ host.length < 8192 := by
  unfold given
  constructor
  · intro h
    have hl := congrArg List.length h
    rw [slice_length] at hl
    unfold rfalConvBitsToBytes at hl
    omega
  · intro h
    have hbytes : rfalConvBitsToBytes (host.length * 8 % 2 ^ 16) = host.length := by
      rw [Nat.mod_eq_of_lt (by omega), Nat.mul_comm]
      exact rfalConvBitsToBytes_mul _ (by omega)
    rw [hbytes, Ram.slice_put]

/-- the answer to a frame in the activated state -/
theorem answered (a : Answers) (n : Nat) (ha : ce.isActivatedA = true) (ht : ce.txReady = true) :
    (ceAnswer ce a n).log = ce.log ++
        ([.forward (hostFrame n (slice (ce.ram.mem .rxtxFrameBuf) 0 n)), .setTx true,
          .isoTx (given (ce.ram.rd .rxtxFrameBuf 0 n) a.host)] ++ received a.isoTx.rx) ∧
      ((ceAnswer ce a n).txReady = false ↔ a.isoTx.status = .errNone) ∧
      (ceAnswer ce a n).isActivatedA = true := by
  unfold ceAnswer bbioProcessCmd ceSetTx ceSetTxActivated
  simp only [Ce.note, ha, ht, if_true]
  have hlog : ∀ ce' : Ce, ce'.log = ce.log ++ [.forward (hostFrame n
      (slice (ce.ram.mem .rxtxFrameBuf) 0 n))] ++ [.setTx true] ++ [.isoTx (given
        (ce.ram.rd .rxtxFrameBuf 0 n) a.host)] → (ce'.recv a.isoTx.rx).log = ce.log ++
        ([.forward (hostFrame n (slice (ce.ram.mem .rxtxFrameBuf) 0 n)), .setTx true,
          .isoTx (given (ce.ram.rd .rxtxFrameBuf 0 n) a.host)] ++ received a.isoTx.rx) := by
    intro ce' h
    rw [recv_log, h]
    simp only [List.append_assoc, List.cons_append, List.nil_append]
  by_cases hs : a.isoTx.status = .errNone
  · simp only [if_pos hs]
    refine ⟨hlog _ ?_, iff_of_true trivial hs, recv_isActivatedA _⟩
    rw [Ram.slice_copy]
    rfl
  · simp only [if_neg hs]
    refine ⟨hlog _ ?_, iff_of_false ?_ hs, recv_isActivatedA _⟩
    · rw [Ram.slice_copy]
      rfl
    · rw [recv_txReady]
      simp

end

/-! ## one iteration -/

/-- A step without a layer-3 frame outside the activated state, whose response, if there is a
layer-4 frame to answer, is shorter than 8192 bytes and accepted by `rfalIsoDepStartTransceive`. -/
def Served (ce : Ce) (a : Answers) : Prop :=
  (ce.isActivatedA = false → ¬ (ce.woken a).HearsLayer3 a) ∧
    (ce.isActivatedA = true ∨ a.activates → a.getRx.status = .errNone →
      a.isoTx.status = .errNone ∧ a.host.length < 8192)

/-- between two iterations -/
structure Waiting (ce : Ce) : Prop where
  noFirst : ce.isActivatedA = false → ce.rxReady = false
  txReady : ce.txReady = false

/-- the state in which a frame reported at layer 4 is printed to the host -/
def forwarding (ce : Ce) (a : Answers) : Ce :=
  let ce := (ceHandler (ce.woken a) a).recv a.getRx.rx
  (ce.handOver (if ce.rawMode then 0 else prologueSize)).note (.getRx .errNone)

theorem exchanged_layer4 {ce : Ce} {a : Answers}
    (ha : (ceHandler (ce.woken a) a).isActivatedA = true) (hiso : a.isoTx.status = .errNone)
    (hlt : a.host.length < 8192)
    (hq : ∀ e ∈ ((ceHandler (ce.woken a) a).recv a.getRx.rx).log, e.quiet = true)
    (hgot : ceGetRx .getRxA (ceHandler (ce.woken a) a) a (objSize .rxtxFrameBuf) =
      ⟨.errNone, ((ceHandler (ce.woken a) a).recv a.getRx.rx).handOver
        (if ((ceHandler (ce.woken a) a).recv a.getRx.rx).rawMode then 0 else prologueSize),
        ((ceHandler (ce.woken a) a).recv a.getRx.rx).rxRcvdLen⟩) :
    Exchanged ce a ∧ Waiting (ceRun ce a) := by
  have hrun : ceRun ce a = ceAnswer (forwarding ce a) a (forwarding ce a).rxRcvdLen := by
    unfold ceRun
    simp only [hgot, if_true]
    rfl
  have ha' : (forwarding ce a).isActivatedA = true := by
    show ((ceHandler (ce.woken a) a).recv a.getRx.rx).isActivatedA = true
    rw [recv_isActivatedA]
    exact ha
  have hrep : reported ce a
      = slice ((forwarding ce a).ram.mem .rxtxFrameBuf) 0 (forwarding ce a).rxRcvdLen :=
    (if_pos ha).trans (Ram.slice_copy ..).symm
  obtain ⟨hlog, htx, hact⟩ := answered a (forwarding ce a).rxRcvdLen ha' rfl
  rw [← hrep, (given_eq_iff _ _).mpr hlt, ← hrun] at hlog
  rw [← hrun] at htx hact
  replace htx := htx.mpr hiso
  have hlen : (reported ce a).length = (forwarding ce a).rxRcvdLen := by
    rw [hrep, slice_length]
  rw [← hlen] at hlog
  refine ⟨⟨⟨_, .errNone, _, hlog.trans (List.append_assoc ..), hq, fun h0 => absurd rfl h0,
    fun _ => ?_⟩, htx⟩, ⟨fun h0 => absurd (hact.symm.trans h0) (by decide), htx⟩⟩
  show List.filter _ (_ ++ received a.isoTx.rx) = _
  rw [List.filter_append, filter_received, List.append_nil]
  rfl

/-- **One iteration** that is served keeps the law. -/
theorem exchanged_step {ce : Ce} {a : Answers} (hw : Waiting ce) (hs : Served ce a) :
    Exchanged ce a ∧ Waiting (ceRun ce a) := by
  have hwoken : Opened (ce.woken a) := by
    have h0 : Opened { ce with ram := { ce.ram with trace := [] }, log := [] } :=
      ⟨fun e he => absurd he List.not_mem_nil, hw.noFirst, hw.txReady⟩
    exact h0.recv a.worker
  have hwa : (ce.woken a).isActivatedA = ce.isActivatedA := recv_isActivatedA _
  have hl : (ce.woken a).isActivatedA = false → ¬ (ce.woken a).HearsLayer3 a :=
    fun ha => hs.1 (hwa.symm.trans ha)
  have ho := hwoken.handled hl handled
  have hg := gotA (a := a) ho.noFirst (objSize .rxtxFrameBuf)
  have hrecv := ho.recv a.getRx.rx
  have quiet : ∀ g : Got, g.err ≠ .errNone → Opened g.ce →
      ceGetRx .getRxA (ceHandler (ce.woken a) a) a (objSize .rxtxFrameBuf) = g →
      Exchanged ce a ∧ Waiting (ceRun ce a) := by
    intro g he hog heq
    have hrun : ceRun ce a = g.ce.note (.getRx g.err) := by
      unfold ceRun
      simp only [heq]
      rw [if_neg he]
    refine ⟨⟨⟨g.ce.log, g.err, [], ?_, hog.quiet, fun _ => rfl, fun h0 => absurd h0 he⟩, ?_⟩, ?_⟩
    · unfold logOf
      rw [hrun]
      rfl
    · rw [hrun]
      exact hog.txReady
    · rw [hrun]
      exact ⟨hog.noFirst, hog.txReady⟩
  generalize hgot : ceGetRx .getRxA (ceHandler (ce.woken a) a) a (objSize .rxtxFrameBuf) = g at hg
  cases hg with
  | idle err n he => exact quiet _ he ho hgot
  | waiting err n he => exact quiet _ he hrecv hgot
  | loss3 err n he =>
    exact quiet _ he (hrecv.add [.restart] rfl (by simp [Ev.quiet]) (fun _ => rfl)
      hrecv.txReady.symm) hgot
  | layer4 ha hst =>
    have hact := handled.activatedA ha
    rw [hwa] at hact
    obtain ⟨hiso, hlt⟩ := hs.2 hact hst
    exact exchanged_layer4 ha hiso hlt hrecv.quiet hgot

/-! ## the steps that break the law -/

/-- what an emulation starts with and keeps -/
def Emulating (ce : Ce) : Prop := ce.ceEnabled = true ∧ ce.isFirstA3_Frame = true

section
variable {ce : Ce} {a : Answers}

theorem Emulating.recv (h : Emulating ce) (f : Option Reception) : Emulating (ce.recv f) := by
  cases f with
  | none => exact h
  | some f => exact ⟨h.1, h.2⟩

theorem Emulating.handled {x : Ce} (h : Emulating ce) (hh : Handled ce a x) : Emulating x := by
  have hrecv : ∀ x : Ce, Emulating x → Emulating (x.recv a.handler.rx) := fun _ hx => hx.recv _
  cases hh with
  | stay => exact h
  | heard => exact h.recv _
  | rats => exact hrecv _ h
  | hlta =>
    unfold Ce.sleepStart
    split_ifs
    · exact ⟨h.1, h.2⟩
    · exact ⟨h.1, h.2⟩
  | data => exact ⟨h.1, h.2⟩
  | loss2 => exact ⟨(h.recv a.handler.rx).1, rfl⟩
  | activated => exact h.recv a.handler.rx

theorem Emulating.got (h : Emulating ce) (n : Nat) : Emulating (ceGetRx .getRxA ce a n).ce := by
  have hrecv := h.recv a.getRx.rx
  unfold ceGetRx
  by_cases ha : ce.isActivatedA = true
  · simp only [if_pos ha]
    unfold ceGetRxActivated
    cases a.getRx.status with
    | errNone => exact hrecv
    | errBusy => exact hrecv
    | errAgain => exact hrecv
    | _ => exact ⟨hrecv.1, rfl⟩
  · simp only [if_neg ha]
    split_ifs
    · exact h
    · exact h
    · exact h

theorem Emulating.answer (h : Emulating ce) (n : Nat) : Emulating (ceAnswer ce a n) := by
  have hrecv : ∀ x : Ce, Emulating x → Emulating (x.recv a.isoTx.rx) := fun _ hx => hx.recv _
  unfold ceAnswer ceSetTx ceSetTxActivated
  simp only
  split_ifs
  · exact hrecv _ h
  · exact hrecv _ h
  · exact h
  · exact h

theorem Emulating.ceRun (h : Emulating ce) (a : Answers) : Emulating (ceRun ce a) := by
  have hw : Emulating (ce.woken a) := by
    have h0 : Emulating { ce with ram := { ce.ram with trace := [] }, log := [] } := h
    exact h0.recv a.worker
  have hh : Handled (ce.woken a) a (ceHandler (ce.woken a) a) := Bbio.handled
  have hg : Emulating (ceGetRx .getRxA (ceHandler (ce.woken a) a) a (objSize .rxtxFrameBuf)).ce :=
    (hw.handled hh).got _
  unfold Bbio.ceRun
  simp only
  split_ifs
  · apply Emulating.answer
    exact hg
  · exact hg

theorem handler_layer3 (he : Emulating ce) (hl : ce.HearsLayer3 a) :
    ceHandler ce a = { ce with rxReady := true } := by
  obtain ⟨hs, hd, hr, hsleep⟩ := hl
  have hdata : handlerData ce a = { ce with rxReady := true } := by
    unfold handlerData
    rw [if_neg (by rw [hr]; decide), if_neg (by rw [hsleep]; decide)]
  unfold ceHandler
  rw [if_pos he.1]
  cases hst : a.state with
  | activeA => exact (if_pos hd).trans hdata
  | activeAx => exact (if_pos hd).trans hdata
  | _ =>
    rw [hst] at hs
    exact hs.elim

/-- the response to a frame is dropped outside the activated state -/
theorem answer_dropped (ha : ce.isActivatedA = false) (n : Nat) :
    (ceAnswer ce a n).txReady = ce.txReady := by
  unfold ceAnswer ceSetTx
  simp only [Ce.note, ha, if_neg Bool.false_ne_true]

theorem Exchanged.layer3 (h : Exchanged ce a) (he : Emulating (ce.woken a))
    (ha : (ce.woken a).isActivatedA = false) : ¬ (ce.woken a).HearsLayer3 a := by
  intro hl
  have hg : ceGetRx .getRxA (ceHandler (ce.woken a) a) a (objSize .rxtxFrameBuf)
      = ⟨.errNone, Ce.handOver { ce.woken a with rxReady := true } 0,
        rfalConvBitsToBytes (ce.woken a).rxRcvdLen⟩ := by
    rw [handler_layer3 he hl]
    unfold ceGetRx
    simp only [ha, he.2, if_true, if_neg Bool.false_ne_true]
  have hrun : ceRun ce a = ceAnswer ((Ce.handOver { ce.woken a with rxReady := true } 0).note
      (.getRx .errNone)) a (rfalConvBitsToBytes (ce.woken a).rxRcvdLen) := by
    unfold ceRun
    simp only [hg, if_true]
  have ht := h.txReady
  rw [hrun, answer_dropped (by exact ha)] at ht
  exact Bool.noConfusion ht

theorem handler_activated (he : Emulating ce) (ha : ce.isActivatedA = true ∨ a.activates) :
    (ceHandler ce a).isActivatedA = true := by
  by_cases hc : ce.isActivatedA = true
  · have hh : Handled ce a (ceHandler ce a) := handled
    generalize ceHandler ce a = x at hh
    cases hh with
    | stay => exact hc
    | heard => exact (recv_isActivatedA _).trans hc
    | rats =>
      rw [recv_isActivatedA]
      exact hc
    | hlta =>
      rw [sleepStart_isActivatedA]
      exact hc
    | data => exact hc
    | loss2 hn => exact absurd (hc.symm.trans hn) (by decide)
    | activated => rfl
  · obtain ⟨hstate, hstatus⟩ := ha.resolve_left hc
    unfold ceHandler handlerCardemu4A
    simp only [he.1, hstate, hstatus, if_true, if_neg hc]

/-- a response is given to RFAL as the host has sent it -/
theorem Exchanged.isoTx {bytes : List UInt8} (h : Exchanged ce a)
    (hm : .isoTx bytes ∈ logOf ce a) : bytes = a.host := by
  obtain ⟨pre, err, post, hlog, hq, hno, hyes⟩ := h.log
  rw [hlog] at hm
  rcases List.mem_append.mp hm with hm | hm
  · exact absurd (hq _ hm) (by simp [Ev.quiet])
  rcases List.mem_cons.mp hm with hm | hm
  · exact Ev.noConfusion hm
  by_cases he : err = .errNone
  · have hin : .isoTx bytes ∈ post.filter fun e => !e.isRx := List.mem_filter.mpr ⟨hm, rfl⟩
    rw [hyes he] at hin
    simpa using hin
  · rw [hno he] at hm
    exact absurd hm List.not_mem_nil

theorem Exchanged.layer4 (h : Exchanged ce a) (ha : (ceHandler (ce.woken a) a).isActivatedA = true)
    (hs : a.getRx.status = .errNone) : a.isoTx.status = .errNone ∧ a.host.length < 8192 := by
  have hg : ceGetRx .getRxA (ceHandler (ce.woken a) a) a (objSize .rxtxFrameBuf)
      = ⟨.errNone, ((ceHandler (ce.woken a) a).recv a.getRx.rx).handOver
        (if ((ceHandler (ce.woken a) a).recv a.getRx.rx).rawMode then 0 else prologueSize),
        ((ceHandler (ce.woken a) a).recv a.getRx.rx).rxRcvdLen⟩ := by
    unfold ceGetRx ceGetRxActivated
    simp only [ha, hs, if_true]
  have hrun : ceRun ce a = ceAnswer (forwarding ce a) a (forwarding ce a).rxRcvdLen := by
    unfold ceRun
    simp only [hg, if_true]
    rfl
  have ha' : (forwarding ce a).isActivatedA = true := (recv_isActivatedA a.getRx.rx).trans ha
  obtain ⟨hlog, htx, -⟩ := answered a (forwarding ce a).rxRcvdLen ha' rfl
  constructor
  · rw [← htx, ← hrun]
    exact h.txReady
  · have hm : .isoTx (given ((forwarding ce a).ram.rd .rxtxFrameBuf 0 (forwarding ce a).rxRcvdLen)
        a.host) ∈ logOf ce a := by
      unfold logOf
      rw [hrun, hlog]
      simp
    exact (given_eq_iff _ _).mp (h.isoTx hm)

/-- a step that keeps the law is served -/
theorem Exchanged.served (h : Exchanged ce a) (he : Emulating ce) : Served ce a := by
  have hw : Emulating (ce.woken a) := by
    have h0 : Emulating { ce with ram := { ce.ram with trace := [] }, log := [] } := he
    exact h0.recv a.worker
  have hwa : (ce.woken a).isActivatedA = ce.isActivatedA := recv_isActivatedA _
  constructor
  · intro ha
    exact h.layer3 hw (hwa.trans ha)
  · intro ha hs
    rw [← hwa] at ha
    exact h.layer4 (handler_activated hw ha) hs

end

/-! ## runs -/

/-- **Frames to the host, responses to the reader**, once each, in every iteration of the runs
whose steps are all served, in plain and in raw mode, and of no others. -/
theorem exchanged_run (ce : Ce) (rawMode : Bool) (as : List Answers) :
    StepsOk Exchanged ceRun (startEmulation ce rawMode) as ↔
      StepsOk Served ceRun (startEmulation ce rawMode) as := by
  have hstart : Waiting (startEmulation ce rawMode) := ⟨fun _ => rfl, rfl⟩
  have hemul : Emulating (startEmulation ce rawMode) := ⟨rfl, rfl⟩
  constructor
  · exact StepsOk.mono (I := Emulating) (fun _ a he _ => he.ceRun a)
      (fun _ _ he h => h.served he) hemul
  · exact StepsOk.mono (I := Waiting) (fun _ _ hw hs => (exchanged_step hw hs).2)
      (fun _ _ hw hs => (exchanged_step hw hs).1) hstart

/-! ## a frame at layer 3 -/

instance (ce : Ce) (a : Answers) : Decidable (Served ce a) := by
  unfold Served Ce.HearsLayer3 Answers.activates
  infer_instance

/-- RATS, the end of the activation, and a block with the INF bytes 00 B0 -/
def answersRats : Answers where
  worker := some frameRats
  state := .activeA
  dataFlag := true
  handler := ⟨.errNone, none⟩
  getRx := ⟨.errBusy, none⟩
  host := []
  host_lt := by decide
  isoTx := ⟨.errNone, none⟩

def answersActivated : Answers :=
  { answersRats with worker := none, state := .cardemu4A, dataFlag := false }

def answersBlock : Answers :=
  { answersActivated with
    getRx := ⟨.errNone, some blockOfTwo⟩
    host := [0x90, 0x00]
    host_lt := by decide }

/-- a READ at layer 3, and an iteration without any frame -/
def answersLayer3 : Answers :=
  { answersRats with
    worker := some frameRead
    host := [0x0A]
    host_lt := by decide }

def answersNoFrame : Answers := { answersLayer3 with worker := none }

/-- RATS, activation and one block -/
theorem exchanged_run_block :
    StepsOk Exchanged ceRun (startEmulation Ce.boot false)
      [answersRats, answersActivated, answersBlock] :=
  (exchanged_run Ce.boot false [answersRats, answersActivated, answersBlock]).mpr (by decide +kernel)

/-- the response to a layer-3 frame is dropped, and the frame printed to the host again -/
theorem layer3_dropped :
    logOf (startEmulation Ce.boot false) answersLayer3
        = [.rx 16, .getRx .errNone, .forward [0x08, 0x02, 0x00, 0x30, 0x00], .setTx true] ∧
      logOf (ceRun (startEmulation Ce.boot false) answersLayer3) answersNoFrame
        = [.getRx .errNone, .forward [0x08, 0x02, 0x00, 0x30, 0x00], .setTx true] ∧
      ¬ ∀ (ce : Ce) (rawMode : Bool) (as : List Answers),
        StepsOk Exchanged ceRun (startEmulation ce rawMode) as := by
  refine ⟨by decide +kernel, by decide +kernel, fun hall => ?_⟩
  have h := (hall Ce.boot false [answersLayer3]).1.txReady
  exact absurd h (by decide +kernel)

end Bbio
end Hydra
