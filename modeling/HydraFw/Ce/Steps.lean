import HydraFw.Ce.Engine

/-!
# All that an iteration can do

Inversion lemmas, in the mode the console always uses (`CARDEMULATION_MODE_NDEF`, where the
echo branches are stubs).  Every invariant of the engine is a case analysis over them.

* `Handled`, `handled`     the ways through `ceHandler`;
* `GotA`, `gotA`           the ways through `ceGetRx(GET_RX_A)`;
* `Handed`, `handed`       the ways through `ceSetTx(SET_TX_A)` with a response to send;
* `Iterated`, `iterated`   the two ways through `ceRun`;
* `ceRun_fixed`            what only the start of a session sets.
-/

set_option linter.unusedSectionVars false

namespace Hydra
open Rams

attribute [simp] Ce.relisten Ce.handOver

/-! ## what a delivered frame leaves alone -/

section
variable (ce : Ce) (f : Option Reception) (r : ReturnCode)

@[simp] theorem recv_ulCwritePageSet : (ce.recv f).ulCwritePageSet = ce.ulCwritePageSet := by
  cases f <;> rfl
@[simp] theorem recv_ceEnabled : (ce.recv f).ceEnabled = ce.ceEnabled := by cases f <;> rfl
@[simp] theorem recv_emuMode : (ce.recv f).emuMode = ce.emuMode := by cases f <;> rfl
@[simp] theorem recv_isActivatedA : (ce.recv f).isActivatedA = ce.isActivatedA := by cases f <;> rfl
@[simp] theorem recv_isFirstA3_Frame : (ce.recv f).isFirstA3_Frame = ce.isFirstA3_Frame := by
  cases f <;> rfl
@[simp] theorem recv_currentProcessCmd : (ce.recv f).currentProcessCmd = ce.currentProcessCmd := by
  cases f <;> rfl
@[simp] theorem recv_rxReady : (ce.recv f).rxReady = ce.rxReady := by cases f <;> rfl

@[simp] theorem sleepStart_log : (ce.sleepStart r).log = ce.log := by
  unfold Ce.sleepStart; split <;> rfl
@[simp] theorem sleepStart_ulCwritePageSet :
    (ce.sleepStart r).ulCwritePageSet = ce.ulCwritePageSet := by
  unfold Ce.sleepStart; split <;> rfl
@[simp] theorem sleepStart_isActivatedA : (ce.sleepStart r).isActivatedA = ce.isActivatedA := by
  unfold Ce.sleepStart; split <;> rfl
@[simp] theorem sleepStart_isFirstA3_Frame :
    (ce.sleepStart r).isFirstA3_Frame = ce.isFirstA3_Frame := by
  unfold Ce.sleepStart; split <;> rfl
@[simp] theorem sleepStart_rxReady : (ce.sleepStart r).rxReady = ce.rxReady := by
  unfold Ce.sleepStart; split <;> rfl

/-- the log grows by the frame's length, if there is a frame -/
def Reception.ev (f : Option Reception) : List Ev :=
  match f with
  | none => []
  | some f => [.rx f.len]

@[simp] theorem recv_log : (ce.recv f).log = ce.log ++ Reception.ev f := by
  cases f with
  | none => exact (List.append_nil _).symm
  | some f => rfl

end

/-! ## `ceHandler` -/

/-- `ACTIVE_A` and `ACTIVE_Ax` with data: a RATS that is not wanted -/
def Ce.IgnoresRats (ce : Ce) (a : Answers) : Prop :=
  a.state.active ∧ a.dataFlag = true ∧
    rfalIsoDepIsRats ce.rxBuf (rfalConvBitsToBytes ce.rxRcvdLen) = true ∧ ce.level4Enabled = false

def Ce.HearsHlta (ce : Ce) (a : Answers) : Prop :=
  a.state.active ∧ a.dataFlag = true ∧
    rfalIsoDepIsRats ce.rxBuf (rfalConvBitsToBytes ce.rxRcvdLen) = false ∧
    rfalNfcaListenerIsSleepReq ce.rxBuf (rfalConvBitsToBytes ce.rxRcvdLen) = true

/-- the field is lost in `CARDEMU_3` -/
def Ce.LosesF (ce : Ce) (a : Answers) : Prop :=
  a.state = .cardemu3 ∧ ce.isFirstF_Frame = false ∧ a.handler.status = .errLinkLoss

/-- the field is lost between RATS and the end of the activation -/
def Ce.LosesActivation (ce : Ce) (a : Answers) : Prop :=
  a.state = .cardemu4A ∧ ce.isActivatedA = false ∧ a.handler.status = .errLinkLoss

inductive Handled (ce : Ce) (a : Answers) : Ce → Prop
  | stay : Handled ce a ce
  | heard : Handled ce a (ce.recv a.handler.rx)
  | rats : Handled ce a (({ ce with
      isoDepTxRxParam := { ce.isoDepTxRxParam with fsx := rfalIsoDepFSxI2FSx ce.atsParam.fsci }
      log := ce.log ++ [.rats] } : Ce).recv a.handler.rx)
  | ratsIgnored (h : ce.IgnoresRats a) : Handled ce a (ce.note .ratsIgnored)
  | ratsSleep (h : ce.IgnoresRats a) :
      Handled ce a ((ce.note .ratsIgnored).sleepStart a.handler.status)
  | hlta (h : ce.HearsHlta a) : Handled ce a ((ce.note .hlta).sleepStart a.handler.status)
  | data (h : ce.rxRcvdLen > 0) : Handled ce a { ce with rxReady := true }
  | loss1 : Handled ce a { (ce.recv a.handler.rx).relisten with
      rxReady := false, txReady := false, isFirstA3_Frame := true, ulCwritePageSet := 0 }
  | loss2 (h : ce.LosesActivation a) : Handled ce a { (ce.recv a.handler.rx).relisten with
      isActivatedA := false, isFirstA3_Frame := true, ulCwritePageSet := 0 }
  | activated (h : a.state = .cardemu4A) :
      Handled ce a { ce.recv a.handler.rx with isActivatedA := true }
  | firstF : Handled ce a { ce with isFirstF_Frame := true }
  | lossF (h : ce.LosesF a) : Handled ce a { (ce.recv a.handler.rx).relisten with
      rxReady := false, txReady := false }

section
variable {ce : Ce} {a : Answers}

theorem not_internal (hn : ce.emuMode = cardemulationModeNdef) :
    ¬ ce.emuMode &&& cardemulationProcessInternal = cardemulationProcessInternal := by
  rw [hn]
  decide

theorem ceNfcfCardemu3_ndef (hn : ce.emuMode = cardemulationModeNdef) :
    ceNfcfCardemu3 ce a = ce := by
  unfold ceNfcfCardemu3
  rw [if_neg (by rw [hn]; decide)]

theorem handled_data (hs : a.state.active) (hd : a.dataFlag = true) :
    Handled ce a (handlerData ce a) := by
  unfold handlerData
  by_cases hr : rfalIsoDepIsRats ce.rxBuf (rfalConvBitsToBytes ce.rxRcvdLen) = true
  · rw [if_pos hr]
    by_cases h4 : ce.level4Enabled = true
    · rw [if_pos h4]
      exact .rats
    · rw [if_neg h4]
      have hi : ce.IgnoresRats a := ⟨hs, hd, hr, Bool.eq_false_iff.mpr h4⟩
      split_ifs
      · exact .ratsSleep hi
      · exact .ratsIgnored hi
      · exact .stay
  · rw [if_neg hr]
    by_cases hl : rfalNfcaListenerIsSleepReq ce.rxBuf (rfalConvBitsToBytes ce.rxRcvdLen) = true
    · rw [if_pos hl]
      exact .hlta ⟨hs, hd, Bool.eq_false_iff.mpr hr, hl⟩
    · rw [if_neg hl]
      by_cases hz : ce.rxRcvdLen > 0
      · rw [if_pos hz]
        exact .data hz
      · rw [if_neg hz]
        exact .stay

theorem handled_noData : Handled ce a (handlerNoData ce a) := by
  unfold handlerNoData
  by_cases hf : ce.isFirstA3_Frame = true
  · rw [if_pos hf]
    exact .stay
  · rw [if_neg hf]
    cases h : a.handler.status with
    | errLinkLoss => exact .loss1
    | _ => exact .heard

theorem handled_cardemu4A (hn : ce.emuMode = cardemulationModeNdef) (hs : a.state = .cardemu4A) :
    Handled ce a (handlerCardemu4A ce a) := by
  unfold handlerCardemu4A
  by_cases ha : ce.isActivatedA = true
  · rw [if_pos ha, if_neg (not_internal hn)]
    exact .stay
  · rw [if_neg ha]
    cases h : a.handler.status with
    | errLinkLoss => exact .loss2 ⟨hs, Bool.eq_false_iff.mpr ha, h⟩
    | errNone => exact .activated hs
    | _ => exact .heard

theorem handled_cardemu3 (hn : ce.emuMode = cardemulationModeNdef) (hs : a.state = .cardemu3) :
    Handled ce a (handlerCardemu3 ce a) := by
  unfold handlerCardemu3
  by_cases hf : ce.isFirstF_Frame = true
  · rw [if_pos hf, ceNfcfCardemu3_ndef hn]
    exact .stay
  · rw [if_neg hf]
    cases h : a.handler.status with
    | errLinkLoss => exact .lossF ⟨hs, Bool.eq_false_iff.mpr hf, h⟩
    | errNone =>
      have hn' : (ce.recv a.handler.rx).emuMode = cardemulationModeNdef := by rw [recv_emuMode, hn]
      show Handled ce a (ceNfcfCardemu3 (ce.recv a.handler.rx) a)
      rw [ceNfcfCardemu3_ndef hn']
      exact .heard
    | _ => exact .heard

/-- **What `ceHandler` can do.** -/
theorem handled (hn : ce.emuMode = cardemulationModeNdef) : Handled ce a (ceHandler ce a) := by
  unfold ceHandler
  by_cases he : ce.ceEnabled = true
  swap
  · rw [if_neg he]
    exact .stay
  rw [if_pos he]
  have act : a.state.active → Handled ce a
      (if a.dataFlag = true then handlerData ce a else handlerNoData ce a) := by
    intro hs
    by_cases hd : a.dataFlag = true
    · rw [if_pos hd]
      exact handled_data hs hd
    · rw [if_neg hd]
      exact handled_noData
  cases hs : a.state with
  | activeA => exact act (by rw [hs]; trivial)
  | activeAx => exact act (by rw [hs]; trivial)
  | cardemu4A => exact handled_cardemu4A hn hs
  | cardemu3 => exact handled_cardemu3 hn hs
  | readyF =>
    show Handled ce a (if a.dataFlag = true then { ce with isFirstF_Frame := true } else ce)
    split_ifs
    · exact .firstF
    · exact .stay
  | _ => exact .stay

end

/-! ## `ceGetRx` -/

inductive GotA (ce : Ce) (a : Answers) : Got → Prop
  | waiting (err : ReturnCode) (n : Nat) (he : err ≠ .errNone)
      (h : ce.isActivatedA = true ∨ ce.isFirstA3_Frame = false) :
      GotA ce a ⟨err, ce.recv a.getRx.rx, n⟩
  | idle (h : ce.rxReady = false) : GotA ce a ⟨.errBusy, ce, 0⟩
  | loss3 (err : ReturnCode) (n : Nat) (he : err ≠ .errNone) :
      GotA ce a ⟨err, { (ce.recv a.getRx.rx).relisten with
        rxReady := false, txReady := false, isActivatedA := false, isFirstA3_Frame := true,
        ulCwritePageSet := 0 }, n⟩
  | loss4 (err : ReturnCode) (n : Nat) (he : err ≠ .errNone) :
      GotA ce a ⟨err, { (ce.recv a.getRx.rx).relisten with
        rxReady := false, txReady := false, isFirstA3_Frame := true, ulCwritePageSet := 0 }, n⟩
  | layer4 (ha : ce.isActivatedA = true) :
      GotA ce a ⟨.errNone, (ce.recv a.getRx.rx).handOver prologueSize,
        (ce.recv a.getRx.rx).rxRcvdLen⟩
  | first (ha : ce.isActivatedA = false) (hf : ce.isFirstA3_Frame = true)
      (hr : ce.rxReady = true) :
      GotA ce a ⟨.errNone, ce.handOver 0, rfalConvBitsToBytes ce.rxRcvdLen⟩
  | later (ha : ce.isActivatedA = false) (hf : ce.isFirstA3_Frame = false)
      (hl : (ce.recv a.getRx.rx).rxRcvdLen > 0) :
      GotA ce a ⟨.errNone, (ce.recv a.getRx.rx).handOver 0,
        rfalConvBitsToBytes (ce.recv a.getRx.rx).rxRcvdLen⟩

section
variable {ce : Ce} {a : Answers}

theorem gotA_activated (n : Nat) (ha : ce.isActivatedA = true) :
    GotA ce a (ceGetRxActivated ce a n) := by
  unfold ceGetRxActivated
  cases h : a.getRx.status with
  | errNone => exact .layer4 ha
  | errBusy => exact .waiting .errBusy n (by decide) (Or.inl ha)
  | errAgain => exact .waiting .errAgain n (by decide) (Or.inl ha)
  | errNotfound => exact .loss3 .errNotfound n (by decide)
  | errSleepReq => exact .loss3 .errSleepReq n (by decide)
  | errLinkLoss => exact .loss3 .errLinkLoss n (by decide)
  | other k => exact .loss3 (.other k) n ReturnCode.noConfusion

theorem gotA_later (n : Nat) (ha : ce.isActivatedA = false) (hf : ce.isFirstA3_Frame = false) :
    GotA ce a (ceGetRxLater ce a n) := by
  unfold ceGetRxLater
  cases h : a.getRx.status with
  | errNone =>
    by_cases hl : (ce.recv a.getRx.rx).rxRcvdLen > 0
    · simp only [if_pos hl]
      exact .later ha hf hl
    · simp only [if_neg hl]
      exact .waiting .errBusy n (by decide) (Or.inr hf)
  | errBusy => exact .waiting .errBusy n (by decide) (Or.inr hf)
  | errAgain => exact .loss4 .errAgain n (by decide)
  | errNotfound => exact .loss4 .errNotfound n (by decide)
  | errSleepReq => exact .loss4 .errSleepReq n (by decide)
  | errLinkLoss => exact .loss4 .errLinkLoss n (by decide)
  | other k => exact .loss4 (.other k) n ReturnCode.noConfusion

/-- **What `ceGetRx` can do.** -/
theorem gotA (n : Nat) : GotA ce a (ceGetRx .getRxA ce a n) := by
  unfold ceGetRx
  by_cases ha : ce.isActivatedA = true
  · simp only [if_pos ha]
    exact gotA_activated n ha
  have ha' : ce.isActivatedA = false := Bool.eq_false_iff.mpr ha
  simp only [if_neg ha]
  by_cases hf : ce.isFirstA3_Frame = true
  · simp only [if_pos hf]
    unfold ceGetRxFirst
    by_cases hr : ce.rxReady = true
    · rw [if_pos hr]
      exact .first ha' hf hr
    · rw [if_neg hr]
      exact .idle (Bool.eq_false_iff.mpr hr)
  · simp only [if_neg hf]
    exact gotA_later n ha' (Bool.eq_false_iff.mpr hf)

end

/-- a reported frame is about to be answered -/
theorem GotA.txReady {ce : Ce} {a : Answers} {g : Got} (h : GotA ce a g) (he : g.err = .errNone) :
    g.ce.txReady = true := by
  cases h with
  | waiting err n hne => exact absurd he hne
  | idle => exact ReturnCode.noConfusion he
  | loss3 err n hne => exact absurd he hne
  | loss4 err n hne => exact absurd he hne
  | layer4 => rfl
  | first => rfl
  | later => rfl

/-! ## `ceSetTx` -/

/-- RFAL delivers several frames, one after the other -/
def Ce.recvs (ce : Ce) (fs : List (Option Reception)) : Ce := fs.foldl Ce.recv ce

theorem recvs_keeps {α : Type} (g : Ce → α) (hg : ∀ ce f, g (Ce.recv ce f) = g ce) (ce : Ce)
    (fs : List (Option Reception)) : g (ce.recvs fs) = g ce := by
  induction fs generalizing ce with
  | nil => rfl
  | cons f fs ih => exact (ih (ce.recv f)).trans (hg ce f)

theorem recvs_log (ce : Ce) (fs : List (Option Reception)) :
    (ce.recvs fs).log = ce.log ++ fs.flatMap Reception.ev := by
  induction fs generalizing ce with
  | nil => exact (List.append_nil _).symm
  | cons f fs ih =>
    show ((ce.recv f).recvs fs).log = _
    rw [ih, recv_log, List.flatMap_cons, List.append_assoc]

/-- the blocking transmission only receives -/
theorem blockingTx_eq (ce : Ce) (last : Poll) (ps : List Poll) :
    ∃ fs, (blockingTx ce last ps).1 = ce.recvs fs := by
  induction ps generalizing ce with
  | nil => exact ⟨[last.worker, last.call.rx], rfl⟩
  | cons p ps ih =>
    unfold blockingTx
    by_cases h : p.inTx = true ∧ p.call.status = .errBusy
    · rw [if_pos h]
      obtain ⟨fs, hfs⟩ := ih ((ce.recv p.worker).recv p.call.rx)
      exact ⟨p.worker :: p.call.rx :: fs, hfs⟩
    · rw [if_neg h]
      exact ⟨[p.worker, p.call.rx], rfl⟩

/-- the response in the ISO-DEP buffer, about to be started -/
def Ce.isoPrepared (ce : Ce) (bits : Nat) : Ce :=
  { ce with
    ram := ce.ram.copy ce.isoDepTxRxParam.txBuf prologueSize .rxtxFrameBuf 0 (rfalConvBitsToBytes bits)
    isoDepTxRxParam := { ce.isoDepTxRxParam with txBufLen := rfalConvBitsToBytes bits }
    rxRcvdLen := 0
    log := (ce.note (.setTx true)).log ++ [.isoTx (rfalConvBitsToBytes bits)] }

/-- the response in the transceive context, with its flags, about to be started -/
def Ce.txPrepared (ce : Ce) (bits flags : Nat) : Ce :=
  { ce with
    ram := ce.ram.copy ce.transceiveCtx.txBuf 0 .rxtxFrameBuf 0 (rfalConvBitsToBytes bits)
    transceiveCtx := { ce.transceiveCtx with txBufLen := bits, flags := flags }
    rxRcvdLen := 0
    log := (ce.note (.setTx true)).log ++ [.startTx bits] }

/-- no card selected and no frame seen: the end of the reset branch -/
def Ce.reselected (ce : Ce) : Ce :=
  { ce with
    rxReady := false, txReady := false, isActivatedA := false, isFirstA3_Frame := true,
    ulCwritePageSet := 0 }

/-- the card has processed the command in the frame buffer -/
def Ce.processed (ce : Ce) (a : Answers) (dataSize : Nat) : Ce :=
  { ce with
    toCard := (ce.process a dataSize).card
    log := ce.log ++ [.process ce.isActivatedA ce.rxRcvdLen ce.ulCwritePageSet
      (ce.process a dataSize).reset] }

inductive Handed (ce : Ce) (a : Answers) (bits : Nat) : Bool → Ce → Prop
  | iso (reset : Bool) (ha : ce.isActivatedA = true) :
      Handed ce a bits reset { (ce.isoPrepared bits).recv a.isoTx.rx with
        rxReady := false, txReady := false }
  | isoFailed (reset : Bool) (ha : ce.isActivatedA = true) (hs : a.isoTx.status ≠ .errNone) :
      Handed ce a bits reset ((ce.isoPrepared bits).recv a.isoTx.rx)
  | plain (flags : Nat) (ha : ce.isActivatedA = false) :
      Handed ce a bits false { (ce.txPrepared bits flags).recv a.startTx.rx with
        isFirstA3_Frame := false, rxReady := false, txReady := false }
  | plainFailed (flags : Nat) (ha : ce.isActivatedA = false) (hs : a.startTx.status ≠ .errNone) :
      Handed ce a bits false ((ce.txPrepared bits flags).recv a.startTx.rx)
  | nak (fs : List (Option Reception)) (ha : ce.isActivatedA = false) (hb : 0 < bits) :
      Handed ce a bits true
        ((((ce.txPrepared bits flagsMifare).recvs fs).note (.sleep false)).sleepStart
          a.sleep).reselected
  | silent (ha : ce.isActivatedA = false) (hb : bits = 0) :
      Handed ce a bits true
        ((((ce.note (.setTx true)).prepareTx 0).note (.sleep true)).sleepStart a.sleep).reselected

section
variable {ce : Ce} {a : Answers} {bits : Nat}

theorem handed_reset (ha : ce.isActivatedA = false) :
    Handed ce a bits true (ceSetTxReset ((ce.note (.setTx true)).prepareTx bits) a bits).2 := by
  unfold ceSetTxReset
  by_cases hb : bits > 0
  · obtain ⟨fs, hfs⟩ := blockingTx_eq ((ce.txPrepared bits flagsMifare).recv a.startTx.rx)
      a.lastPoll a.polls
    have hd : decide (bits = 0) = false := decide_eq_false (by omega)
    have hn : Handed ce a bits true _ := .nak (a.startTx.rx :: fs) ha hb
    rw [if_pos hb, hd]
    show Handed ce a bits true (((blockingTx ((ce.txPrepared bits flagsMifare).recv a.startTx.rx)
      a.lastPoll a.polls).1.note (.sleep false)).sleepStart a.sleep).reselected
    rw [hfs]
    exact hn
  · have hz : bits = 0 := by omega
    subst hz
    rw [if_neg hb]
    exact .silent ha rfl

theorem handed_plain (ha : ce.isActivatedA = false) :
    Handed ce a bits false (ceSetTxPlain ((ce.note (.setTx true)).prepareTx bits) a bits).2 := by
  unfold ceSetTxPlain
  by_cases hs : a.startTx.status = .errNone
  · simp only [if_pos hs]
    exact .plain _ ha
  · simp only [if_neg hs]
    exact .plainFailed _ ha hs

theorem handed_activated (ha : ce.isActivatedA = true) (ht : ce.txReady = true) (reset : Bool) :
    Handed ce a bits reset (ceSetTxActivated (ce.note (.setTx true)) a bits).2 := by
  unfold ceSetTxActivated
  have ht' : (ce.note (.setTx true)).txReady = true := ht
  rw [if_pos ht']
  by_cases hs : a.isoTx.status = .errNone
  · simp only [if_pos hs]
    exact .iso reset ha
  · simp only [if_neg hs]
    exact .isoFailed reset ha hs

/-- **What `ceSetTx` can do** with a response while `txReady` is set. -/
theorem handed (ht : ce.txReady = true) (reset : Bool) :
    Handed ce a bits reset (ceSetTx .setTxA ce a bits reset).2 := by
  unfold ceSetTx
  rw [ht]
  by_cases ha : ce.isActivatedA = true
  · have ha' : (ce.note (.setTx true)).isActivatedA = true := ha
    simp only [if_pos ha']
    exact handed_activated ha ht reset
  · have ha' : ¬ (ce.note (.setTx true)).isActivatedA = true := ha
    have ht' : (ce.note (.setTx true)).txReady = true := ht
    simp only [if_neg ha']
    unfold ceSetTxLayer3
    rw [if_pos ht']
    cases reset
    · exact handed_plain (Bool.eq_false_iff.mpr ha)
    · exact handed_reset (Bool.eq_false_iff.mpr ha)

end

/-! ## the whole iteration -/

/-- an iteration that reports a frame processes it and hands the response over -/
inductive Iterated (ce : Ce) (a : Answers) : Ce → Prop
  | waited (h : Ce) (g : Got) (hh : Handled (ce.woken a) a h) (hg : GotA h a g)
      (he : g.err ≠ .errNone) : Iterated ce a (g.ce.note (.getRx g.err))
  | answered (h : Ce) (g : Got) (r : Ce) (hh : Handled (ce.woken a) a h) (hg : GotA h a g)
      (he : g.err = .errNone)
      (hr : Handed ((g.ce.note (.getRx .errNone)).processed a g.txSize) a
        ((g.ce.note (.getRx .errNone)).process a g.txSize).bits
        ((g.ce.note (.getRx .errNone)).process a g.txSize).reset r) : Iterated ce a r

theorem iterated {ce : Ce} (hn : ce.emuMode = cardemulationModeNdef) (a : Answers) :
    Iterated ce a (ceRun ce a) := by
  have hh : Handled (ce.woken a) a (ceHandler (ce.woken a) a) := by
    apply handled
    unfold Ce.woken
    rw [recv_emuMode]
    exact hn
  have hg : GotA (ceHandler (ce.woken a) a) a _ := gotA (objSize .rxtxFrameBuf)
  unfold ceRun
  by_cases he : (ceGetRx .getRxA (ceHandler (ce.woken a) a) a (objSize .rxtxFrameBuf)).err = .errNone
  · simp only [he, if_true]
    have ht := hg.txReady he
    exact .answered _ _ _ hh hg he (handed (by exact ht) _)
  · simp only [if_neg he]
    exact .waited _ _ hh hg he

/-! ## what no iteration changes -/

/-- the values that only the start of a session sets -/
def Ce.fixed (ce : Ce) : Nat × Processor × Bool × Bool × Obj × Obj :=
  (ce.emuMode, ce.currentProcessCmd, ce.level4Enabled, ce.ceEnabled, ce.isoDepTxRxParam.txBuf,
    ce.transceiveCtx.txBuf)

/-- the two variables of the selection -/
def Card.selected (c : Card) : States × Int := (c.nState, c.nSelectedIdx)

/-- the selection and the NDEF file -/
def Card.selection (c : Card) : (States × Int) × Obj := (c.selected, c.ndefFile)

/-- what only the start of a session sets, and what only a command changes -/
def Ce.kept (ce : Ce) := (ce.fixed, ce.toCard.selection)

/-- what `ceStart` sets for the whole session -/
def Ce.configuration (ce : Ce) :=
  (ce.emuMode, ce.configMask, ce.configA, ce.configB, ce.configF, ce.atsParam, ce.ceEnabled,
    ce.isoDepTxRxParam.txBuf, ce.transceiveCtx.txBuf)

/-- all that an iteration leaves alone, the command processor apart -/
def Ce.settled (ce : Ce) := (ce.kept, ce.configuration)

theorem recv_settled (ce : Ce) (f : Option Reception) : (ce.recv f).settled = ce.settled := by
  cases f <;> rfl

theorem recvs_settled (ce : Ce) (fs : List (Option Reception)) : (ce.recvs fs).settled = ce.settled :=
  recvs_keeps Ce.settled recv_settled ce fs

theorem sleepStart_settled (ce : Ce) (r : ReturnCode) : (ce.sleepStart r).settled = ce.settled := by
  unfold Ce.sleepStart
  split_ifs <;> rfl

section
variable {ce : Ce} {a : Answers}

theorem Handled.settled {h : Ce} (hh : Handled ce a h) : h.settled = ce.settled := by
  cases hh with
  | stay => rfl
  | heard => exact recv_settled ..
  | rats => exact recv_settled ..
  | ratsIgnored => rfl
  | ratsSleep => exact sleepStart_settled ..
  | hlta => exact sleepStart_settled ..
  | data => rfl
  | loss1 => exact recv_settled ce a.handler.rx
  | loss2 => exact recv_settled ce a.handler.rx
  | activated => exact recv_settled ce a.handler.rx
  | firstF => rfl
  | lossF => exact recv_settled ce a.handler.rx

theorem GotA.settled {g : Got} (hg : GotA ce a g) : g.ce.settled = ce.settled := by
  cases hg with
  | waiting => exact recv_settled ..
  | idle => rfl
  | loss3 => exact recv_settled ce a.getRx.rx
  | loss4 => exact recv_settled ce a.getRx.rx
  | layer4 => exact recv_settled ce a.getRx.rx
  | first => rfl
  | later => exact recv_settled ce a.getRx.rx

theorem Handed.settled {bits : Nat} {reset : Bool} {r : Ce} (hr : Handed ce a bits reset r) :
    r.settled = ce.settled := by
  cases hr with
  | iso => exact recv_settled (ce.isoPrepared bits) a.isoTx.rx
  | isoFailed => exact recv_settled (ce.isoPrepared bits) a.isoTx.rx
  | plain flags => exact recv_settled (ce.txPrepared bits flags) a.startTx.rx
  | plainFailed flags => exact recv_settled (ce.txPrepared bits flags) a.startTx.rx
  | nak fs =>
    exact (sleepStart_settled (((ce.txPrepared bits flagsMifare).recvs fs).note _) a.sleep).trans
      (recvs_settled (ce.txPrepared bits flagsMifare) fs)
  | silent =>
    exact sleepStart_settled (((ce.note (.setTx true)).prepareTx 0).note (.sleep true)) a.sleep

theorem woken_settled : (ce.woken a).settled = ce.settled := recv_settled _ _

theorem Handled.kept {h : Ce} (hh : Handled ce a h) : h.kept = ce.kept :=
  congrArg Prod.fst hh.settled

theorem GotA.kept {g : Got} (hg : GotA ce a g) : g.ce.kept = ce.kept :=
  congrArg Prod.fst hg.settled

theorem Handed.kept {bits : Nat} {reset : Bool} {r : Ce} (hr : Handed ce a bits reset r) :
    r.kept = ce.kept := congrArg Prod.fst hr.settled

theorem woken_kept : (ce.woken a).kept = ce.kept := congrArg Prod.fst woken_settled

theorem Iterated.fixed {r : Ce} (hi : Iterated ce a r) : r.fixed = ce.fixed := by
  cases hi with
  | waited h g hh hg =>
    exact congrArg Prod.fst (hg.kept.trans (hh.kept.trans woken_kept))
  | answered h g r hh hg _ hr =>
    have hgot := congrArg Prod.fst (hg.kept.trans (hh.kept.trans (woken_kept (a := a))))
    exact (congrArg Prod.fst hr.kept).trans hgot

/-- **No iteration changes what the start of the session has set.** -/
theorem ceRun_fixed (hn : ce.emuMode = cardemulationModeNdef) : (ceRun ce a).fixed = ce.fixed :=
  (iterated hn a).fixed

theorem ceRun_emuMode (hn : ce.emuMode = cardemulationModeNdef) :
    (ceRun ce a).emuMode = cardemulationModeNdef :=
  (congrArg Prod.fst (ceRun_fixed (a := a) hn)).trans hn

end

end Hydra
