import HydraFw.Ce.HandOff

/-!
# Listening again

`ceHandler` and `ceGetRx` restart listening at seven places, and each resets its own choice of the
session variables.

* `Rearmed`        the session variables are those of a freshly started engine;
* `Place`          the seven places, `Place.reset` what each does, `Place.LeavesFresh` what it has
                   to find: the variables that it leaves alone are fresh already;
* `handlerPlace`, `getRxPlace`   the place that a call comes to;
* `Ce.withTx`      an engine up to what is written before it is read: it runs alike
                   (`observed_withTx`);
* `stepsOk_rearm_iff`   every restart of a run leaves a fresh engine behind, in its variables and
                   in all that follows, exactly when each place finds what it has to.
-/

namespace Hydra
open Rams Runs

/-! ## the session variables -/

structure Rearmed (ce : Ce) : Prop where
  rxReady : ce.rxReady = false
  txReady : ce.txReady = false
  isActivatedA : ce.isActivatedA = false
  isFirstA3_Frame : ce.isFirstA3_Frame = true
  isFirstF_Frame : ce.isFirstF_Frame = false
  ulCwritePageSet : ce.ulCwritePageSet = 0

/-- the call has stopped and started listening -/
def Restarts (before after : Ce) : Prop := .restart ∈ after.log.drop before.log.length

instance (x y : Ce) : Decidable (Restarts x y) := by unfold Restarts; infer_instance

/-! ## the places -/

inductive Place where
  | lLoss1
  | lLoss2
  | internal
  | cardemu3
  | lLoss3
  | lLoss4
  | getRxF

def Place.reset (ce : Ce) : Place → Ce
  | .lLoss1 => { ce.relisten with
      rxReady := false, txReady := false, isFirstA3_Frame := true, ulCwritePageSet := 0 }
  | .lLoss2 => { ce.relisten with isActivatedA := false, isFirstA3_Frame := true, ulCwritePageSet := 0 }
  | .internal => { ce.relisten with rxReady := false, txReady := false, isActivatedA := false }
  | .cardemu3 => { ce.relisten with rxReady := false, txReady := false }
  | .lLoss3 => { ce.relisten with
      rxReady := false, txReady := false, isActivatedA := false, isFirstA3_Frame := true,
      ulCwritePageSet := 0 }
  | .lLoss4 => { ce.relisten with
      rxReady := false, txReady := false, isFirstA3_Frame := true, ulCwritePageSet := 0 }
  | .getRxF => { ce.relisten with rxReady := false, txReady := false }

/-- the variables that the place leaves alone are fresh -/
def Place.LeavesFresh (ce : Ce) : Place → Prop
  | .lLoss1 => ce.isActivatedA = false ∧ ce.isFirstF_Frame = false
  | .lLoss2 => ce.rxReady = false ∧ ce.txReady = false ∧ ce.isFirstF_Frame = false
  | .internal =>
    ce.isFirstA3_Frame = true ∧ ce.isFirstF_Frame = false ∧ ce.ulCwritePageSet = 0
  | .lLoss3 => ce.isFirstF_Frame = false
  | .lLoss4 => ce.isActivatedA = false ∧ ce.isFirstF_Frame = false
  | .cardemu3 | .getRxF =>
    ce.isActivatedA = false ∧ ce.isFirstA3_Frame = true ∧ ce.isFirstF_Frame = false ∧
      ce.ulCwritePageSet = 0

theorem reset_rearmed_iff (ce : Ce) (p : Place) : Rearmed (p.reset ce) ↔ p.LeavesFresh ce := by
  constructor
  · intro h
    cases p with
    | lLoss1 => exact ⟨h.isActivatedA, h.isFirstF_Frame⟩
    | lLoss2 => exact ⟨h.rxReady, h.txReady, h.isFirstF_Frame⟩
    | internal => exact ⟨h.isFirstA3_Frame, h.isFirstF_Frame, h.ulCwritePageSet⟩
    | lLoss3 => exact h.isFirstF_Frame
    | lLoss4 => exact ⟨h.isActivatedA, h.isFirstF_Frame⟩
    | cardemu3 => exact ⟨h.isActivatedA, h.isFirstA3_Frame, h.isFirstF_Frame, h.ulCwritePageSet⟩
    | getRxF => exact ⟨h.isActivatedA, h.isFirstA3_Frame, h.isFirstF_Frame, h.ulCwritePageSet⟩
  · intro h
    cases p with
    | lLoss1 => exact ⟨rfl, rfl, h.1, rfl, h.2, rfl⟩
    | lLoss2 => exact ⟨h.1, h.2.1, rfl, rfl, h.2.2, rfl⟩
    | internal => exact ⟨rfl, rfl, rfl, h.1, h.2.1, h.2.2⟩
    | lLoss3 => exact ⟨rfl, rfl, rfl, rfl, h, rfl⟩
    | lLoss4 => exact ⟨rfl, rfl, h.1, rfl, h.2, rfl⟩
    | cardemu3 => exact ⟨rfl, rfl, h.1, h.2.1, h.2.2.1, h.2.2.2⟩
    | getRxF => exact ⟨rfl, rfl, h.1, h.2.1, h.2.2.1, h.2.2.2⟩

theorem reset_rxRcvdLen (ce : Ce) (p : Place) : (p.reset ce).rxRcvdLen = 0 := by
  cases p <;> rfl

theorem reset_log (ce : Ce) (p : Place) : (p.reset ce).log = ce.log ++ [.restart] := by
  cases p <;> rfl

/-- a delivered frame is no session variable -/
theorem recv_leavesFresh (ce : Ce) (f : Option Reception) (p : Place) :
    p.LeavesFresh (ce.recv f) ↔ p.LeavesFresh ce := by
  cases f <;> exact Iff.rfl

/-- the place at which `ceHandler` restarts -/
def handlerPlace (ce : Ce) (a : Answers) : Option Place :=
  if ce.ceEnabled = true ∧ a.handler.status = .errLinkLoss then
    match a.state with
    | .activeA | .activeAx =>
      if a.dataFlag = true ∨ ce.isFirstA3_Frame = true then none else some .lLoss1
    | .cardemu4A =>
      if ce.isActivatedA then
        if ce.emuMode &&& cardemulationProcessInternal = cardemulationProcessInternal then
          some .internal
        else none
      else some .lLoss2
    | .cardemu3 => if ce.isFirstF_Frame then none else some .cardemu3
    | _ => none
  else none

/-- the place at which `ceGetRx` restarts -/
def getRxPlace (cmd : CeCmd) (ce : Ce) (a : Answers) : Option Place :=
  match cmd with
  | .getRxA =>
    if ce.isActivatedA then
      if a.getRx.status ∈ [.errNone, .errBusy, .errAgain] then none else some .lLoss3
    else if ce.isFirstA3_Frame then none
    else if a.getRx.status ∈ [.errNone, .errBusy] then none else some .lLoss4
  | .getRxF =>
    if ce.isFirstF_Frame then none
    else if a.getRx.status ∈ [.errNone, .errBusy] then none else some .getRxF
  | _ => none

/-! ## what a call does to the log -/

/-- the call has noted something, but no restart -/
def Quiet (before after : Ce) : Prop := ∃ es, after.log = before.log ++ es ∧ .restart ∉ es

theorem Quiet.refl {x y : Ce} (h : y.log = x.log) : Quiet x y :=
  ⟨[], h.trans (List.append_nil _).symm, List.not_mem_nil⟩

theorem ev_no_restart (f : Option Reception) : Ev.restart ∉ Reception.ev f := by
  cases f with
  | none => exact List.not_mem_nil
  | some f => exact fun h => Ev.noConfusion (List.mem_singleton.mp h)

theorem Quiet.recv {x y : Ce} (h : Quiet x y) (f : Option Reception) : Quiet x (y.recv f) := by
  obtain ⟨es, hlog, hes⟩ := h
  refine ⟨es ++ Reception.ev f, ?_, ?_⟩
  · rw [recv_log, hlog, List.append_assoc]
  · rw [List.mem_append]
    rintro (h | h)
    · exact hes h
    · exact ev_no_restart f h

theorem Quiet.log {x y : Ce} {e : Ev} (he : e ≠ .restart) (h : y.log = x.log ++ [e]) : Quiet x y :=
  ⟨[e], h, fun hm => he (List.mem_singleton.mp hm).symm⟩

theorem Quiet.not_restarts {x y : Ce} (h : Quiet x y) : ¬ Restarts x y := by
  obtain ⟨es, hlog, hes⟩ := h
  unfold Restarts
  rw [hlog, List.drop_left]
  exact hes

theorem reset_restarts (x : Ce) (f : Option Reception) (p : Place) :
    Restarts x (p.reset (x.recv f)) := by
  unfold Restarts
  rw [reset_log, recv_log, List.append_assoc, List.drop_left]
  exact List.mem_append_right _ (List.mem_singleton.mpr rfl)

/-! ## where the calls come to -/

/-- what a call does when it comes to a place, or to none -/
def Comes (ce : Ce) (f : Option Reception) (after : Ce) : Option Place → Prop
  | some p => after = p.reset (ce.recv f)
  | none => Quiet ce after

section
variable (ce : Ce) (a : Answers)

theorem handlerData_quiet : Quiet ce (handlerData ce a) := by
  have hnote : ∀ e : Ev, e ≠ .restart → ∀ r, Quiet ce ((ce.note e).sleepStart r) :=
    fun e he r => .log he (sleepStart_log (ce.note e) r)
  unfold handlerData
  split_ifs
  · exact (Quiet.log (e := .rats) Ev.noConfusion rfl).recv _
  · exact hnote .ratsIgnored Ev.noConfusion _
  · exact .log (e := .ratsIgnored) Ev.noConfusion rfl
  · exact .refl rfl
  · exact hnote .hlta Ev.noConfusion _
  · exact .refl rfl
  · exact .refl rfl

theorem handlerNoData_comes :
    Comes ce a.handler.rx (handlerNoData ce a)
      (if a.handler.status = .errLinkLoss then
        if ce.isFirstA3_Frame then none else some .lLoss1
      else none) := by
  unfold handlerNoData
  by_cases hf : ce.isFirstA3_Frame = true
  · rw [if_pos hf, if_pos hf, ite_self]
    exact Quiet.refl rfl
  · rw [if_neg hf, if_neg hf]
    cases hs : a.handler.status with
    | errLinkLoss => rfl
    | _ => exact (Quiet.refl rfl).recv _

theorem handlerCardemu4A_comes :
    Comes ce a.handler.rx (handlerCardemu4A ce a)
      (if a.handler.status = .errLinkLoss then
        if ce.isActivatedA then
          if ce.emuMode &&& cardemulationProcessInternal = cardemulationProcessInternal then
            some .internal
          else none
        else some .lLoss2
      else none) := by
  have hecho : ∀ x : Ce, Quiet ce x → Quiet ce (ceNfcaCardemu4A x a) := by
    intro x hx
    unfold ceNfcaCardemu4A
    split_ifs
    · obtain ⟨es, hlog, hes⟩ := hx
      refine Quiet.recv ⟨es ++ [.isoTx x.rxRcvdLen], ?_, ?_⟩ _
      · show x.log ++ _ = _
        rw [hlog, List.append_assoc]
      · simp [hes]
    · exact hx
  unfold handlerCardemu4A
  by_cases ha : ce.isActivatedA = true
  · rw [if_pos ha, if_pos ha]
    by_cases hi : ce.emuMode &&& cardemulationProcessInternal = cardemulationProcessInternal
    · rw [if_pos hi, if_pos hi]
      cases hs : a.handler.status with
      | errLinkLoss => rfl
      | errNone => exact hecho _ ((Quiet.refl rfl).recv _)
      | _ => exact (Quiet.refl rfl).recv _
    · rw [if_neg hi, if_neg hi, ite_self]
      exact Quiet.refl rfl
  · rw [if_neg ha, if_neg ha]
    cases hs : a.handler.status with
    | errLinkLoss => rfl
    | errNone => exact (Quiet.refl rfl).recv a.handler.rx
    | _ => exact (Quiet.refl rfl).recv _

theorem handlerCardemu3_comes :
    Comes ce a.handler.rx (handlerCardemu3 ce a)
      (if a.handler.status = .errLinkLoss then
        if ce.isFirstF_Frame then none else some .cardemu3
      else none) := by
  have hecho : ∀ x : Ce, Quiet ce x → Quiet ce (ceNfcfCardemu3 x a) := by
    intro x hx
    unfold ceNfcfCardemu3
    split_ifs
    · obtain ⟨es, hlog, hes⟩ := hx
      refine Quiet.recv ⟨es ++ [.startTx x.rxRcvdLen], ?_, ?_⟩ _
      · show x.log ++ _ = _
        rw [hlog, List.append_assoc]
      · simp [hes]
    · exact hx
  unfold handlerCardemu3
  by_cases hf : ce.isFirstF_Frame = true
  · rw [if_pos hf, if_pos hf, ite_self]
    exact hecho ce (.refl rfl)
  · rw [if_neg hf, if_neg hf]
    cases hs : a.handler.status with
    | errLinkLoss => rfl
    | errNone => exact hecho _ ((Quiet.refl rfl).recv _)
    | _ => exact (Quiet.refl rfl).recv _

/-- **What `ceHandler` does to the session.** -/
theorem ceHandler_comes : Comes ce a.handler.rx (ceHandler ce a) (handlerPlace ce a) := by
  unfold ceHandler handlerPlace
  by_cases he : ce.ceEnabled = true
  swap
  · rw [if_neg he, if_neg fun h => he h.1]
    exact Quiet.refl rfl
  simp only [he, if_true, true_and]
  have hactive : Comes ce a.handler.rx
      (if a.dataFlag = true then handlerData ce a else handlerNoData ce a)
      (if a.handler.status = .errLinkLoss then
        if a.dataFlag = true ∨ ce.isFirstA3_Frame = true then none else some .lLoss1
      else none) := by
    by_cases hd : a.dataFlag = true
    · rw [if_pos hd, if_pos (Or.inl hd), ite_self]
      exact handlerData_quiet ce a
    · have h := handlerNoData_comes ce a
      simp only [hd, Bool.false_eq_true, if_false, false_or]
      exact h
  cases a.state with
  | activeA => exact hactive
  | activeAx => exact hactive
  | cardemu4A => exact handlerCardemu4A_comes ce a
  | cardemu3 => exact handlerCardemu3_comes ce a
  | readyF =>
    simp only [ite_self]
    split_ifs <;> exact Quiet.refl rfl
  | _ =>
    simp only [ite_self]
    exact Quiet.refl rfl

theorem ceGetRxA_comes (n : Nat) :
    Comes ce a.getRx.rx (ceGetRx .getRxA ce a n).ce (getRxPlace .getRxA ce a) := by
  unfold ceGetRx getRxPlace
  by_cases ha : ce.isActivatedA = true
  · simp only [ha, if_true]
    unfold ceGetRxActivated
    cases hs : a.getRx.status with
    | errNone => exact (Quiet.refl rfl).recv a.getRx.rx
    | errBusy => exact (Quiet.refl rfl).recv _
    | errAgain => exact (Quiet.refl rfl).recv _
    | _ => rfl
  simp only [ha, Bool.false_eq_true, if_false]
  by_cases hf : ce.isFirstA3_Frame = true
  · simp only [hf, if_true]
    unfold ceGetRxFirst
    split_ifs <;> exact Quiet.refl rfl
  simp only [hf, Bool.false_eq_true, if_false]
  unfold ceGetRxLater
  cases hs : a.getRx.status with
  | errNone =>
    by_cases hl : (ce.recv a.getRx.rx).rxRcvdLen > 0
    · simp only [if_pos hl]
      exact (Quiet.refl rfl).recv a.getRx.rx
    · simp only [if_neg hl]
      exact (Quiet.refl rfl).recv _
  | errBusy => exact (Quiet.refl rfl).recv _
  | _ => rfl

theorem ceGetRxF_comes (n : Nat) :
    Comes ce a.getRx.rx (ceGetRxF ce a n).ce (getRxPlace .getRxF ce a) := by
  unfold ceGetRxF getRxPlace
  by_cases hf : ce.isFirstF_Frame = true
  · simp only [hf, if_true]
    exact Quiet.refl rfl
  simp only [hf, Bool.false_eq_true, if_false]
  cases hs : a.getRx.status with
  | errNone => exact (Quiet.refl rfl).recv a.getRx.rx
  | errBusy => exact (Quiet.refl rfl).recv _
  | _ => rfl

/-- **What `ceGetRx` does to the session.** -/
theorem ceGetRx_comes (cmd : CeCmd) (n : Nat) :
    Comes ce a.getRx.rx (ceGetRx cmd ce a n).ce (getRxPlace cmd ce a) := by
  cases cmd with
  | getRxA => exact ceGetRxA_comes ce a n
  | getRxF => exact ceGetRxF_comes ce a n
  | _ => exact Quiet.refl rfl

end

/-- a call restarts exactly when it comes to a place, and then leaves a fresh engine exactly when
the place finds what it has to -/
theorem Comes.rearmed_iff {ce after : Ce} {f : Option Reception} {place : Option Place}
    (h : Comes ce f after place) :
    (Restarts ce after → Rearmed after) ↔ ∀ p ∈ place, p.LeavesFresh ce := by
  cases place with
  | none => exact ⟨fun _ p hp => absurd hp (by simp), fun _ hr => absurd hr (Quiet.not_restarts h)⟩
  | some p =>
    obtain rfl : after = p.reset (ce.recv f) := h
    have hp := (reset_rearmed_iff (ce.recv f) p).trans (recv_leavesFresh ce f p)
    constructor
    · intro hr q hq
      obtain rfl := Option.some.inj hq
      exact hp.mp (hr (reset_restarts ce f p))
    · exact fun hl _ => hp.mpr (hl p rfl)

theorem Comes.rxRcvdLen {ce after : Ce} {f : Option Reception} {place : Option Place}
    (h : Comes ce f after place) (hr : Restarts ce after) : after.rxRcvdLen = 0 := by
  cases place with
  | none => exact absurd hr (Quiet.not_restarts h)
  | some p =>
    obtain rfl : after = p.reset (ce.recv f) := h
    exact reset_rxRcvdLen _ p

/-! ## the configuration of the session -/

/-- the engine started afresh with the record of `u`, everything else as it is -/
def Ce.restarted (ce : Ce) (u : UserTagProperties) : Ce := ceStart (ceStop ce) (startCmd u)

def Configured (u : UserTagProperties) (ce : Ce) : Prop :=
  ce.configuration = (ce.restarted u).configuration

section
variable {ce : Ce} {a : Answers}

theorem recv_configuration (ce : Ce) (f : Option Reception) :
    (ce.recv f).configuration = ce.configuration := congrArg Prod.snd (recv_settled ce f)

theorem Handled.configuration {h : Ce} (hh : Handled ce a h) :
    h.configuration = ce.configuration := congrArg Prod.snd hh.settled

theorem GotA.configuration {g : Got} (hg : GotA ce a g) :
    g.ce.configuration = ce.configuration := congrArg Prod.snd hg.settled

theorem Handed.configuration {bits : Nat} {reset : Bool} {r : Ce} (hr : Handed ce a bits reset r) :
    r.configuration = ce.configuration := congrArg Prod.snd hr.settled

theorem woken_configuration : (ce.woken a).configuration = ce.configuration :=
  congrArg Prod.snd woken_settled

theorem configured_of_eq {u : UserTagProperties} {x y : Ce} (h : x.configuration = y.configuration)
    (hy : Configured u y) : Configured u x := h.trans hy

end

section
variable {u : UserTagProperties} {ce : Ce}

theorem hydranfcCeCommon_configured (ce : Ce) (u : UserTagProperties) (message : List UInt8) :
    Configured u (hydranfcCeCommon ce u message) := rfl

theorem Configured.emuMode (h : Configured u ce) : ce.emuMode = cardemulationModeNdef := by
  have hmode : ce.emuMode = ((startCmd u).getD 0 0).toNat := congrArg Prod.fst h
  rw [hmode, startCmd_mode]
  rfl

theorem Configured.handled (h : Configured u ce) (a : Answers) : Configured u (ce.handled a) := by
  have hw : Configured u (ce.woken a) := configured_of_eq woken_configuration h
  exact configured_of_eq (Hydra.handled hw.emuMode).configuration hw

theorem Iterated.configuration {a : Answers} {r : Ce} (hi : Iterated ce a r) :
    r.configuration = ce.configuration := by
  cases hi with
  | waited h g hh hg =>
    exact hg.configuration.trans (hh.configuration.trans woken_configuration)
  | answered h g r hh hg _ hr =>
    have hgot := hg.configuration.trans (hh.configuration.trans (woken_configuration (a := a)))
    exact hr.configuration.trans hgot

/-- **The configuration lasts.** -/
theorem Configured.ceRun (h : Configured u ce) (a : Answers) : Configured u (ceRun ce a) :=
  configured_of_eq (iterated h.emuMode a).configuration h

theorem Comes.configured {after : Ce} {f : Option Reception} {place : Option Place}
    (h : Comes ce f after place) (hr : Restarts ce after) (hc : Configured u ce) :
    Configured u after := by
  cases place with
  | none => exact absurd hr (Quiet.not_restarts h)
  | some p =>
    obtain rfl : after = p.reset (ce.recv f) := h
    have hp : (p.reset (ce.recv f)).configuration = (ce.recv f).configuration := by cases p <;> rfl
    exact configured_of_eq (hp.trans (recv_configuration ce f)) hc

/-- an engine up to the length and the flags of its last transmission -/
@[reducible] def Ce.withTx (ce : Ce) (txBufLen flags : Nat) : Ce :=
  { ce with transceiveCtx := { ce.transceiveCtx with txBufLen := txBufLen, flags := flags } }

/-- listening again with fresh variables is a fresh start up to the last transmission -/
theorem Rearmed.restarted (h : Rearmed ce) (hc : Configured u ce) (hl : ce.rxRcvdLen = 0) :
    ce.restarted u = ce.withTx 0 flagsDefault := by
  obtain ⟨hrx, htx, hact, hA3, hF, hul⟩ := h
  unfold Configured Ce.configuration at hc
  simp only [Prod.mk.injEq] at hc
  obtain ⟨hmode, hmask, hA, hB, hconfF, hats, hen, hiso, htxBuf⟩ := hc
  rcases ce with ⟨⟨ram, nState, nSelectedIdx, ndefFile, ul⟩, len, enabled, mask, confA, confB, confF,
    ats, ⟨tx, txLen, txFlags⟩, mode, act, firstF, firstA3, ⟨iso, isoLen, fsx⟩, rx, txReady, l4, pr, log⟩
  simp only at hrx htx hact hA3 hF hul hl hmode hmask hA hB hconfF hats hen hiso htxBuf
  subst hrx htx hact hA3 hF hul hl
  unfold Ce.withTx Ce.restarted ceStop ceStart ceInit
  rw [Ce.mk.injEq]
  exact ⟨rfl, rfl, hen.symm, hmask.symm, hA.symm, hB.symm, hconfF.symm, hats.symm, by rw [htxBuf]; rfl,
    hmode.symm, rfl, rfl, rfl, by rw [hiso]; rfl, rfl, rfl, rfl, rfl, rfl⟩

end

/-! ## engines that run alike -/

/-- the same engine, up to the length and the flags of the last transmission -/
def Alike (x y : Ce) : Prop := ∃ n fl, y = x.withTx n fl

section
variable (ce : Ce) (a : Answers) (n fl : Nat)

@[simp] theorem withTx_rxBuf : (ce.withTx n fl).rxBuf = ce.rxBuf := rfl

@[simp] theorem recv_withTx (f : Option Reception) :
    (ce.withTx n fl).recv f = (ce.recv f).withTx n fl := by
  cases f <;> rfl

@[simp] theorem sleepStart_withTx (r : ReturnCode) :
    (ce.withTx n fl).sleepStart r = (ce.sleepStart r).withTx n fl := by
  unfold Ce.sleepStart
  split_ifs <;> rfl

@[simp] theorem note_withTx (e : Ev) : (ce.withTx n fl).note e = (ce.note e).withTx n fl := rfl

@[simp] theorem woken_withTx : (ce.withTx n fl).woken a = (ce.woken a).withTx n fl :=
  recv_withTx { ce with ram := { ce.ram with trace := [] }, log := [] } n fl a.worker

theorem handlerData_withTx :
    handlerData (ce.withTx n fl) a = (handlerData ce a).withTx n fl := by
  unfold handlerData
  simp only [withTx_rxBuf, note_withTx, sleepStart_withTx]
  split_ifs
  · exact recv_withTx { ce with
      isoDepTxRxParam := { ce.isoDepTxRxParam with fsx := rfalIsoDepFSxI2FSx ce.atsParam.fsci }
      log := ce.log ++ [.rats] } n fl _
  all_goals rfl

theorem handlerNoData_withTx :
    handlerNoData (ce.withTx n fl) a = (handlerNoData ce a).withTx n fl := by
  unfold handlerNoData
  simp only [recv_withTx]
  split_ifs
  · rfl
  · cases a.handler.status <;> rfl

theorem handlerCardemu4A_withTx (hn : ce.emuMode = cardemulationModeNdef) :
    handlerCardemu4A (ce.withTx n fl) a = (handlerCardemu4A ce a).withTx n fl := by
  have hi := not_internal hn
  have hi' : ¬ (ce.withTx n fl).emuMode &&& cardemulationProcessInternal
      = cardemulationProcessInternal := hi
  unfold handlerCardemu4A
  rw [if_neg hi, if_neg hi']
  simp only [recv_withTx]
  split_ifs
  · rfl
  · cases a.handler.status <;> rfl

theorem handlerCardemu3_withTx (hn : ce.emuMode = cardemulationModeNdef) :
    handlerCardemu3 (ce.withTx n fl) a = (handlerCardemu3 ce a).withTx n fl := by
  have hecho : ∀ x : Ce, x.emuMode = cardemulationModeNdef →
      ceNfcfCardemu3 (x.withTx n fl) a = (ceNfcfCardemu3 x a).withTx n fl := by
    intro x hx
    have hx' : (x.withTx n fl).emuMode = cardemulationModeNdef := hx
    rw [ceNfcfCardemu3_ndef hx, ceNfcfCardemu3_ndef hx']
  unfold handlerCardemu3
  simp only [recv_withTx]
  split_ifs
  · exact hecho ce hn
  · cases a.handler.status with
    | errNone => exact hecho _ ((recv_emuMode ce _).trans hn)
    | _ => rfl

theorem ceHandler_withTx (hn : ce.emuMode = cardemulationModeNdef) :
    ceHandler (ce.withTx n fl) a = (ceHandler ce a).withTx n fl := by
  unfold ceHandler
  rw [handlerData_withTx, handlerNoData_withTx, handlerCardemu4A_withTx ce a n fl hn,
    handlerCardemu3_withTx ce a n fl hn]
  by_cases he : ce.ceEnabled = true
  · simp only [if_pos he]
    cases a.dataFlag <;> cases a.state <;> rfl
  · simp only [if_neg he]

theorem ceGetRxA_withTx (m : Nat) :
    ceGetRx .getRxA (ce.withTx n fl) a m =
      { ceGetRx .getRxA ce a m with ce := (ceGetRx .getRxA ce a m).ce.withTx n fl } := by
  unfold ceGetRx
  by_cases ha : ce.isActivatedA = true
  · simp only [if_pos ha]
    unfold ceGetRxActivated
    rw [recv_withTx]
    cases a.getRx.status <;> rfl
  simp only [if_neg ha]
  by_cases hf : ce.isFirstA3_Frame = true
  · simp only [if_pos hf]
    unfold ceGetRxFirst
    by_cases hr : ce.rxReady = true
    · simp only [if_pos hr]
      rfl
    · simp only [if_neg hr]
  simp only [if_neg hf]
  unfold ceGetRxLater
  rw [recv_withTx]
  cases a.getRx.status with
  | errNone =>
    by_cases hl : (ce.recv a.getRx.rx).rxRcvdLen > 0
    · simp only [if_pos hl]
      rfl
    · simp only [if_neg hl]
  | _ => rfl

theorem Alike.refl (x : Ce) : Alike x x := ⟨x.transceiveCtx.txBufLen, x.transceiveCtx.flags, rfl⟩

theorem ceSetTxActivated_withTx (bits : Nat) :
    (ceSetTxActivated (ce.withTx n fl) a bits).2 = (ceSetTxActivated ce a bits).2.withTx n fl := by
  unfold ceSetTxActivated
  by_cases ht : ce.txReady = true
  · have hs := recv_withTx { ce with
      ram := ce.ram.copy ce.isoDepTxRxParam.txBuf prologueSize .rxtxFrameBuf 0 (rfalConvBitsToBytes bits)
      isoDepTxRxParam := { ce.isoDepTxRxParam with txBufLen := rfalConvBitsToBytes bits }
      rxRcvdLen := 0
      log := ce.log ++ [.isoTx (rfalConvBitsToBytes bits)] } n fl a.isoTx.rx
    simp only [if_pos ht]
    rw [hs]
    split_ifs <;> rfl
  · simp only [if_neg ht]

theorem ceSetTxReset_alike (bits : Nat) :
    Alike (ceSetTxReset (ce.prepareTx bits) a bits).2
      (ceSetTxReset ((ce.withTx n fl).prepareTx bits) a bits).2 := by
  unfold ceSetTxReset
  by_cases hb : bits > 0
  · -- the flags of this transmission are set before it starts
    simp only [if_pos hb]
    exact Alike.refl _
  · simp only [if_neg hb]
    refine ⟨bits, fl, ?_⟩
    unfold Ce.sleepStart
    split_ifs <;> rfl

theorem ceSetTxLayer3_alike (bits : Nat) (reset : Bool) :
    Alike (ceSetTxLayer3 ce a bits reset).2 (ceSetTxLayer3 (ce.withTx n fl) a bits reset).2 := by
  unfold ceSetTxLayer3
  by_cases ht : ce.txReady = true
  · simp only [if_pos ht]
    cases reset
    · exact Alike.refl _
    · exact ceSetTxReset_alike ce a n fl bits
  · simp only [if_neg ht]
    exact ⟨n, fl, rfl⟩

theorem ceSetTxA_alike (bits : Nat) (reset : Bool) :
    Alike (ceSetTx .setTxA ce a bits reset).2 (ceSetTx .setTxA (ce.withTx n fl) a bits reset).2 := by
  let x := ce.note (.setTx ce.txReady)
  show Alike
    (if ce.isActivatedA = true then ceSetTxActivated x a bits else ceSetTxLayer3 x a bits reset).2
    (if ce.isActivatedA = true then ceSetTxActivated (x.withTx n fl) a bits
      else ceSetTxLayer3 (x.withTx n fl) a bits reset).2
  by_cases ha : ce.isActivatedA = true
  · rw [if_pos ha, if_pos ha]
    exact ⟨n, fl, ceSetTxActivated_withTx x a n fl bits⟩
  · rw [if_neg ha, if_neg ha]
    exact ceSetTxLayer3_alike x a n fl bits reset

end

/-- `ceRun` behind `ceHandler` -/
def Ce.conclude (ce : Ce) (a : Answers) : Ce :=
  let got := ceGetRx .getRxA ce a (objSize .rxtxFrameBuf)
  let ce := got.ce.note (.getRx got.err)
  if got.err = .errNone then ceAnswer ce a got.txSize else ce

theorem ceRun_eq (ce : Ce) (a : Answers) : ceRun ce a = (ce.handled a).conclude a := rfl

theorem Alike.conclude {x y : Ce} (h : Alike x y) (a : Answers) :
    Alike (x.conclude a) (y.conclude a) := by
  obtain ⟨n, fl, rfl⟩ := h
  have hg := ceGetRxA_withTx x a n fl (objSize .rxtxFrameBuf)
  unfold Ce.conclude
  rw [hg]
  generalize ceGetRx .getRxA x a (objSize .rxtxFrameBuf) = g
  by_cases he : g.err = .errNone
  · simp only [if_pos he]
    exact ceSetTxA_alike ((g.ce.note (.getRx g.err)).processed a g.txSize) a n fl _ _
  · simp only [if_neg he]
    exact ⟨n, fl, rfl⟩

/-- what an iteration shows: its log, and the card with its memory -/
def observed (ce : Ce) (a : Answers) : List (List Ev × Card) := [(logOf ce a, (ceRun ce a).toCard)]

/-- **Alike engines run alike.** -/
theorem Alike.observed {x y : Ce} (h : Alike x y) (hn : x.emuMode = cardemulationModeNdef)
    (as : List Answers) : outs observed ceRun x as = outs observed ceRun y as := by
  have hstep : ∀ x y a, (x.emuMode = cardemulationModeNdef ∧ Alike x y) →
      Hydra.observed x a = Hydra.observed y a ∧
        (ceRun x a).emuMode = cardemulationModeNdef ∧ Alike (ceRun x a) (ceRun y a) := by
    rintro x y a ⟨hx, hxy⟩
    have hrun : Alike (ceRun x a) (ceRun y a) := by
      rw [ceRun_eq, ceRun_eq]
      apply Alike.conclude
      obtain ⟨n, fl, rfl⟩ := hxy
      have hw : (x.woken a).emuMode = cardemulationModeNdef := (recv_emuMode _ _).trans hx
      refine ⟨n, fl, ?_⟩
      unfold Ce.handled
      rw [woken_withTx]
      exact ceHandler_withTx (x.woken a) a n fl hw
    refine ⟨?_, ceRun_emuMode hx, hrun⟩
    obtain ⟨n, fl, hy⟩ := hrun
    unfold Hydra.observed logOf
    rw [hy]
  exact outs_eq_of_coupled Hydra.observed hstep ⟨hn, h⟩ as

/-! ## every restart of a run -/

/-- **The session after a restart** is that of a fresh engine: in the variables that the calls of
an iteration leave, and in everything that the engine does from there on. -/
structure RearmLaw (u : UserTagProperties) (ce : Ce) (a : Answers) : Prop where
  handler : Restarts (ce.woken a) (ce.handled a) → Rearmed (ce.handled a)
  handlerAfter : Restarts (ce.woken a) (ce.handled a) → ∀ as,
    ((ce.handled a).conclude a).log = (((ce.handled a).restarted u).conclude a).log ∧
    ((ce.handled a).conclude a).toCard = (((ce.handled a).restarted u).conclude a).toCard ∧
    outs observed ceRun ((ce.handled a).conclude a) as =
      outs observed ceRun (((ce.handled a).restarted u).conclude a) as
  getRx : ∀ cmd n, Restarts (ce.handled a) (ceGetRx cmd (ce.handled a) a n).ce →
    Rearmed (ceGetRx cmd (ce.handled a) a n).ce
  getRxAfter : ∀ cmd n, Restarts (ce.handled a) (ceGetRx cmd (ce.handled a) a n).ce → ∀ as,
    outs observed ceRun (ceGetRx cmd (ce.handled a) a n).ce as =
      outs observed ceRun ((ceGetRx cmd (ce.handled a) a n).ce.restarted u) as

/-- each call that comes to a place is made in a state in which the variables that the place
leaves alone are fresh -/
structure RearmCond (ce : Ce) (a : Answers) : Prop where
  handler : ∀ p ∈ handlerPlace (ce.woken a) a, p.LeavesFresh (ce.woken a)
  getRx : ∀ cmd, ∀ p ∈ getRxPlace cmd (ce.handled a) a, p.LeavesFresh (ce.handled a)

section
variable {u : UserTagProperties} {ce : Ce}

theorem Comes.alike {after : Ce} {f : Option Reception} {place : Option Place}
    (h : Comes ce f after place) (hc : Configured u ce) (hr : Restarts ce after)
    (hf : Rearmed after) : Alike after (after.restarted u) :=
  ⟨0, flagsDefault, hf.restarted (h.configured hr hc) (h.rxRcvdLen hr)⟩

theorem rearmLaw_iff (hc : Configured u ce) (a : Answers) : RearmLaw u ce a ↔ RearmCond ce a := by
  have hw : Configured u (ce.woken a) := configured_of_eq woken_configuration hc
  have hh : Configured u (ce.handled a) := hc.handled a
  have hcomes : Comes (ce.woken a) a.handler.rx (ce.handled a) (handlerPlace (ce.woken a) a) :=
    ceHandler_comes (ce.woken a) a
  constructor
  · intro h
    exact ⟨hcomes.rearmed_iff.mp h.handler,
      fun cmd => (ceGetRx_comes (ce.handled a) a cmd 0).rearmed_iff.mp (h.getRx cmd 0)⟩
  · intro h
    have hhandler := hcomes.rearmed_iff.mpr h.handler
    have hget := fun cmd n =>
      (ceGetRx_comes (ce.handled a) a cmd n).rearmed_iff.mpr (h.getRx cmd)
    refine ⟨hhandler, ?_, hget, ?_⟩
    · intro hr as
      have halike := (hcomes.alike hw hr (hhandler hr)).conclude a
      have hmode : (ceRun ce a).emuMode = cardemulationModeNdef := ceRun_emuMode hc.emuMode
      have hafter := halike.observed hmode as
      obtain ⟨n, fl, hy⟩ := halike
      rw [hy] at hafter ⊢
      exact ⟨rfl, rfl, hafter⟩
    · intro cmd n hr as
      have hcome := ceGetRx_comes (ce.handled a) a cmd n
      exact (hcome.alike hh hr (hget cmd n hr)).observed (hcome.configured hr hh).emuMode as

end

/-- **Listening again.**  In a run of a session every restart leaves a fresh engine behind exactly
when each place that restarts finds the variables that it leaves alone fresh. -/
theorem stepsOk_rearm_iff (ce : Ce) (u : UserTagProperties) (message : List UInt8)
    (as : List Answers) :
    StepsOk (RearmLaw u) ceRun (hydranfcCeCommon ce u message) as ↔
      StepsOk RearmCond ceRun (hydranfcCeCommon ce u message) as := by
  have hstart := hydranfcCeCommon_configured ce u message
  constructor
  · exact StepsOk.mono (fun _ a hc _ => Configured.ceRun hc a) (fun _ a hc h => (rearmLaw_iff hc a).mp h)
      hstart
  · exact StepsOk.mono (fun _ a hc _ => Configured.ceRun hc a) (fun _ a hc h => (rearmLaw_iff hc a).mpr h)
      hstart

/-! ## a run that leaves a stale flag -/

/-- `LLoss2` does not clear `rxReady`: the engine that listens again processes a frame of no bytes -/
theorem stale_rxReady :
    (run ceRun (hydranfcCeCommon Ce.boot ultralightLevel4 []) [answersRead, answersReadBusy,
      answersRats, answersActivationLost]).log = [.restart, .getRx .errNone,
        .process false 0 0 false, .setTx true, .startTx 0] ∧
    ¬ ∀ (ce : Ce) (u : UserTagProperties) (message : List UInt8) (as : List Answers),
      StepsOk (RearmLaw u) ceRun (hydranfcCeCommon ce u message) as := by
  refine ⟨by decide +kernel, fun hall => ?_⟩
  have hlast := (hall Ce.boot ultralightLevel4 [] [answersRead, answersReadBusy, answersRats,
    answersActivationLost]).2.2.2.1
  have hr := (hlast.handler (by decide +kernel)).rxReady
  exact absurd hr (by decide +kernel)

end Hydra
