import HydraFw.Lib.Runs
import HydraFw.Ce.Session
import HydraFw.Ce.Steps

/-!
# A pending second phase and the end of a selection

A monitor reads what the iterations do.  It knows whether the selection has ended since the last
command (`ended`), and accepts a command then only with `ul_cwrite_page_set` clear (`Fit`).

`ceHandler` clears the variable where it sees the field lost at layer 3 or during activation, but
not where it hears a HLTA, ignores a RATS, or loses the field in `CARDEMU_3`.

* `Forgets`         a step that goes one of these three ways;
* `pending_step`    what one iteration keeps, `pending_run` the law over whole runs.
-/

namespace Hydra
open Rams Runs

/-! ## the monitor -/

/-- the selection has ended and no command was processed since -/
def ended (b : Bool) : Ev → Bool
  | .hlta | .ratsIgnored | .restart | .sleep _ => true
  | .process _ _ _ reset => reset
  | _ => b

/-- a command after the end of a selection finds no pending second phase -/
def Fit (b : Bool) : Ev → Prop
  | .process _ _ pending _ => b = true → pending = 0
  | _ => True

/-- an event that is neither a command nor the end of a selection -/
def Ev.neutral : Ev → Prop
  | .rx _ | .rats | .getRx _ | .setTx _ | .isoTx _ | .startTx _ => True
  | _ => False

theorem ended_neutral {e : Ev} (h : e.neutral) (b : Bool) : ended b e = b := by
  cases e <;> first | rfl | cases h

theorem fit_neutral {e : Ev} (h : e.neutral) (b : Bool) : Fit b e := by
  cases e <;> trivial

/-- What holds within and between iterations: the monitor, started in `b`, accepts what was done
so far, and finds no pending second phase where the selection has ended. -/
structure Settled (b : Bool) (ce : Ce) : Prop where
  fits : StepsOk Fit ended b ce.log
  clear : run ended b ce.log = true → ce.ulCwritePageSet = 0
  t4t : ce.currentProcessCmd = .processCmd → ce.ulCwritePageSet = 0

section
variable {b : Bool} {ce ce' : Ce}

/-- neither a command nor the end of a selection -/
theorem Settled.neutral (h : Settled b ce) (es : List Ev) (hlog : ce'.log = ce.log ++ es)
    (hes : ∀ e ∈ es, e.neutral) (hp : ce'.ulCwritePageSet = ce.ulCwritePageSet)
    (ht : ce'.currentProcessCmd = ce.currentProcessCmd) : Settled b ce' := by
  have hrun : ∀ b', run ended b' es = b' ∧ StepsOk Fit ended b' es := by
    intro b'
    clear hlog
    induction es generalizing b' with
    | nil => exact ⟨rfl, trivial⟩
    | cons e es ih =>
      have he := hes e List.mem_cons_self
      have hrest := ih fun e' he' => hes e' (List.mem_cons_of_mem _ he')
      rw [run_cons, ended_neutral he]
      refine ⟨(hrest b').1, fit_neutral he b', ?_⟩
      rw [ended_neutral he]
      exact (hrest b').2
  constructor
  · rw [hlog, stepsOk_append]
    exact ⟨h.fits, (hrun _).2⟩
  · rw [hlog, run_append, (hrun _).1, hp]
    exact h.clear
  · rw [hp, ht]
    exact h.t4t

/-- anything but a command, with the variable clear afterwards -/
theorem Settled.cleared (h : Settled b ce) (es : List Ev) (hlog : ce'.log = ce.log ++ es)
    (hes : ∀ e ∈ es, ∀ b, Fit b e) (hp : ce'.ulCwritePageSet = 0) : Settled b ce' := by
  have hrun : ∀ b', StepsOk Fit ended b' es := by
    clear hlog
    induction es with
    | nil => exact fun _ => trivial
    | cons e es ih =>
      intro b'
      exact ⟨hes e List.mem_cons_self b', ih (fun e' he' => hes e' (List.mem_cons_of_mem _ he')) _⟩
  constructor
  · rw [hlog, stepsOk_append]
    exact ⟨h.fits, hrun _⟩
  · exact fun _ => hp
  · exact fun _ => hp

theorem ev_neutral (f : Option Reception) : ∀ e ∈ Reception.ev f, e.neutral := by
  intro e he
  cases f with
  | none => exact absurd he List.not_mem_nil
  | some f =>
    obtain rfl := List.mem_singleton.mp he
    trivial

theorem Settled.recv (h : Settled b ce) (f : Option Reception) : Settled b (ce.recv f) :=
  h.neutral _ (recv_log ce f) (ev_neutral f) (recv_ulCwritePageSet ce f)
    (recv_currentProcessCmd ce f)

theorem Settled.recvs (h : Settled b ce) (fs : List (Option Reception)) :
    Settled b (ce.recvs fs) := by
  induction fs generalizing ce with
  | nil => exact h
  | cons f fs ih => exact ih (h.recv f)

/-! ## the command processors -/

section
variable (c : Card) (cmdData rspData : Obj)

theorem ulStore_pageSet (addr : UInt8) (off : Nat) :
    (ulStore c addr cmdData off rspData).card.ulCwritePageSet = c.ulCwritePageSet := by
  unfold ulStore
  split_ifs <;> rfl

theorem ulRead_pageSet :
    (ulRead c cmdData rspData).card.ulCwritePageSet = c.ulCwritePageSet := by
  unfold ulRead
  simp only
  split_ifs <;> rfl

/-- only an acknowledged first phase sets the variable, and it does not reset the card -/
theorem ulCwrite_pageSet (hr : (ulCwrite c cmdData rspData).reset = true) :
    (ulCwrite c cmdData rspData).card.ulCwritePageSet = c.ulCwritePageSet := by
  unfold ulCwrite at hr ⊢
  simp only at hr ⊢
  split_ifs at hr ⊢
  · exact absurd hr Bool.false_ne_true
  · rfl

theorem ulDispatch_pageSet (state : LmState) (phase2 : Bool) (addr : UInt8) (n : Nat)
    (hr : (ulDispatch state c phase2 addr cmdData n rspData).reset = true) :
    (ulDispatch state c phase2 addr cmdData n rspData).card.ulCwritePageSet
      = c.ulCwritePageSet := by
  have act : (ulDispatch .activeA c phase2 addr cmdData n rspData).reset = true →
      (ulDispatch .activeA c phase2 addr cmdData n rspData).card.ulCwritePageSet
        = c.ulCwritePageSet := by
    intro hr
    unfold ulDispatch at hr ⊢
    simp only at hr ⊢
    split_ifs at hr ⊢
    · rfl
    · rfl
    · exact ulStore_pageSet ..
    · rfl
    · exact ulRead_pageSet ..
    · rfl
    · exact ulStore_pageSet ..
    · rfl
    · exact ulCwrite_pageSet _ _ _ hr
    · rfl
  cases state with
  | activeA => exact act hr
  | activeAx => exact act hr
  | _ => rfl

/-- a card that asks for a reset awaits nothing -/
theorem processCmdMifUL_reset (state : LmState) (n : Nat)
    (hr : (processCmdMifUL state c cmdData n rspData).reset = true) :
    (processCmdMifUL state c cmdData n rspData).card.ulCwritePageSet = 0 := by
  unfold processCmdMifUL at hr ⊢
  rw [ulDispatch_pageSet _ _ _ _ _ _ _ hr]
  split_ifs with h
  · rfl
  · exact not_not.mp h

theorem processCmd_pageSet (state : LmState) (n : Nat) :
    (processCmd state c cmdData n rspData).card.ulCwritePageSet = c.ulCwritePageSet := by
  have hselect : ∀ c, (t4select c cmdData rspData).1.ulCwritePageSet = c.ulCwritePageSet :=
    fun _ => rfl
  have hread : ∀ c, (read c cmdData rspData).1.ulCwritePageSet = c.ulCwritePageSet := by
    intro c
    unfold read
    split_ifs <;> rfl
  have hupdate : ∀ c, (update c cmdData rspData).1.ulCwritePageSet = c.ulCwritePageSet := by
    intro c
    unfold update
    simp only
    split_ifs <;> rfl
  cases state with
  | cardemu4A =>
    unfold processCmd
    simp only
    split_ifs
    · exact hselect _
    · exact hread _
    · exact hupdate _
    · rfl
  | _ => rfl

end

theorem Settled.processed (hs : Settled b ce) (a : Answers) (n : Nat) :
    Settled b (ce.processed a n) := by
  have t4t : ce.currentProcessCmd = .processCmd → (ce.processed a n).ulCwritePageSet = 0 := by
    intro hp
    have hz := hs.t4t hp
    show (ce.process a n).card.ulCwritePageSet = 0
    unfold Ce.process
    rw [hp]
    exact (processCmd_pageSet _ _ _ _ n).trans hz
  constructor
  · show StepsOk Fit ended b (ce.log ++ [_])
    rw [stepsOk_append]
    exact ⟨hs.fits, hs.clear, trivial⟩
  · show run ended b (ce.log ++ [_]) = true → _
    rw [run_concat]
    intro hr
    show (ce.process a n).card.ulCwritePageSet = 0
    replace hr : (ce.process a n).reset = true := hr
    cases hp : ce.currentProcessCmd with
    | processCmd => exact t4t hp
    | processCmdMifUL =>
      unfold Ce.process at hr ⊢
      rw [hp] at hr ⊢
      exact processCmdMifUL_reset _ _ _ _ _ hr
  · exact t4t

/-! ## the phases of an iteration -/

/-- one of the three ways that forget the variable -/
def Forgets (ce : Ce) (a : Answers) : Prop :=
  (ce.woken a).IgnoresRats a ∨ (ce.woken a).HearsHlta a ∨ (ce.woken a).LosesF a

theorem Settled.handled {a : Answers} {h : Ce} (hs : Settled b ce) (hh : Handled ce a h)
    (hf : ce.ulCwritePageSet ≠ 0 → ¬ (ce.IgnoresRats a ∨ ce.HearsHlta a ∨ ce.LosesF a)) :
    Settled b h := by
  have clear : (ce.IgnoresRats a ∨ ce.HearsHlta a ∨ ce.LosesF a) → ce.ulCwritePageSet = 0 :=
    fun hi => by_contra fun hp => hf hp hi
  cases hh with
  | stay => exact hs
  | heard => exact hs.recv _
  | rats =>
    have hr : Settled b ({ ce with
        isoDepTxRxParam := { ce.isoDepTxRxParam with fsx := rfalIsoDepFSxI2FSx ce.atsParam.fsci }
        log := ce.log ++ [.rats] } : Ce) := hs.neutral [.rats] rfl (by simp [Ev.neutral]) rfl rfl
    exact hr.recv _
  | ratsIgnored hi =>
    exact hs.cleared [.ratsIgnored] rfl (by simp [Fit]) (clear (Or.inl hi))
  | ratsSleep hi =>
    refine hs.cleared [.ratsIgnored] (by rw [sleepStart_log]; rfl) (by simp [Fit]) ?_
    rw [sleepStart_ulCwritePageSet]
    exact clear (Or.inl hi)
  | hlta hi =>
    refine hs.cleared [.hlta] (by rw [sleepStart_log]; rfl) (by simp [Fit]) ?_
    rw [sleepStart_ulCwritePageSet]
    exact clear (Or.inr (Or.inl hi))
  | data => exact hs.neutral [] (List.append_nil _).symm (by simp) rfl rfl
  | loss1 => exact (hs.recv a.handler.rx).cleared [.restart] rfl (by simp [Fit]) rfl
  | loss2 => exact (hs.recv a.handler.rx).cleared [.restart] rfl (by simp [Fit]) rfl
  | activated =>
    exact (hs.recv a.handler.rx).neutral [] (List.append_nil _).symm (by simp) rfl rfl
  | firstF => exact hs.neutral [] (List.append_nil _).symm (by simp) rfl rfl
  | lossF hi =>
    have hz : (ce.recv a.handler.rx).ulCwritePageSet = 0 := by
      rw [recv_ulCwritePageSet]
      exact clear (Or.inr (Or.inr hi))
    exact (hs.recv a.handler.rx).cleared [.restart] rfl (by simp [Fit]) hz

theorem Settled.got {a : Answers} {g : Got} (hs : Settled b ce) (hg : GotA ce a g) :
    Settled b (g.ce.note (.getRx g.err)) := by
  have hnote : ∀ ce' : Ce, Settled b ce' → Settled b (ce'.note (.getRx g.err)) := fun ce' h =>
    h.neutral [.getRx g.err] rfl (by simp [Ev.neutral]) rfl rfl
  apply hnote
  cases hg with
  | waiting => exact hs.recv _
  | idle => exact hs
  | loss3 => exact (hs.recv a.getRx.rx).cleared [.restart] rfl (by simp [Fit]) rfl
  | loss4 => exact (hs.recv a.getRx.rx).cleared [.restart] rfl (by simp [Fit]) rfl
  | layer4 => exact (hs.recv a.getRx.rx).neutral [] (List.append_nil _).symm (by simp) rfl rfl
  | first => exact hs.neutral [] (List.append_nil _).symm (by simp) rfl rfl
  | later => exact (hs.recv a.getRx.rx).neutral [] (List.append_nil _).symm (by simp) rfl rfl

theorem Settled.handed {a : Answers} {bits : Nat} {reset : Bool} {r : Ce} (hs : Settled b ce)
    (hr : Handed ce a bits reset r) : Settled b r := by
  have iso : Settled b (ce.isoPrepared bits) :=
    hs.neutral [.setTx true, .isoTx (rfalConvBitsToBytes bits)] (List.append_assoc ..)
      (by simp [Ev.neutral]) rfl rfl
  have tx : ∀ flags, Settled b (ce.txPrepared bits flags) := fun flags =>
    hs.neutral [.setTx true, .startTx bits] (List.append_assoc ..) (by simp [Ev.neutral]) rfl rfl
  cases hr with
  | iso => exact (iso.recv a.isoTx.rx).neutral [] (List.append_nil _).symm (by simp) rfl rfl
  | isoFailed => exact iso.recv _
  | plain flags =>
    exact ((tx flags).recv a.startTx.rx).neutral [] (List.append_nil _).symm (by simp) rfl rfl
  | plainFailed flags => exact (tx flags).recv _
  | nak fs =>
    exact ((tx flagsMifare).recvs fs).cleared [.sleep false] (sleepStart_log ..) (by simp [Fit]) rfl
  | silent =>
    have hset : Settled b ((ce.note (.setTx true)).prepareTx 0) :=
      hs.neutral [.setTx true] rfl (by simp [Ev.neutral]) rfl rfl
    exact hset.cleared [.sleep true] (sleepStart_log ..) (by simp [Fit]) rfl

end

/-! ## one iteration -/

/-- between two iterations, when the monitor is in `b` -/
structure AtRest (ce : Ce) (b : Bool) : Prop where
  emuMode : ce.emuMode = cardemulationModeNdef
  clear : b = true → ce.ulCwritePageSet = 0
  t4t : ce.currentProcessCmd = .processCmd → ce.ulCwritePageSet = 0

theorem AtRest.woken {ce : Ce} {b : Bool} (h : AtRest ce b) (a : Answers) :
    Settled b (ce.woken a) := by
  have hs : Settled b { ce with ram := { ce.ram with trace := [] }, log := [] } :=
    ⟨trivial, h.clear, h.t4t⟩
  exact hs.recv a.worker

theorem Settled.iterated {ce : Ce} {a : Answers} {b : Bool} {r : Ce} (hs : Settled b (ce.woken a))
    (hf : ce.ulCwritePageSet ≠ 0 → ¬ Forgets ce a) (hi : Iterated ce a r) : Settled b r := by
  have hf' : (ce.woken a).ulCwritePageSet ≠ 0 → ¬ Forgets ce a := by
    unfold Ce.woken
    rw [recv_ulCwritePageSet]
    exact hf
  cases hi with
  | waited h g hh hg => exact (hs.handled hh hf').got hg
  | answered h g r hh hg he hr =>
    have hgot := (hs.handled hh hf').got hg
    rw [he] at hgot
    exact (hgot.processed a g.txSize).handed hr

/-- **One iteration** that does not forget a pending second phase keeps the law. -/
theorem pending_step {ce : Ce} {a : Answers} {b : Bool} (h : AtRest ce b)
    (hf : ce.ulCwritePageSet ≠ 0 → ¬ Forgets ce a) :
    StepsOk Fit ended b (logOf ce a) ∧ AtRest (ceRun ce a) (run ended b (logOf ce a)) := by
  have hs := (h.woken a).iterated hf (iterated h.emuMode a)
  exact ⟨hs.fits, ceRun_emuMode h.emuMode, hs.clear, hs.t4t⟩

/-! ## runs -/

/-- a step that has nothing to forget, or does not -/
def ClearsPending (ce : Ce) (a : Answers) : Prop := ce.ulCwritePageSet ≠ 0 → ¬ Forgets ce a

/-- A second phase is consumed only when one is pending: without one, only a WRITE changes the
image. -/
theorem ulStep_image {c : Card} (h : c.ulCwritePageSet = 0) (f : UlFrame)
    (hw : f.bytes.head? ≠ some cmdUlWrite) : (ulStep c f).image = c.image := by
  have haw : Awaits c none := h
  have hnil : (watch none (seen c f)).2 = [] := by
    unfold watch
    split_ifs
    · cases hb : (seen c f).bytes with
      | nil => rfl
      | cons x l =>
        have hx : x ≠ 0xA2 := by
          rintro rfl
          exact hw (congrArg List.head? hb)
        simp only
        split <;> first | rfl | simp_all
    · rfl
  have hi := (concluded (f := f) haw).image
  rw [hnil, run_nil] at hi
  exact hi

/-- the law over a run: a command that follows the end of a selection finds no second phase
pending, and where the selection has ended none is pending and none is consumed next -/
structure PendingLaw (start : Ce) (as : List Answers) : Prop where
  command : ∀ pre activated len pending reset post,
    outs logOf ceRun start as = pre ++ .process activated len pending reset :: post →
      run ended true pre = true → pending = 0
  clear : run ended true (outs logOf ceRun start as) = true →
    (run ceRun start as).ulCwritePageSet = 0
  image : run ended true (outs logOf ceRun start as) = true →
    ∀ f : UlFrame, f.bytes.head? ≠ some cmdUlWrite →
      (ulStep (run ceRun start as).toCard f).image = (run ceRun start as).toCard.image

/-- **A pending second phase never outlives its selection**, in every run from the start of a
session whose steps do not forget it. -/
theorem pending_run (ce : Ce) (u : UserTagProperties) (message : List UInt8) (as : List Answers)
    (hok : StepsOk ClearsPending ceRun (hydranfcCeCommon ce u message) as) :
    PendingLaw (hydranfcCeCommon ce u message) as := by
  have hfresh := hydranfcCeCommon_fresh ce u message
  have hrest : AtRest (hydranfcCeCommon ce u message) true :=
    ⟨hfresh.emuMode, fun _ => hfresh.ulCwritePageSet, fun _ => hfresh.ulCwritePageSet⟩
  obtain ⟨hacc, hend⟩ := monitor_run logOf (fun _ _ _ h hf => pending_step h hf) hrest hok
  constructor
  · intro pre activated len pending reset post heq hpre
    rw [heq] at hacc
    exact hacc.at hpre
  · exact hend.clear
  · exact fun hr f hw => ulStep_image (hend.clear hr) f hw

/-! ## a run that forgets -/

instance (ce : Ce) (a : Answers) : Decidable (ClearsPending ce a) := by
  unfold ClearsPending Forgets Ce.IgnoresRats Ce.HearsHlta Ce.LosesF
  infer_instance

/-- the first phase of a COMPATIBILITY WRITE to page 4, sixteen bytes, and a HLTA that the handler
hears -/
def answersCwrite : Answers := .layer3 .activeA (.ofBytes [0xA0, 0x04] (by decide))
def answersSixteen : Answers := .layer3 .activeAx (.ofBytes (List.replicate 16 0x55) (by decide))
def answersHlta : Answers :=
  { Answers.layer3 .activeA (.ofBytes [0x50, 0x00] (by decide)) with getRx := ⟨.errBusy, none⟩ }

/-- both phases, then HLTA -/
theorem pending_run_both_phases :
    PendingLaw (hydranfcCeCommon Ce.boot ultralight []) [answersCwrite, answersSixteen, answersHlta] :=
  pending_run Ce.boot ultralight [] [answersCwrite, answersSixteen, answersHlta] (by decide +kernel)

/-- HLTA between the phases: the sixteen bytes after the next activation are written to page 4 -/
theorem second_phase_after_hlta :
    (run ceRun (hydranfcCeCommon Ce.boot ultralight []) [answersCwrite, answersHlta,
      answersSixteen]).toCard.image 16 = 0x55 ∧
    ¬ ∀ (ce : Ce) (u : UserTagProperties) (message : List UInt8) (as : List Answers),
      PendingLaw (hydranfcCeCommon ce u message) as := by
  refine ⟨by decide +kernel, fun hall => ?_⟩
  have h := (hall Ce.boot ultralight [] [answersCwrite, answersHlta]).clear (by decide +kernel)
  exact absurd h (by decide +kernel)

end Hydra
