import HydraFw.Lib.Runs
import HydraFw.Ce.Session
import HydraFw.Ce.Steps

/-!
# One response for one frame

What an iteration does is: anything without a response (`Ev.quiet`), the report of `ceGetRx`, and
only after `ERR_NONE` one command and one response.

* `fresh`            a monitor: a frame was received since the last response was given to RFAL;
* `HandedOver`       the ways a response is given to RFAL, receptions aside;
* `Handshake`        the law of one iteration;
* `handshake_step`   what one iteration keeps, `handshake_run` the law over whole runs.

The one way to break it is a link loss during the activation (LLoss2) while `rxReady` is set: that
branch leaves `rxReady` as it is, and `ceGetRx` then reports a frame of no bits.
-/

namespace Hydra
open Rams Runs

/-! ## the law -/

/-- a frame was received since the last response was given to RFAL -/
def fresh (b : Bool) : Ev → Bool
  | .rx len => b || decide (0 < len)
  | .isoTx _ | .startTx _ | .sleep true => false
  | _ => b

/-- neither a command nor a response, nor a call of `ceGetRx` or `ceSetTx` -/
def Ev.quiet : Ev → Bool
  | .rx _ | .rats | .ratsIgnored | .hlta | .restart => true
  | _ => false

def Ev.isRx : Ev → Bool
  | .rx _ => true
  | _ => false

/-- how the response to a command is given to RFAL -/
inductive HandedOver : (activated reset : Bool) → List Ev → Prop
  | iso (reset : Bool) (bytes : Nat) : HandedOver true reset [.setTx true, .isoTx bytes]
  | plain (bits : Nat) : HandedOver false false [.setTx true, .startTx bits]
  | nak (bits : Nat) (hb : 0 < bits) :
      HandedOver false true [.setTx true, .startTx bits, .sleep false]
  | silent : HandedOver false true [.setTx true, .sleep true]

/-- The law of an iteration: `b` tells whether a frame was received since the last response. -/
def Handshake (b : Bool) (log : List Ev) : Prop :=
  ∃ pre err post, log = pre ++ .getRx err :: post ∧ (∀ e ∈ pre, e.quiet = true) ∧
    (err ≠ .errNone → post = []) ∧
    (err = .errNone → ∃ activated len pending reset tail,
      post = .process activated len pending reset :: tail ∧
      HandedOver activated reset (tail.filter fun e => !e.isRx) ∧
      (activated = false → 1 ≤ len ∧ run fresh b pre = true))

/-! ## what was received -/

/-- a length in `rxRcvdLen` is that of a frame received since the last response -/
def Tracked (b : Bool) (ce : Ce) : Prop := ce.rxRcvdLen > 0 → run fresh b ce.log = true

section
variable {b : Bool} {ce ce' : Ce}

theorem Tracked.zero (h : ce.rxRcvdLen = 0) : Tracked b ce := fun hp => by omega

/-- events that receive nothing and respond nothing -/
theorem Tracked.neutral (h : Tracked b ce) (es : List Ev) (hlog : ce'.log = ce.log ++ es)
    (hes : ∀ e ∈ es, ∀ b, fresh b e = b) (hl : ce'.rxRcvdLen = ce.rxRcvdLen) : Tracked b ce' := by
  have hrun : ∀ b', run fresh b' es = b' := by
    clear hlog
    induction es with
    | nil => exact fun _ => rfl
    | cons e es ih =>
      intro b'
      rw [run_cons, hes e List.mem_cons_self, ih fun e' he' => hes e' (List.mem_cons_of_mem _ he')]
  intro hp
  rw [hlog, run_append, hrun]
  exact h (by rwa [hl] at hp)

theorem Tracked.recv (h : Tracked b ce) (f : Option Reception) : Tracked b (ce.recv f) := by
  cases f with
  | none => exact h
  | some f =>
    intro hp
    have hl : 0 < f.len := hp
    show run fresh b (ce.log ++ [.rx f.len]) = true
    rw [run_concat]
    show (_ || decide (0 < f.len)) = true
    rw [decide_eq_true hl, Bool.or_true]

theorem Tracked.recvs (h : Tracked b ce) (fs : List (Option Reception)) :
    Tracked b (ce.recvs fs) := by
  induction fs generalizing ce with
  | nil => exact h
  | cons f fs ih => exact ih (h.recv f)

theorem Tracked.sleepStart (h : Tracked b ce) (r : ReturnCode) : Tracked b (ce.sleepStart r) := by
  unfold Ce.sleepStart
  split_ifs
  · exact Tracked.zero rfl
  · exact h

theorem Tracked.quiet_note (h : Tracked b ce) {e : Ev} (he : ∀ b, fresh b e = b) :
    Tracked b (ce.note e) := h.neutral [e] rfl (by simpa using he) rfl

/-! ## the phases of an iteration -/

/-- the way up to the report of `ceGetRx` -/
structure Opened (b : Bool) (ce : Ce) : Prop where
  quiet : ∀ e ∈ ce.log, e.quiet = true
  tracked : Tracked b ce

theorem ev_quiet (f : Option Reception) : ∀ e ∈ Reception.ev f, e.quiet = true := by
  intro e he
  cases f with
  | none => exact absurd he List.not_mem_nil
  | some f =>
    obtain rfl := List.mem_singleton.mp he
    rfl

theorem Opened.add (h : Opened b ce) (es : List Ev) (hlog : ce'.log = ce.log ++ es)
    (hes : ∀ e ∈ es, e.quiet = true) (ht : Tracked b ce') : Opened b ce' := by
  refine ⟨?_, ht⟩
  intro e he
  rw [hlog] at he
  rcases List.mem_append.mp he with he | he
  · exact h.quiet e he
  · exact hes e he

theorem Opened.recv (h : Opened b ce) (f : Option Reception) : Opened b (ce.recv f) :=
  h.add _ (recv_log ce f) (ev_quiet f) (h.tracked.recv f)

/-- the first frame at layer 3 is known to have a length -/
def FirstOk (ce : Ce) : Prop :=
  ce.isActivatedA = false → ce.isFirstA3_Frame = true → ce.rxReady = true → ce.rxRcvdLen > 0

/-- no first frame waits -/
def NoFirst (ce : Ce) : Prop :=
  ce.isActivatedA = false → ce.isFirstA3_Frame = true → ce.rxReady = false

theorem NoFirst.ok (h : NoFirst ce) : FirstOk ce := by
  intro ha hf hr
  rw [h ha hf] at hr
  exact absurd hr Bool.false_ne_true

theorem Opened.handled {a : Answers} {h : Ce} (hs : Opened b ce) (hn : NoFirst ce)
    (hl : ce.rxReady = true → ¬ ce.LosesActivation a) (hh : Handled ce a h) :
    Opened b h ∧ FirstOk h := by
  have hnr : NoFirst (ce.recv a.handler.rx) := by
    intro ha hf
    simp only [recv_isActivatedA, recv_isFirstA3_Frame, recv_rxReady] at *
    exact hn ha hf
  cases hh with
  | stay => exact ⟨hs, hn.ok⟩
  | heard => exact ⟨hs.recv _, hnr.ok⟩
  | rats =>
    have hr : Opened b ({ ce with
        isoDepTxRxParam := { ce.isoDepTxRxParam with fsx := rfalIsoDepFSxI2FSx ce.atsParam.fsci }
        log := ce.log ++ [.rats] } : Ce) := hs.add [.rats] rfl (by simp [Ev.quiet])
      (hs.tracked.neutral [.rats] rfl (by simp [fresh]) rfl)
    refine ⟨hr.recv _, NoFirst.ok ?_⟩
    intro ha hf
    simp only [recv_isActivatedA, recv_isFirstA3_Frame, recv_rxReady] at *
    exact hn ha hf
  | ratsIgnored =>
    exact ⟨hs.add [.ratsIgnored] rfl (by simp [Ev.quiet])
      (hs.tracked.quiet_note fun _ => rfl), hn.ok⟩
  | ratsSleep =>
    refine ⟨hs.add [.ratsIgnored] (by rw [sleepStart_log]; rfl) (by simp [Ev.quiet])
      ((hs.tracked.quiet_note fun _ => rfl).sleepStart _), NoFirst.ok ?_⟩
    intro ha hf
    simp only [sleepStart_isActivatedA, sleepStart_isFirstA3_Frame, sleepStart_rxReady] at *
    exact hn ha hf
  | hlta =>
    refine ⟨hs.add [.hlta] (by rw [sleepStart_log]; rfl) (by simp [Ev.quiet])
      ((hs.tracked.quiet_note fun _ => rfl).sleepStart _), NoFirst.ok ?_⟩
    intro ha hf
    simp only [sleepStart_isActivatedA, sleepStart_isFirstA3_Frame, sleepStart_rxReady] at *
    exact hn ha hf
  | data hp =>
    exact ⟨hs.add [] (List.append_nil _).symm (by simp)
      (hs.tracked.neutral [] (List.append_nil _).symm (by simp) rfl), fun _ _ _ => hp⟩
  | loss1 =>
    exact ⟨(hs.recv a.handler.rx).add [.restart] rfl (by simp [Ev.quiet]) (Tracked.zero rfl),
      NoFirst.ok fun _ _ => rfl⟩
  | loss2 hi =>
    refine ⟨(hs.recv a.handler.rx).add [.restart] rfl (by simp [Ev.quiet]) (Tracked.zero rfl),
      NoFirst.ok fun _ _ => ?_⟩
    show (ce.recv a.handler.rx).rxReady = false
    rw [recv_rxReady]
    exact Bool.eq_false_iff.mpr fun hr => hl hr hi
  | activated =>
    exact ⟨(hs.recv a.handler.rx).add [] (List.append_nil _).symm (by simp)
      ((hs.recv a.handler.rx).tracked.neutral [] (List.append_nil _).symm (by simp) rfl),
      fun ha => absurd ha (by simp)⟩
  | firstF =>
    exact ⟨hs.add [] (List.append_nil _).symm (by simp)
      (hs.tracked.neutral [] (List.append_nil _).symm (by simp) rfl), hn.ok⟩
  | lossF =>
    exact ⟨(hs.recv a.handler.rx).add [.restart] rfl (by simp [Ev.quiet]) (Tracked.zero rfl),
      NoFirst.ok fun _ _ => rfl⟩

theorem Opened.got {a : Answers} {g : Got} (hs : Opened b ce) (hf : FirstOk ce)
    (hg : GotA ce a g) :
    Opened b g.ce ∧ (g.err ≠ .errNone → NoFirst g.ce) ∧
      (g.err = .errNone →
        g.ce.rxReady = false ∧ (g.ce.isActivatedA = false → g.ce.rxRcvdLen > 0)) := by
  have hrecv := hs.recv a.getRx.rx
  have handedOver : ∀ (ce' : Ce) off, Opened b ce' → Opened b (ce'.handOver off) := fun ce' off h =>
    h.add [] (List.append_nil _).symm (by simp)
      (h.tracked.neutral [] (List.append_nil _).symm (by simp) rfl)
  have lost : ∀ ce' : Ce, ce'.log = (ce.recv a.getRx.rx).log ++ [.restart] →
      ce'.rxRcvdLen = 0 → Opened b ce' := fun ce' hlog hl =>
    hrecv.add [.restart] hlog (by simp [Ev.quiet]) (Tracked.zero hl)
  cases hg with
  | waiting err n he h =>
    refine ⟨hrecv, fun _ ha hff => ?_, fun h0 => absurd h0 he⟩
    simp only [recv_isActivatedA, recv_isFirstA3_Frame] at ha hff
    rcases h with h | h
    · rw [ha] at h
      exact absurd h Bool.false_ne_true
    · rw [hff] at h
      exact absurd h.symm Bool.false_ne_true
  | idle h => exact ⟨hs, fun _ _ _ => h, fun h0 => ReturnCode.noConfusion h0⟩
  | loss3 err n he => exact ⟨lost _ rfl rfl, fun _ _ _ => rfl, fun h0 => absurd h0 he⟩
  | loss4 err n he => exact ⟨lost _ rfl rfl, fun _ _ _ => rfl, fun h0 => absurd h0 he⟩
  | layer4 ha =>
    refine ⟨handedOver _ _ hrecv, fun h0 => absurd rfl h0, fun _ => ⟨rfl, fun ha' => ?_⟩⟩
    replace ha' : (ce.recv a.getRx.rx).isActivatedA = false := ha'
    rw [recv_isActivatedA, ha] at ha'
    exact absurd ha'.symm Bool.false_ne_true
  | first ha hff hr =>
    exact ⟨handedOver _ _ hs, fun h0 => absurd rfl h0, fun _ => ⟨rfl, fun _ => hf ha hff hr⟩⟩
  | later ha hff hl =>
    exact ⟨handedOver _ _ hrecv, fun h0 => absurd rfl h0, fun _ => ⟨rfl, fun _ => hl⟩⟩

theorem filter_ev (f : Option Reception) : (Reception.ev f).filter (fun e => !e.isRx) = [] := by
  cases f <;> rfl

theorem filter_evs (fs : List (Option Reception)) :
    (fs.flatMap Reception.ev).filter (fun e => !e.isRx) = [] := by
  induction fs with
  | nil => rfl
  | cons f fs ih => rw [List.flatMap_cons, List.filter_append, filter_ev, ih, List.append_nil]

/-- the response is given to RFAL, once -/
theorem Handed.handedOver {a : Answers} {bits : Nat} {reset : Bool} {r : Ce}
    (hr : Handed ce a bits reset r) :
    ∃ tail, r.log = ce.log ++ tail ∧
      HandedOver ce.isActivatedA reset (tail.filter fun e => !e.isRx) := by
  have iso : ((ce.isoPrepared bits).recv a.isoTx.rx).log = ce.log ++
      ([.setTx true, .isoTx (rfalConvBitsToBytes bits)] ++ Reception.ev a.isoTx.rx) := by
    rw [recv_log, ← List.append_assoc]
    show (ce.log ++ _ ++ _) ++ _ = _
    rw [List.append_assoc ce.log]
    rfl
  have tx : ∀ flags fs, ((ce.txPrepared bits flags).recvs fs).log = ce.log ++
      ([.setTx true, .startTx bits] ++ fs.flatMap Reception.ev) := by
    intro flags fs
    rw [recvs_log, ← List.append_assoc]
    show (ce.log ++ _ ++ _) ++ _ = _
    rw [List.append_assoc ce.log]
    rfl
  cases hr with
  | iso _ ha =>
    refine ⟨_, iso, ?_⟩
    rw [List.filter_append, filter_ev, List.append_nil, ha]
    exact .iso reset _
  | isoFailed _ ha =>
    refine ⟨_, iso, ?_⟩
    rw [List.filter_append, filter_ev, List.append_nil, ha]
    exact .iso reset _
  | plain flags ha =>
    refine ⟨_, tx flags [a.startTx.rx], ?_⟩
    rw [List.filter_append, filter_evs, List.append_nil, ha]
    exact .plain bits
  | plainFailed flags ha =>
    refine ⟨_, tx flags [a.startTx.rx], ?_⟩
    rw [List.filter_append, filter_evs, List.append_nil, ha]
    exact .plain bits
  | nak fs ha hb =>
    refine ⟨[.setTx true, .startTx bits] ++ fs.flatMap Reception.ev ++ [.sleep false], ?_, ?_⟩
    · show (Ce.sleepStart _ _).log = _
      rw [sleepStart_log]
      show ((ce.txPrepared bits flagsMifare).recvs fs).log ++ _ = _
      rw [tx, List.append_assoc]
    · rw [List.filter_append, List.filter_append, filter_evs, List.append_nil, ha]
      exact .nak bits hb
  | silent ha =>
    refine ⟨[.setTx true, .sleep true], ?_, ?_⟩
    · show (Ce.sleepStart _ _).log = _
      rw [sleepStart_log]
      show (ce.log ++ _) ++ _ = _
      rw [List.append_assoc]
      rfl
    · rw [ha]
      exact .silent

theorem Handed.tracked {a : Answers} {bits : Nat} {reset : Bool} {r : Ce}
    (hr : Handed ce a bits reset r) : Tracked b r := by
  have hiso : Tracked b (ce.isoPrepared bits) := Tracked.zero rfl
  have htx : ∀ flags, Tracked b (ce.txPrepared bits flags) := fun _ => Tracked.zero rfl
  cases hr with
  | iso =>
    exact (hiso.recv a.isoTx.rx).neutral [] (List.append_nil _).symm (by simp) rfl
  | isoFailed => exact hiso.recv a.isoTx.rx
  | plain flags =>
    exact ((htx flags).recv a.startTx.rx).neutral [] (List.append_nil _).symm (by simp) rfl
  | plainFailed flags => exact (htx flags).recv a.startTx.rx
  | nak fs =>
    have hslept := ((((htx flagsMifare).recvs fs).quiet_note (e := .sleep false)
      fun _ => rfl)).sleepStart a.sleep
    exact hslept.neutral [] (List.append_nil _).symm (by simp) rfl
  | silent =>
    have hz : (((ce.note (.setTx true)).prepareTx 0).note (.sleep true)).rxRcvdLen = 0 := rfl
    have hslept := (Tracked.zero (b := b) hz).sleepStart a.sleep
    exact hslept.neutral [] (List.append_nil _).symm (by simp) rfl

theorem Handed.rxReady {a : Answers} {bits : Nat} {reset : Bool} {r : Ce}
    (hr : Handed ce a bits reset r) (hz : ce.rxReady = false) : r.rxReady = false := by
  cases hr with
  | iso => rfl
  | isoFailed =>
    rw [recv_rxReady]
    exact hz
  | plain => rfl
  | plainFailed =>
    rw [recv_rxReady]
    exact hz
  | nak => rfl
  | silent => rfl

end

/-! ## one iteration -/

/-- between two iterations, when the monitor is in `b` -/
structure Listening (ce : Ce) (b : Bool) : Prop where
  emuMode : ce.emuMode = cardemulationModeNdef
  noFirst : NoFirst ce
  received : ce.rxRcvdLen > 0 → b = true

/-- the field is not lost during the activation while `rxReady` is set -/
def KeepsFirst (ce : Ce) (a : Answers) : Prop :=
  ce.rxReady = true → ¬ (ce.woken a).LosesActivation a

theorem Iterated.handshake {ce : Ce} {a : Answers} {b : Bool} {r : Ce} (hl : Listening ce b)
    (hk : KeepsFirst ce a) (hi : Iterated ce a r) :
    Handshake b r.log ∧ Tracked b r ∧ NoFirst r := by
  have hw : Opened b (ce.woken a) := by
    have h0 : Opened b { ce with ram := { ce.ram with trace := [] }, log := [] } :=
      ⟨fun e he => absurd he List.not_mem_nil, hl.received⟩
    exact h0.recv a.worker
  have hn : NoFirst (ce.woken a) := by
    intro ha hf
    unfold Ce.woken at ha hf ⊢
    simp only [recv_isActivatedA, recv_isFirstA3_Frame, recv_rxReady] at ha hf ⊢
    exact hl.noFirst ha hf
  have hk' : (ce.woken a).rxReady = true → ¬ (ce.woken a).LosesActivation a := by
    intro hr
    unfold Ce.woken at hr
    rw [recv_rxReady] at hr
    exact hk hr
  cases hi with
  | waited h g hh hg he =>
    obtain ⟨ho, hf⟩ := hw.handled hn hk' hh
    obtain ⟨ho', hno, -⟩ := ho.got hf hg
    refine ⟨⟨g.ce.log, g.err, [], rfl, ho'.quiet, fun _ => rfl, fun h0 => absurd h0 he⟩, ?_, hno he⟩
    exact ho'.tracked.quiet_note fun _ => rfl
  | answered h g r hh hg he hr =>
    obtain ⟨ho, hf⟩ := hw.handled hn hk' hh
    obtain ⟨ho', -, hyes⟩ := ho.got hf hg
    obtain ⟨hz, hlen⟩ := hyes he
    obtain ⟨tail, hlog, hover⟩ := hr.handedOver
    refine ⟨⟨g.ce.log, .errNone, .process g.ce.isActivatedA g.ce.rxRcvdLen g.ce.ulCwritePageSet
      ((g.ce.note (.getRx .errNone)).process a g.txSize).reset :: tail, ?_, ho'.quiet,
      fun h0 => absurd rfl h0, fun _ => ?_⟩, hr.tracked, fun _ _ => hr.rxReady hz⟩
    · rw [hlog]
      show ((g.ce.log ++ _) ++ _) ++ _ = _
      rw [List.append_assoc, List.append_assoc]
      rfl
    · exact ⟨_, _, _, _, tail, rfl, hover, fun ha => ⟨hlen ha, ho'.tracked (hlen ha)⟩⟩

theorem handshake_step {ce : Ce} {a : Answers} {b : Bool} (hl : Listening ce b)
    (hk : KeepsFirst ce a) :
    Handshake b (ceRun ce a).log ∧
      Listening (ceRun ce a) (run fresh b (ceRun ce a).log) := by
  obtain ⟨hs, ht, hn⟩ := (iterated hl.emuMode a).handshake hl hk
  exact ⟨hs, ceRun_emuMode hl.emuMode, hn, ht⟩

/-- a command at layer 3 has at least one bit, received since the last response -/
theorem Handshake.command {b : Bool} {log : List Ev} (h : Handshake b log) {len : Nat}
    {pending : UInt8} {reset : Bool} (hm : .process false len pending reset ∈ log) : 1 ≤ len := by
  obtain ⟨pre, err, post, rfl, hq, hno, hyes⟩ := h
  rcases List.mem_append.mp hm with hm | hm
  · exact absurd (hq _ hm) (by simp [Ev.quiet])
  rcases List.mem_cons.mp hm with hm | hm
  · exact Ev.noConfusion hm
  by_cases he : err = .errNone
  · obtain ⟨act, len', pending', reset', tail, rfl, hover, hlen⟩ := hyes he
    rcases List.mem_cons.mp hm with hm | hm
    · injection hm with h1 h2
      subst h2
      exact (hlen h1.symm).1
    · have hin : .process false len pending reset ∈ tail.filter fun e => !e.isRx :=
        List.mem_filter.mpr ⟨hm, rfl⟩
      generalize tail.filter (fun e => !e.isRx) = t at hover hin
      cases hover <;> simp at hin
  · rw [hno he] at hm
    exact absurd hm List.not_mem_nil

/-! ## LLoss2 -/

/-- a frame of no bits is processed after a link loss during the activation -/
theorem lost_first {ce : Ce} {a : Answers} (hen : ce.ceEnabled = true) (hk : ¬ KeepsFirst ce a) :
    ∃ pending reset, .process false 0 pending reset ∈ logOf ce a := by
  obtain ⟨hr, hstate, hact, hstatus⟩ : ce.rxReady = true ∧ (ce.woken a).LosesActivation a := by
    unfold KeepsFirst at hk
    push Not at hk
    exact hk
  have hh : ceHandler (ce.woken a) a = { ((ce.woken a).recv a.handler.rx).relisten with
      isActivatedA := false, isFirstA3_Frame := true, ulCwritePageSet := 0 } := by
    have hen' : (ce.woken a).ceEnabled = true := (recv_ceEnabled ..).trans hen
    unfold ceHandler handlerCardemu4A
    simp only [hen', hstate, hact, hstatus, if_true, if_neg Bool.false_ne_true]
  have hready : (ceHandler (ce.woken a) a).rxReady = true := by
    rw [hh]
    show ((ce.woken a).recv a.handler.rx).rxReady = true
    rw [recv_rxReady]
    exact (recv_rxReady ..).trans hr
  have hg : ceGetRx .getRxA (ceHandler (ce.woken a) a) a (objSize .rxtxFrameBuf)
      = ⟨.errNone, (ceHandler (ce.woken a) a).handOver 0, 0⟩ := by
    have ha : (ceHandler (ce.woken a) a).isActivatedA = false := by rw [hh]
    have hf : (ceHandler (ce.woken a) a).isFirstA3_Frame = true := by rw [hh]
    have hz : (ceHandler (ce.woken a) a).rxRcvdLen = 0 := by
      rw [hh]
      rfl
    unfold ceGetRx ceGetRxFirst
    simp only [ha, hf, hready, if_true, if_neg Bool.false_ne_true, hz]
    rfl
  have hrun : ceRun ce a
      = ceAnswer (((ceHandler (ce.woken a) a).handOver 0).note (.getRx .errNone)) a 0 := by
    unfold ceRun
    simp only [hg, if_true]
  generalize hc : ((ceHandler (ce.woken a) a).handOver 0).note (.getRx .errNone) = c at hrun
  have ha : c.isActivatedA = false := by
    subst hc
    show (ceHandler (ce.woken a) a).isActivatedA = false
    rw [hh]
  have hz : c.rxRcvdLen = 0 := by
    subst hc
    show (ceHandler (ce.woken a) a).rxRcvdLen = 0
    rw [hh]
    rfl
  have ht : (c.processed a 0).txReady = true := by
    subst hc
    rfl
  have hd : Handed (c.processed a 0) a (c.process a 0).bits (c.process a 0).reset (ceAnswer c a 0) :=
    handed ht _
  obtain ⟨tail, hlog, -⟩ := hd.handedOver
  refine ⟨c.ulCwritePageSet, (c.process a 0).reset, ?_⟩
  unfold logOf
  rw [hrun, hlog]
  show _ ∈ c.log ++ [.process c.isActivatedA c.rxRcvdLen c.ulCwritePageSet (c.process a 0).reset]
    ++ tail
  rw [ha, hz]
  simp

/-! ## runs -/

theorem start_listening (ce : Ce) (u : UserTagProperties) (message : List UInt8) :
    Listening (hydranfcCeCommon ce u message) false := by
  have hfresh := hydranfcCeCommon_fresh ce u message
  refine ⟨hfresh.emuMode, fun _ _ => hfresh.rxReady, fun hp => ?_⟩
  rw [hfresh.rxRcvdLen] at hp
  omega

/-- every session is run with the emulation enabled -/
theorem run_enabled (ce : Ce) (u : UserTagProperties) (message : List UInt8) (as : List Answers) :
    (run ceRun (hydranfcCeCommon ce u message) as).ceEnabled = true := by
  have h0 : (hydranfcCeCommon ce u message).emuMode = cardemulationModeNdef ∧
      (hydranfcCeCommon ce u message).ceEnabled = true :=
    ⟨(hydranfcCeCommon_fresh ce u message).emuMode, rfl⟩
  have hstep : ∀ (s : Ce) (a : Answers), s.emuMode = cardemulationModeNdef ∧ s.ceEnabled = true →
      (ceRun s a).emuMode = cardemulationModeNdef ∧ (ceRun s a).ceEnabled = true := by
    rintro s a ⟨hn, he⟩
    exact ⟨ceRun_emuMode hn, (congrArg (fun p => p.2.2.2.1) (ceRun_fixed (a := a) hn)).trans he⟩
  exact (inv_run_all hstep as h0).2

/-- **One response for one frame**, in every iteration of the runs from the start of a session in
which the field is never lost during the activation while `rxReady` is set, and of no others. -/
theorem handshake_run (ce : Ce) (u : UserTagProperties) (message : List UInt8) (as : List Answers) :
    (∀ pre a, pre ++ [a] <+: as →
      Handshake (run fresh false (outs logOf ceRun (hydranfcCeCommon ce u message) pre))
        (logOf (run ceRun (hydranfcCeCommon ce u message) pre) a)) ↔
      StepsOk KeepsFirst ceRun (hydranfcCeCommon ce u message) as := by
  constructor
  · intro hall
    refine stepsOk_of_prefixes fun pre a post heq => ?_
    have h := hall pre a ⟨post, by rw [heq, List.append_assoc]; rfl⟩
    by_contra hk
    obtain ⟨pending, reset, hm⟩ := lost_first (run_enabled ce u message pre) hk
    exact absurd (h.command hm) (by decide)
  · rintro hok pre a ⟨post, rfl⟩
    obtain ⟨hpre, hlast⟩ := ((stepsOk_append _ (pre ++ [a]) post).mp hok).1.last
    have hl := sim_run (R := Listening) logOf (fun _ _ _ h hk => (handshake_step h hk).2)
      (start_listening ce u message) hpre
    exact (handshake_step hl hlast).1

/-! ## a run that loses the field -/

instance (ce : Ce) (a : Answers) : Decidable (KeepsFirst ce a) := by
  unfold KeepsFirst Ce.LosesActivation
  infer_instance

/-- three READs, the second one while RFAL is busy -/
theorem handshake_run_reads :
    Handshake true (logOf (run ceRun (hydranfcCeCommon Ce.boot ultralight [])
      [answersRead, answersReadBusy]) answersRead) :=
  have h := (handshake_run Ce.boot ultralight [] [answersRead, answersReadBusy, answersRead]).mpr
    (by decide +kernel) [answersRead, answersReadBusy] answersRead List.prefix_rfl
  have hb : run fresh false (outs logOf ceRun (hydranfcCeCommon Ce.boot ultralight [])
    [answersRead, answersReadBusy]) = true := by decide +kernel
  hb ▸ h

/-- after the link loss a frame of no bits is processed and answered -/
theorem no_frame_after_link_loss :
    .process false 0 0 false ∈ logOf (run ceRun (hydranfcCeCommon Ce.boot ultralightLevel4 [])
      [answersRead, answersReadBusy, answersRats]) answersActivationLost ∧
    ¬ ∀ (ce : Ce) (u : UserTagProperties) (message : List UInt8) (as : List Answers) (a : Answers),
      Handshake (run fresh false (outs logOf ceRun (hydranfcCeCommon ce u message) as))
        (logOf (run ceRun (hydranfcCeCommon ce u message) as) a) := by
  have hm : .process false 0 0 false ∈ logOf (run ceRun
      (hydranfcCeCommon Ce.boot ultralightLevel4 []) [answersRead, answersReadBusy, answersRats])
      answersActivationLost := by decide +kernel
  refine ⟨hm, fun hall => ?_⟩
  have h := hall Ce.boot ultralightLevel4 [] [answersRead, answersReadBusy, answersRats]
    answersActivationLost
  exact absurd (h.command hm) (by decide)

end Hydra
