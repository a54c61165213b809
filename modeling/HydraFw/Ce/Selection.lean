import HydraFw.Ce.Session
import HydraFw.Ce.Steps
import HydraFw.Ce.Response
import HydraFw.T4t.Select

/-!
# The engine and the history of the selection

An iteration of the console engine is, to the selection, a list of events: the link losses after
which it listens again, and the command it has processed in `CARDEMU_4A`, with all of the frame
buffer that the processor sees.  No other way through the engine touches `nState` or
`nSelectedIdx`.

* `SameSelection`     the engine and a card of the history have the same selection;
* `Input`, `inputEvents`   sessions and iterations, and the events each of them is;
* `selection_refines`   the selection of every run of the engine is that of its history;
* `selection_agrees`    what the discipline of a history says of the engine;
* `Type4`             what a session of a Type 4 Tag keeps;
* `reported_serving`  the engine that reports a layer-4 frame is about to serve it.
-/

namespace Hydra
open Rams Runs

/-! ## the command processors -/

/-- what SELECT makes of them -/
def selectedBy (cmd : Nat → UInt8) (s : States × Int) : States × Int :=
  if decode cmd = .select then ((selectFile cmd s.1 s.2).1, (selectFile cmd s.1 s.2).2.1) else s

section
variable (c : Card) (cmdData rspData : Obj) (n : Nat)

theorem read_selection : (read c cmdData rspData).1.selection = c.selection := by
  unfold read
  split_ifs <;> rfl

theorem update_selected : (update c cmdData rspData).1.selected = c.selected := by
  unfold update
  simp only
  split_ifs <;> rfl

theorem update_ndefFile (h : c.ndefFile = .ndefBuffer) :
    (update c cmdData rspData).1.ndefFile = .ndefBuffer := by
  unfold update
  simp only
  split_ifs
  · exact h
  · exact h
  · rfl

/-- SELECT alone changes the selection -/
theorem processCmd_selected :
    (processCmd .cardemu4A c cmdData n rspData).card.selected
      = selectedBy (c.ram.mem cmdData) c.selected := by
  unfold processCmd selectedBy
  by_cases h1 : c.ram.mem cmdData 0 = 0x00 ∧ c.ram.mem cmdData 1 = 0xA4
  · have hd : decode (c.ram.mem cmdData) = .select := if_pos h1
    simp only [if_pos h1, if_pos hd]
    rfl
  have hd : decode (c.ram.mem cmdData) ≠ .select := by
    unfold decode
    rw [if_neg h1]
    split_ifs <;> exact Command.noConfusion
  simp only [if_neg h1, if_neg hd]
  by_cases h2 : c.ram.mem cmdData 0 = 0x00 ∧ c.ram.mem cmdData 1 = 0xB0
  · simp only [if_pos h2]
    exact congrArg Prod.fst (read_selection _ cmdData rspData)
  by_cases h3 : c.ram.mem cmdData 0 = 0x00 ∧ c.ram.mem cmdData 1 = 0xD6
  · simp only [if_neg h2, if_pos h3]
    exact update_selected _ cmdData rspData
  · simp only [if_neg h2, if_neg h3]
    rfl

/-- the NDEF file stays the one that the session start has prepared -/
theorem processCmd_ndefFile (state : LmState) (h : c.ndefFile = .ndefBuffer) :
    (processCmd state c cmdData n rspData).card.ndefFile = .ndefBuffer := by
  cases state with
  | cardemu4A =>
    unfold processCmd
    simp only
    split_ifs
    · exact h
    · exact (congrArg Prod.snd (read_selection _ cmdData rspData)).trans h
    · exact update_ndefFile _ cmdData rspData h
    · exact h
  | _ => exact h

/-- the Ultralight processor does not know the files of the Type 4 Tag -/
theorem processCmdMifUL_selection (state : LmState) :
    (processCmdMifUL state c cmdData n rspData).card.selection = c.selection := by
  have hstore : ∀ c addr off, (ulStore c addr cmdData off rspData).card.selection = c.selection := by
    intro c addr off
    unfold ulStore
    split_ifs <;> rfl
  have hread : ∀ c, (ulRead c cmdData rspData).card.selection = c.selection := by
    intro c
    unfold ulRead
    simp only
    split_ifs <;> rfl
  have hcwrite : ∀ c, (ulCwrite c cmdData rspData).card.selection = c.selection := by
    intro c
    unfold ulCwrite
    simp only
    split_ifs <;> rfl
  have hactive : ∀ c phase2 addr,
      (ulDispatch .activeA c phase2 addr cmdData n rspData).card.selection = c.selection := by
    intro c phase2 addr
    unfold ulDispatch
    simp only
    split_ifs
    · rfl
    · rfl
    · exact hstore ..
    · rfl
    · exact hread _
    · rfl
    · exact hstore ..
    · rfl
    · exact hcwrite _
    · rfl
  have hopened : (if c.ulCwritePageSet ≠ 0 then { c with ulCwritePageSet := 0 }
      else c : Card).selection = c.selection := by
    split_ifs <;> rfl
  unfold processCmdMifUL
  cases state with
  | activeA => exact (hactive ..).trans hopened
  | activeAx => exact (hactive ..).trans hopened
  | _ => exact hopened

end

/-! ## events -/

/-- a link loss leaves the selection alone -/
theorem run_losses (c : Card) {es : List Event} (h : ∀ e ∈ es, e = .linkLoss) :
    (run Event.next c es).selected = c.selected := by
  induction es generalizing c with
  | nil => rfl
  | cons e es ih =>
    obtain rfl := h e List.mem_cons_self
    exact ih _ fun e' he' => h e' (List.mem_cons_of_mem _ he')

/-- what a processor sees of the frame buffer -/
def frameSeen (mem : Nat → UInt8) : List UInt8 := slice mem 0 (objSize .rxtxFrameBuf)

theorem frame_seen (c : Card) (mem : Nat → UInt8) {k : Nat} (hk : k < 512) :
    c.frame (frameSeen mem) k = mem k := by
  have h : k < (slice mem 0 512).length := by
    rw [slice_length]
    exact hk
  have e := frame_getElem c (slice mem 0 512) k h
  rw [slice_getElem, Nat.zero_add] at e
  exact e

theorem decode_congr {cmd cmd' : Nat → UInt8} (h : ∀ k, k < 26 → cmd k = cmd' k) :
    decode cmd = decode cmd' := by
  unfold decode cmdOffset cmdLength
  rw [h 0 (by omega), h 1 (by omega), h 2 (by omega), h 3 (by omega), h 4 (by omega)]

theorem selectedBy_congr {cmd cmd' : Nat → UInt8} (h : ∀ k, k < 26 → cmd k = cmd' k)
    (s : States × Int) : selectedBy cmd s = selectedBy cmd' s := by
  unfold selectedBy selectFile
  rw [decode_congr h, cmdFind_congr (show aid.length ≤ 7 by decide) h,
    cmdFind_congr (show fidCC.length ≤ 7 by decide) h,
    cmdFind_congr (show fidNDEF.length ≤ 7 by decide) h,
    cmdFind_congr (show selectFileId.length ≤ 7 by decide) h]

/-- an APDU of the history selects as the processor does -/
theorem next_apdu (c : Card) (mem : Nat → UInt8) :
    (Event.next c (.apdu (frameSeen mem))).selected = selectedBy mem c.selected := by
  show (processCmd .cardemu4A (c.received (frameSeen mem)) .rxtxFrameBuf _ .rxtxFrameBuf).card.selected
    = _
  rw [processCmd_selected, received_frame]
  exact selectedBy_congr (fun k hk => frame_seen c mem (by omega)) _

/-! ## one iteration -/

/-- the engine that has asked RFAL for a frame -/
def Ce.got (ce : Ce) (a : Answers) : Got :=
  ceGetRx .getRxA (ceHandler (ce.woken a) a) a (objSize .rxtxFrameBuf)

/-- the link losses of an iteration -/
def losses (ce : Ce) (a : Answers) : List Event :=
  (logOf ce a).filterMap fun e => if e = .restart then some .linkLoss else none

/-- the command of the Type 4 Tag that an iteration processes -/
def commands (ce : Ce) (a : Answers) : List Event :=
  if (ce.got a).err = .errNone ∧ (ce.got a).ce.currentProcessCmd = .processCmd ∧
      a.processState = .cardemu4A then
    [.apdu (frameSeen ((ce.got a).ce.ram.mem .rxtxFrameBuf))]
  else []

section
variable {ce : Ce} {a : Answers}

theorem got_kept (hn : ce.emuMode = cardemulationModeNdef) : (ce.got a).ce.kept = ce.kept := by
  have hk : (ce.woken a).kept = ce.kept := woken_kept
  have hw : (ce.woken a).emuMode = cardemulationModeNdef := (congrArg (fun k => k.1.1) hk).trans hn
  have hg : GotA (ceHandler (ce.woken a) a) a (ce.got a) := gotA (objSize .rxtxFrameBuf)
  exact hg.kept.trans ((handled hw).kept.trans hk)

theorem ceRun_answer (he : (ce.got a).err = .errNone) :
    ceRun ce a = ceAnswer ((ce.got a).ce.note (.getRx .errNone)) a (ce.got a).txSize := by
  refine (if_pos he).trans ?_
  show ceAnswer ((ce.got a).ce.note (.getRx (ce.got a).err)) a (ce.got a).txSize = _
  rw [he]

theorem ceRun_wait (he : (ce.got a).err ≠ .errNone) :
    ceRun ce a = (ce.got a).ce.note (.getRx (ce.got a).err) := if_neg he

/-- the answer gives a response to RFAL; the selection is that of the processed command -/
theorem ceAnswer_selection (ht : ce.txReady = true) (n : Nat) :
    (ceAnswer ce a n).toCard.selection = (ce.process a n).card.selection := by
  have hready : (ce.processed a n).txReady = true := ht
  have hd : Handed (ce.processed a n) a (ce.process a n).bits (ce.process a n).reset
      (ceAnswer ce a n) := handed hready _
  exact congrArg Prod.snd hd.kept

theorem process_selected (n : Nat) :
    (ce.process a n).card.selected =
      if ce.currentProcessCmd = .processCmd ∧ a.processState = .cardemu4A then
        selectedBy (ce.ram.mem .rxtxFrameBuf) ce.toCard.selected
      else ce.toCard.selected := by
  unfold Ce.process
  cases hp : ce.currentProcessCmd with
  | processCmd =>
    by_cases hst : a.processState = .cardemu4A
    · rw [if_pos ⟨rfl, hst⟩, hst]
      exact processCmd_selected _ _ _ n
    · rw [if_neg fun h => hst h.2]
      obtain ⟨reset, hidle⟩ := processCmd_other hst ce.toCard .rxtxFrameBuf n .rxtxFrameBuf
      show (processCmd a.processState ce.toCard .rxtxFrameBuf n .rxtxFrameBuf).card.selected = _
      rw [hidle]
  | processCmdMifUL =>
    rw [if_neg fun h => Processor.noConfusion h.1]
    exact congrArg Prod.fst (processCmdMifUL_selection _ _ _ n _)

/-- **One iteration** selects as its events do. -/
theorem selected_step (hn : ce.emuMode = cardemulationModeNdef) {t : Card}
    (ht : ce.toCard.selected = t.selected) :
    (ceRun ce a).toCard.selected = (run Event.next t (losses ce a ++ commands ce a)).selected := by
  have hkept := congrArg (fun k => k.2.1) (got_kept (a := a) hn)
  have hloss : (run Event.next t (losses ce a)).selected = t.selected := by
    refine run_losses t fun e he => ?_
    obtain ⟨x, -, hx⟩ := List.mem_filterMap.mp he
    split_ifs at hx
    exact (Option.some.inj hx).symm
  rw [run_append]
  by_cases he : (ce.got a).err = .errNone
  · have hready : ((ce.got a).ce.note (.getRx .errNone)).txReady = true :=
      (gotA (objSize .rxtxFrameBuf)).txReady he
    have hsel := congrArg Prod.fst (ceAnswer_selection (a := a) hready (ce.got a).txSize)
    rw [ceRun_answer he]
    refine hsel.trans ((process_selected _).trans ?_)
    show (if (ce.got a).ce.currentProcessCmd = .processCmd ∧ a.processState = .cardemu4A then
      selectedBy ((ce.got a).ce.ram.mem .rxtxFrameBuf) (ce.got a).ce.toCard.selected
      else (ce.got a).ce.toCard.selected) = _
    unfold commands
    by_cases hc : (ce.got a).ce.currentProcessCmd = .processCmd ∧ a.processState = .cardemu4A
    · rw [if_pos hc, if_pos ⟨he, hc.1, hc.2⟩, run_cons, run_nil, next_apdu, hloss, ← ht]
      exact congrArg _ hkept
    · rw [if_neg hc, if_neg fun h => hc h.2, run_nil, hloss, ← ht]
      exact hkept
  · have hnil : commands ce a = [] := if_neg fun h => he h.1
    rw [ceRun_wait he, hnil, run_nil, hloss, ← ht]
    exact hkept

/-! ## serving -/

/-- what a session of a Type 4 Tag keeps -/
structure Type4 (ce : Ce) : Prop where
  emuMode : ce.emuMode = cardemulationModeNdef
  processor : ce.currentProcessCmd = .processCmd
  txBuf : ce.isoDepTxRxParam.txBuf = .txBufCe
  ndefFile : ce.ndefFile = .ndefBuffer

theorem Type4.of_kept {ce' : Ce} (h : Type4 ce) (hk : ce'.kept = ce.kept) : Type4 ce' where
  emuMode := (congrArg (fun k => k.1.1) hk).trans h.emuMode
  processor := (congrArg (fun k => k.1.2.1) hk).trans h.processor
  txBuf := (congrArg (fun k => k.1.2.2.2.2.1) hk).trans h.txBuf
  ndefFile := (congrArg (fun k => k.2.2) hk).trans h.ndefFile

theorem Type4.ceRun (h : Type4 ce) (a : Answers) : Type4 (ceRun ce a) := by
  have hg : Type4 (ce.got a).ce := h.of_kept (got_kept h.emuMode)
  by_cases he : (ce.got a).err = .errNone
  · have hfixed := ceRun_fixed (a := a) h.emuMode
    have hready : ((ce.got a).ce.note (.getRx .errNone)).txReady = true :=
      (gotA (objSize .rxtxFrameBuf)).txReady he
    have hsel := congrArg Prod.snd (ceAnswer_selection (a := a) hready (ce.got a).txSize)
    refine ⟨ceRun_emuMode h.emuMode, ?_, ?_, ?_⟩
    · exact (congrArg (fun k => k.2.1) hfixed).trans h.processor
    · exact (congrArg (fun k => k.2.2.2.2.1) hfixed).trans h.txBuf
    · rw [ceRun_answer he]
      apply hsel.trans
      unfold Ce.process
      show (((ce.got a).ce.currentProcessCmd).run _ _ _ _ _).card.ndefFile = _
      rw [hg.processor]
      exact processCmd_ndefFile _ _ _ (ce.got a).txSize _ hg.ndefFile
  · rw [ceRun_wait he]
    exact ⟨hg.emuMode, hg.processor, hg.txBuf, hg.ndefFile⟩

theorem hydranfcCeCommon_type4 (ce : Ce) {u : UserTagProperties} (message : List UInt8)
    (h : u.l3EmulationMode ≠ .mifUl) : Type4 (hydranfcCeCommon ce u message) := by
  have hp : (hydranfcCeCommon ce u message).currentProcessCmd = .processCmd ∧
      (hydranfcCeCommon ce u message).ndefFile = .ndefBuffer := by
    unfold hydranfcCeCommon prepareProcessor
    cases hm : u.l3EmulationMode with
    | mifUl => exact absurd hm h
    | notSet => exact ⟨rfl, rfl⟩
    | mifClassic => exact ⟨rfl, rfl⟩
  exact ⟨(hydranfcCeCommon_fresh ce u message).emuMode, hp.1, rfl, hp.2⟩

/-- **The engine that reports a layer-4 frame** is about to serve it, in every run of a session of
a Type 4 Tag. -/
theorem reported_serving (ce : Ce) {u : UserTagProperties} (message : List UInt8)
    (h : u.l3EmulationMode ≠ .mifUl) (as : List Answers) (a : Answers) {g : Got}
    (hg : g = (run ceRun (hydranfcCeCommon ce u message) as).got a) (he : g.err = .errNone)
    (ha : g.ce.isActivatedA = true) : Serving (g.ce.note (.getRx .errNone)) := by
  have ht : Type4 (run ceRun (hydranfcCeCommon ce u message) as) :=
    inv_run_all (fun _ a hs => hs.ceRun a) as (hydranfcCeCommon_type4 ce message h)
  have hk := ht.of_kept (got_kept (a := a) ht.emuMode)
  subst hg
  exact ⟨ha, (gotA (objSize .rxtxFrameBuf)).txReady he, hk.processor, hk.txBuf, hk.ndefFile⟩

end

/-! ## sessions -/

inductive Input where
  /-- the running session is stopped, and the next one starts -/
  | session (u : UserTagProperties) (message : List UInt8)
  | iteration (a : Answers)

def Ce.input (ce : Ce) : Input → Ce
  | .session u message => hydranfcCeCommon (ceStop ce) u message
  | .iteration a => ceRun ce a

def inputEvents (ce : Ce) : Input → List Event
  | .session _ message => [.sessionStart message]
  | .iteration a => losses ce a ++ commands ce a

theorem session_selected (ce : Ce) (u : UserTagProperties) (message : List UInt8) :
    (hydranfcCeCommon ce u message).toCard.selected = ce.toCard.selected := by
  unfold hydranfcCeCommon prepareProcessor
  cases u.l3EmulationMode with
  | mifUl =>
    show Card.selected (Option.getD _ _) = _
    unfold readUlImageFile
    cases u.ceImage with
    | none => rfl
    | some f =>
      simp only
      split_ifs <;> rfl
  | _ => rfl

/-- the engine and the card of its history have the same selection -/
structure SameSelection (ce : Ce) (t : Card) : Prop where
  emuMode : ce.emuMode = cardemulationModeNdef
  selected : ce.toCard.selected = t.selected

/-- **The selection of the engine is that of its history**, over every run of sessions and
iterations, with RFAL answering anything. -/
theorem selection_refines (ce : Ce) (u : UserTagProperties) (message : List UInt8) (t : Card)
    (ht : ce.toCard.selected = t.selected) (is : List Input) :
    (run Ce.input (hydranfcCeCommon ce u message) is).toCard.selected
      = (run Event.next t (.sessionStart message ::
          outs inputEvents Ce.input (hydranfcCeCommon ce u message) is)).selected := by
  have hstart : SameSelection (hydranfcCeCommon ce u message) (Event.next t (.sessionStart message)) :=
    ⟨(hydranfcCeCommon_fresh ce u message).emuMode, (session_selected ce u message).trans ht⟩
  have hok : ∀ s, StepsOk (fun _ _ => True) Ce.input s is := by
    induction is with
    | nil => exact fun _ => trivial
    | cons i is ih => exact fun s => ⟨trivial, ih _⟩
  refine (sim_run (R := SameSelection) inputEvents ?_ hstart (hok _)).selected
  intro s t i h _
  cases i with
  | session u message =>
    exact ⟨(hydranfcCeCommon_fresh _ u message).emuMode,
      (session_selected (ceStop s) u message).trans h.selected⟩
  | iteration a => exact ⟨ceRun_emuMode h.emuMode, selected_step h.emuMode h.selected⟩

/-- **The discipline of the engine.**  Where no selected file is ever reset, its two variables agree
with each other and with what the reader knows. -/
theorem selection_agrees (u : UserTagProperties) (message : List UInt8) {is : List Input}
    {es : List Event} (hes : es = outs inputEvents Ce.input (hydranfcCeCommon Ce.boot u message) is)
    (hok : StepsOk Disciplined follow (Card.boot.prepareNdef message, none) es) {ce : Ce}
    (hce : ce = run Ce.input (hydranfcCeCommon Ce.boot u message) is) :
    ce.nSelectedIdx = ce.nState.idx ∧ ce.nSelectedIdx
      = ((run follow (Card.boot.prepareNdef message, none) es).2.map File.idx).getD (-1) := by
  have hsel : ce.toCard.selected = (run Event.next (Card.boot.prepareNdef message) es).selected := by
    subst hes hce
    exact selection_refines Ce.boot u message Card.boot rfl is
  have hcoupled := coupled_run hok
  have hstate := hcoupled.nState
  have hknown := hcoupled.known
  rw [run_follow] at hstate hknown
  have hst : ce.nState = _ := congrArg Prod.fst hsel
  have hidx : ce.nSelectedIdx = _ := congrArg Prod.snd hsel
  rw [hst, hidx]
  exact ⟨hstate, hknown⟩

end Hydra
