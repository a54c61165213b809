import HydraFw.T4t.Answers
import HydraFw.T4t.Confine

/-!
# Which file is selected

What a reader knows of the selection is the file that its last successful file SELECT named, and
nothing since the last session start, link loss, application SELECT or failed SELECT
(`Event.watch`).  The card keeps it in two variables.

* `Event.next`        what an APDU, a link loss and a session start do to the card;
* `SelectionLaw`      the two variables say what the reader knows, and no other file is touched;
* `Disciplined`       no file is selected when the selection is reset;
* `selection_step`, `selection_run`   one event, and whole histories.

`nSelectedIdx` is never set back to -1: after a reset the file selected before can still be read.
-/

namespace Hydra
open Rams Runs

/-! ## the reader's view -/

inductive File where
  | cc
  | ndefFile
  deriving DecidableEq

def File.idx : File → Int
  | .cc => 0
  | .ndefFile => 1

def File.obj : File → Obj
  | .cc => .ccfile
  | .ndefFile => .ndefBuffer

/-- what a SELECT names -/
inductive Target where
  | app
  | file (f : File)
  | unknown
  deriving DecidableEq

def target (cmd : Nat → UInt8) : Target :=
  if cmdFind cmd aid then .app
  else if cmdFind cmd fidCC then .file .cc
  else if cmdFind cmd fidNDEF ∨ cmdFind cmd selectFileId then .file .ndefFile
  else .unknown

inductive Event where
  | apdu (cmd : List UInt8)
  /-- the field is lost, and listening starts again -/
  | linkLoss
  | sessionStart (message : List UInt8)
  deriving DecidableEq

def Event.next (c : Card) : Event → Card
  | .apdu cmd => step c cmd
  | .linkLoss => { c with ulCwritePageSet := 0 }
  | .sessionStart message => { c.prepareNdef message with ulCwritePageSet := 0 }

/-- the file that the reader has selected, after an event on the card `c` -/
def Event.watch (c : Card) (known : Option File) : Event → Option File
  | .apdu cmd =>
    if decode (c.frame cmd) = .select then
      match target (c.frame cmd) with
      | .file f => if (exchange c cmd).answer = [0x90, 0x00] then some f else none
      | _ => none
    else known
  | .linkLoss => none
  | .sessionStart _ => none

/-- the card and what the reader knows -/
def follow (s : Card × Option File) (e : Event) : Card × Option File :=
  (e.next s.1, e.watch s.1 s.2)

/-! ## the law -/

/-- `nSelectedIdx` as `nState` has it -/
def States.idx : States → Int
  | .ccSelected => 0
  | .fidSelected => 1
  | _ => -1

/-- The two variables agree with each other and with the reader, and the next APDU, whatever it
is, touches no other file than the one the reader has selected. -/
structure SelectionLaw (s : Card × Option File) : Prop where
  nState : s.1.nSelectedIdx = s.1.nState.idx
  known : s.1.nSelectedIdx = (s.2.map File.idx).getD (-1)
  touched : ∀ cmd, ∀ a ∈ (step s.1 cmd).ram.trace, ∀ f : File, a.obj = f.obj → s.2 = some f
  refused : ∀ cmd off n, s.2 = none →
    decode (s.1.frame cmd) = .read off n ∨ decode (s.1.frame cmd) = .update off n →
    (exchange s.1 cmd).answer = [0x6A, 0x82]
  stored : ∀ cmd, (step s.1 cmd).ram.mem .ndefBuffer ≠ s.1.ram.mem .ndefBuffer →
    s.2 = some .ndefFile

/-- the events after which nothing is selected -/
def Resets (c : Card) : Event → Prop
  | .apdu cmd => decode (c.frame cmd) = .select ∧
      (c.nState = .idle ∨ target (c.frame cmd) = .app ∨ target (c.frame cmd) = .unknown)
  | .linkLoss => True
  | .sessionStart _ => True

/-- the selection is reset only when there is none -/
def Disciplined (s : Card × Option File) (e : Event) : Prop :=
  Resets s.1 e → s.1.nSelectedIdx = -1

instance (c : Card) : ∀ e : Event, Decidable (Resets c e)
  | .apdu _ => inferInstanceAs (Decidable (_ ∧ _))
  | .linkLoss => inferInstanceAs (Decidable True)
  | .sessionStart _ => inferInstanceAs (Decidable True)

instance (s : Card × Option File) (e : Event) : Decidable (Disciplined s e) :=
  inferInstanceAs (Decidable (_ → _))

/-! ## SELECT -/

def File.state : File → States
  | .cc => .ccSelected
  | .ndefFile => .fidSelected

theorem File.state_idx (f : File) : f.state.idx = f.idx := by cases f <;> rfl

/-- `selectFile` by what the command names -/
theorem selectFile_eq (cmd : Nat → UInt8) (nState : States) (idx : Int) :
    selectFile cmd nState idx = match target cmd with
      | .app => (.appSelected, idx, true)
      | .file f => if nState = .idle then (.idle, idx, false) else (f.state, f.idx, true)
      | .unknown => (.idle, idx, false) := by
  have hs : nState.toNat ≥ States.appSelected.toNat ↔ nState ≠ .idle := by
    cases nState <;> decide
  unfold selectFile target
  by_cases ha : cmdFind cmd aid = true
  · rw [if_pos ha, if_pos ha]
  rw [if_neg ha, if_neg ha]
  by_cases hn : nState = .idle
  · have hlt : ¬ nState.toNat ≥ States.appSelected.toNat := fun h => hs.mp h hn
    rw [if_neg fun h => hlt h.1, if_neg fun h => hlt h.1]
    by_cases hc : cmdFind cmd fidCC = true
    · simp only [if_pos hc, if_pos hn]
    by_cases hd : cmdFind cmd fidNDEF = true ∨ cmdFind cmd selectFileId = true
    · simp only [if_neg hc, if_pos hd, if_pos hn]
    · simp only [if_neg hc, if_neg hd]
  · have hge : nState.toNat ≥ States.appSelected.toNat := hs.mpr hn
    by_cases hc : cmdFind cmd fidCC = true
    · rw [if_pos ⟨hge, hc⟩]
      simp only [if_pos hc, if_neg hn]
      rfl
    rw [if_neg fun h => hc h.2]
    by_cases hd : cmdFind cmd fidNDEF = true ∨ cmdFind cmd selectFileId = true
    · rw [if_pos ⟨hge, hd⟩]
      simp only [if_neg hc, if_pos hd, if_neg hn]
      rfl
    · rw [if_neg fun h => hd h.2]
      simp only [if_neg hc, if_neg hd]

section
variable {c : Card} {cmd : List UInt8}

theorem step_selection_select (h : decode (c.frame cmd) = .select) :
    (step c cmd).nState = (selectFile (c.frame cmd) c.nState c.nSelectedIdx).1 ∧
      (step c cmd).nSelectedIdx = (selectFile (c.frame cmd) c.nState c.nSelectedIdx).2.1 := by
  unfold step
  rw [exchange_select h]
  exact ⟨rfl, rfl⟩

/-- only SELECT changes the selection -/
theorem step_selection (h : decode (c.frame cmd) ≠ .select) :
    (step c cmd).nState = c.nState ∧ (step c cmd).nSelectedIdx = c.nSelectedIdx := by
  unfold step
  cases way c cmd with
  | select hd => exact absurd hd h
  | unsupported hd => rw [exchange_unsupported hd]; exact ⟨rfl, rfl⟩
  | readNone off le hd hf => rw [exchange_read_none hd hf]; exact ⟨rfl, rfl⟩
  | read off le f hd hf => rw [exchange_read hd hf]; exact ⟨rfl, rfl⟩
  | updateNone off lc hd hf => rw [exchange_update_none hd hf]; exact ⟨rfl, rfl⟩
  | updateLong off lc hd hf hl => rw [exchange_update_long hd hf hl]; exact ⟨rfl, rfl⟩
  | update off lc hd hf hl => rw [exchange_update hd hf hl]; exact ⟨rfl, rfl⟩

end

/-! ## the invariant -/

/-- the selection is coupled, and an emulation has prepared its NDEF file -/
structure Coupled (s : Card × Option File) : Prop where
  nState : s.1.nSelectedIdx = s.1.nState.idx
  known : s.1.nSelectedIdx = (s.2.map File.idx).getD (-1)
  ndefFile : s.1.ndefFile = .ndefBuffer

theorem Coupled.idle {c : Card} {known : Option File} (h : Coupled (c, known))
    (hi : c.nSelectedIdx = -1) : known = none := by
  have hk : c.nSelectedIdx = (known.map File.idx).getD (-1) := h.known
  rw [hi] at hk
  cases known with
  | none => rfl
  | some f => cases f <;> exact absurd hk (by decide)

theorem watch_select {c : Card} {cmd : List UInt8} (h : decode (c.frame cmd) = .select)
    (known : Option File) : Event.watch c known (.apdu cmd) = match target (c.frame cmd) with
      | .file f => if (exchange c cmd).answer = [0x90, 0x00] then some f else none
      | _ => none := if_pos h

/-- a reset leaves `nSelectedIdx` as it is -/
theorem follow_reset {c : Card} {e : Event} (hr : Resets c e) (known : Option File) :
    (e.next c).nSelectedIdx = c.nSelectedIdx ∧ e.watch c known = none := by
  cases e with
  | apdu cmd =>
    obtain ⟨hd, hcases⟩ := hr
    obtain ⟨-, hidx⟩ := step_selection_select hd
    have hans := answer_select hd
    rw [selectFile_eq] at hidx hans
    show (step c cmd).nSelectedIdx = _ ∧ _
    rw [watch_select hd]
    cases ht : target (c.frame cmd) with
    | app =>
      rw [ht] at hidx
      exact ⟨hidx, rfl⟩
    | unknown =>
      rw [ht] at hidx
      exact ⟨hidx, rfl⟩
    | file f =>
      have hi : c.nState = .idle := by
        rcases hcases with h | h | h
        · exact h
        · exact absurd (ht.symm.trans h) Target.noConfusion
        · exact absurd (ht.symm.trans h) Target.noConfusion
      rw [ht] at hidx hans
      simp only [if_pos hi] at hidx hans
      refine ⟨hidx, ?_⟩
      rw [hans]
      exact if_neg (by decide)
  | linkLoss => exact ⟨rfl, rfl⟩
  | sessionStart message => exact ⟨rfl, rfl⟩

/-- a reset of no selection, after which `nState` names no file -/
theorem Coupled.reset {c : Card} {known : Option File} {e : Event} (hr : Resets c e)
    (hd : Disciplined (c, known) e) (hstate : (e.next c).nState.idx = -1)
    (hfile : (e.next c).ndefFile = .ndefBuffer) : Coupled (follow (c, known) e) := by
  have hidle : c.nSelectedIdx = -1 := hd hr
  obtain ⟨hidx, hwatch⟩ := follow_reset hr known
  refine ⟨?_, ?_, hfile⟩
  · show (e.next c).nSelectedIdx = (e.next c).nState.idx
    rw [hidx, hstate, hidle]
  · show (e.next c).nSelectedIdx = ((e.watch c known).map File.idx).getD (-1)
    rw [hidx, hwatch, hidle]
    rfl

/-- a successful or failed SELECT -/
theorem coupled_select {c : Card} {known : Option File} {cmd : List UInt8}
    (h : Coupled (c, known)) (hd : decode (c.frame cmd) = .select)
    (hr : Disciplined (c, known) (.apdu cmd)) : Coupled (follow (c, known) (.apdu cmd)) := by
  obtain ⟨hst, hidx⟩ := step_selection_select hd
  have hans := answer_select hd
  rw [selectFile_eq] at hst hidx hans
  have hfile : (step c cmd).ndefFile = .ndefBuffer := step_ndefFile h.ndefFile
  cases ht : target (c.frame cmd) with
  | app =>
    rw [ht] at hst
    refine .reset ⟨hd, Or.inr (Or.inl ht)⟩ hr ?_ hfile
    show (step c cmd).nState.idx = -1
    rw [hst]
    rfl
  | unknown =>
    rw [ht] at hst
    refine .reset ⟨hd, Or.inr (Or.inr ht)⟩ hr ?_ hfile
    show (step c cmd).nState.idx = -1
    rw [hst]
    rfl
  | file f =>
    rw [ht] at hst hidx hans
    by_cases hi : c.nState = .idle
    · simp only [if_pos hi] at hst
      refine .reset ⟨hd, Or.inl hi⟩ hr ?_ hfile
      show (step c cmd).nState.idx = -1
      rw [hst]
      rfl
    · simp only [if_neg hi] at hst hidx hans
      have hwatch : Event.watch c known (.apdu cmd) = some f := by
        rw [watch_select hd, ht]
        exact if_pos hans
      refine ⟨?_, ?_, hfile⟩
      · show (step c cmd).nSelectedIdx = (step c cmd).nState.idx
        rw [hidx, hst, f.state_idx]
      · show (step c cmd).nSelectedIdx = ((Event.watch c known (.apdu cmd)).map File.idx).getD (-1)
        rw [hidx, hwatch]
        rfl

/-- **One event** that does not reset a selection keeps the coupling. -/
theorem selection_step {s : Card × Option File} {e : Event} (h : Coupled s)
    (hr : Disciplined s e) : Coupled (follow s e) := by
  obtain ⟨c, known⟩ := s
  cases e with
  | apdu cmd =>
    by_cases hd : decode (c.frame cmd) = .select
    · exact coupled_select h hd hr
    · obtain ⟨hst, hidx⟩ := step_selection hd
      have hwatch : Event.watch c known (.apdu cmd) = known := if_neg hd
      refine ⟨?_, ?_, step_ndefFile h.ndefFile⟩
      · show (step c cmd).nSelectedIdx = (step c cmd).nState.idx
        rw [hst, hidx]
        exact h.nState
      · show (step c cmd).nSelectedIdx = ((Event.watch c known (.apdu cmd)).map File.idx).getD (-1)
        rw [hidx, hwatch]
        exact h.known
  | linkLoss =>
    have hidle : c.nSelectedIdx = -1 := hr trivial
    exact ⟨h.nState, hidle, h.ndefFile⟩
  | sessionStart message =>
    have hidle : c.nSelectedIdx = -1 := hr trivial
    exact ⟨h.nState, hidle, rfl⟩

/-! ## the law follows -/

section
variable {c : Card} {known : Option File}

theorem Coupled.selected (h : Coupled (c, known)) {f : File} (hf : c.nSelectedIdx = f.idx) :
    known = some f := by
  have hk : c.nSelectedIdx = (known.map File.idx).getD (-1) := h.known
  rw [hf] at hk
  cases known with
  | none => cases f <;> exact absurd hk (by decide)
  | some g => cases f <;> cases g <;> first | rfl | exact absurd hk (by decide)

theorem Coupled.none_idx (h : Coupled (c, none)) : c.nSelectedIdx = -1 := h.known

/-- the accesses of an APDU to a file are to the selected one -/
theorem Coupled.touched (h : Coupled (c, known)) (cmd : List UInt8) {a : Access Obj}
    (ha : a ∈ (step c cmd).ram.trace) {f : File} (ho : a.obj = f.obj) : known = some f := by
  have hframe : a.obj ≠ .rxtxFrameBuf := by
    rw [ho]
    cases f <;> decide
  have refused : (step c cmd).ram.trace = refusedTrace → known = some f := by
    intro ht
    rw [ht] at ha
    simp only [refusedTrace, List.mem_cons, List.not_mem_nil, or_false] at ha
    rcases ha with rfl | rfl | rfl | rfl <;> exact absurd rfl hframe
  cases way c cmd with
  | select hd =>
    rw [trace_select hd] at ha
    simp only [List.mem_cons, List.not_mem_nil, or_false] at ha
    rcases ha with rfl | rfl | rfl | rfl <;> exact absurd rfl hframe
  | unsupported hd =>
    rw [trace_unsupported hd] at ha
    simp only [List.mem_cons, List.not_mem_nil, or_false] at ha
    rcases ha with rfl | rfl | rfl <;> exact absurd rfl hframe
  | readNone off le hd hf => exact refused (trace_read_none hd hf)
  | updateNone off lc hd hf => exact refused (trace_update_none hd hf)
  | updateLong off lc hd hf hl => exact refused (trace_update_long hd hf hl)
  | read off le o hd hf =>
    have hsel : o = f.obj → known = some f := by
      intro hof
      apply h.selected
      rcases selectedObj_some hf with ⟨h0, rfl⟩ | ⟨h1, rfl⟩
      · cases f with
        | cc => exact h0
        | ndefFile => exact Obj.noConfusion hof
      · rw [h.ndefFile] at hof
        cases f with
        | cc => exact Obj.noConfusion hof
        | ndefFile => exact h1
    rw [trace_read hd hf] at ha
    simp only [List.mem_cons, List.not_mem_nil, or_false] at ha
    rcases ha with rfl | rfl | rfl | rfl | rfl | rfl
    · exact absurd rfl hframe
    · exact absurd rfl hframe
    · exact hsel ho
    · exact absurd rfl hframe
    · exact absurd rfl hframe
    · exact absurd rfl hframe
  | update off lc hd hf hl =>
    rw [trace_update hd hf hl] at ha
    simp only [List.mem_cons, List.not_mem_nil, or_false] at ha
    rcases ha with rfl | rfl | rfl | rfl | rfl | rfl
    · exact absurd rfl hframe
    · exact absurd rfl hframe
    · exact absurd rfl hframe
    · cases f with
      | cc => exact Obj.noConfusion ho
      | ndefFile => exact h.selected hf
    · exact absurd rfl hframe
    · exact absurd rfl hframe

theorem Coupled.refused (h : Coupled (c, none)) {cmd : List UInt8} {off n : Nat}
    (hd : decode (c.frame cmd) = .read off n ∨ decode (c.frame cmd) = .update off n) :
    (exchange c cmd).answer = [0x6A, 0x82] := by
  have hidx := h.none_idx
  rcases hd with hd | hd
  · refine answer_read_none hd ((selectedObj_none c).mpr (Or.inl ?_))
    rw [hidx]
    decide
  · refine answer_update_none hd ?_
    rw [hidx]
    decide

theorem Coupled.stored (h : Coupled (c, known)) {cmd : List UInt8}
    (hne : (step c cmd).ram.mem .ndefBuffer ≠ c.ram.mem .ndefBuffer) : known = some .ndefFile := by
  by_contra hk
  have hidx : c.nSelectedIdx ≠ 1 := fun h1 => hk (h.selected (f := .ndefFile) h1)
  have hnil : stores c cmd = [] := by
    unfold stores
    split
    · exact if_neg fun hh => hidx hh.1
    · rfl
  rw [step_ndef, hnil] at hne
  exact hne rfl

theorem Coupled.law (h : Coupled (c, known)) : SelectionLaw (c, known) where
  nState := h.nState
  known := h.known
  touched := fun cmd _ ha _ ho => h.touched cmd ha ho
  refused := by
    rintro cmd off n rfl hd
    exact h.refused hd
  stored := fun _ hne => h.stored hne

end

/-! ## histories -/

theorem run_follow (c : Card) (known : Option File) (es : List Event) :
    (run follow (c, known) es).1 = run Event.next c es := by
  induction es generalizing c known with
  | nil => rfl
  | cons e es ih => exact ih _ _

theorem coupled_run {message : List UInt8} {es : List Event}
    (hok : StepsOk Disciplined follow (Card.boot.prepareNdef message, none) es) :
    Coupled (run follow (Card.boot.prepareNdef message, none) es) :=
  inv_run (fun _ _ h hr => selection_step h hr) ⟨rfl, rfl, rfl⟩ hok

/-- a reset after which the law holds was one of no selection -/
theorem SelectionLaw.disciplined {s : Card × Option File} {e : Event}
    (h : SelectionLaw (follow s e)) : Disciplined s e := by
  intro hr
  obtain ⟨hidx, hwatch⟩ := follow_reset hr s.2
  have hk : (e.next s.1).nSelectedIdx = ((e.watch s.1 s.2).map File.idx).getD (-1) := h.known
  rw [hidx, hwatch] at hk
  exact hk

/-- **The selection discipline**, in every state of the histories from the first session start in
which no selected file is ever reset, and of no others. -/
theorem selection_run (message : List UInt8) (es : List Event) :
    (∀ pre, pre <+: es → SelectionLaw (run follow (Card.boot.prepareNdef message, none) pre)) ↔
      StepsOk Disciplined follow (Card.boot.prepareNdef message, none) es := by
  constructor
  · intro hall
    refine stepsOk_of_prefixes fun pre e post heq => SelectionLaw.disciplined ?_
    have hlaw := hall (pre ++ [e]) ⟨post, by rw [heq, List.append_assoc]; rfl⟩
    rwa [run_concat] at hlaw
  · rintro hok pre ⟨post, rfl⟩
    exact (coupled_run ((stepsOk_append _ pre post).mp hok).1).law

/-- two sessions, the second of which selects both files in turn -/
theorem selection_run_both_files :
    SelectionLaw (run follow (Card.boot.prepareNdef [], none)
      [.apdu apduSelectApp, .linkLoss, .sessionStart [], .apdu apduSelectApp, .apdu apduSelectCC,
        .apdu apduSelectNdef]) :=
  (selection_run [] [.apdu apduSelectApp, .linkLoss, .sessionStart [], .apdu apduSelectApp,
    .apdu apduSelectCC, .apdu apduSelectNdef]).mpr (by decide +kernel) _ List.prefix_rfl

/-- READ BINARY of two bytes -/
def apduReadTwo : List UInt8 := [0x00, 0xB0, 0x00, 0x00, 0x02]

/-- the next reader reads the file that the last one has selected, also after its own failed
SELECT -/
theorem read_after_link_loss :
    (exchange (run Event.next (Card.boot.prepareNdef []) [.apdu apduSelectApp, .apdu apduSelectNdef,
        .linkLoss]) apduReadTwo).answer = [0x00, 0x00, 0x90, 0x00] ∧
      (exchange (run Event.next (Card.boot.prepareNdef []) [.apdu apduSelectApp, .apdu apduSelectNdef,
        .linkLoss, .apdu [0x00, 0xA4, 0x04, 0x00, 0x02, 0x3F, 0x00, 0x00, 0x00, 0x00, 0x00, 0x00]])
        apduReadTwo).answer = [0x00, 0x00, 0x90, 0x00] ∧
      ¬ ∀ (message : List UInt8) (es : List Event),
        SelectionLaw (run follow (Card.boot.prepareNdef message, none) es) := by
  refine ⟨by decide +kernel, by decide +kernel, fun hall => ?_⟩
  have h := hall [] [.apdu apduSelectApp, .apdu apduSelectNdef, .linkLoss]
  exact absurd h.known (by decide +kernel)

end Hydra
