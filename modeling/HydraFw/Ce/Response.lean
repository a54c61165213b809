import HydraFw.Ce.Session
import HydraFw.Ce.Steps
import HydraFw.T4t.Confine

/-!
# The response that `ceSetTx` copies

At layer 4 the response of the Type 4 Tag goes from `rxtxFrameBuf`, where it has overwritten its
command, to the 256 INF bytes of `txBuf_ce`.

* `written`          the length of the response in the frame buffer;
* `Serving`          the engine with a command in the frame buffer, about to process it;
* `ResponseFits`     the response fits, its length is the one given to RFAL, and the frame buffer
                     is not exceeded;
* `Command.Answerable`, `responseFits_iff`   the commands for which it does.
-/

namespace Hydra
open Rams

/-! ## the length of a response -/

/-- the bytes stored to the start of the frame buffer -/
def written (trace : List (Access Obj)) : Nat :=
  (trace.filter fun a => a.dir = .wr ∧ a.obj = .rxtxFrameBuf).foldr (fun a n => max (a.off + a.len) n) 0

/-- the engine with a command at the start of the frame buffer, its record afresh -/
def Ce.commanded (ce : Ce) (apdu : List UInt8) : Ce := { ce with toCard := ce.toCard.received apdu }

/-- a Type 4 Tag at layer 4 with a frame to answer -/
structure Serving (ce : Ce) : Prop where
  isActivatedA : ce.isActivatedA = true
  txReady : ce.txReady = true
  processor : ce.currentProcessCmd = .processCmd
  txBuf : ce.isoDepTxRxParam.txBuf = .txBufCe
  ndefFile : ce.ndefFile = .ndefBuffer

/-- Processing the command and giving its response to RFAL. -/
structure ResponseFits (ce : Ce) (a : Answers) (apdu : List UInt8) : Prop where
  inf : ∀ acc ∈ (ceAnswer (ce.commanded apdu) a apdu.length).ram.trace, acc.obj = .txBufCe →
    prologueSize ≤ acc.off ∧ acc.Inside objSize
  count : (ceAnswer (ce.commanded apdu) a apdu.length).isoDepTxRxParam.txBufLen
    = written ((ce.commanded apdu).process a apdu.length).card.ram.trace
  frame : ∀ acc ∈ (ceAnswer (ce.commanded apdu) a apdu.length).ram.trace,
    acc.obj = .rxtxFrameBuf → acc.Inside objSize

/-- the commands whose response fits -/
def Command.Answerable (idx : Int) : Command → Prop
  | .read off le =>
    (idx = 0 → off ≤ objSize .ccfile ∨ 65297 ≤ off) ∧
    (idx = 1 → off ≤ ndefSize ∧ (le ≤ 254 ∨ ndefSize ≤ off + 254))
  | _ => True

instance (idx : Int) : ∀ cmd : Command, Decidable (cmd.Answerable idx)
  | .read _ _ => inferInstanceAs (Decidable (_ ∧ _))
  | .select => inferInstanceAs (Decidable True)
  | .update _ _ => inferInstanceAs (Decidable True)
  | .unsupported => inferInstanceAs (Decidable True)

/-! ## the copy -/

section
variable {ce : Ce} {a : Answers} {apdu : List UInt8}

theorem process_commanded (hs : Serving ce) (hst : a.processState = .cardemu4A) :
    (ce.commanded apdu).process a apdu.length = exchange ce.toCard apdu := by
  unfold Ce.process
  rw [hst]
  show ce.currentProcessCmd.run _ _ _ _ _ = _
  rw [hs.processor]
  rfl

theorem recv_trace (ce : Ce) (f : Option Reception) : (ce.recv f).ram.trace = ce.ram.trace := by
  cases f <;> rfl

theorem recv_isoTxBufLen (ce : Ce) (f : Option Reception) :
    (ce.recv f).isoDepTxRxParam.txBufLen = ce.isoDepTxRxParam.txBufLen := by
  cases f <;> rfl

/-- the response is copied behind the prologue, and as many bytes announced -/
theorem ceAnswer_serving (hs : Serving ce) (a : Answers) (apdu : List UInt8) {r : Rsp}
    (hr : (ce.commanded apdu).process a apdu.length = r) :
    (ceAnswer (ce.commanded apdu) a apdu.length).ram.trace = r.card.ram.trace ++
        [⟨.rd, .rxtxFrameBuf, 0, rfalConvBitsToBytes r.bits⟩,
          ⟨.wr, .txBufCe, prologueSize, rfalConvBitsToBytes r.bits⟩] ∧
      (ceAnswer (ce.commanded apdu) a apdu.length).isoDepTxRxParam.txBufLen
        = rfalConvBitsToBytes r.bits := by
  have hready : ((ce.commanded apdu).processed a apdu.length).txReady = true := hs.txReady
  have hact : ((ce.commanded apdu).processed a apdu.length).isActivatedA = true := hs.isActivatedA
  have htrace : (((ce.commanded apdu).processed a apdu.length).isoPrepared r.bits).ram.trace
      = r.card.ram.trace ++ [⟨.rd, .rxtxFrameBuf, 0, rfalConvBitsToBytes r.bits⟩,
        ⟨.wr, .txBufCe, prologueSize, rfalConvBitsToBytes r.bits⟩] := by
    show (((ce.commanded apdu).process a apdu.length).card.ram.copy ce.isoDepTxRxParam.txBuf _ _ _
      _).trace = _
    rw [hs.txBuf, hr]
    rfl
  have hd : Handed ((ce.commanded apdu).processed a apdu.length) a r.bits r.reset
      (ceAnswer (ce.commanded apdu) a apdu.length) := by
    rw [← hr]
    exact handed hready _
  generalize ceAnswer (ce.commanded apdu) a apdu.length = x at hd
  generalize r.reset = reset at hd
  cases hd with
  | iso =>
    refine ⟨Eq.trans ?_ htrace, ?_⟩
    · exact recv_trace (((ce.commanded apdu).processed a apdu.length).isoPrepared r.bits) _
    · exact recv_isoTxBufLen (((ce.commanded apdu).processed a apdu.length).isoPrepared r.bits) _
  | isoFailed =>
    refine ⟨Eq.trans ?_ htrace, ?_⟩
    · exact recv_trace (((ce.commanded apdu).processed a apdu.length).isoPrepared r.bits) _
    · exact recv_isoTxBufLen (((ce.commanded apdu).processed a apdu.length).isoPrepared r.bits) _
  | plain flags ha => exact absurd (hact.symm.trans ha) (by decide)
  | plainFailed flags ha => exact absurd (hact.symm.trans ha) (by decide)
  | nak fs ha => exact absurd (hact.symm.trans ha) (by decide)
  | silent ha => exact absurd (hact.symm.trans ha) (by decide)

end

/-! ## one exchange -/

/-- what must hold of the record and the bit count of a response -/
structure TraceFits (trace : List (Access Obj)) (bytes : Nat) : Prop where
  inf : ∀ acc ∈ trace, acc.obj ≠ .txBufCe
  room : prologueSize + bytes ≤ txBufLength
  count : bytes = written trace
  frame : ∀ acc ∈ trace, acc.obj = .rxtxFrameBuf → acc.Inside objSize

theorem responseFits_iff_trace {ce : Ce} {a : Answers} {apdu : List UInt8} (hs : Serving ce)
    {r : Rsp} (hr : (ce.commanded apdu).process a apdu.length = r)
    (hinf : ∀ acc ∈ r.card.ram.trace, acc.obj ≠ .txBufCe) :
    ResponseFits ce a apdu ↔ TraceFits r.card.ram.trace (rfalConvBitsToBytes r.bits) := by
  obtain ⟨htrace, hcount⟩ := ceAnswer_serving hs a apdu hr
  constructor
  · rintro ⟨h1, h2, h3⟩
    rw [htrace] at h1 h3
    rw [hcount, hr] at h2
    refine ⟨hinf, ?_, h2, fun acc hm => h3 acc (List.mem_append_left _ hm)⟩
    have hw := (h1 ⟨.wr, .txBufCe, prologueSize, rfalConvBitsToBytes r.bits⟩ (by simp) rfl).2
    rcases hw with hz | hw
    · replace hz : rfalConvBitsToBytes r.bits = 0 := hz
      rw [hz]
      decide
    · exact hw
  · rintro ⟨h1, h2, h3, h4⟩
    refine ⟨?_, by rw [hcount, hr]; exact h3, ?_⟩
    · intro acc hm ho
      rw [htrace] at hm
      rcases List.mem_append.mp hm with hm | hm
      · exact absurd ho (h1 acc hm)
      · simp only [List.mem_cons, List.not_mem_nil, or_false] at hm
        rcases hm with rfl | rfl
        · exact Obj.noConfusion ho
        · exact ⟨le_rfl, Or.inr h2⟩
    · intro acc hm ho
      rw [htrace] at hm
      rcases List.mem_append.mp hm with hm | hm
      · exact h4 acc hm ho
      · simp only [List.mem_cons, List.not_mem_nil, or_false] at hm
        rcases hm with rfl | rfl
        · apply Or.inr
          show 0 + rfalConvBitsToBytes r.bits ≤ 512
          unfold prologueSize txBufLength at h2
          omega
        · exact Obj.noConfusion ho

/-- a response that is a status word only -/
theorem traceFits_status {trace : List (Access Obj)} (hinf : ∀ acc ∈ trace, acc.obj ≠ .txBufCe)
    (hw : written trace = 2) (hf : ∀ acc ∈ trace, acc.obj = .rxtxFrameBuf → acc.Inside objSize) :
    TraceFits trace (rfalConvBitsToBytes 16) := by
  have h2 : rfalConvBitsToBytes 16 = 2 := by decide
  rw [h2]
  exact ⟨hinf, by decide, hw.symm, hf⟩

section
variable {c : Card} {apdu : List UInt8} {off le : Nat}

/-- READ with a file selected: at most 254 bytes of it fit -/
theorem traceFits_read {f : Obj} (hd : decode (c.frame apdu) = .read off le)
    (hf : selectedObj c = some f) (hne : f ≠ .rxtxFrameBuf) (hnt : f ≠ .txBufCe) :
    TraceFits (step c apdu).ram.trace (rfalConvBitsToBytes (exchange c apdu).bits) ↔
      clipped c.nSelectedIdx off le ≤ 254 := by
  have hw : written (step c apdu).ram.trace = clipped c.nSelectedIdx off le + 2 := by
    rw [trace_read hd hf]
    simp [written]
    omega
  have hbits : (exchange c apdu).bits
      = 8 * ((clipped c.nSelectedIdx off le + 2) % 2 ^ 16) % 2 ^ 16 := by
    rw [exchange_read hd hf]
  rw [hbits]
  constructor
  · rintro ⟨-, hroom, hcount, -⟩
    rw [hw] at hcount
    rw [hcount] at hroom
    unfold prologueSize txBufLength at hroom
    omega
  · intro ht
    have hn : rfalConvBitsToBytes (8 * ((clipped c.nSelectedIdx off le + 2) % 2 ^ 16) % 2 ^ 16)
        = clipped c.nSelectedIdx off le + 2 := by
      rw [Nat.mod_eq_of_lt (show clipped c.nSelectedIdx off le + 2 < 2 ^ 16 by omega),
        Nat.mod_eq_of_lt (by omega), rfalConvBitsToBytes_mul _ (by omega)]
    rw [hn]
    refine ⟨?_, ?_, hw.symm, ?_⟩
    · rw [trace_read hd hf]
      simp [hnt]
    · unfold prologueSize txBufLength
      omega
    · rw [trace_read hd hf]
      intro acc hm ho
      have hs : objSize acc.obj = 512 := by rw [ho]; rfl
      apply Or.inr
      rw [hs]
      simp only [List.mem_cons, List.not_mem_nil, or_false] at hm
      rcases hm with rfl | rfl | rfl | rfl | rfl | rfl
      · show 0 + 2 ≤ 512
        omega
      · show 2 + 3 ≤ 512
        omega
      · exact absurd ho hne
      · show 0 + clipped c.nSelectedIdx off le ≤ 512
        omega
      · show clipped c.nSelectedIdx off le + 1 ≤ 512
        omega
      · show clipped c.nSelectedIdx off le + 1 + 1 ≤ 512
        omega

/-- the lengths that the clip leaves: it wraps behind the end of the file -/
theorem clipped_cc_le (hoff : off < 2 ^ 16) (hle : le < 2 ^ 8) :
    clipped 0 off le ≤ 254 ↔ off ≤ 15 ∨ 65297 ≤ off := by
  have hs : pdwFileSize 0 = 15 := rfl
  unfold clipped
  rw [hs]
  split <;> omega

theorem clipped_ndef_le (hoff : off < 2 ^ 16) (hle : le < 2 ^ 8) :
    clipped 1 off le ≤ 254 ↔ off ≤ ndefSize ∧ (le ≤ 254 ∨ ndefSize ≤ off + 254) := by
  have hs : pdwFileSize 1 = ndefSize := rfl
  unfold clipped
  rw [hs]
  unfold ndefSize
  split <;> omega

theorem traceFits_refused (h : (step c apdu).ram.trace = refusedTrace)
    (hb : (exchange c apdu).bits = 16) :
    TraceFits (step c apdu).ram.trace (rfalConvBitsToBytes (exchange c apdu).bits) := by
  rw [h, hb]
  exact traceFits_status (by simp [refusedTrace]) (by decide)
    (by simp [refusedTrace, Access.Inside, objSize])

/-- no command touches the transmit buffer -/
theorem step_not_txBuf (h : c.ndefFile = .ndefBuffer) :
    ∀ acc ∈ (step c apdu).ram.trace, acc.obj ≠ .txBufCe := by
  cases way c apdu with
  | select hd => rw [trace_select hd]; simp
  | unsupported hd => rw [trace_unsupported hd]; simp
  | readNone off le hd hf => rw [trace_read_none hd hf]; simp [refusedTrace]
  | read off le f hd hf =>
    have hne : f ≠ .txBufCe := by
      rcases selectedObj_some hf with ⟨-, rfl⟩ | ⟨-, rfl⟩
      · decide
      · rw [h]
        decide
    rw [trace_read hd hf]
    simp [hne]
  | updateNone off lc hd hf => rw [trace_update_none hd hf]; simp [refusedTrace]
  | updateLong off lc hd hf hl => rw [trace_update_long hd hf hl]; simp [refusedTrace]
  | update off lc hd hf hl => rw [trace_update hd hf hl]; simp

/-- **The response of one command fits exactly when the command is answerable.** -/
theorem traceFits_iff (h : c.ndefFile = .ndefBuffer) :
    TraceFits (step c apdu).ram.trace (rfalConvBitsToBytes (exchange c apdu).bits) ↔
      (decode (c.frame apdu)).Answerable c.nSelectedIdx := by
  cases way c apdu with
  | select hd =>
    rw [hd, trace_select hd, exchange_select hd]
    refine iff_of_true (traceFits_status (by simp) (by decide) ?_) trivial
    simp [Access.Inside, objSize]
  | unsupported hd =>
    rw [hd, trace_unsupported hd, exchange_unsupported hd]
    refine iff_of_true (traceFits_status (by simp) (by decide) ?_) trivial
    simp [Access.Inside, objSize]
  | readNone off le hd hf =>
    rw [hd]
    refine iff_of_true (traceFits_refused (trace_read_none hd hf) (by rw [exchange_read_none hd hf])) ?_
    have hn := (selectedObj_none c).mp hf
    unfold nFiles at hn
    exact ⟨fun h0 => by omega, fun h1 => by omega⟩
  | read off le f hd hf =>
    have hoff : off < 2 ^ 16 := by rw [(decode_read hd).1]; exact cmdOffset_lt _
    have hle : le < 2 ^ 8 := by rw [(decode_read hd).2]; exact cmdLength_lt _
    rw [hd]
    rcases selectedObj_some hf with ⟨h0, rfl⟩ | ⟨h1, hfile⟩
    · rw [traceFits_read hd hf (by decide) (by decide), h0, clipped_cc_le hoff hle]
      exact ⟨fun hi => ⟨fun _ => hi, fun h1 => by omega⟩, fun hi => hi.1 rfl⟩
    · rw [h] at hfile
      subst hfile
      rw [traceFits_read hd hf (by decide) (by decide), h1, clipped_ndef_le hoff hle]
      exact ⟨fun hi => ⟨fun h0 => by omega, fun _ => hi⟩, fun hi => hi.2 rfl⟩
  | updateNone off lc hd hf =>
    rw [hd]
    exact iff_of_true (traceFits_refused (trace_update_none hd hf)
      (by rw [exchange_update_none hd hf])) trivial
  | updateLong off lc hd hf hl =>
    rw [hd]
    exact iff_of_true (traceFits_refused (trace_update_long hd hf hl)
      (by rw [exchange_update_long hd hf hl])) trivial
  | update off lc hd hf hl =>
    have hlc : lc < 2 ^ 8 := by rw [(decode_update hd).2]; exact cmdLength_lt _
    rw [hd, trace_update hd hf hl, exchange_update hd hf hl]
    refine iff_of_true (traceFits_status (by simp) (by simp [written]) ?_) trivial
    simp [Access.Inside, objSize]
    omega

end

/-- outside `CARDEMU_4A` the Type 4 Tag answers nothing -/
theorem processCmd_other {state : LmState} (h : state ≠ .cardemu4A) (c : Card) (cmdData : Obj)
    (n : Nat) (rspData : Obj) : ∃ reset, processCmd state c cmdData n rspData = ⟨c, 0, reset⟩ := by
  cases state with
  | cardemu4A => exact absurd rfl h
  | activeA => exact ⟨true, rfl⟩
  | activeAx => exact ⟨true, rfl⟩
  | _ => exact ⟨false, rfl⟩

/-- **The hand-off of a response** is in bounds and exact for every command but the READs whose
clipped length is over 254: from offsets behind the end of the file, and of 255 bytes of the NDEF
file. -/
theorem responseFits_iff {ce : Ce} (hs : Serving ce) (a : Answers) (apdu : List UInt8) :
    ResponseFits ce a apdu ↔ (a.processState = .cardemu4A →
      (decode (ce.toCard.frame apdu)).Answerable ce.nSelectedIdx) := by
  by_cases hst : a.processState = .cardemu4A
  · have hr : (ce.commanded apdu).process a apdu.length = exchange ce.toCard apdu :=
      process_commanded hs hst
    rw [responseFits_iff_trace hs hr (step_not_txBuf hs.ndefFile)]
    show TraceFits (step ce.toCard apdu).ram.trace _ ↔ _
    rw [traceFits_iff hs.ndefFile]
    exact ⟨fun h _ => h, fun h => h hst⟩
  · obtain ⟨reset, hidle⟩ := processCmd_other hst (ce.toCard.received apdu) .rxtxFrameBuf apdu.length
      .rxtxFrameBuf
    have hr : (ce.commanded apdu).process a apdu.length = ⟨ce.toCard.received apdu, 0, reset⟩ := by
      unfold Ce.process
      show ce.currentProcessCmd.run _ _ _ _ _ = _
      rw [hs.processor]
      exact hidle
    rw [responseFits_iff_trace hs hr (by simp)]
    refine iff_of_true ?_ fun h => absurd h hst
    show TraceFits [] (rfalConvBitsToBytes 0)
    rw [show rfalConvBitsToBytes 0 = 0 by decide]
    exact ⟨by simp, by decide, rfl, by simp⟩

/-! ## READ of 255 bytes -/

def type4Tag : UserTagProperties where
  uid := [0x04, 0x3B, 0x99, 0x2E]
  sak := [0x20]
  level4Enabled := true
  l3EmulationMode := .notSet
  ceImage := none

/-- a Type 4 Tag with its NDEF file selected, about to answer -/
def ndefSelected : Ce :=
  { hydranfcCeCommon Ce.boot type4Tag [] with
    toCard := Runs.run step (hydranfcCeCommon Ce.boot type4Tag []).toCard
      [apduSelectApp, apduSelectNdef]
    isActivatedA := true
    txReady := true }

theorem ndefSelected_serving : Serving ndefSelected where
  isActivatedA := rfl
  txReady := rfl
  processor := rfl
  txBuf := rfl
  ndefFile := by decide +kernel

def answersLayer4 : Answers := { Answers.quiet with processState := .cardemu4A }

/-- READ of 254 bytes, the most that fit -/
theorem responseFits_iff_most :
    ResponseFits ndefSelected answersLayer4 [0x00, 0xB0, 0x00, 0x00, 0xFE] :=
  (responseFits_iff ndefSelected_serving answersLayer4 [0x00, 0xB0, 0x00, 0x00, 0xFE]).mpr
    fun _ => by decide +kernel

/-- the response to a READ of 255 bytes has 257, for the 256 INF bytes -/
theorem response_behind_txBuf :
    ⟨.wr, .txBufCe, 3, 257⟩ ∈ (ceAnswer (ndefSelected.commanded [0x00, 0xB0, 0x00, 0x00, 0xFF])
        answersLayer4 5).ram.trace ∧
      ¬ ∀ (ce : Ce) (a : Answers) (apdu : List UInt8), Serving ce → ResponseFits ce a apdu := by
  have hm : ⟨.wr, .txBufCe, 3, 257⟩ ∈ (ceAnswer
      (ndefSelected.commanded [0x00, 0xB0, 0x00, 0x00, 0xFF]) answersLayer4 5).ram.trace := by
    decide +kernel
  refine ⟨hm, fun hall => ?_⟩
  have h := (hall ndefSelected answersLayer4 [0x00, 0xB0, 0x00, 0x00, 0xFF] ndefSelected_serving).inf
    _ hm rfl
  exact absurd h.2 (by decide)

end Hydra
