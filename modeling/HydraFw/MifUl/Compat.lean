import HydraFw.MifUl.Tag

/-!
# The two ways to write a page

WRITE carries the page and its bytes in one frame; COMPATIBILITY WRITE carries the page in one frame
and the bytes in the next.

* `Rsp.ulOutcome`    the image and the answer after a frame;
* `ulWritten`        the outcome of a write, from the image, the page and the bytes alone;
* `WritesAgree`      the law of the two commands, `writes_agree`.
-/

namespace Hydra
open Rams

/-! ## outcomes -/

/-- what is left of an exchange: the image, and the answer with its length in bits -/
structure UlOutcome where
  image : Nat → UInt8
  bits : Nat
  answer : List UInt8
  reset : Bool

def Rsp.ulOutcome (r : Rsp) : UlOutcome := ⟨r.card.image, r.bits, r.answer, r.reset⟩

def ulAcknowledged (image : Nat → UInt8) : UlOutcome := ⟨image, 4, [mifAck], false⟩
def ulRefused (image : Nat → UInt8) : UlOutcome := ⟨image, 4, [mifNak], true⟩

/-- pages 2 to 15 can be written -/
def UlWritable (p : UInt8) : Prop := 2 ≤ p ∧ p ≤ 15

instance (p : UInt8) : Decidable (UlWritable p) := inferInstanceAs (Decidable (_ ∧ _))

def ulWritten (image : Nat → UInt8) (p : UInt8) (data : List UInt8) : UlOutcome :=
  if UlWritable p then ulAcknowledged (UlMem.write image ⟨p.toNat, data⟩) else ulRefused image

section
variable {c d : Card} {s : LmState}

theorem ulNak_outcome (d : Card) : (ulNak d .rxtxFrameBuf).ulOutcome = ulRefused d.image := by
  have hanswer : (ulNak d .rxtxFrameBuf).answer = [mifNak] := answer_set _ rfl
  have himage : (ulNak d .rxtxFrameBuf).card.image = d.image := set_image ..
  unfold Rsp.ulOutcome
  rw [hanswer, himage]
  rfl

theorem ulAck_outcome (d : Card) : (ulAck d .rxtxFrameBuf).ulOutcome = ulAcknowledged d.image := by
  have hanswer : (ulAck d .rxtxFrameBuf).answer = [mifAck] := answer_set _ rfl
  have himage : (ulAck d .rxtxFrameBuf).card.image = d.image := set_image ..
  unfold Rsp.ulOutcome
  rw [hanswer, himage]
  rfl

theorem Rsp.Acked.outcome_ne {r : Rsp} (h : r.Acked) (image : Nat → UInt8) :
    r.ulOutcome ≠ ulRefused image := by
  intro heq
  have hanswer := (congrArg UlOutcome.answer heq).symm.trans h.2
  exact absurd hanswer (by decide : [mifNak] ≠ [mifAck])

/-- the address chain of both commands -/
theorem ulStore_outcome (d : Card) (p : UInt8) (off : Nat) :
    (ulStore d p .rxtxFrameBuf off .rxtxFrameBuf).ulOutcome =
      ulWritten d.image p (slice (d.ram.mem .rxtxFrameBuf) off 4) := by
  unfold ulStore ulWritten
  by_cases h4 : p ≥ 0x4 ∧ p ≤ 0xf
  · have hlo : 4 ≤ p.toNat := h4.1
    have hw : UlWritable p := ⟨UInt8.le_trans (by decide) h4.1, h4.2⟩
    rw [if_pos h4, if_pos hw, ulAck_outcome]
    exact congrArg ulAcknowledged (page_image _ _ hlo)
  · rw [if_neg h4]
    by_cases h3 : p = 0x3
    · subst h3
      rw [if_pos rfl, if_pos (by decide), ulAck_outcome]
      exact congrArg ulAcknowledged (ulOr_image ..)
    · rw [if_neg h3]
      by_cases h2 : p = 0x2
      · subst h2
        rw [if_pos rfl, if_pos (by decide), ulAck_outcome]
        exact congrArg ulAcknowledged (write_low d.image (by decide : (2 : UInt8).toNat < 3)).symm
      · have hw : ¬ UlWritable p := by
          rintro ⟨hlo, hhi⟩
          have hlo' : 2 ≤ p.toNat := hlo
          have h2' : p.toNat ≠ 2 := fun h => h2 (UInt8.toNat_inj.mp h)
          have h3' : p.toNat ≠ 3 := fun h => h3 (UInt8.toNat_inj.mp h)
          have h4' : 4 ≤ p.toNat := by omega
          exact h4 ⟨h4', hhi⟩
        rw [if_neg h2, if_neg hw, ulNak_outcome]

/-! ## the three frames -/

theorem awaited_outcome {f : UlFrame} (hs : f.state.active) (hc : c.ulCwritePageSet ≠ 0)
    (hlen : f.bytes.length ≠ 16) (hhlta : c.frame f.bytes 0 ≠ 0x50) :
    (ulExchange c f).ulOutcome = ulRefused c.image := by
  rw [awaited_exchange hs hc hlen hhlta, ulNak_outcome, opened_image]

theorem frame_zero (c : Card) (x : UInt8) (rest : List UInt8) : c.frame (x :: rest) 0 = x :=
  frame_getElem c (x :: rest) 0 (Nat.succ_pos _)

theorem frame_one (c : Card) (x y : UInt8) (rest : List UInt8) : c.frame (x :: y :: rest) 1 = y :=
  frame_getElem c (x :: y :: rest) 1 (Nat.succ_lt_succ (Nat.succ_pos _))

/-- the first phase of COMPATIBILITY WRITE -/
theorem cwrite_exchange (hs : s.active) (hc : c.ulCwritePageSet = 0) (p : UInt8) :
    ulExchange c ⟨s, [cmdUlCwrite, p]⟩ =
      if UlWritable p then
        ulAck { c.opened ⟨s, [cmdUlCwrite, p]⟩ with ulCwritePageSet := p + 1 } .rxtxFrameBuf
      else ulNak (c.opened ⟨s, [cmdUlCwrite, p]⟩) .rxtxFrameBuf := by
  rw [ulExchange_active hs]
  unfold ulDispatch ulCwrite
  simp only [opened_frame, frame_zero, frame_one, hc]
  rfl

/-- WRITE -/
theorem write_exchange (hs : s.active) (hc : c.ulCwritePageSet = 0) (p : UInt8) {d : List UInt8}
    (hd : d.length = 4) :
    ulExchange c ⟨s, cmdUlWrite :: p :: d⟩ =
      ulStore (c.opened ⟨s, cmdUlWrite :: p :: d⟩) p .rxtxFrameBuf 2 .rxtxFrameBuf := by
  have hlen : (cmdUlWrite :: p :: d).length = 6 := by
    rw [List.length_cons, List.length_cons, hd]
  rw [ulExchange_active hs]
  unfold ulDispatch
  simp only [opened_frame, frame_zero, frame_one, hc, hlen]
  rfl

/-- the second phase, whatever its bytes look like -/
theorem phase2_exchange {f : UlFrame} (hs : f.state.active) (hc : c.ulCwritePageSet ≠ 0)
    (hlen : f.bytes.length = 16) :
    ulExchange c f =
      ulStore (c.opened f) (c.ulCwritePageSet - 1) .rxtxFrameBuf 0 .rxtxFrameBuf := by
  have hne : ¬ (f.bytes.length = 2 ∧ c.frame f.bytes 0 = 0x50 ∧ c.frame f.bytes 1 = 0x00) := by
    rintro ⟨h, -⟩
    omega
  rw [ulExchange_active hs]
  unfold ulDispatch
  simp only [opened_frame]
  rw [if_neg hne, if_pos (decide_eq_true hc), if_neg (not_not.mpr hlen)]

theorem watch_some (p : Nat) (o : Seen) : (watch (some p) o).1 = none := by
  unfold watch
  split <;> rfl

/-- one frame takes off what is awaited -/
theorem awaits_over {p : Nat} (h : Awaits c (some p)) (f : UlFrame) :
    (ulStep c f).ulCwritePageSet = 0 := by
  have hf := (concluded (f := f) h).awaits
  rwa [watch_some] at hf

/-! ## the law -/

/-- the first phase, in the active state `s` -/
def firstPhase (c : Card) (s : LmState) (p : UInt8) : Rsp := ulExchange c ⟨s, [cmdUlCwrite, p]⟩

/-- what the two commands owe: the second phase is `d` in the state `s'`, and WRITE comes in
`s''` -/
structure WritesAgree (c : Card) (s s' s'' : LmState) (p : UInt8) (d : List UInt8) : Prop where
  same : (firstPhase c s p).Acked →
    (ulExchange (firstPhase c s p).card ⟨s', d⟩).ulOutcome =
      (ulExchange c ⟨s'', cmdUlWrite :: p :: d.take 4⟩).ulOutcome
  others : ¬ (firstPhase c s p).Acked →
    (firstPhase c s p).ulOutcome = ulRefused c.image ∧
      (ulExchange c ⟨s'', cmdUlWrite :: p :: d.take 4⟩).ulOutcome = ulRefused c.image
  settled : (firstPhase c s p).Acked →
    ∀ f, (ulStep (firstPhase c s p).card f).ulCwritePageSet = 0

/-- an acknowledged first phase leaves its page behind, and nothing else -/
structure Begun (c c' : Card) (p : UInt8) : Prop where
  before : c.ulCwritePageSet = 0
  writable : UlWritable p
  page : c'.ulCwritePageSet = p + 1
  image : c'.image = c.image

theorem UlWritable.page_ne {p : UInt8} (h : UlWritable p) : p + 1 ≠ 0 := by
  have hle : p.toNat ≤ 15 := h.2
  intro hz
  have hz' := congrArg UInt8.toNat hz
  rw [UInt8.toNat_add] at hz'
  change (p.toNat + 1) % 256 = 0 at hz'
  omega

theorem Begun.awaits {c' : Card} {p : UInt8} (h : Begun c c' p) : Awaits c' (some p.toNat) := by
  refine ⟨?_, ?_, h.writable.1, h.writable.2⟩
  · rw [h.page]
    exact h.writable.page_ne
  · rw [h.page, UInt8.add_sub_cancel]

/-- a first phase is acknowledged, or it is refused as a second phase or for its page -/
theorem firstPhase_cases (hs : s.active) (c : Card) (p : UInt8) :
    ((firstPhase c s p).Acked ∧ Begun c (firstPhase c s p).card p) ∨
      (¬ (firstPhase c s p).Acked ∧ (firstPhase c s p).ulOutcome = ulRefused c.image ∧
        (c.ulCwritePageSet ≠ 0 ∨ ¬ UlWritable p)) := by
  by_cases hc : c.ulCwritePageSet = 0
  · have hexchange := cwrite_exchange hs hc p
    by_cases hp : UlWritable p
    · rw [if_pos hp] at hexchange
      left
      rw [firstPhase, hexchange]
      refine ⟨⟨rfl, answer_set _ rfl⟩, hc, hp, rfl, ?_⟩
      exact (set_image ..).trans opened_image
    · rw [if_neg hp] at hexchange
      have hout : (firstPhase c s p).ulOutcome = ulRefused c.image := by
        rw [firstPhase, hexchange, ulNak_outcome, opened_image]
      exact .inr ⟨fun h => h.outcome_ne _ hout, hout, .inr hp⟩
  · have hout : (firstPhase c s p).ulOutcome = ulRefused c.image := by
      refine awaited_outcome hs hc (by simp) ?_
      show c.frame [cmdUlCwrite, p] 0 ≠ 0x50
      rw [frame_zero]
      decide
    exact .inr ⟨fun h => h.outcome_ne _ hout, hout, .inl hc⟩

/-- WRITE, when no second phase is awaited -/
theorem write_outcome (hs : s.active) (hc : c.ulCwritePageSet = 0) (p : UInt8) {d : List UInt8}
    (hd : d.length = 4) :
    (ulExchange c ⟨s, cmdUlWrite :: p :: d⟩).ulOutcome = ulWritten c.image p d := by
  have hdata : slice (c.frame (cmdUlWrite :: p :: d)) 2 4 = d := by
    rw [frame_slice c _ 2 4 (by rw [List.length_cons, List.length_cons, hd])]
    exact List.take_of_length_le hd.le
  rw [write_exchange hs hc p hd, ulStore_outcome, opened_image, opened_frame, hdata]

/-- the second phase -/
theorem Begun.outcome {c' : Card} {p : UInt8} (h : Begun c c' p) (hs : s.active) {d : List UInt8}
    (hd : d.length = 16) :
    (ulExchange c' ⟨s, d⟩).ulOutcome = ulWritten c.image p (d.take 4) := by
  have hpage : c'.ulCwritePageSet ≠ 0 := h.page ▸ h.writable.page_ne
  have hdata : slice (c'.frame d) 0 4 = d.take 4 := frame_slice c' d 0 4 (by omega)
  rw [phase2_exchange hs hpage hd, ulStore_outcome, opened_image, opened_frame, hdata, h.image,
    h.page, UInt8.add_sub_cancel]

/-- **The two ways to write a page** end with the same image and the same answer, for every page
that the first phase acknowledges; and for every other one both are refused. -/
theorem writes_agree (c : Card) (s s' s'' : LmState) (hs : s.active) (hs' : s'.active)
    (hs'' : s''.active) (p : UInt8) (d : List UInt8) (hd : d.length = 16) :
    WritesAgree c s s' s'' p d := by
  have hfour : (d.take 4).length = 4 := by rw [List.length_take, hd]; rfl
  rcases firstPhase_cases hs c p with ⟨hack, hbegun⟩ | ⟨hnack, hout, hwhy⟩
  · refine ⟨fun _ => ?_, fun h => absurd hack h, fun _ => awaits_over hbegun.awaits⟩
    rw [hbegun.outcome hs' hd, write_outcome hs'' hbegun.before p hfour]
  · refine ⟨fun h => absurd h hnack, fun _ => ⟨hout, ?_⟩, fun h => absurd h hnack⟩
    by_cases hc : c.ulCwritePageSet = 0
    · rw [write_outcome hs'' hc p hfour, ulWritten, if_neg (hwhy.resolve_left (not_not.mpr hc))]
    · refine awaited_outcome hs'' hc ?_ ?_
      · show (cmdUlWrite :: p :: d.take 4).length ≠ 16
        rw [List.length_cons, List.length_cons, hfour]
        decide
      · show c.frame (cmdUlWrite :: p :: d.take 4) 0 ≠ 0x50
        rw [frame_zero]
        decide

/-- page 3, with data that looks like a READ -/
theorem writes_agree_otp :
    WritesAgree Card.boot .activeA .activeAx .activeA 3 (cmdUlRead :: List.replicate 15 0) :=
  writes_agree Card.boot .activeA .activeAx .activeA trivial trivial trivial 3 _ rfl

end

end Hydra
