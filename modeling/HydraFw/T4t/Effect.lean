import HydraFw.T4t.Answers

/-!
# What an exchange leaves visible

The frame buffer holds leftovers of earlier frames behind the command.  To speak about them the
buffer is given apart from the card.

* `Card.withFrame`   the card with the buffer contents `m`;
* `Outcome`          the response and the new state, without the frame buffer;
* `Effect`           what the bytes of the buffer ask of a card, and `effect`, read off the buffer;
* `outcome_eq`       the outcome of a command depends on its effect only.
-/

namespace Hydra
open Rams

def Card.withFrame (c : Card) (m : Nat → UInt8) : Card :=
  { c with ram := ⟨Function.update c.ram.mem .rxtxFrameBuf m, []⟩ }

/-- `processCmd` as `ceRun` calls it, on a buffer of which `n` bytes were just received -/
def process (state : LmState) (c : Card) (m : Nat → UInt8) (n : Nat) : Rsp :=
  processCmd state (c.withFrame m) .rxtxFrameBuf n .rxtxFrameBuf

/-- the frame buffer, left out of an outcome -/
def blank : Nat → UInt8 := fun _ => 0

@[ext] structure Outcome where
  bits : Nat
  answer : List UInt8
  reset : Bool
  nState : States
  nSelectedIdx : Int
  ndefFile : Obj
  ulCwritePageSet : UInt8
  mem : Obj → Nat → UInt8

def Rsp.outcome (r : Rsp) : Outcome where
  bits := r.bits
  answer := r.answer
  reset := r.reset
  nState := r.card.nState
  nSelectedIdx := r.card.nSelectedIdx
  ndefFile := r.card.ndefFile
  ulCwritePageSet := r.card.ulCwritePageSet
  mem := Function.update r.card.ram.mem .rxtxFrameBuf blank

inductive Effect where
  | select (s : States × Int × Bool)
  | data (f : Obj) (off n : Nat)
  | store (off : Nat) (bytes : List UInt8)
  | refuse (sw1 sw2 : UInt8)

def effect (c : Card) (m : Nat → UInt8) : Effect :=
  match decode m with
  | .select => .select (selectFile m c.nState c.nSelectedIdx)
  | .read off le =>
    match selectedObj c with
    | none => .refuse 0x6A 0x82
    | some f => .data f off (clipped c.nSelectedIdx off le)
  | .update off lc =>
    if c.nSelectedIdx ≠ 1 then .refuse 0x6A 0x82
    else if ndefSize < off + lc then .refuse 0x62 0x82
    else .store off (slice m 5 lc)
  | .unsupported => .refuse 0x68 0x00

/-- the bits `processCmd` returns -/
def Effect.bits : Effect → Nat
  | .data _ _ n => 8 * ((n + 2) % 2 ^ 16) % 2 ^ 16
  | _ => 16

def Effect.answer (c : Card) : Effect → List UInt8
  | .select s => if s.2.2 then [0x90, 0x00] else [0x6A, 0x82]
  | .data f off n =>
    slice (fun k => if k = n + 1 then 0x00 else if k = n then 0x90 else c.ram.mem f (off + k)) 0
      (rfalConvBitsToBytes (Effect.data f off n).bits)
  | .store _ _ => [0x90, 0x00]
  | .refuse a b => [a, b]

def Effect.run (c : Card) (e : Effect) : Outcome where
  bits := e.bits
  answer := e.answer c
  reset := false
  nState := match e with
    | .select s => s.1
    | _ => c.nState
  nSelectedIdx := match e with
    | .select s => s.2.1
    | _ => c.nSelectedIdx
  ndefFile := match e with
    | .store _ _ => .ndefBuffer
    | _ => c.ndefFile
  ulCwritePageSet := c.ulCwritePageSet
  mem := match e with
    | .store off bytes =>
      Function.update (Function.update c.ram.mem .ndefBuffer
        (overwrite (c.ram.mem .ndefBuffer) off bytes)) .rxtxFrameBuf blank
    | _ => Function.update c.ram.mem .rxtxFrameBuf blank

section
variable {c : Card} {m : Nat → UInt8}

theorem withFrame_frame : (c.withFrame m).frame [] = m := by
  unfold Card.frame
  rw [overwrite_nil]
  exact Function.update_self (Obj.rxtxFrameBuf) m c.ram.mem

theorem withFrame_received : (c.withFrame m).received [] = c.withFrame m := by
  unfold Card.received
  rw [withFrame_frame]
  show ({ c with ram := ⟨Function.update (Function.update c.ram.mem _ m) _ m, []⟩ } : Card) = _
  rw [Function.update_idem]
  rfl

theorem process_eq_exchange (n : Nat) : process .cardemu4A c m n = exchange (c.withFrame m) [] := by
  unfold exchange
  rw [withFrame_received]
  rfl

/-- a READ longer than the response it announces still ends inside what it wrote -/
theorem data_bytes_le (f : Obj) (off n : Nat) :
    rfalConvBitsToBytes (Effect.data f off n).bits ≤ n + 2 := by
  unfold rfalConvBitsToBytes Effect.bits
  show (8 * ((n + 2) % 2 ^ 16) % 2 ^ 16 % 65536 + 7) / 8 ≤ n + 2
  omega

theorem mem_frame_free {r : Mem} {g : Obj → Nat → UInt8}
    (h : ∀ o, o ≠ .rxtxFrameBuf → r.mem o = g o) :
    Function.update r.mem .rxtxFrameBuf blank = Function.update g .rxtxFrameBuf blank := by
  funext o
  by_cases ho : o = .rxtxFrameBuf
  · rw [ho, Function.update_self, Function.update_self]
  · rw [Function.update_of_ne ho, Function.update_of_ne ho, h o ho]

theorem withFrame_dispatched_mem (o : Obj) (ho : o ≠ .rxtxFrameBuf) :
    ((c.withFrame m).dispatched []).ram.mem o = c.ram.mem o := by
  rw [dispatched_mem_ne o ho]
  exact Function.update_of_ne ho m c.ram.mem

/-- a refused command: status word, nothing else -/
theorem outcome_refuse {ram : Mem} {sw1 sw2 : UInt8}
    (h : ∀ o, o ≠ .rxtxFrameBuf → ram.mem o = c.ram.mem o) :
    (Rsp.mk { c with ram := put2 ram .rxtxFrameBuf 0 sw1 sw2 } 16 false).outcome
      = (Effect.refuse sw1 sw2).run c := by
  refine Outcome.ext rfl (answer_put2 _ rfl) rfl rfl rfl rfl rfl ?_
  exact mem_frame_free fun o ho => by rw [put2_mem_ne _ _ _ _ _ _ ho, h o ho]

/-- the bytes a READ announces all come from the file and the status word behind it -/
theorem answer_data {card : Card} {ram : Mem} {f : Obj} {off n : Nat}
    (h : card.ram = put2 (ram.copy .rxtxFrameBuf 0 f off n) .rxtxFrameBuf n 0x90 0x00)
    (hmem : ram.mem f = c.ram.mem f) :
    (Rsp.mk card (Effect.data f off n).bits false).answer = (Effect.data f off n).answer c := by
  unfold Rsp.answer Effect.answer
  refine slice_congr fun k hk => ?_
  have hle := data_bytes_le f off n
  simp only at hk
  rw [h, put2_cell, Ram.copy_cell, hmem, Nat.zero_add]
  by_cases hkn : k < n
  · rw [if_neg (by omega), if_neg (by omega), if_pos (by omega), if_neg (by omega),
      if_neg (by omega)]
    simp
  · have : k = n ∨ k = n + 1 := by omega
    rcases this with rfl | rfl <;> simp

end

/-- **The outcome of a command depends on its effect only.** -/
theorem outcome_eq {c : Card} (hfile : c.ndefFile ≠ .rxtxFrameBuf) (m : Nat → UInt8) (n : Nat) :
    (process .cardemu4A c m n).outcome = (effect c m).run c := by
  have hmem : ∀ o, o ≠ Obj.rxtxFrameBuf →
      ((c.withFrame m).dispatched []).ram.mem o = c.ram.mem o := withFrame_dispatched_mem
  rw [process_eq_exchange]
  unfold effect
  cases way (c.withFrame m) [] with
  | select h =>
    have h' := h
    rw [withFrame_frame] at h'
    rw [h']
    have ha := answer_select h
    rw [exchange_select h, withFrame_frame] at *
    refine Outcome.ext rfl ha rfl rfl rfl rfl rfl ?_
    exact mem_frame_free fun o ho => by rw [put2_mem_ne _ _ _ _ _ _ ho, Ram.rd_mem, hmem o ho]
  | unsupported h =>
    have h' := h
    rw [withFrame_frame] at h'
    rw [h', exchange_unsupported h]
    exact outcome_refuse hmem
  | readNone off le h hf =>
    have h' := h
    have hf' : selectedObj c = none := hf
    rw [withFrame_frame] at h'
    rw [h', exchange_read_none h hf]
    simp only [hf']
    exact outcome_refuse hmem
  | read off le f h hf =>
    have h' := h
    have hf' : selectedObj c = some f := hf
    rw [withFrame_frame] at h'
    rw [h', exchange_read h hf]
    simp only [hf']
    have hne : f ≠ .rxtxFrameBuf := by
      rcases selectedObj_some hf' with ⟨_, rfl⟩ | ⟨_, rfl⟩
      · decide
      · exact hfile
    refine Outcome.ext rfl (answer_data rfl (by rw [Ram.rd_mem, hmem f hne])) rfl rfl rfl rfl rfl ?_
    refine mem_frame_free fun o ho => ?_
    rw [put2_mem_ne _ _ _ _ _ _ ho, Ram.copy_mem_ne _ _ _ _ _ _ _ ho, Ram.rd_mem, hmem o ho]
  | updateNone off lc h hf =>
    have h' := h
    rw [withFrame_frame] at h'
    rw [h', exchange_update_none h hf]
    simp only [if_pos (show c.nSelectedIdx ≠ 1 from hf)]
    exact outcome_refuse hmem
  | updateLong off lc h hf hl =>
    have h' := h
    rw [withFrame_frame] at h'
    rw [h', exchange_update_long h hf hl]
    simp only [if_neg (not_not.mpr (show c.nSelectedIdx = 1 from hf)), if_pos hl]
    exact outcome_refuse hmem
  | update off lc h hf hl =>
    have h' := h
    rw [withFrame_frame] at h'
    rw [h', exchange_update h hf hl]
    simp only [if_neg (not_not.mpr (show c.nSelectedIdx = 1 from hf)), if_neg (Nat.not_lt.mpr hl)]
    refine Outcome.ext rfl (answer_put2 _ rfl) rfl rfl rfl rfl rfl ?_
    refine mem_frame_free fun o ho => ?_
    rw [put2_mem_ne _ _ _ _ _ _ ho]
    by_cases hn : o = .ndefBuffer
    · rw [hn, Ram.copy_mem_same, Function.update_self, Ram.rd_mem, hmem _ (by decide),
        dispatched_frame, withFrame_frame]
    · rw [Ram.copy_mem_ne _ _ _ _ _ _ _ hn, Function.update_of_ne hn, Ram.rd_mem, hmem o ho]

end Hydra
