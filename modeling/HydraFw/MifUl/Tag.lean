import HydraFw.Lib.Runs
import HydraFw.MifUl.Commands

/-!
# The memory of the Ultralight tag

Abstractly the tag is a memory of sixteen pages and the history of its acknowledged writes: page
2 ignores them, page 3 is one-time programmable, pages 4 to 15 are replaced.

* `UlMem.write`      one acknowledged write;
* `Seen`, `watch`    what a reader observes of a frame, and the writes it may conclude from it
                     (an acknowledged A2, or the frame acknowledged after an acknowledged A0);
* `concluded`        a frame refines the writes a reader concludes;
* `history_refines`  so does every run;
* `ultralight_law`   the law of the memory over every run.

A READ that arrives as the second phase of an acknowledged A0 is not a READ: it gets a NAK.
-/

namespace Hydra
open Rams Runs

/-! ## the abstract memory -/

/-- a page and the four bytes written to it -/
structure UlWrite where
  page : Nat
  data : List UInt8
  deriving DecidableEq

def UlWrite.byte (w : UlWrite) (k : Nat) : UInt8 := (w.data[k]?).getD 0

def UlMem.write (m : Nat → UInt8) (w : UlWrite) : Nat → UInt8 := fun i =>
  if i / 4 = w.page then
    if w.page = 3 then m i ||| w.byte (i % 4)
    else if 4 ≤ w.page then w.byte (i % 4)
    else m i
  else m i

/-- the last write to page `p` -/
def lastWrite (ws : List UlWrite) (p : Nat) : Option UlWrite := ws.reverse.find? fun w => w.page = p

/-- all bytes `k` written to page 3, OR-ed to `x` -/
def otpOr (x : UInt8) (k : Nat) (ws : List UlWrite) : UInt8 :=
  (ws.filter fun w => w.page = 3).foldl (fun x w => x ||| w.byte k) x

def UlWrite.Valid (w : UlWrite) : Prop := 2 ≤ w.page ∧ w.page ≤ 15

section
variable (m : Nat → UInt8) (ws : List UlWrite)

theorem write_ne {w : UlWrite} {i : Nat} (h : i / 4 ≠ w.page) : UlMem.write m w i = m i := if_neg h

theorem write_otp {w : UlWrite} {i : Nat} (hw : w.page = 3) (h : i / 4 = 3) :
    UlMem.write m w i = (m i ||| w.byte (i % 4)) := by
  unfold UlMem.write
  rw [if_pos (by omega), if_pos hw]

theorem write_page {w : UlWrite} {i : Nat} (hw : 4 ≤ w.page) (h : i / 4 = w.page) :
    UlMem.write m w i = w.byte (i % 4) := by
  unfold UlMem.write
  rw [if_pos h, if_neg (by omega), if_pos hw]

theorem write_low {w : UlWrite} (hw : w.page < 3) : UlMem.write m w = m := by
  funext i
  unfold UlMem.write
  split_ifs <;> first | rfl | omega

theorem write_fixed {w : UlWrite} (hw : w.Valid) {i : Nat} (hi : i < 12 ∨ 64 ≤ i) :
    UlMem.write m w i = m i := by
  obtain ⟨h2, h15⟩ := hw
  by_cases hp : i / 4 = w.page
  · rw [write_low m (by omega)]
  · exact write_ne m hp

theorem run_write_fixed (hws : ∀ w ∈ ws, w.Valid) {i : Nat} (hi : i < 12 ∨ 64 ≤ i) :
    run UlMem.write m ws i = m i := by
  induction ws generalizing m with
  | nil => rfl
  | cons w ws ih =>
    rw [run_cons, ih _ fun w' h' => hws w' (List.mem_cons_of_mem _ h')]
    exact write_fixed m (hws w List.mem_cons_self) hi

theorem run_write_otp {k : Nat} (hk : k < 4) :
    run UlMem.write m ws (12 + k) = otpOr (m (12 + k)) k ws := by
  induction ws generalizing m with
  | nil => rfl
  | cons w ws ih =>
    rw [run_cons, ih]
    unfold otpOr
    by_cases hp : w.page = 3
    · rw [write_otp m hp (by omega), List.filter_cons_of_pos (by simpa using hp),
        show (12 + k) % 4 = k by omega]
      rfl
    · rw [write_ne m (by omega), List.filter_cons_of_neg (by simpa using hp)]

/-- no bit of page 3 is ever cleared -/
theorem or_otpOr (x : UInt8) (k : Nat) : (x ||| otpOr x k ws) = otpOr x k ws := by
  unfold otpOr
  generalize ws.filter _ = l
  induction l generalizing x with
  | nil => exact UInt8.or_self
  | cons w l ih =>
    rw [List.foldl_cons]
    calc x ||| l.foldl _ (x ||| w.byte k)
        = x ||| ((x ||| w.byte k) ||| l.foldl _ (x ||| w.byte k)) := by rw [ih]
      _ = (x ||| w.byte k) ||| l.foldl _ (x ||| w.byte k) := by
          rw [← UInt8.or_assoc, ← UInt8.or_assoc x x, UInt8.or_self]
      _ = l.foldl _ (x ||| w.byte k) := ih _

theorem run_write_page {p k : Nat} (h4 : 4 ≤ p) (hk : k < 4) : run UlMem.write m ws (4 * p + k)
    = ((lastWrite ws p).map fun w => w.byte k).getD (m (4 * p + k)) := by
  induction ws using List.reverseRecOn with
  | nil => rfl
  | append_singleton ws w ih =>
    unfold lastWrite at ih ⊢
    rw [run_concat, List.reverse_append, List.reverse_singleton, List.singleton_append]
    by_cases hp : w.page = p
    · rw [write_page _ (by omega) (by omega), List.find?_cons_of_pos (by simpa using hp),
        show (4 * p + k) % 4 = k by omega]
      rfl
    · rw [write_ne _ (by omega), List.find?_cons_of_neg (by simpa using hp)]
      exact ih

end

/-! ## what a reader sees -/

/-- a frame and whether it was acknowledged -/
structure Seen where
  bytes : List UInt8
  acked : Bool

def Rsp.Acked (r : Rsp) : Prop := r.bits = 4 ∧ r.answer = [mifAck]

instance (r : Rsp) : Decidable r.Acked := inferInstanceAs (Decidable (_ ∧ _))

def seen (c : Card) (f : UlFrame) : Seen := ⟨f.bytes, (ulExchange c f).Acked⟩

/-- the page a second phase is awaited for, and the writes concluded from one frame -/
def watch (pending : Option Nat) (o : Seen) : Option Nat × List UlWrite :=
  if o.acked then
    match pending with
    | some p => (none, [⟨p, o.bytes.take 4⟩])
    | none =>
      match o.bytes with
      | 0xA2 :: p :: data => (none, [⟨p.toNat, data.take 4⟩])
      | 0xA0 :: p :: _ => (some p.toNat, [])
      | _ => (none, [])
  else (none, [])

/-- the page awaited after a history -/
def awaited : Option Nat → List Seen → Option Nat
  | pending, [] => pending
  | pending, o :: os => awaited (watch pending o).1 os

/-- the acknowledged writes of a history -/
def ackedWrites : Option Nat → List Seen → List UlWrite
  | _, [] => []
  | pending, o :: os => (watch pending o).2 ++ ackedWrites (watch pending o).1 os

/-! ## one frame -/

/-- the card at the `switch` on the listen state: a pending first phase is taken off -/
def Card.opened (c : Card) (f : UlFrame) : Card := { c.received f.bytes with ulCwritePageSet := 0 }

def Card.image (c : Card) : Nat → UInt8 := c.ram.mem .ulImage

section
variable {c : Card} {f : UlFrame}

theorem opened_image : (c.opened f).image = c.image := received_mem_ne c f.bytes _ (by decide)

theorem opened_frame : (c.opened f).ram.mem .rxtxFrameBuf = c.frame f.bytes :=
  received_frame c f.bytes

theorem ulExchange_eq : ulExchange c f = ulDispatch f.state (c.opened f) (c.ulCwritePageSet ≠ 0)
    (c.ulCwritePageSet - 1) .rxtxFrameBuf f.bytes.length .rxtxFrameBuf := by
  unfold ulExchange processCmdMifUL
  congr 1
  by_cases h : (c.received f.bytes).ulCwritePageSet = 0
  · rw [if_neg (not_not.mpr h)]
    unfold Card.opened
    rw [← h]
  · rw [if_pos h]
    rfl

theorem ulExchange_idle (h : ¬ f.state.active) :
    (ulExchange c f).card = c.opened f ∧ (ulExchange c f).bits = 0 := by
  rw [ulExchange_eq]
  cases hs : f.state with
  | activeA => exact absurd (show f.state.active by rw [hs]; trivial) h
  | activeAx => exact absurd (show f.state.active by rw [hs]; trivial) h
  | _ => exact ⟨rfl, rfl⟩

/-- in the active states the dispatch does not look at the state again -/
theorem ulDispatch_active {state : LmState} (h : state.active) (d : Card) (phase2 : Bool)
    (a : UInt8) (cmdData : Obj) (n : Nat) (rspData : Obj) :
    ulDispatch state d phase2 a cmdData n rspData
      = ulDispatch .activeA d phase2 a cmdData n rspData := by
  cases state with
  | activeA => rfl
  | activeAx => rfl
  | _ => exact absurd h (fun h => h)

theorem ulExchange_active (hs : f.state.active) :
    ulExchange c f = ulDispatch .activeA (c.opened f) (c.ulCwritePageSet ≠ 0)
      (c.ulCwritePageSet - 1) .rxtxFrameBuf f.bytes.length .rxtxFrameBuf := by
  rw [ulExchange_eq, ulDispatch_active hs]

/-- a frame of another length than a second phase, while one is awaited -/
theorem awaited_exchange (hs : f.state.active) (hc : c.ulCwritePageSet ≠ 0)
    (hlen : f.bytes.length ≠ 16) (hhlta : c.frame f.bytes 0 ≠ 0x50) :
    ulExchange c f = ulNak (c.opened f) .rxtxFrameBuf := by
  rw [ulExchange_active hs]
  unfold ulDispatch
  simp only [opened_frame]
  rw [if_neg fun h => hhlta h.2.1, if_pos (decide_eq_true hc), if_pos hlen]

end

/-! ## results -/

/-- the page of a first phase, as `ul_cwrite_page_set` holds it -/
def Awaits (c : Card) : Option Nat → Prop
  | none => c.ulCwritePageSet = 0
  | some p => c.ulCwritePageSet ≠ 0 ∧ (c.ulCwritePageSet - 1).toNat = p ∧ 2 ≤ p ∧ p ≤ 15

/-- a processed frame: acknowledged or not, the page then awaited, the writes to the image -/
structure UlResult (image : Nat → UInt8) (r : Rsp) (acked : Bool) (pending : Option Nat)
    (ws : List UlWrite) : Prop where
  acked : r.Acked ↔ acked = true
  awaits : Awaits r.card pending
  image : r.card.image = run UlMem.write image ws
  valid : ∀ w ∈ ws, w.Valid

section
variable {d : Card}

theorem not_acked_of_bits {r : Rsp} (h : r.bits ≠ 4) : ¬ r.Acked := fun ha => h ha.1

theorem quiet_result (hd : d.ulCwritePageSet = 0) (reset : Bool) :
    UlResult d.image ⟨d, 0, reset⟩ false none [] where
  acked := iff_of_false (not_acked_of_bits (Nat.zero_ne_add_one 3)) Bool.false_ne_true
  awaits := hd
  image := rfl
  valid := fun _ h => absurd h List.not_mem_nil

/-- the response byte of a NAK or an ACK -/
theorem answer_set {card : Card} {r : Mem} {v : UInt8} (reset : Bool)
    (h : card.ram = r.set .rxtxFrameBuf 0 v) : (Rsp.mk card 4 reset).answer = [v] := by
  unfold Rsp.answer
  rw [h, show rfalConvBitsToBytes 4 = 1 by decide]
  show [(r.set .rxtxFrameBuf 0 v).mem .rxtxFrameBuf 0] = [v]
  rw [Ram.set_cell, if_pos rfl]

theorem set_image (r : Mem) (v : UInt8) :
    (r.set .rxtxFrameBuf 0 v).mem .ulImage = r.mem .ulImage :=
  Ram.set_mem_ne _ _ _ _ _ (by decide)

theorem nak_result (hd : d.ulCwritePageSet = 0) :
    UlResult d.image (ulNak d .rxtxFrameBuf) false none [] where
  acked := by
    refine iff_of_false (fun ha => ?_) Bool.false_ne_true
    have h := ha.2
    rw [show (ulNak d .rxtxFrameBuf).answer = [mifNak] from answer_set _ rfl] at h
    exact absurd h (by decide)
  awaits := hd
  image := set_image ..
  valid := fun _ h => absurd h List.not_mem_nil

/-- an ACK after `e` was done to the card -/
theorem ack_result {image : Nat → UInt8} {e : Card} {pending : Option Nat} {ws : List UlWrite}
    (he : Awaits e pending) (hi : e.image = run UlMem.write image ws) (hv : ∀ w ∈ ws, w.Valid) :
    UlResult image (ulAck e .rxtxFrameBuf) true pending ws where
  acked := iff_of_true ⟨rfl, answer_set _ rfl⟩ rfl
  awaits := by
    cases pending with
    | none => exact he
    | some p => exact he
  image := (set_image ..).trans hi
  valid := hv

theorem ulOr_image (r : Mem) (off : Nat) : (ulOr r .rxtxFrameBuf off).mem .ulImage
    = UlMem.write (r.mem .ulImage) ⟨3, slice (r.mem .rxtxFrameBuf) off 4⟩ := by
  funext i
  unfold ulOr
  simp only [Ram.set_cell]
  by_cases h : i / 4 = 3
  · rw [write_otp _ rfl h]
    have : i = 12 ∨ i = 13 ∨ i = 14 ∨ i = 15 := by omega
    rcases this with rfl | rfl | rfl | rfl <;> simp [UlWrite.byte]
  · rw [write_ne _ h, if_neg (by omega), if_neg (by omega), if_neg (by omega), if_neg (by omega)]

theorem page_image (r : Mem) (off : Nat) {p : Nat} (h4 : 4 ≤ p) :
    (r.copy .ulImage (p * 4) .rxtxFrameBuf off 4).mem .ulImage
      = UlMem.write (r.mem .ulImage) ⟨p, slice (r.mem .rxtxFrameBuf) off 4⟩ := by
  funext i
  rw [Ram.copy_cell]
  by_cases h : i / 4 = p
  · rw [write_page _ h4 h, if_pos (by omega)]
    unfold UlWrite.byte
    rw [slice_getElem?, if_pos (by omega), Option.getD_some]
    congr 1
    omega
  · rw [write_ne _ h, if_neg (by omega)]

/-- the address chain: pages 2 to 15 are acknowledged -/
theorem store_result (hd : d.ulCwritePageSet = 0) (a : UInt8) (off : Nat) :
    (2 ≤ a.toNat ∧ a.toNat ≤ 15 ∧ UlResult d.image (ulStore d a .rxtxFrameBuf off .rxtxFrameBuf)
      true none [⟨a.toNat, slice (d.ram.mem .rxtxFrameBuf) off 4⟩]) ∨
    UlResult d.image (ulStore d a .rxtxFrameBuf off .rxtxFrameBuf) false none [] := by
  have one : ∀ p, 2 ≤ p → p ≤ 15 → ∀ data, ∀ w ∈ [UlWrite.mk p data], w.Valid := by
    intro p h2 h15 data w hw
    rw [List.mem_singleton.mp hw]
    exact ⟨h2, h15⟩
  unfold ulStore
  by_cases h4 : a ≥ 0x4 ∧ a ≤ 0xf
  · have hlo : 4 ≤ a.toNat := h4.1
    have hhi : a.toNat ≤ 15 := h4.2
    rw [if_pos h4]
    exact Or.inl ⟨by omega, hhi, ack_result hd (page_image _ _ hlo) (one _ (by omega) hhi _)⟩
  rw [if_neg h4]
  by_cases h3 : a = 0x3
  · subst h3
    exact Or.inl ⟨by decide, by decide,
      ack_result hd (ulOr_image ..) (one 3 (by decide) (by decide) _)⟩
  rw [if_neg h3]
  by_cases h2 : a = 0x2
  · subst h2
    refine Or.inl ⟨by decide, by decide,
      ack_result hd (write_low d.image ?_).symm (one 2 (by decide) (by decide) _)⟩
    exact (by decide : (2 : UInt8).toNat < 3)
  · rw [if_neg h2]
    exact Or.inr (nak_result hd)

theorem read_result (hd : d.ulCwritePageSet = 0) :
    UlResult d.image (ulRead d .rxtxFrameBuf .rxtxFrameBuf) false none [] := by
  unfold ulRead
  by_cases h : (d.ram.mem .rxtxFrameBuf 1).toNat ≤ 0xf
  · refine ⟨?_, ?_, ?_, ?_⟩
    · rw [if_pos h]
      exact iff_of_false (fun ha => absurd ha.1 (by decide : 8 * 16 ≠ 4)) Bool.false_ne_true
    · rw [if_pos h]
      exact hd
    · rw [if_pos h]
      exact Ram.copy_mem_ne _ _ _ _ _ _ _ (by decide)
    · exact fun _ hw => absurd hw List.not_mem_nil
  · rw [if_neg h]
    exact nak_result hd

theorem cwrite_result (hd : d.ulCwritePageSet = 0) :
    UlResult d.image (ulCwrite d .rxtxFrameBuf .rxtxFrameBuf) true
      (some (d.ram.mem .rxtxFrameBuf 1).toNat) [] ∨
    UlResult d.image (ulCwrite d .rxtxFrameBuf .rxtxFrameBuf) false none [] := by
  unfold ulCwrite
  by_cases h : d.ram.mem .rxtxFrameBuf 1 ≥ 0x2 ∧ d.ram.mem .rxtxFrameBuf 1 ≤ 0xf
  · have hlo : 2 ≤ (d.ram.mem .rxtxFrameBuf 1).toNat := h.1
    have hhi : (d.ram.mem .rxtxFrameBuf 1).toNat ≤ 15 := h.2
    apply Or.inl
    rw [if_pos h]
    refine ack_result ⟨?_, ?_, hlo, hhi⟩ rfl fun _ hw => absurd hw List.not_mem_nil
    · intro hz
      have hz' := congrArg UInt8.toNat hz
      simp only [UInt8.toNat_add] at hz'
      change ((d.ram.mem .rxtxFrameBuf 1).toNat + 1) % 256 = 0 at hz'
      omega
    · show (d.ram.mem .rxtxFrameBuf 1 + 1 - 1).toNat = _
      rw [UInt8.add_sub_cancel]
  · rw [if_neg h]
    exact Or.inr (nak_result hd)

end

/-! ## a frame refines the writes concluded from it -/

section
variable {c : Card} {f : UlFrame}

theorem watch_unacked (pending : Option Nat) {o : Seen} (h : o.acked = false) :
    watch pending o = (none, []) := by
  unfold watch
  rw [if_neg (by rw [h]; exact Bool.false_ne_true)]

theorem seen_acked {image : Nat → UInt8} {acked : Bool} {pending : Option Nat} {ws : List UlWrite}
    (h : UlResult image (ulExchange c f) acked pending ws) : (seen c f).acked = acked := by
  show decide (ulExchange c f).Acked = acked
  rw [Bool.eq_iff_iff, decide_eq_true_iff]
  exact h.acked

/-- what the exchange did is what a reader concludes from it -/
def Concluded (c : Card) (f : UlFrame) (pending : Option Nat) : Prop :=
  UlResult c.image (ulExchange c f) (seen c f).acked (watch pending (seen c f)).1
    (watch pending (seen c f)).2

theorem concluded_unacked (pending : Option Nat)
    (h : UlResult c.image (ulExchange c f) false none []) : Concluded c f pending := by
  unfold Concluded
  rw [watch_unacked pending (seen_acked h), seen_acked h]
  exact h

theorem concluded_nak {pending : Option Nat}
    (he : ulExchange c f = ulNak (c.opened f) .rxtxFrameBuf) : Concluded c f pending := by
  have hr := nak_result (d := c.opened f) rfl
  rw [← he, opened_image] at hr
  exact concluded_unacked _ hr

theorem concluded_acked {pending pending' : Option Nat} {ws : List UlWrite}
    (h : UlResult c.image (ulExchange c f) true pending' ws)
    (hw : watch pending ⟨f.bytes, true⟩ = (pending', ws)) : Concluded c f pending := by
  have e : seen c f = ⟨f.bytes, true⟩ := by
    rw [← seen_acked h]
    rfl
  unfold Concluded
  rw [e, hw]
  exact h

/-- a frame of two bytes or more starts with the bytes the processor looks at -/
theorem frame_two {bytes : List UInt8} (h : 2 ≤ bytes.length) :
    bytes = c.frame bytes 0 :: c.frame bytes 1 :: bytes.drop 2 := by
  obtain _ | ⟨a, _ | ⟨b, rest⟩⟩ := bytes
  · exact absurd h (by decide)
  · exact absurd h (by simp)
  · rw [frame_getElem c _ 0 (by simp), frame_getElem c _ 1 (by simp)]
    rfl

/-- what is concluded from a command depends on its first byte -/
theorem watch_command {n : UInt8} (hc : c.frame f.bytes 0 = n) (hlen : 2 ≤ f.bytes.length) :
    watch none ⟨f.bytes, true⟩ =
      watch none ⟨n :: c.frame f.bytes 1 :: f.bytes.drop 2, true⟩ := by
  have hb := frame_two (c := c) hlen
  rw [hc] at hb
  rw [← hb]

theorem concluded_idle (pending : Option Nat) (h : ¬ f.state.active) : Concluded c f pending := by
  obtain ⟨hcard, hbits⟩ := ulExchange_idle (c := c) h
  refine concluded_unacked pending ⟨?_, ?_, ?_, fun _ hw => absurd hw List.not_mem_nil⟩
  · exact iff_of_false (not_acked_of_bits (by rw [hbits]; decide)) Bool.false_ne_true
  · rw [hcard]
    rfl
  · rw [hcard]
    exact opened_image

/-- the frame after a first phase: its page is known, the data are its first four bytes -/
theorem concluded_phase2 {p : Nat} (hp : Awaits c (some p))
    (he : ulExchange c f = if f.bytes.length ≠ 16 then ulNak (c.opened f) .rxtxFrameBuf
      else ulStore (c.opened f) (c.ulCwritePageSet - 1) .rxtxFrameBuf 0 .rxtxFrameBuf) :
    Concluded c f (some p) := by
  by_cases hl : f.bytes.length = 16
  · rw [if_neg (not_not.mpr hl)] at he
    have hr := store_result (d := c.opened f) rfl (c.ulCwritePageSet - 1) 0
    rw [← he, opened_image, opened_frame, frame_slice c f.bytes 0 4 (by omega), hp.2.1] at hr
    rcases hr with ⟨-, -, hr⟩ | hr
    · exact concluded_acked hr rfl
    · exact concluded_unacked _ hr
  · rw [if_pos hl] at he
    exact concluded_nak he

/-- a WRITE carries its page and its four bytes -/
theorem concluded_write (hc : c.frame f.bytes 0 = cmdUlWrite)
    (he : ulExchange c f = if f.bytes.length ≠ 6 then ulNak (c.opened f) .rxtxFrameBuf
      else ulStore (c.opened f) (c.frame f.bytes 1) .rxtxFrameBuf 2 .rxtxFrameBuf) :
    Concluded c f none := by
  by_cases hl : f.bytes.length = 6
  · rw [if_neg (not_not.mpr hl)] at he
    have hr := store_result (d := c.opened f) rfl (c.frame f.bytes 1) 2
    rw [← he, opened_image, opened_frame, frame_slice c f.bytes 2 4 (by omega)] at hr
    rcases hr with ⟨-, -, hr⟩ | hr
    · refine concluded_acked hr ?_
      rw [watch_command hc (by omega)]
      rfl
    · exact concluded_unacked _ hr
  · rw [if_pos hl] at he
    exact concluded_nak he

theorem concluded_cwrite (hc : c.frame f.bytes 0 = cmdUlCwrite)
    (he : ulExchange c f = if f.bytes.length ≠ 2 then ulNak (c.opened f) .rxtxFrameBuf
      else ulCwrite (c.opened f) .rxtxFrameBuf .rxtxFrameBuf) :
    Concluded c f none := by
  by_cases hl : f.bytes.length = 2
  · rw [if_neg (not_not.mpr hl)] at he
    have hr := cwrite_result (d := c.opened f) rfl
    rw [← he, opened_image, opened_frame] at hr
    rcases hr with hr | hr
    · refine concluded_acked hr ?_
      rw [watch_command hc (by omega)]
      rfl
    · exact concluded_unacked _ hr
  · rw [if_pos hl] at he
    exact concluded_nak he

/-- **A frame refines the writes concluded from it.** -/
theorem concluded {pending : Option Nat} (hp : Awaits c pending) : Concluded c f pending := by
  by_cases ha : f.state.active
  swap
  · exact concluded_idle pending ha
  have he := ulExchange_active (c := c) ha
  have quiet : ulExchange c f = ⟨c.opened f, 0, true⟩ → Concluded c f pending := by
    intro hq
    have hr := quiet_result (d := c.opened f) rfl true
    rw [← hq, opened_image] at hr
    exact concluded_unacked _ hr
  unfold ulDispatch at he
  simp only [opened_frame, decide_eq_true_eq] at he
  by_cases hh : f.bytes.length = 2 ∧ c.frame f.bytes 0 = 0x50 ∧ c.frame f.bytes 1 = 0x00
  · rw [if_pos hh] at he
    exact quiet he
  rw [if_neg hh] at he
  cases pending with
  | some p =>
    rw [if_pos hp.1] at he
    exact concluded_phase2 hp he
  | none =>
    have h0 : c.ulCwritePageSet = 0 := hp
    rw [if_neg (not_not.mpr h0)] at he
    by_cases h3 : c.frame f.bytes 0 = cmdUlRead
    · rw [if_pos h3] at he
      by_cases hl : f.bytes.length = 2
      · rw [if_neg (not_not.mpr hl)] at he
        have hr := read_result (d := c.opened f) rfl
        rw [← he, opened_image] at hr
        exact concluded_unacked _ hr
      · rw [if_pos hl] at he
        exact concluded_nak he
    rw [if_neg h3] at he
    by_cases h2 : c.frame f.bytes 0 = cmdUlWrite
    · rw [if_pos h2] at he
      exact concluded_write h2 he
    rw [if_neg h2] at he
    by_cases hA : c.frame f.bytes 0 = cmdUlCwrite
    · rw [if_pos hA] at he
      exact concluded_cwrite hA he
    rw [if_neg hA] at he
    exact quiet he

end

/-! ## whole runs -/

/-- the history a reader sees -/
def history (c : Card) (frames : List UlFrame) : List Seen :=
  outs (fun c f => [seen c f]) ulStep c frames

/-- along every run the card awaits what the reader expects it to await, and its image is the
initial one after the acknowledged writes -/
theorem history_refines {c : Card} {pending : Option Nat} (frames : List UlFrame)
    (hp : Awaits c pending) :
    Awaits (run ulStep c frames) (awaited pending (history c frames)) ∧
    (run ulStep c frames).image
      = run UlMem.write c.image (ackedWrites pending (history c frames)) ∧
    ∀ w ∈ ackedWrites pending (history c frames), w.Valid := by
  induction frames generalizing c pending with
  | nil => exact ⟨hp, rfl, fun _ hw => absurd hw List.not_mem_nil⟩
  | cons f frames ih =>
    have hf := concluded (f := f) hp
    obtain ⟨h1, h2, h3⟩ := ih (c := ulStep c f) hf.awaits
    refine ⟨h1, ?_, ?_⟩
    · rw [run_cons, h2]
      show run UlMem.write (ulExchange c f).card.image _ = run UlMem.write c.image (_ ++ _)
      rw [hf.image, run_append]
      rfl
    · intro w hw
      rcases List.mem_append.mp hw with hw | hw
      · exact hf.valid w hw
      · exact h3 w hw

/-- a READ while a second phase is awaited -/
theorem answer_awaited {c : Card} {f : UlFrame} {p : UInt8} (ha : f.state.active)
    (hc : c.ulCwritePageSet ≠ 0) (hf : f.bytes = [cmdUlRead, p]) :
    (ulExchange c f).bits = 4 ∧ (ulExchange c f).answer = [mifNak] ∧
      (ulStep c f).image = c.image := by
  have hcmd : c.frame f.bytes 0 = cmdUlRead := by
    rw [frame_getElem c f.bytes 0 (by rw [hf]; simp)]
    simp [hf]
  have hne : c.frame f.bytes 0 ≠ 0x50 := by rw [hcmd]; decide
  have hlen : f.bytes.length ≠ 16 := by rw [hf]; exact (by decide : (2 : Nat) ≠ 16)
  unfold ulStep
  rw [awaited_exchange ha hc hlen hne]
  exact ⟨rfl, answer_set _ rfl, (set_image ..).trans opened_image⟩

/-- READ copies sixteen bytes from the page on, into the copy behind page 15 if need be -/
theorem answer_ulRead {c : Card} {f : UlFrame} {p : UInt8} (ha : f.state.active)
    (h0 : c.ulCwritePageSet = 0) (hf : f.bytes = [cmdUlRead, p]) (hp : p ≤ 15) :
    (ulExchange c f).answer = slice c.image (4 * p.toNat) 16 := by
  have e0 : c.frame f.bytes 0 = cmdUlRead := by
    rw [frame_getElem c f.bytes 0 (by rw [hf]; simp)]
    simp [hf]
  have e1 : c.frame f.bytes 1 = p := by
    rw [frame_getElem c f.bytes 1 (by rw [hf]; simp)]
    simp [hf]
  have hl : f.bytes.length = 2 := by rw [hf]; rfl
  have he : ulExchange c f = ulRead (c.opened f) .rxtxFrameBuf .rxtxFrameBuf := by
    rw [ulExchange_eq, ulDispatch_active ha]
    unfold ulDispatch
    simp only [opened_frame, e0, h0, hl]
    rfl
  have hp' : p.toNat ≤ 0xf := hp
  rw [he]
  unfold ulRead
  rw [opened_frame, e1, if_pos hp']
  unfold Rsp.answer
  rw [show rfalConvBitsToBytes (8 * 16) = 16 by decide]
  refine slice_congr fun k hk => ?_
  show ((c.opened f).ram.copy .rxtxFrameBuf 0 .ulImage (p.toNat * 4) 16).mem .rxtxFrameBuf _ = _
  rw [Ram.copy_cell, if_pos (by omega), ← opened_image (f := f)]
  show (c.opened f).ram.mem .ulImage _ = (c.opened f).ram.mem .ulImage _
  congr 1
  omega

/-- the image a session starts with: the last twelve bytes repeat the first -/
def Mirrored (image : Nat → UInt8) : Prop := ∀ i, i < 12 → image (64 + i) = image i

theorem boot_mirrored : Mirrored Card.boot.image := by
  unfold Mirrored
  decide

/-- what holds of the card `c` and its next frame `f` when the tag started with the image `start`
and its reader has seen `os` -/
structure UlLaw (start : Nat → UInt8) (os : List Seen) (c : Card) (f : UlFrame) : Prop where
  fixed : ∀ i, i < 12 → c.image i = start i ∧ c.image (64 + i) = start i
  otp : ∀ k, k < 4 → c.image (12 + k) = otpOr (start (12 + k)) k (ackedWrites none os)
  monotone : ∀ k, k < 4 →
    (c.image (12 + k) ||| (ulStep c f).image (12 + k)) = (ulStep c f).image (12 + k)
  pages : ∀ p k, 4 ≤ p → p ≤ 15 → k < 4 → c.image (4 * p + k)
    = ((lastWrite (ackedWrites none os) p).map fun w => w.byte k).getD (start (4 * p + k))
  refused : (ulExchange c f).bits = 0 ∨ (ulExchange c f).answer = [mifNak] →
    (ulStep c f).image = c.image
  read : ∀ p : UInt8, f.state.active → f.bytes = [cmdUlRead, p] → p ≤ 15 → awaited none os = none →
    (ulExchange c f).answer = (List.range 16).map fun k => c.image ((4 * p.toNat + k) % 64)
  /-- a READ that directly follows an acknowledged first phase is taken as the second one -/
  awaiting : ∀ p : UInt8, f.state.active → f.bytes = [cmdUlRead, p] → awaited none os ≠ none →
    (ulExchange c f).bits = 4 ∧ (ulExchange c f).answer = [mifNak] ∧
      (ulStep c f).image = c.image

/-- **The memory law of the Ultralight tag**, after any frames of a session and for any next one. -/
theorem ultralight_law (c : Card) (hm : Mirrored c.image) (h0 : c.ulCwritePageSet = 0)
    (frames : List UlFrame) (f : UlFrame) :
    UlLaw c.image (history c frames) (run ulStep c frames) f := by
  have hnone : Awaits c none := h0
  obtain ⟨haw, himg, hval⟩ := history_refines frames hnone
  have hnext := concluded (f := f) haw
  have hfix : ∀ i, i < 12 ∨ 64 ≤ i → (run ulStep c frames).image i = c.image i := by
    intro i hi
    rw [himg, run_write_fixed _ _ hval hi]
  have hmirror : ∀ i, i < 12 → (run ulStep c frames).image (64 + i)
      = (run ulStep c frames).image i := by
    intro i hi
    rw [hfix _ (Or.inr (by omega)), hfix i (Or.inl hi), hm i hi]
  refine ⟨?_, ?_, ?_, ?_, ?_, ?_, ?_⟩
  · intro i hi
    rw [hmirror i hi]
    exact ⟨hfix i (Or.inl hi), hfix i (Or.inl hi)⟩
  · intro k hk
    rw [himg, run_write_otp _ _ hk]
  · intro k hk
    have hi : (ulStep (run ulStep c frames) f).image = _ := hnext.image
    rw [hi, run_write_otp _ _ hk]
    exact or_otpOr ..
  · intro p k h4 _ hk
    rw [himg, run_write_page _ _ h4 hk]
  · intro hno
    have hna : ¬ (ulExchange (run ulStep c frames) f).Acked := by
      intro hack
      rcases hno with hb | hn
      · exact absurd (hb.symm.trans hack.1) (by decide)
      · exact absurd (hn.symm.trans hack.2) (by decide)
    have hseen : (seen (run ulStep c frames) f).acked = false := decide_eq_false hna
    have hi := hnext.image
    rw [watch_unacked _ hseen] at hi
    exact hi
  · intro p ha hf hp hnone
    rw [hnone] at haw
    rw [answer_ulRead ha haw hf hp]
    refine List.map_congr_left fun k hk => ?_
    have hk' : k < 16 := List.mem_range.mp hk
    have hp' : p.toNat ≤ 15 := hp
    rcases Nat.lt_or_ge (4 * p.toNat + k) 64 with hlt | hge
    · rw [Nat.mod_eq_of_lt hlt]
    · obtain ⟨j, hj⟩ := Nat.exists_eq_add_of_le hge
      rw [hj, hmirror j (by omega), Nat.add_mod_left, Nat.mod_eq_of_lt (by omega)]
  · intro p ha hf hsome
    obtain ⟨q, hq⟩ := Option.ne_none_iff_exists'.mp hsome
    rw [hq] at haw
    exact answer_awaited ha haw.1 hf

/-- a READ after the first phase of a COMPATIBILITY WRITE is taken as its second phase -/
theorem read_after_first_phase :
    (ulExchange (ulStep Card.boot ⟨.activeA, [0xA0, 0x04]⟩) ⟨.activeA, [0x30, 0x00]⟩).answer
        = [mifNak] ∧
      ¬ ∀ (c : Card) (frames : List UlFrame) (f : UlFrame) (p : UInt8), Mirrored c.image →
        c.ulCwritePageSet = 0 → f.state.active → f.bytes = [cmdUlRead, p] → p ≤ 15 →
        (ulExchange (run ulStep c frames) f).answer
          = (List.range 16).map fun k => (run ulStep c frames).image ((4 * p.toNat + k) % 64) := by
  have hnak : (ulExchange (ulStep Card.boot ⟨.activeA, [0xA0, 0x04]⟩)
      ⟨.activeA, [0x30, 0x00]⟩).answer = [mifNak] := by decide
  refine ⟨hnak, fun hall => ?_⟩
  have h := hall Card.boot [⟨.activeA, [0xA0, 0x04]⟩] ⟨.activeA, [0x30, 0x00]⟩ 0 boot_mirrored rfl
    trivial rfl (by decide)
  have hlen := congrArg List.length (hnak.symm.trans h)
  exact absurd hlen (by simp)

/-- a write to page 4 and a READ that rolls over -/
theorem ultralight_law_write : UlLaw Card.boot.image
    (history Card.boot [⟨.activeA, [0xA2, 0x04, 1, 2, 3, 4]⟩])
    (run ulStep Card.boot [⟨.activeA, [0xA2, 0x04, 1, 2, 3, 4]⟩]) ⟨.activeAx, [0x30, 0x0F]⟩ :=
  ultralight_law Card.boot boot_mirrored rfl [⟨.activeA, [0xA2, 0x04, 1, 2, 3, 4]⟩]
    ⟨.activeAx, [0x30, 0x0F]⟩

end Hydra
