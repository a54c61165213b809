import HydraFw.Ce.Session
import HydraFw.Ce.Steps
import HydraFw.Bbio.Exchange

/-!
# The frame that `ceGetRx` copies

Both engines copy `rxRcvdLen` bytes from `rxBuf_ce`.  At layer 4 that is the length of the frame;
at layer 3 it is its length in bits.

* `HandsOff`       exactly the frame is copied, inside both buffers, and its length reported;
* `Ce.asked`       the state in which the copy is made, in each engine;
* `handOff_iff`    the frames for which `ceGetRx` does so.
-/

namespace Hydra
open Rams

/-- `bytes` bytes, and no others, are copied to the start of `rxtxFrameBuf`, inside both buffers,
and `*txSize` is their number -/
structure HandsOff (before after : Mem) (off bytes txSize : Nat) : Prop where
  copied : after = before.copy .rxtxFrameBuf 0 .rxBufCe off bytes
  reported : txSize = bytes
  reads : (Access.mk .rd Obj.rxBufCe off bytes).Inside objSize
  writes : (Access.mk .wr Obj.rxtxFrameBuf 0 bytes).Inside objSize

/-- the state of the copy: RFAL is asked for its status unless this is the first layer-3 frame -/
def Ce.asked (ce : Ce) (a : Answers) : Ce :=
  if ce.isActivatedA = false ∧ ce.isFirstA3_Frame = true then ce else ce.recv a.getRx.rx

def Bbio.Ce.asked (ce : Bbio.Ce) (a : Bbio.Answers) : Bbio.Ce :=
  if ce.isActivatedA = true then ce.recv a.getRx.rx else ce

/-- the bytes of a frame: `rxRcvdLen` counts bytes at layer 4 and bits at layer 3 -/
def frameBytes (activated : Bool) (rxRcvdLen : Nat) : Nat :=
  if activated then rxRcvdLen else (rxRcvdLen + 7) / 8

/-- the place of a frame in `rxBuf_ce` -/
def frameOff (activated rawMode : Bool) : Nat :=
  if activated = true ∧ rawMode = false then prologueSize else 0

/-- the frames that are handed off as they are -/
def Fits (activated rawMode : Bool) (rxRcvdLen : Nat) : Prop :=
  if activated then frameOff true rawMode + rxRcvdLen ≤ rxBufLength else rxRcvdLen ≤ 1

instance (activated rawMode : Bool) (n : Nat) : Decidable (Fits activated rawMode n) := by
  unfold Fits
  infer_instance

section
variable (before : Mem) (off n : Nat)

/-- two copies of different lengths are different -/
theorem copy_length_inj {m : Nat}
    (h : before.copy .rxtxFrameBuf 0 .rxBufCe off n = before.copy .rxtxFrameBuf 0 .rxBufCe off m) :
    n = m := by
  have ht := congrArg Ram.trace h
  rw [Ram.copy_trace, Ram.copy_trace] at ht
  have hl := List.append_cancel_left ht
  injection hl with h1 _
  injection h1

theorem handsOff_layer4 (rawMode : Bool) :
    HandsOff before (before.copy .rxtxFrameBuf 0 .rxBufCe (frameOff true rawMode) n)
      (frameOff true rawMode) n n ↔ frameOff true rawMode + n ≤ rxBufLength := by
  constructor
  · rintro ⟨-, -, hr | hr, -⟩
    · replace hr : n = 0 := hr
      subst hr
      cases rawMode <;> decide
    · exact hr
  · intro h
    refine ⟨rfl, rfl, Or.inr h, Or.inr ?_⟩
    show 0 + n ≤ 512
    unfold rxBufLength at h
    omega

/-- at layer 3 the length in bits is copied: right for no bit and for one -/
theorem handsOff_layer3 :
    HandsOff before (before.copy .rxtxFrameBuf 0 .rxBufCe 0 n) 0 ((n + 7) / 8)
      (rfalConvBitsToBytes n) ↔ n ≤ 1 := by
  constructor
  · intro h
    have := copy_length_inj before 0 n h.copied
    omega
  · intro h
    have hb : (n + 7) / 8 = n := by omega
    have hc : rfalConvBitsToBytes n = n := by
      unfold rfalConvBitsToBytes
      omega
    rw [hb, hc]
    refine ⟨rfl, rfl, Or.inr ?_, Or.inr ?_⟩
    · show 0 + n ≤ rxBufLength
      unfold rxBufLength
      omega
    · show 0 + n ≤ 512
      omega

end

theorem handOff_console (ce : Ce) (a : Answers) {g : Got} (hg : GotA ce a g)
    (he : g.err = .errNone) :
    HandsOff (ce.asked a).ram g.ce.ram (frameOff ce.isActivatedA false)
        (frameBytes ce.isActivatedA (ce.asked a).rxRcvdLen) g.txSize ↔
      Fits ce.isActivatedA false (ce.asked a).rxRcvdLen := by
  cases hg with
  | waiting err n hne => exact absurd he hne
  | idle => exact ReturnCode.noConfusion he
  | loss3 err n hne => exact absurd he hne
  | loss4 err n hne => exact absurd he hne
  | layer4 ha =>
    have hask : ce.asked a = ce.recv a.getRx.rx := if_neg (by rw [ha]; simp)
    rw [hask, ha]
    exact handsOff_layer4 _ _ false
  | first ha hf =>
    have hask : ce.asked a = ce := if_pos ⟨ha, hf⟩
    rw [hask, ha]
    exact handsOff_layer3 _ _
  | later ha hf =>
    have hask : ce.asked a = ce.recv a.getRx.rx := if_neg (by rw [hf]; simp)
    rw [hask, ha]
    exact handsOff_layer3 _ _

theorem handOff_bbio (ce : Bbio.Ce) (a : Bbio.Answers) (n : Nat)
    (he : (Bbio.ceGetRx .getRxA ce a n).err = .errNone) :
    HandsOff (ce.asked a).ram (Bbio.ceGetRx .getRxA ce a n).ce.ram
        (frameOff ce.isActivatedA ce.rawMode)
        (frameBytes ce.isActivatedA (ce.asked a).rxRcvdLen) (Bbio.ceGetRx .getRxA ce a n).txSize ↔
      Fits ce.isActivatedA ce.rawMode (ce.asked a).rxRcvdLen := by
  have hraw : ∀ f, (Bbio.Ce.recv ce f).rawMode = ce.rawMode := by
    intro f
    cases f <;> rfl
  by_cases ha : ce.isActivatedA = true
  · have hask : ce.asked a = ce.recv a.getRx.rx := if_pos ha
    rw [hask, ha]
    unfold Bbio.ceGetRx Bbio.ceGetRxActivated at he ⊢
    simp only [ha, if_true] at he ⊢
    cases hs : a.getRx.status with
    | errNone =>
      have hoff : (if (ce.recv a.getRx.rx).rawMode = true then 0 else prologueSize)
          = frameOff true ce.rawMode := by
        rw [hraw]
        unfold frameOff
        cases ce.rawMode <;> rfl
      simp only [hoff]
      exact handsOff_layer4 _ _ _
    | _ =>
      rw [hs] at he
      exact ReturnCode.noConfusion he
  · have ha' : ce.isActivatedA = false := Bool.eq_false_iff.mpr ha
    have hask : ce.asked a = ce := if_neg ha
    rw [hask, ha']
    unfold Bbio.ceGetRx at he ⊢
    simp only [if_neg ha] at he ⊢
    by_cases hf : ce.isFirstA3_Frame = true
    · simp only [if_pos hf] at he ⊢
      by_cases hr : ce.rxReady = true
      · simp only [if_pos hr]
        exact handsOff_layer3 _ _
      · simp only [if_neg hr] at he
        exact ReturnCode.noConfusion he
    · simp only [if_neg hf] at he
      exact ReturnCode.noConfusion he

/-- **The hand-off of a received frame** is exact, in both engines, for the layer-4 frames that fit
into `rxBuf_ce` and for the layer-3 frames of at most one bit. -/
theorem handOff_iff (ce : Ce) (a : Answers) (bce : Bbio.Ce) (ba : Bbio.Answers) (n : Nat) :
    ((ceGetRx .getRxA ce a n).err = .errNone →
      (HandsOff (ce.asked a).ram (ceGetRx .getRxA ce a n).ce.ram (frameOff ce.isActivatedA false)
          (frameBytes ce.isActivatedA (ce.asked a).rxRcvdLen) (ceGetRx .getRxA ce a n).txSize ↔
        Fits ce.isActivatedA false (ce.asked a).rxRcvdLen)) ∧
    ((Bbio.ceGetRx .getRxA bce ba n).err = .errNone →
      (HandsOff (bce.asked ba).ram (Bbio.ceGetRx .getRxA bce ba n).ce.ram
          (frameOff bce.isActivatedA bce.rawMode)
          (frameBytes bce.isActivatedA (bce.asked ba).rxRcvdLen)
          (Bbio.ceGetRx .getRxA bce ba n).txSize ↔
        Fits bce.isActivatedA bce.rawMode (bce.asked ba).rxRcvdLen)) := by
  constructor
  · intro he
    exact handOff_console ce a (gotA n) he
  · intro he
    exact handOff_bbio bce ba n he

def activatedConsole : Ce :=
  { hydranfcCeCommon Ce.boot ultralight [] with isActivatedA := true }

def answersBlockOfTwo : Answers := { Answers.quiet with getRx := ⟨.errNone, some blockOfTwo⟩ }

def activatedBbio : Bbio.Ce :=
  { Bbio.startEmulation Bbio.Ce.boot false with isActivatedA := true }

/-- two INF bytes at layer 4, in both engines -/
theorem handOff_iff_block :
    HandsOff (activatedConsole.asked answersBlockOfTwo).ram
        (ceGetRx .getRxA activatedConsole answersBlockOfTwo 512).ce.ram 3 2 2 ∧
      HandsOff (activatedBbio.asked Bbio.answersBlock).ram
        (Bbio.ceGetRx .getRxA activatedBbio Bbio.answersBlock 512).ce.ram 3 2 2 :=
  have h := handOff_iff activatedConsole answersBlockOfTwo activatedBbio Bbio.answersBlock 512
  ⟨(h.1 (by decide +kernel)).mpr (by decide +kernel),
    (h.2 (by decide +kernel)).mpr (by decide +kernel)⟩

/-- a frame of 259 bytes at layer 3, the longest that RFAL may deliver -/
def answersLongest : Answers :=
  .layer3 .activeA (.ofBytes (List.replicate 259 0x30) List.length_replicate.le)

/-- the engine as it calls `ceGetRx` -/
def Ce.handled (ce : Ce) (a : Answers) : Ce := ceHandler (ce.woken a) a

/-- 2072 bytes are read from the 259 of `rxBuf_ce` and written to the 512 of `rxtxFrameBuf` -/
theorem bits_copied_as_bytes :
    (ceGetRx .getRxA ((hydranfcCeCommon Ce.boot ultralight []).handled answersLongest) answersLongest
        512).ce.ram.trace = [⟨.rd, .rxBufCe, 0, 2072⟩, ⟨.wr, .rxtxFrameBuf, 0, 2072⟩] ∧
      ¬ ∀ (ce : Ce) (u : UserTagProperties) (message : List UInt8) (a : Answers),
        (ceGetRx .getRxA ((hydranfcCeCommon ce u message).handled a) a 512).err = .errNone →
        HandsOff (((hydranfcCeCommon ce u message).handled a).asked a).ram
          (ceGetRx .getRxA ((hydranfcCeCommon ce u message).handled a) a 512).ce.ram
          (frameOff ((hydranfcCeCommon ce u message).handled a).isActivatedA false)
          (frameBytes ((hydranfcCeCommon ce u message).handled a).isActivatedA
            (((hydranfcCeCommon ce u message).handled a).asked a).rxRcvdLen)
          (ceGetRx .getRxA ((hydranfcCeCommon ce u message).handled a) a 512).txSize := by
  have ht : (ceGetRx .getRxA ((hydranfcCeCommon Ce.boot ultralight []).handled answersLongest)
      answersLongest 512).ce.ram.trace
        = [⟨.rd, .rxBufCe, 0, 2072⟩, ⟨.wr, .rxtxFrameBuf, 0, 2072⟩] := by decide +kernel
  refine ⟨ht, fun hall => ?_⟩
  have he : (ceGetRx .getRxA ((hydranfcCeCommon Ce.boot ultralight []).handled answersLongest)
      answersLongest 512).err = .errNone := by decide +kernel
  have h := hall Ce.boot ultralight [] answersLongest he
  have hiff := handOff_console ((hydranfcCeCommon Ce.boot ultralight []).handled answersLongest)
    answersLongest (gotA 512) he
  rw [hiff] at h
  revert h
  decide +kernel

end Hydra
