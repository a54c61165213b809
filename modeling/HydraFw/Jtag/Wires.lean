import HydraFw.Jtag.Scan

/-!
# The pin functions of the JTAG mode

`jtag_send_bit`, `jtag_read_bit_clock` and `jtag_reset_state` (`hydrabus_mode_jtag.c`) over any
target.

* `Wires`          the pins of a target;
* `Wires.sendBit`, `Wires.readBitClock`, `Wires.resetState`   the functions;
* `probe`          the target of `Jtag.Scan`;
* `Hom`            a view of one target as another, which the functions respect.
-/

namespace Hydra
namespace Jtag

/-- the outputs are driven, and TDO is read -/
structure Wires (σ : Type) where
  tms : Bool → σ → σ
  tdi : Bool → σ → σ
  tck : Bool → σ → σ
  tdo : σ → Bool

namespace Wires
variable {σ : Type} (w : Wires σ)

def clock (s : σ) : σ := w.tck false (w.tck true s)

def sendBit (s : σ) (tdi : UInt8) : σ :=
  let s := w.tms (tdi &&& tmsFlag ≠ 0) s
  let s := w.tdi (tdi &&& 1 ≠ 0) s
  w.clock s

/-- the bit is read while TCK is high -/
def readBitClock (s : σ) : Bool × σ :=
  let s := w.tck true s
  (w.tdo s, w.tck false s)

def resetState (s : σ) : σ := w.tms false ((fun s => w.sendBit s (0 ||| tmsFlag))^[7] s)

end Wires

def probe : Wires Probe where
  tms b p := if b then jtagTmsHigh p else jtagTmsLow p
  tdi b p := if b then jtagTdiHigh p else jtagTdiLow p
  tck b p := if b then jtagClkHigh p else jtagClkLow p
  tdo := jtagReadBit

theorem probe_sendBit (p : Probe) (tdi : UInt8) : probe.sendBit p tdi = jtagSendBit p tdi := by
  unfold Wires.sendBit jtagSendBit
  simp only [probe, Wires.clock, decide_eq_true_eq]
  rfl

theorem probe_readBitClock (p : Probe) : probe.readBitClock p = jtagReadBitClock p := rfl

theorem probe_resetState (p : Probe) : probe.resetState p = jtagResetState p := by
  unfold Wires.resetState jtagResetState
  simp only [probe_sendBit]
  rfl

/-! ## views -/

/-- `w` on `s` is `w'` on the view of `s` -/
structure Hom {σ τ : Type} (w : Wires σ) (w' : Wires τ) (view : σ → τ) : Prop where
  tms : ∀ b s, view (w.tms b s) = w'.tms b (view s)
  tdi : ∀ b s, view (w.tdi b s) = w'.tdi b (view s)
  tck : ∀ b s, view (w.tck b s) = w'.tck b (view s)
  tdo : ∀ s, w.tdo s = w'.tdo (view s)

namespace Hom
variable {σ τ : Type} {w : Wires σ} {w' : Wires τ} {view : σ → τ}

theorem sendBit (h : Hom w w' view) (s : σ) (tdi : UInt8) :
    view (w.sendBit s tdi) = w'.sendBit (view s) tdi := by
  unfold Wires.sendBit Wires.clock
  rw [h.tck, h.tck, h.tdi, h.tms]

theorem readBitClock (h : Hom w w' view) (s : σ) :
    (w.readBitClock s).1 = (w'.readBitClock (view s)).1 ∧
      view (w.readBitClock s).2 = (w'.readBitClock (view s)).2 := by
  unfold Wires.readBitClock
  dsimp only
  rw [h.tck, h.tdo, h.tck]
  exact ⟨rfl, rfl⟩

theorem sendBits (h : Hom w w' view) (s : σ) (tdi : UInt8) (k : Nat) :
    view ((fun s => w.sendBit s tdi)^[k] s) = (fun s => w'.sendBit s tdi)^[k] (view s) := by
  induction k with
  | zero => rfl
  | succ k ih => rw [Function.iterate_succ_apply', Function.iterate_succ_apply', h.sendBit, ih]

theorem resetState (h : Hom w w' view) (s : σ) :
    view (w.resetState s) = w'.resetState (view s) := by
  unfold Wires.resetState
  rw [h.tms, h.sendBits]

end Hom

end Jtag
end Hydra
