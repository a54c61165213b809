import Mathlib.Algebra.Order.Ring.Nat
import Mathlib.Data.List.Basic

/-!
# The pins of the JTAG mode

The configuration of `hydrabus_mode_jtag.c` and its checks.

* `JtagConfig`                     `jtag_config_t`, and its default `initProtoDefault`;
* `jtagPinValid`, `jtagPinInit`    the check of the pins, and what it leaves of them;
* `jtagPinValid_iff`               pins are valid when no two used ones are the same.
-/

namespace Hydra
namespace Jtag

inductive GpioMode where
  | input | outPushpull | outOpendrain
  deriving DecidableEq

inductive GpioPull where
  | noPull | pullUp | pullDown
  deriving DecidableEq

/-- `DEV_FIRSTBIT_MSB` -/
def firstbitMsb : UInt8 := 1

/-- `DEV_FIRSTBIT_LSB` -/
def firstbitLsb : UInt8 := 2

structure JtagConfig where
  devGpioMode : GpioMode
  devGpioPull : GpioPull
  devBitLsbMsb : UInt8
  divider : UInt8
  tdiPin : UInt8
  tdoPin : UInt8
  tmsPin : UInt8
  tckPin : UInt8
  trstPin : UInt8
  deriving DecidableEq

/-- `init_proto_default` -/
def initProtoDefault : JtagConfig where
  devGpioMode := .outPushpull
  devGpioPull := .pullUp
  devBitLsbMsb := firstbitLsb
  divider := 1
  tdiPin := 8
  tdoPin := 9
  tmsPin := 10
  tckPin := 11
  trstPin := 7

/-- the number of a pin that is not used -/
def unused : UInt8 := 12

def jtagPinValid (c : JtagConfig) : Bool :=
  if c.tckPin ≠ unused ∧ (c.tckPin = c.tmsPin ∨ c.tckPin = c.tdiPin ∨ c.tckPin = c.tdoPin ∨
    c.tckPin = c.trstPin) then false
  else if c.tmsPin ≠ unused ∧ (c.tmsPin = c.tdiPin ∨ c.tmsPin = c.tdoPin ∨
    c.tmsPin = c.trstPin) then false
  else if c.tdiPin ≠ unused ∧ (c.tdiPin = c.tdoPin ∨ c.tdiPin = c.trstPin) then false
  else if c.tdoPin ≠ unused ∧ c.tdoPin = c.trstPin then false
  else true

/-- the configuration behind it -/
def jtagPinInit (c : JtagConfig) : JtagConfig := if jtagPinValid c then c else initProtoDefault

def JtagConfig.pins (c : JtagConfig) : List UInt8 :=
  [c.tckPin, c.tmsPin, c.tdiPin, c.tdoPin, c.trstPin]

theorem jtagPinValid_iff (c : JtagConfig) :
    jtagPinValid c = true ↔ c.pins.Pairwise fun a b => a = b → a = unused := by
  simp only [JtagConfig.pins, List.pairwise_cons, List.mem_cons, List.not_mem_nil, or_false,
    forall_eq_or_imp, forall_eq, List.Pairwise.nil, false_imp_iff, implies_true, and_true]
  unfold jtagPinValid
  split_ifs with h1 h2 h3 h4
  · grind
  · grind
  · grind
  · grind
  · simp only [true_iff]
    grind

end Jtag
end Hydra
