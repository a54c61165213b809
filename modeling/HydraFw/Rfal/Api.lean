import Mathlib.Algebra.Order.Ring.Nat
import Mathlib.Algebra.Order.Ring.Int
import Mathlib.Data.List.Basic
import Mathlib.Data.List.Range

/-!
# What the card emulators see of RFAL

The radio library answers with a status, a listen-mode state and, from time to time, a frame.

* `ReturnCode`   the statuses the emulators compare with, and all others;
* `LmState`      the listen-mode states of `rfalListenGetState`;
* `Reception`    a frame RFAL has put into `rxBuf_ce`, with the length it reports;
* `rfalConvBitsToBytes`, `rfalIsoDepIsRats`, `rfalNfcaListenerIsSleepReq`   its pure helpers.
-/

namespace Hydra

inductive ReturnCode where
  | errNone
  | errBusy
  | errAgain
  | errNotfound
  | errSleepReq
  | errLinkLoss
  /-- any code the emulators do not name -/
  | other (n : Nat)
  deriving DecidableEq

inductive LmState where
  | notInit
  | powerOff
  | idle
  | readyA
  | readyB
  | readyF
  | activeA
  | cardemu4A
  | cardemu4B
  | cardemu3
  | targetA
  | targetF
  | sleepA
  | sleepB
  | readyAx
  | activeAx
  | sleepAF
  deriving DecidableEq

/-- `RX_BUF_LENGTH` -/
def rxBufLength : Nat := 256 + 3

/-- `TX_BUF_LENGTH` -/
def txBufLength : Nat := 256 + 3

/-- bytes before the INF field of a `rfalIsoDepBufFormat` -/
def prologueSize : Nat := 3

/-- `(uint16_t)(((uint16_t)n + 7) / 8)` -/
def rfalConvBitsToBytes (n : Nat) : Nat := (n % 65536 + 7) / 8

def rfalConvBytesToBits (n : Nat) : Nat := 8 * n

/-- A frame in `rxBuf_ce`.  RFAL was given the buffer with a length of `rxBufLength` bytes and
neither stores nor reports more; `len` counts bits at layer 3 and bytes at layer 4. -/
structure Reception where
  len : Nat
  bytes : List UInt8
  len_le : len ≤ rfalConvBytesToBits rxBufLength
  bytes_le : bytes.length ≤ rxBufLength
  deriving DecidableEq

/-- `rfalIsoDepIsRats`: the length parameter has eight bits -/
def rfalIsoDepIsRats (buf : Nat → UInt8) (bufLen : Nat) : Bool :=
  buf 0 = 0xE0 ∧ bufLen % 256 = 2

def rfalNfcaListenerIsSleepReq (buf : Nat → UInt8) (bufLen : Nat) : Bool :=
  bufLen = 2 ∧ buf 0 = 0x50 ∧ buf 1 = 0x00

/-- whole bytes survive the two conversions as long as the bits fit sixteen bits -/
theorem rfalConvBitsToBytes_mul (k : Nat) (hk : 8 * k < 65536) :
    rfalConvBitsToBytes (8 * k) = k := by
  unfold rfalConvBitsToBytes
  omega

end Hydra
