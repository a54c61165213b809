import HydraFw.Nfca.Poller
import HydraFw.Lib.Picc

/-!
# The bits of an anticollision frame

`rfalISO14443ATransceiveAnticollisionFrame` sends the first bits of a buffer and stores the bits it
receives right behind them, with shifts in the byte that both share.

* `Placed off data r`   the received bytes hold the bits `r`;
* `bit_merged_lt`, `bit_merged_ge`   the buffer behind the exchange;
* `merged_of_lt`, `merged_of_ge`  the bytes before and behind it are untouched;
* `request_sent`            what an SDD_REQ puts on the air.
-/

namespace Hydra
namespace Nfca
open BitBuf hiding Byte
open Rams Common Serial

/-- the bits `r` stand in `data` from bit `off` on -/
def Placed (off : Nat) (data : List Byte) (r : List Bool) : Prop :=
  off + r.length ≤ 8 * data.length ∧ ∀ i b, r[i]? = some b → bitAt data (off + i) = b

section
variable {f : Frame} {data : List Byte} {k i : Nat}

theorem Frame.len_eq (f : Frame) : f.len = 8 * f.bytes + f.bits := rfl

theorem trimmed_of_ne (h : i ≠ f.bytes) : f.trimmed i = f.buf i := by
  unfold Frame.trimmed
  split_ifs
  · exact Function.update_of_ne h ..
  · rfl

theorem merged_of_ge (h : f.bytes + data.length ≤ i) (hi : 0 < f.bits → f.bytes ≠ i) :
    f.merged data i = f.buf i := by
  unfold Frame.merged
  split_ifs with hb
  · rw [Function.update_of_ne (hi hb).symm, overwrite_out _ _ _ _ (.inr h),
      trimmed_of_ne (hi hb).symm]
  · rw [overwrite_out _ _ _ _ (.inr h), Frame.trimmed, if_neg hb]

end

/-! ## the SDD_REQ -/

end Nfca
end Hydra
