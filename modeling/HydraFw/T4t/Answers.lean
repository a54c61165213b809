import HydraFw.T4t.Exchange

/-!
# What the reader is answered

One lemma for each way of an exchange.  The response is written over the command, and `ceSetTx`
takes as many bytes as the returned bit count says; `answer_read` is the one case with data.

* `Rsp.status`        the last two bytes of a response;
* `answer_select`, `answer_unsupported`, `answer_read_none`, `answer_read`,
  `answer_update_none`, `answer_update_long`, `answer_update`.
-/

namespace Hydra
open Rams

/-- the status word at the end of the response -/
def Rsp.status (r : Rsp) : List UInt8 := r.answer.drop (r.answer.length - 2)

theorem Rsp.status_eq {r : Rsp} (data : List UInt8) {a b : UInt8}
    (h : r.answer = data ++ [a, b]) : r.status = [a, b] := by
  unfold Rsp.status
  rw [h, List.length_append]
  exact List.drop_left' (by simp)

/-! ## the bytes taken from the frame buffer -/

theorem slice_put2_zero (r : Mem) (o : Obj) (a b : UInt8) :
    slice ((put2 r o 0 a b).mem o) 0 2 = [a, b] := by
  show [(put2 r o 0 a b).mem o 0, (put2 r o 0 a b).mem o 1] = [a, b]
  rw [put2_cell, put2_cell]
  rfl

theorem slice_copy_put2 (r : Mem) (d s : Obj) (off n : Nat) (a b : UInt8) :
    slice ((put2 (r.copy d 0 s off n) d n a b).mem d) 0 (n + 2)
      = slice (r.mem s) off n ++ [a, b] := by
  rw [slice_append]
  congr 1
  · refine slice_congr fun k hk => ?_
    rw [put2_cell, if_neg (by omega), if_neg (by omega), Ram.copy_cell, if_pos (by omega)]
    simp
  · show [(put2 _ d n a b).mem d (0 + n), (put2 _ d n a b).mem d (0 + n + 1)] = _
    rw [put2_cell, put2_cell, Nat.zero_add, if_neg (by omega), if_pos rfl, if_pos rfl]

/-- a response that is a status word only -/
theorem answer_put2 {card : Card} {r : Mem} {a b : UInt8} (reset : Bool)
    (h : card.ram = put2 r .rxtxFrameBuf 0 a b) : (Rsp.mk card 16 reset).answer = [a, b] := by
  unfold Rsp.answer
  rw [h, show rfalConvBitsToBytes 16 = 2 by decide]
  exact slice_put2_zero ..

section
variable {c : Card} {apdu : List UInt8} {off le lc : Nat} {f : Obj}

theorem answer_select (h : decode (c.frame apdu) = .select) :
    (exchange c apdu).answer =
      if (selectFile (c.frame apdu) c.nState c.nSelectedIdx).2.2 then [0x90, 0x00]
      else [0x6A, 0x82] := by
  rw [exchange_select h]
  rw [answer_put2 _ rfl]
  split_ifs <;> rfl

theorem answer_read_none (h : decode (c.frame apdu) = .read off le) (hf : selectedObj c = none) :
    (exchange c apdu).answer = [0x6A, 0x82] := by
  rw [exchange_read_none h hf]
  exact answer_put2 _ rfl

theorem answer_update_none (h : decode (c.frame apdu) = .update off lc)
    (hf : c.nSelectedIdx ≠ 1) : (exchange c apdu).answer = [0x6A, 0x82] := by
  rw [exchange_update_none h hf]
  exact answer_put2 _ rfl

theorem answer_update_long (h : decode (c.frame apdu) = .update off lc)
    (hf : c.nSelectedIdx = 1) (hl : ndefSize < off + lc) :
    (exchange c apdu).answer = [0x62, 0x82] := by
  rw [exchange_update_long h hf hl]
  exact answer_put2 _ rfl

theorem answer_update (h : decode (c.frame apdu) = .update off lc)
    (hf : c.nSelectedIdx = 1) (hl : off + lc ≤ ndefSize) :
    (exchange c apdu).answer = [0x90, 0x00] := by
  rw [exchange_update h hf hl]
  exact answer_put2 _ rfl

/-- the file's bytes and 90 00, as long as the bit count fits sixteen bits -/
theorem answer_read (h : decode (c.frame apdu) = .read off le) (hf : selectedObj c = some f)
    (hne : f ≠ .rxtxFrameBuf) (hn : clipped c.nSelectedIdx off le + 2 < 8192) :
    (exchange c apdu).answer
      = slice (c.ram.mem f) off (clipped c.nSelectedIdx off le) ++ [0x90, 0x00] := by
  rw [exchange_read h hf]
  show slice _ 0 (rfalConvBitsToBytes (8 * ((clipped c.nSelectedIdx off le + 2) % 2 ^ 16) % 2 ^ 16))
    = _
  rw [Nat.mod_eq_of_lt (show clipped c.nSelectedIdx off le + 2 < 2 ^ 16 by omega),
    Nat.mod_eq_of_lt (by omega), rfalConvBitsToBytes_mul _ (by omega)]
  refine (slice_copy_put2 ..).trans ?_
  rw [Ram.rd_mem, dispatched_mem_ne f hne]

end

end Hydra
