import HydraFw.Lib.Rams
import HydraFw.Lib.Digits
import HydraFw.Can.Slcan

/-!
# SLCAN round trip

`can_slcan_out` (`hydrabus_mode_can.c`) prints a frame that has been received; `can_slcan_in` scans
the text of a frame to be sent.

* `RxMsg`          a frame as the controller receives it;
* `canSlcanOut`    its text, printed into a buffer of 27 characters piece by piece;
* `RoundTrips`     the law: the text fits, and scanning it gives the frame again;
* `Holds`          the text that is in the buffer so far;
* `roundTrips`     the law holds for every frame.
-/

namespace Hydra
namespace Slcan
open Rams Scanf

/-- `can_rx_frame`, with what lies behind `data`: identifiers have 11 or 29 bits, only the one that
`IDE` tells is set, and a DLC is at most 8 -/
structure RxMsg where
  stdId : BitVec 32
  extId : BitVec 32
  ide : Bool
  rtr : Bool
  dlc : BitVec 32
  data : Nat → Byte
  stdId_le : ide = false → stdId.toNat ≤ 0x7ff
  extId_le : ide = true → extId.toNat ≤ 0x1fffffff
  dlc_le : dlc.toNat ≤ 8

/-- `slcanmsg` -/
def slcanmsgLen : Nat := 27

/-- the text of a conversion at `slcanmsg + offset`, as much of it as `size` allows, and a NUL -/
def snprintf (r : Ram Unit Byte) (offset size : Nat) (text : List Byte) : Ram Unit Byte :=
  r.put () offset (text.take (size - 1) ++ [0])

def RxMsg.outcode (msg : RxMsg) : Byte :=
  let outcode : Byte := if msg.rtr then 0x72 else 0x74
  if msg.ide then outcode - 32 else outcode

/-- `"%c%08X%d"` or `"%c%03X%d"` -/
def RxMsg.header (msg : RxMsg) : List Byte :=
  msg.outcode ::
    ((if msg.ide then Base.hex.print 8 msg.extId.toNat else Base.hex.print 3 msg.stdId.toNat) ++
      Base.decimal.print 1 msg.dlc.toNat)

/-- the loop over `n` data bytes from `i` on -/
def outData (msg : RxMsg) : Nat → Nat → Nat → Ram Unit Byte → Ram Unit Byte
  | 0, _, _, r => r
  | n + 1, i, offset, r =>
    outData msg n (i + 1) (offset + 2) (snprintf r offset 3 (Base.hex.print 2 (msg.data i).toNat))

/-- the buffer, and the stores that have been made -/
def slcanmsg (msg : RxMsg) : Ram Unit Byte :=
  outData msg msg.dlc.toNat 0 msg.header.length
    (snprintf ⟨fun _ _ => 0, []⟩ 0 slcanmsgLen msg.header)

/-- the string in the buffer -/
def text (msg : RxMsg) : List Byte := string (slice ((slcanmsg msg).mem ()) 0 slcanmsgLen)

/-- what is printed, with `"%s\r"` -/
def canSlcanOut (msg : RxMsg) : List Byte := text msg ++ [cr]

/-! ## the law -/

def RxMsg.id (msg : RxMsg) : BitVec 32 := if msg.ide then msg.extId else msg.stdId

def RxMsg.frame (msg : RxMsg) : Frame where
  ext := msg.ide
  rtr := msg.rtr
  id := msg.id
  dlc := msg.dlc
  data := (List.range msg.dlc.toNat).map msg.data

/-- over any message before and any memory behind the NUL -/
structure RoundTrips (msg : RxMsg) : Prop where
  fits : (text msg).length < slcanmsgLen ∧
    ∀ a ∈ (slcanmsg msg).trace, a.Inside fun _ => slcanmsgLen
  ok : ∀ m behind, (canSlcanIn (canSlcanOut msg ++ 0 :: behind) m).2 = true
  same : ∀ m behind, (canSlcanIn (canSlcanOut msg ++ 0 :: behind) m).1.frame = msg.frame

/-! ## the text in the buffer -/

structure Holds (r : Ram Unit Byte) (text : List Byte) : Prop where
  slice : slice (r.mem ()) 0 text.length = text
  nul : r.mem () text.length = 0
  inside : ∀ a ∈ r.trace, a.Inside fun _ => slcanmsgLen

/-- the next piece covers the NUL of the one before -/
theorem Holds.snprintf {r : Ram Unit Byte} {t u : List Byte} (h : Holds r t) {size : Nat}
    (hsize : u.length < size) (hfits : t.length + u.length < slcanmsgLen) :
    Holds (snprintf r t.length size u) (t ++ u) := by
  have htake : u.take (size - 1) = u := List.take_of_length_le (by omega)
  have hlen : (u ++ [0]).length = u.length + 1 := List.length_append
  rw [Slcan.snprintf, htake]
  refine ⟨?_, ?_, ?_⟩
  · rw [Ram.put_mem_same, List.length_append, slice_append, Nat.zero_add]
    congr 1
    · rw [← h.slice]
      simp only [slice_length]
      apply slice_congr
      intro k hk
      exact overwrite_out _ _ _ _ (.inl (by omega))
    · rw [slice_overwrite_take _ _ _ (by omega), List.take_left]
  · rw [Ram.put_mem_same, List.length_append, overwrite_in _ _ _ u.length (by omega)]
    exact List.getElem_concat_length rfl (by omega)
  · intro a ha
    rcases List.mem_append.mp ha with ha | ha
    · exact h.inside a ha
    · rw [List.mem_singleton.mp ha]
      exact .inr (by simp only [hlen]; omega)

section
variable (msg : RxMsg)

/-- the text of the data bytes from `i` on -/
def dataText (i n : Nat) : List Byte :=
  (List.range' i n).flatMap fun i => Base.hex.print 2 (msg.data i).toNat

theorem byte_length (b : Byte) : (Base.hex.print 2 b.toNat).length = 2 :=
  print_length b.isLt

theorem dataText_succ (i n : Nat) :
    dataText msg i (n + 1) = Base.hex.print 2 (msg.data i).toNat ++ dataText msg (i + 1) n := rfl

theorem dataText_length (i n : Nat) : (dataText msg i n).length = 2 * n := by
  induction n generalizing i with
  | zero => rfl
  | succ n ih =>
    rw [dataText_succ, List.length_append, byte_length, ih]
    omega

theorem Holds.outData {r : Ram Unit Byte} {t : List Byte} (h : Holds r t) {n : Nat}
    (hfits : t.length + 2 * n < slcanmsgLen) (i : Nat) :
    Holds (outData msg n i t.length r) (t ++ dataText msg i n) := by
  induction n generalizing i r t with
  | zero =>
    rw [show dataText msg i 0 = [] from rfl, List.append_nil]
    exact h
  | succ n ih =>
    have hbyte := byte_length (msg.data i)
    have hstep := @Holds.snprintf _ _ (Base.hex.print 2 (msg.data i).toNat) h 3 (by omega)
      (by omega)
    have hlen : (t ++ Base.hex.print 2 (msg.data i).toNat).length = t.length + 2 := by
      rw [List.length_append, hbyte]
    have hrest := ih hstep (by omega) (i + 1)
    rw [hlen, List.append_assoc] at hrest
    exact hrest

/-- the width of an identifier -/
def idWidth (ext : Bool) : Nat := if ext then 8 else 3

theorem id_lt : msg.id.toNat < Base.hex.radix ^ idWidth msg.ide ∧ msg.id.toNat < 2 ^ 31 := by
  rw [RxMsg.id]
  cases hide : msg.ide with
  | false =>
    have hle := msg.stdId_le hide
    exact ⟨Nat.lt_of_le_of_lt hle (by decide), Nat.lt_of_le_of_lt hle (by decide)⟩
  | true =>
    have hle := msg.extId_le hide
    exact ⟨Nat.lt_of_le_of_lt hle (by decide), Nat.lt_of_le_of_lt hle (by decide)⟩

theorem header_eq : msg.header = msg.outcode ::
    (Base.hex.print (idWidth msg.ide) msg.id.toNat ++ Base.decimal.print 1 msg.dlc.toNat) := by
  rw [RxMsg.header, RxMsg.id, idWidth]
  cases msg.ide <;> rfl

theorem header_length : msg.header.length = idWidth msg.ide + 2 := by
  have hdigit : (Base.decimal.print 1 msg.dlc.toNat).length = 1 :=
    print_length (Nat.lt_of_le_of_lt msg.dlc_le (by decide))
  rw [header_eq, List.length_cons, List.length_append, hdigit, print_length (id_lt msg).1]

theorem idWidth_le (ext : Bool) : 0 < idWidth ext ∧ idWidth ext ≤ 8 := by
  cases ext <;> decide

theorem holds_slcanmsg :
    Holds (slcanmsg msg) (msg.header ++ dataText msg 0 msg.dlc.toNat) := by
  have hheader := header_length msg
  have hdlc := msg.dlc_le
  have hlen : msg.header.length ≤ 10 := by
    rw [hheader]
    exact Nat.add_le_add_right (idWidth_le msg.ide).2 2
  have hempty : Holds ⟨fun _ _ => 0, []⟩ [] := ⟨rfl, rfl, fun _ ha => absurd ha List.not_mem_nil⟩
  have hfirst := @Holds.snprintf _ _ msg.header hempty slcanmsgLen
    (Nat.lt_of_le_of_lt hlen (by decide)) (by rw [List.length_nil, slcanmsgLen]; omega)
  exact hfirst.outData msg (by rw [List.nil_append, slcanmsgLen]; omega) 0

theorem mem_print_ne_zero {base : Base} {width n : Nat} {b : Byte} (h : b ∈ base.print width n) :
    b ≠ 0 := by
  obtain ⟨d, hd, rfl⟩ := mem_print h
  exact (char_plain hd).2.2.1

theorem outcode_kind : kind msg.outcode = some (msg.ide, msg.rtr) ∧ msg.outcode ≠ 0 := by
  rw [RxMsg.outcode]
  cases msg.ide <;> cases msg.rtr <;> decide

theorem text_ne_zero : ∀ b ∈ msg.header ++ dataText msg 0 msg.dlc.toNat, b ≠ 0 := by
  intro b hb
  rw [header_eq] at hb
  rcases List.mem_append.mp hb with hb | hb
  · rcases List.mem_cons.mp hb with rfl | hb
    · exact (outcode_kind msg).2
    · rcases List.mem_append.mp hb with hb | hb
      · exact mem_print_ne_zero hb
      · exact mem_print_ne_zero hb
  · obtain ⟨i, -, hb⟩ := List.mem_flatMap.mp hb
    exact mem_print_ne_zero hb

theorem length_lt : (msg.header ++ dataText msg 0 msg.dlc.toNat).length < slcanmsgLen := by
  have hdlc := msg.dlc_le
  have hwidth := (idWidth_le msg.ide).2
  rw [List.length_append, header_length, dataText_length, slcanmsgLen]
  omega

theorem text_eq : text msg = msg.header ++ dataText msg 0 msg.dlc.toNat :=
  takeWhile_slice (length_lt msg) (holds_slcanmsg msg).slice (text_ne_zero msg)
    (holds_slcanmsg msg).nul

/-! ## scanning it -/

theorem string_out (behind : List Byte) :
    string (canSlcanOut msg ++ 0 :: behind) = canSlcanOut msg := by
  have hall : ∀ b ∈ canSlcanOut msg, decide (b ≠ 0) = true := by
    intro b hb
    rw [canSlcanOut, text_eq] at hb
    rcases List.mem_append.mp hb with hb | hb
    · exact decide_eq_true (text_ne_zero msg b hb)
    · rw [List.mem_singleton.mp hb]
      rfl
  rw [string, List.takeWhile_append_of_pos hall]
  exact List.append_nil _

/-- the carriage return is white space, behind which there is no number -/
theorem scan_cr (n place : Nat) :
    (scan (List.replicate n (.int .hex (some 2))) place [cr]).fields = [] := by
  cases n with
  | zero => rfl
  | succ n => rfl

/-- the data bytes, each a field of two digits -/
theorem scan_data {k n : Nat} (h : n ≤ k) (i place : Nat) :
    (scan (List.replicate k (.int .hex (some 2))) place
        (dataText msg i n ++ [cr])).fields.map Field.value =
      (List.range' i n).map fun i => ((msg.data i).toNat : Int) := by
  induction n generalizing k i place with
  | zero => exact congrArg (List.map Field.value) (scan_cr k place)
  | succ n ih =>
    obtain ⟨k, rfl⟩ := Nat.exists_eq_add_of_le' (Nat.lt_of_lt_of_le (Nat.succ_pos n) h)
    have hrest := ih (Nat.le_of_succ_le_succ h) (i + 1) (place + 2)
    have hlt := (msg.data i).isLt
    rw [dataText_succ, List.append_assoc, List.replicate_succ,
      scan_print (by decide) hlt (Nat.lt_trans hlt (by decide)), List.map_cons, hrest]
    rfl

/-- no digit is one of the letters -/
theorem char_letters {base : Base} {d : Nat} (h : d < base.radix) (ext : Bool) :
    char d ∉ (if ext then [0x54, 0x52] else [0x74, 0x72] : List Byte) := by
  have hle := (char_plain h).2.2.2
  intro hmem
  have hall : ∀ b ∈ (if ext then [0x54, 0x52] else [0x74, 0x72] : List Byte), 0x46 < b.toNat := by
    cases ext <;> decide
  exact absurd (hall _ hmem) (Nat.not_lt.mpr hle)

theorem outcode_letters :
    msg.outcode ∈ (if msg.ide then [0x54, 0x52] else [0x74, 0x72] : List Byte) := by
  rw [RxMsg.outcode]
  cases msg.ide <;> cases msg.rtr <;> decide

theorem scan_letters {width n : Nat} (hn : n < Base.hex.radix ^ width) (hwidth : width ≠ 0)
    (ds : List Directive) (rest : List Byte) :
    (scan (letters msg.ide :: ds) 0 (msg.outcode :: (Base.hex.print width n ++ rest))).fields =
      (scan ds 1 (Base.hex.print width n ++ rest)).fields := by
  have hlen : (Base.hex.print width n).length = width := print_length hn
  obtain ⟨b, digits, hdigits⟩ := List.exists_cons_of_length_pos (Nat.pos_of_ne_zero (hlen ▸ hwidth))
  have hmem : b ∈ Base.hex.print width n := by
    rw [hdigits]
    exact List.mem_cons_self
  obtain ⟨d, hd, rfl⟩ := mem_print hmem
  have hread : (letters msg.ide).read (msg.outcode :: (Base.hex.print width n ++ rest)) =
      .took none 1 := by
    have hin := outcode_letters msg
    have hout := char_letters hd msg.ide
    rw [letters, Directive.read, hdigits]
    generalize (if msg.ide then [0x54, 0x52] else [0x74, 0x72] : List Byte) = set at hin hout
    rw [if_pos hin, List.takeWhile_cons, if_pos (decide_eq_true hin), List.cons_append,
      List.takeWhile_cons, if_neg (by simpa using hout)]
    rfl
  rw [scan, hread]
  rfl

/-- what is scanned: the identifier, the DLC, and as many data bytes -/
theorem scan_out : (scan (format msg.ide) 0 (canSlcanOut msg)).values =
    (msg.id.toNat : Int) :: (msg.dlc.toNat : Int) ::
      (List.range msg.dlc.toNat).map fun i => ((msg.data i).toNat : Int) := by
  have hdlc := msg.dlc_le
  obtain ⟨hid, hid31⟩ := id_lt msg
  have hwidth : idWidth msg.ide ≠ 0 := Nat.ne_of_gt (idWidth_le msg.ide).1
  have hout : canSlcanOut msg = msg.outcode :: (Base.hex.print (idWidth msg.ide) msg.id.toNat ++
      (Base.decimal.print 1 msg.dlc.toNat ++ (dataText msg 0 msg.dlc.toNat ++ [cr]))) := by
    rw [canSlcanOut, text_eq, header_eq]
    simp only [List.cons_append, List.append_assoc]
  have hdata := scan_data msg hdlc 0 (1 + idWidth msg.ide + 1)
  rw [Result.values, hout, format, scan_letters msg hid hwidth, idField,
    show (if msg.ide then 8 else 3) = idWidth msg.ide from rfl, scan_print hwidth hid hid31,
    dlcField, scan_print Nat.one_ne_zero (Nat.lt_of_le_of_lt hdlc (by decide))
      (Nat.lt_of_le_of_lt hdlc (by decide)), List.map_cons, List.map_cons, dataFields, hdata,
    List.range_eq_range']

/-- as many conversions as values -/
theorem count_out : (scan (format msg.ide) 0 (canSlcanOut msg)).count = msg.dlc.toNat + 2 := by
  have hlen := congrArg List.length (scan_out msg)
  rw [Result.values, List.length_map, List.length_cons, List.length_cons, List.length_map,
    List.length_range] at hlen
  rw [Result.count, if_neg, hlen]
  · rfl
  · rintro ⟨hnil, -⟩
    rw [hnil] at hlen
    cases hlen

theorem canSlcanIn_out (m : TxMsg) (behind : List Byte) :
    canSlcanIn (canSlcanOut msg ++ 0 :: behind) m =
      let m' := { m with ide := msg.ide, rtr := msg.rtr }.store
        (scan (format msg.ide) 0 (canSlcanOut msg)).values
      (m', decide (m'.dlc + 2 ≤ result (scan (format msg.ide) 0 (canSlcanOut msg)))) := by
  have hhead : (canSlcanOut msg ++ 0 :: behind).head?.bind kind = some (msg.ide, msg.rtr) := by
    rw [canSlcanOut, text_eq, header_eq]
    exact (outcode_kind msg).1
  rw [canSlcanIn, hhead]
  dsimp only
  rw [sscanf, string_out]

/-- **Round trip.**  Every frame comes back from its text, which fits the buffer. -/
theorem roundTrips : RoundTrips msg := by
  have hdlc := msg.dlc_le
  refine ⟨⟨?_, (holds_slcanmsg msg).inside⟩, ?_, ?_⟩
  · rw [text_eq]
    exact length_lt msg
  · intro m behind
    rw [canSlcanIn_out, scan_out]
    dsimp only
    rw [store_dlc]
    exact decide_eq_true ((accepted_iff (by omega) (count_out msg) (by omega)).mpr le_rfl)
  · intro m behind
    have htake : ((List.range msg.dlc.toNat).map fun i => ((msg.data i).toNat : Int)).take
        msg.dlc.toNat = (List.range msg.dlc.toNat).map fun i => ((msg.data i).toNat : Int) :=
      List.take_of_length_le (by simp)
    have hbyte : ∀ i, BitVec.ofInt 8 ((msg.data i).toNat : Int) = msg.data i := fun i => by
      rw [BitVec.ofInt_natCast, BitVec.ofNat_toNat, BitVec.setWidth_eq]
    rw [canSlcanIn_out, scan_out, store_frame _ hdlc (by simp), htake, List.map_map]
    simp only [Function.comp_def, hbyte, BitVec.ofInt_natCast, BitVec.ofNat_toNat,
      BitVec.setWidth_eq]
    rfl

end

/-- two bytes with the identifier 0x123, as `t1232A55A` -/
example : canSlcanOut ⟨0x123, 0, false, false, 2, fun i => if i = 0 then 0xA5 else 0x5A,
    fun _ => by decide, nofun, by decide⟩ =
      [0x74, 0x31, 0x32, 0x33, 0x32, 0x41, 0x35, 0x35, 0x41, 0x0d] := by decide +kernel

end Slcan
end Hydra
