import HydraFw.Lib.Runs
import HydraFw.Lib.Scanf

/-!
# SLCAN

The transmit lines of `slcan` (`hydrabus_mode_can.c`): `slcan_read_command` stores a line over the
one before, and `can_slcan_in` scans what it finds from the start of the buffer on.

* `Line`            what `slcan_read_command` reads;
* `Buff`            the 50 bytes of `buff`, and `TxMsg` the frame that is filled in;
* `canSlcanIn`      the scanning of a transmit line;
* `lineFrame`       the frame that a line carries by itself;
* `Law`             that frame is sent, and nothing is stored behind the 8 data bytes;
* `Cond`            few data bytes are found, and those that count lie within the line;
* `stands_alone`    then transmit lines stand alone.
-/

namespace Hydra
namespace Slcan
open Runs Scanf

/-- `SLCAN_BUFF_LEN` -/
def buffLen : Nat := 50

def cr : Byte := 0x0d

/-- up to a carriage return, 50 bytes, or the button -/
structure Line where
  bytes : List Byte
  length_le : bytes.length ≤ buffLen
  cr_last : cr ∉ bytes.dropLast

structure Buff where
  bytes : List Byte
  length_eq : bytes.length = buffLen

def Buff.store (x : Buff) (l : Line) : Buff where
  bytes := l.bytes ++ x.bytes.drop l.bytes.length
  length_eq := by
    have hx := x.length_eq
    have hl := l.length_le
    rw [List.length_append, List.length_drop]
    omega

/-- `can_tx_frame`, with what lies behind `data` -/
structure TxMsg where
  stdId : BitVec 32
  extId : BitVec 32
  /-- `CAN_ID_EXT` -/
  ide : Bool
  /-- `CAN_RTR_REMOTE` -/
  rtr : Bool
  dlc : BitVec 32
  data : Nat → Byte
  /-- a byte has been stored behind the 8 of `data` -/
  outside : Bool

/-- the extended and the remote bit of a transmit line -/
def kind (b : Byte) : Option (Bool × Bool) :=
  if b = 0x74 then some (false, false)
  else if b = 0x72 then some (false, true)
  else if b = 0x54 then some (true, false)
  else if b = 0x52 then some (true, true)
  else none

def letters (ext : Bool) : Directive := .skip (if ext then [0x54, 0x52] else [0x74, 0x72])

def idField (ext : Bool) : Directive := .int .hex (some (if ext then 8 else 3))

def dlcField : Directive := .int .decimal (some 1)

def dataFields : List Directive := List.replicate 8 (.int .hex (some 2))

/-- `"%*[tr]%3X%1d%02X%02X%02X%02X%02X%02X%02X%02X"`, and with `[TR]` and `%8X` -/
def format (ext : Bool) : List Directive := letters ext :: idField ext :: dlcField :: dataFields

/-! ## what `sscanf` stores -/

/-- an `unsigned int` at `&data[i]` -/
def TxMsg.storeData (m : TxMsg) (i : Nat) (v : Int) : TxMsg :=
  { m with
    data := fun j =>
      if i ≤ j ∧ j < i + 4 then (BitVec.ofInt 32 v).extractLsb' (8 * (j - i)) 8 else m.data j
    outside := m.outside || 8 < i + 4 }

def TxMsg.storeFrom (m : TxMsg) : Nat → List Int → TxMsg
  | _, [] => m
  | i, v :: vs => (m.storeData i v).storeFrom (i + 1) vs

def TxMsg.storeDlc (m : TxMsg) : List Int → TxMsg
  | [] => m
  | dlc :: data => { m with dlc := BitVec.ofInt 32 dlc }.storeFrom 0 data

def TxMsg.setId (m : TxMsg) (id : Int) : TxMsg :=
  if m.ide then { m with extId := BitVec.ofInt 32 id } else { m with stdId := BitVec.ofInt 32 id }

def TxMsg.store (m : TxMsg) : List Int → TxMsg
  | [] => m
  | id :: rest => (m.setId id).storeDlc rest

/-- `result`, a `uint8_t`, in the comparison with the unsigned `DLC` -/
def result (r : Result) : BitVec 32 := (BitVec.ofInt 8 r.count).setWidth 32

/-- the message behind, and `BSP_OK` -/
def canSlcanIn (slcanmsg : List Byte) (m : TxMsg) : TxMsg × Bool :=
  match slcanmsg.head?.bind kind with
  | none => (m, false)
  | some (ext, rtr) =>
    let r := sscanf (format ext) slcanmsg
    let m' := { m with ide := ext, rtr := rtr }.store r.values
    (m', m'.dlc + 2 ≤ result r)

/-! ## `slcan` -/

structure Frame where
  ext : Bool
  rtr : Bool
  id : BitVec 32
  dlc : BitVec 32
  data : List Byte
  deriving DecidableEq

/-- what `bsp_can_write` sends -/
def TxMsg.frame (m : TxMsg) : Frame where
  ext := m.ide
  rtr := m.rtr
  id := if m.ide then m.extId else m.stdId
  dlc := m.dlc
  data := (List.range (min m.dlc.toNat 8)).map m.data

structure State where
  buff : Buff
  msg : TxMsg

structure Input where
  line : Line
  /-- the memory behind `buff`, up to a NUL -/
  behind : List Byte

def memory (s : State) (i : Input) : List Byte := (s.buff.store i.line).bytes ++ i.behind

def step (s : State) (i : Input) : State where
  buff := s.buff.store i.line
  msg := (canSlcanIn (memory s i) s.msg).1

def sent (s : State) (i : Input) : Option Frame :=
  if (canSlcanIn (memory s i) s.msg).2 then some (step s i).msg.frame else none

/-! ## the law and its condition -/

/-- the line itself, up to its carriage return -/
def Line.text (l : Line) : List Byte := l.bytes.takeWhile fun b => b ≠ cr && b ≠ 0

def ValidId (ext : Bool) (id : Int) : Prop := 0 ≤ id ∧ id ≤ if ext then 0x1fffffff else 0x7ff

instance (ext : Bool) (id : Int) : Decidable (ValidId ext id) := inferInstanceAs (Decidable (_ ∧ _))

/-- an identifier, a DLC of 0 to 8 and at least so many data bytes -/
def frameOf (ext rtr : Bool) : List Int → Option Frame
  | id :: dlc :: data =>
    if ValidId ext id ∧ 0 ≤ dlc ∧ dlc ≤ 8 ∧ dlc ≤ data.length then
      some ⟨ext, rtr, BitVec.ofInt 32 id, BitVec.ofInt 32 dlc,
        (data.take dlc.toNat).map (BitVec.ofInt 8)⟩
    else none
  | _ => none

def lineFrame (l : Line) : Option Frame :=
  match l.text.head?.bind kind with
  | none => none
  | some (ext, rtr) => frameOf ext rtr (scan (format ext) 0 l.text).values

def Law (s : State) (i : Input) : Prop :=
  sent s i = lineFrame i.line ∧ (step s i).msg.outside = false

/-- the fields that the DLC asks for, when they are all there, end within the first `n` bytes, and
the identifier is a valid one -/
def Within (ext : Bool) (n : Nat) : List Field → Prop
  | id :: dlc :: data =>
    dlc.value ≤ data.length →
      ValidId ext id.value ∧ ∀ f ∈ (id :: dlc :: data).take (dlc.value.toNat + 2), f.stop ≤ n
  | _ => True

instance (ext : Bool) (n : Nat) : ∀ fs, Decidable (Within ext n fs)
  | [] | [_] => .isTrue trivial
  | _ :: _ :: _ => inferInstanceAs (Decidable (_ → _))

/-- for what the scanner finds in the buffer: at most five data bytes, no frame without a DLC, and
the fields that count in the line -/
structure ScanOk (s : State) (i : Input) (ext : Bool) (r : Result) : Prop where
  few : r.fields.length ≤ 7
  noDlc : r.fields.length < 2 → ¬s.msg.dlc + 2 ≤ result r
  within : Within ext i.line.text.length r.fields

instance (s : State) (i : Input) (ext : Bool) (r : Result) : Decidable (ScanOk s i ext r) :=
  decidable_of_iff (r.fields.length ≤ 7 ∧ (r.fields.length < 2 → ¬s.msg.dlc + 2 ≤ result r) ∧
    Within ext i.line.text.length r.fields) ⟨fun h => ⟨h.1, h.2.1, h.2.2⟩, fun h => ⟨h.1, h.2, h.3⟩⟩

def Cond (s : State) (i : Input) : Prop :=
  ∀ k ∈ (memory s i).head?.bind kind, ScanOk s i k.1 (sscanf (format k.1) (memory s i))

instance (s : State) (i : Input) : Decidable (Cond s i) :=
  inferInstanceAs (Decidable (∀ k ∈ _, ScanOk s i _ _))

/-! ## storing -/

section
variable (m : TxMsg)

/-- the numbers behind the DLC go to `data` only -/
theorem storeFrom_header (i : Nat) (vs : List Int) :
    ∃ data outside, m.storeFrom i vs = { m with data := data, outside := outside } := by
  induction vs generalizing m i with
  | nil => exact ⟨m.data, m.outside, rfl⟩
  | cons v vs ih =>
    obtain ⟨data, outside, h⟩ := ih (m.storeData i v) (i + 1)
    exact ⟨data, outside, h⟩

theorem storeFrom_below {i j : Nat} (vs : List Int) (h : j < i) :
    (m.storeFrom i vs).data j = m.data j := by
  induction vs generalizing m i with
  | nil => rfl
  | cons v vs ih =>
    show ((m.storeData i v).storeFrom (i + 1) vs).data j = _
    rw [ih (m.storeData i v) (Nat.lt_succ_of_lt h)]
    exact if_neg (by omega)

theorem ofInt_low (v : Int) : (BitVec.ofInt 32 v).extractLsb' 0 8 = BitVec.ofInt 8 v := by
  apply BitVec.eq_of_toNat_eq
  rw [BitVec.extractLsb'_toNat, BitVec.toNat_ofInt, BitVec.toNat_ofInt, Nat.shiftRight_zero]
  omega

/-- each number is the byte at its own place: those behind it store over the rest of it -/
theorem storeFrom_get {i k : Nat} {vs : List Int} {v : Int} (h : vs[k]? = some v) :
    (m.storeFrom i vs).data (i + k) = BitVec.ofInt 8 v := by
  induction vs generalizing m i k with
  | nil => cases h
  | cons x vs ih =>
    show ((m.storeData i x).storeFrom (i + 1) vs).data (i + k) = _
    cases k with
    | zero =>
      cases h
      show ((m.storeData i v).storeFrom (i + 1) vs).data i = _
      rw [storeFrom_below _ vs (Nat.lt_succ_self i)]
      show (if i ≤ i ∧ i < i + 4 then (BitVec.ofInt 32 v).extractLsb' (8 * (i - i)) 8
        else m.data i) = _
      rw [if_pos (by omega), Nat.sub_self, Nat.mul_zero, ofInt_low]
    | succ k =>
      rw [Nat.add_comm k, ← Nat.add_assoc]
      exact ih (m.storeData i x) h

theorem storeFrom_inside {i : Nat} {vs : List Int} (h : i + vs.length ≤ 5) :
    (m.storeFrom i vs).outside = m.outside := by
  induction vs generalizing m i with
  | nil => rfl
  | cons v vs ih =>
    rw [List.length_cons] at h
    show ((m.storeData i v).storeFrom (i + 1) vs).outside = _
    rw [ih (m.storeData i v) (by omega)]
    show (m.outside || decide (8 < i + 4)) = _
    rw [decide_eq_false (by omega), Bool.or_false]

theorem store_short {vs : List Int} (h : vs.length < 2) :
    (m.store vs).dlc = m.dlc ∧ (m.store vs).outside = m.outside := by
  match vs, h with
  | [], _ => exact ⟨rfl, rfl⟩
  | [id], _ =>
    show (m.setId id).dlc = _ ∧ (m.setId id).outside = _
    rw [TxMsg.setId]
    split
    · exact ⟨rfl, rfl⟩
    · exact ⟨rfl, rfl⟩

theorem store_dlc (id dlc : Int) (data : List Int) :
    (m.store (id :: dlc :: data)).dlc = BitVec.ofInt 32 dlc := by
  obtain ⟨data', outside, h⟩ :=
    storeFrom_header { m.setId id with dlc := BitVec.ofInt 32 dlc } 0 data
  show (TxMsg.storeFrom { m.setId id with dlc := BitVec.ofInt 32 dlc } 0 data).dlc = _
  rw [h]

theorem range_storeFrom {vs : List Int} {n : Nat} (h : n ≤ vs.length) :
    (List.range n).map (m.storeFrom 0 vs).data = (vs.take n).map (BitVec.ofInt 8) := by
  refine List.ext_getElem? fun k => ?_
  rw [List.getElem?_map, List.getElem?_map, List.getElem?_take]
  by_cases hk : k < n
  · obtain ⟨v, hv⟩ : ∃ v, vs[k]? = some v := ⟨_, List.getElem?_eq_getElem (by omega)⟩
    have hget := storeFrom_get (i := 0) m hv
    rw [Nat.zero_add] at hget
    rw [List.getElem?_range hk, if_pos hk, hv, Option.map_some, Option.map_some, hget]
  · rw [if_neg hk, List.getElem?_eq_none (by rw [List.length_range]; omega)]
    rfl

theorem store_frame {id : Int} {n : Nat} {data : List Int} (h8 : n ≤ 8) (h : n ≤ data.length) :
    (m.store (id :: n :: data)).frame = ⟨m.ide, m.rtr, BitVec.ofInt 32 id, BitVec.ofInt 32 n,
      (data.take n).map (BitVec.ofInt 8)⟩ := by
  have hlen : min (BitVec.ofInt 32 (n : Int)).toNat 8 = n := by
    rw [BitVec.toNat_ofInt]
    omega
  show (TxMsg.storeFrom { m.setId id with dlc := BitVec.ofInt 32 n } 0 data).frame = _
  have hdata := range_storeFrom { m.setId id with dlc := BitVec.ofInt 32 n } h
  obtain ⟨data', outside, hm⟩ :=
    storeFrom_header { m.setId id with dlc := BitVec.ofInt 32 n } 0 data
  rw [hm] at hdata ⊢
  rw [TxMsg.frame]
  show Frame.mk (m.setId id).ide (m.setId id).rtr
    (if (m.setId id).ide then (m.setId id).extId else (m.setId id).stdId) (BitVec.ofInt 32 n)
    ((List.range (min (BitVec.ofInt 32 (n : Int)).toNat 8)).map data') = _
  rw [hlen, hdata, TxMsg.setId]
  cases hide : m.ide with
  | false => simp only [Bool.false_eq_true, if_false]
  | true => simp only [if_true]

theorem store_inside {id dlc : Int} {data : List Int} (h : data.length ≤ 5) :
    (m.store (id :: dlc :: data)).outside = m.outside := by
  show (TxMsg.storeFrom { m.setId id with dlc := BitVec.ofInt 32 dlc } 0 data).outside = _
  rw [storeFrom_inside _ (by omega)]
  show (m.setId id).outside = _
  rw [TxMsg.setId]
  split
  · rfl
  · rfl

end

/-! ## scanning -/

section
variable {ext : Bool} {a : List Byte} {id dlc : Field} {data : List Field}

theorem int_dlc : ∀ d ∈ dlcField :: dataFields, ∃ base width, d = .int base width := by
  intro d hd
  rcases List.mem_cons.mp hd with rfl | hd
  · exact ⟨_, _, rfl⟩
  · exact ⟨_, _, List.eq_of_mem_replicate hd⟩

theorem dlc_digit (h : (scan (format ext) 0 a).fields = id :: dlc :: data) :
    ∃ n : Nat, dlc.value = n ∧ n ≤ 9 := by
  obtain ⟨n, -, h⟩ := scan_skip h
  obtain ⟨n', -, -, h⟩ := scan_int h
  obtain ⟨n'', hread, -, -⟩ := scan_int h
  obtain ⟨h0, h9⟩ := one_value hread
  exact ⟨dlc.value.toNat, by omega, by omega⟩

/-- a line with a DLC has the same identifier and DLC in a longer text, and no fewer data bytes -/
theorem scan_longer (h : (scan (format ext) 0 a).fields = id :: dlc :: data) (b : List Byte) :
    ∃ data', (scan (format ext) 0 (a ++ b)).fields = id :: dlc :: data' ∧
      data.length ≤ data'.length := by
  obtain ⟨place, x, hid, hskip⟩ := skip_longer h
  obtain ⟨place', y, hdlc, hlonger⟩ := int_longer int_dlc hid
  obtain ⟨data', hdata⟩ := one_longer hdlc b
  have hlen : (scan (dlcField :: dataFields) place' y).fields.length ≤
      (scan (dlcField :: dataFields) place' (y ++ b)).fields.length := scan_extend int_dlc b
  have hdata' : (scan (dlcField :: dataFields) place' (y ++ b)).fields = dlc :: data' := hdata
  rw [hdlc, hdata'] at hlen
  refine ⟨data', ?_, Nat.le_of_succ_le_succ hlen⟩
  rw [format, letters, hskip b, idField, hlonger b, hdata']

/-- a line is accepted when all the data bytes that its DLC asks for are there; the count fits a
`uint8_t` -/
theorem accepted_iff {n count : Nat} {r : Result} (hn : n ≤ 9) (hr : r.count = count + 2)
    (hcount : count < 254) : BitVec.ofInt 32 (n : Int) + 2 ≤ result r ↔ n ≤ count := by
  have hleft : (BitVec.ofInt 32 (n : Int) + 2).toNat = n + 2 := by
    have h2 : (2 : BitVec 32).toNat = 2 := rfl
    rw [BitVec.toNat_add, BitVec.toNat_ofInt, h2]
    omega
  have hright : (result r).toNat = count + 2 := by
    rw [result, hr, BitVec.toNat_setWidth, BitVec.toNat_ofInt]
    omega
  rw [BitVec.le_def, hleft, hright]
  omega

end

/-! ## the line in the buffer -/

section
variable {s : State} {i : Input}

theorem takeWhile_prefix {p q : Byte → Bool} (l t : List Byte) :
    (l.takeWhile fun b => p b && q b) <+: (l ++ t).takeWhile q := by
  induction l with
  | nil => exact List.nil_prefix
  | cons b l ih =>
    rw [List.cons_append, List.takeWhile_cons, List.takeWhile_cons]
    cases hp : p b with
    | false => exact List.nil_prefix
    | true =>
      cases hq : q b with
      | false => exact List.nil_prefix
      | true => exact List.cons_prefix_cons.mpr ⟨rfl, ih⟩

/-- the scanner begins with the line -/
theorem string_memory : ∃ rest, string (memory s i) = i.line.text ++ rest := by
  have hmemory : memory s i =
      i.line.bytes ++ (s.buff.bytes.drop i.line.bytes.length ++ i.behind) := List.append_assoc _ _ _
  obtain ⟨rest, hrest⟩ := takeWhile_prefix (p := fun b => b ≠ cr) (q := fun b => b ≠ 0)
    i.line.bytes (s.buff.bytes.drop i.line.bytes.length ++ i.behind)
  exact ⟨rest, by rw [string, hmemory]; exact hrest.symm⟩

theorem head_text {b : Byte} {l : List Byte} (h : i.line.text = b :: l) :
    (memory s i).head? = some b := by
  obtain ⟨rest, hrest⟩ := List.takeWhile_prefix (l := i.line.bytes) (fun b => b ≠ cr && b ≠ 0)
  change i.line.text ++ rest = _ at hrest
  rw [h] at hrest
  show (i.line.bytes ++ _ ++ _).head? = _
  rw [← hrest]
  rfl

theorem lineFrame_none (h : (memory s i).head?.bind kind = none) : lineFrame i.line = none := by
  rw [lineFrame]
  cases hl : i.line.text with
  | nil => rfl
  | cons b l =>
    rw [head_text hl] at h
    rw [List.head?_cons, h]

theorem lineFrame_eq {ext rtr : Bool} (h : (memory s i).head?.bind kind = some (ext, rtr)) :
    lineFrame i.line = frameOf ext rtr (scan (format ext) 0 i.line.text).values := by
  rw [lineFrame]
  cases hl : i.line.text with
  | nil =>
    have hnil : (scan (format ext) 0 []).values = [] := congrArg (List.map Field.value) scan_nil
    rw [hnil]
    rfl
  | cons b l =>
    rw [head_text hl] at h
    rw [List.head?_cons, h]

theorem frameOf_none {ext rtr : Bool} {fs : List Field}
    (h : ∀ id dlc data, fs = id :: dlc :: data → ¬dlc.value ≤ data.length) :
    frameOf ext rtr (fs.map Field.value) = none := by
  match fs, h with
  | [], _ => rfl
  | [_], _ => rfl
  | id :: dlc :: data, h =>
    refine if_neg fun hframe => h id dlc data rfl ?_
    rw [← List.length_map (f := Field.value)]
    exact hframe.2.2.2

/-- the fields that count are those of the line -/
theorem frameOf_within {ext rtr : Bool} {a b : List Byte} {id dlc : Field} {data : List Field}
    {n : Nat} (hf : (scan (format ext) 0 (a ++ b)).fields = id :: dlc :: data)
    (hn : dlc.value = n) (h8 : n ≤ 8) (hdata : n ≤ data.length) (hid : ValidId ext id.value)
    (hstop : ∀ f ∈ (id :: dlc :: data).take (n + 2), f.stop ≤ a.length) :
    frameOf ext rtr (scan (format ext) 0 a).values =
      some ⟨ext, rtr, BitVec.ofInt 32 id.value, BitVec.ofInt 32 n,
        ((data.map Field.value).take n).map (BitVec.ofInt 8)⟩ := by
  have hlocal : (scan (format ext) 0 a).fields.take (n + 2) =
      (scan (format ext) 0 (a ++ b)).fields.take (n + 2) := by
    refine scan_local ?_ ?_
    · rw [hf]
      exact Nat.add_le_add_right hdata 2
    · rw [hf, Nat.zero_add]
      exact hstop
  rw [hf, List.take_succ_cons, List.take_succ_cons] at hlocal
  rw [Result.values]
  match (scan (format ext) 0 a).fields, hlocal with
  | x :: y :: data', hlocal =>
    rw [List.take_succ_cons, List.take_succ_cons] at hlocal
    injection hlocal with hx hlocal
    injection hlocal with hy htake
    subst hx hy
    have hlen := congrArg List.length htake
    rw [List.length_take, List.length_take] at hlen
    have hvalues : (data'.map Field.value).take n = (data.map Field.value).take n := by
      rw [← List.map_take, ← List.map_take, htake]
    show frameOf ext rtr (x.value :: y.value :: data'.map Field.value) = _
    have hlength : y.value ≤ (data'.map Field.value).length := by
      rw [List.length_map]
      omega
    rw [frameOf, if_pos ⟨hid, by omega, by omega, hlength⟩, hn, Int.toNat_natCast, hvalues]

/-- the scanning of a text that begins with the line `a` -/
theorem scan_line {m : TxMsg} {a b : List Byte} {r : Result}
    (hr : scan (format m.ide) 0 (a ++ b) = r) (hfew : r.fields.length ≤ 7)
    (hnoDlc : r.fields.length < 2 → ¬m.dlc + 2 ≤ result r)
    (hwithin : Within m.ide a.length r.fields) :
    (if (m.store r.values).dlc + 2 ≤ result r then some (m.store r.values).frame else none) =
        frameOf m.ide m.rtr (scan (format m.ide) 0 a).values ∧
      (m.store r.values).outside = m.outside := by
  match hf : r.fields with
  | [] | [_] =>
    have hshort : r.fields.length < 2 := by
      rw [hf]
      simp
    have hvalues : r.values.length < 2 := by
      rw [Result.values, List.length_map]
      exact hshort
    obtain ⟨hdlc, hout⟩ := store_short m hvalues
    have hnone : frameOf m.ide m.rtr (scan (format m.ide) 0 a).values = none := by
      refine frameOf_none fun id dlc data hown => ?_
      obtain ⟨data', hlonger, -⟩ := scan_longer hown b
      rw [hr] at hlonger
      rw [hlonger] at hshort
      exact absurd hshort (by simp)
    rw [hdlc, if_neg (hnoDlc hshort), hnone]
    exact ⟨rfl, hout⟩
  | id :: dlc :: data =>
    have hfields := congrArg Result.fields hr
    rw [hf] at hfields hfew hwithin
    obtain ⟨n, hn, h9⟩ := dlc_digit hfields
    have hvalues : r.values = id.value :: (n : Int) :: data.map Field.value := by
      rw [Result.values, hf, ← hn]
      rfl
    have hcount : r.count = data.length + 2 := by
      rw [Result.count, hf, if_neg (fun h => List.cons_ne_nil _ _ h.1)]
      rfl
    have hfive : data.length ≤ 5 := Nat.le_of_succ_le_succ (Nat.le_of_succ_le_succ hfew)
    have haccept := accepted_iff h9 hcount (Nat.lt_of_le_of_lt hfive (by decide))
    rw [hvalues, store_dlc]
    refine ⟨?_, store_inside m (by rw [List.length_map]; exact hfive)⟩
    by_cases hall : n ≤ data.length
    · obtain ⟨hid, hstop⟩ := hwithin (by omega)
      rw [hn, Int.toNat_natCast] at hstop
      rw [if_pos (haccept.mpr hall), store_frame m (by omega) (by rw [List.length_map]; exact hall),
        frameOf_within hfields hn (by omega) hall hid hstop]
    · rw [if_neg fun h => hall (haccept.mp h)]
      refine (frameOf_none fun id' dlc' data' hown hle => hall ?_).symm
      obtain ⟨data'', hlonger, hlen⟩ := scan_longer hown b
      rw [hfields] at hlonger
      injection hlonger with _ hlonger
      injection hlonger with hdlc hdata
      subst hdlc hdata
      omega

theorem law_of_cond (hinside : s.msg.outside = false) (h : Cond s i) : Law s i := by
  cases hk : (memory s i).head?.bind kind with
  | none =>
    have hin : canSlcanIn (memory s i) s.msg = (s.msg, false) := by rw [canSlcanIn, hk]
    rw [Law, sent, step, hin, lineFrame_none hk]
    exact ⟨rfl, hinside⟩
  | some k =>
    obtain ⟨ext, rtr⟩ := k
    obtain ⟨hfew, hnoDlc, hwithin⟩ := h (ext, rtr) hk
    obtain ⟨rest, hrest⟩ := string_memory (s := s) (i := i)
    have hscan : scan (format ext) 0 (i.line.text ++ rest) = sscanf (format ext) (memory s i) := by
      rw [sscanf, hrest]
    obtain ⟨hsent, hout⟩ := scan_line (m := { s.msg with ide := ext, rtr := rtr }) hscan hfew hnoDlc
      hwithin
    have hin : canSlcanIn (memory s i) s.msg =
        (TxMsg.store { s.msg with ide := ext, rtr := rtr }
            (sscanf (format ext) (memory s i)).values,
          decide ((TxMsg.store { s.msg with ide := ext, rtr := rtr }
            (sscanf (format ext) (memory s i)).values).dlc + 2 ≤
              result (sscanf (format ext) (memory s i)))) := by rw [canSlcanIn, hk]
    rw [Law, lineFrame_eq hk, sent, step, hin]
    refine ⟨?_, hout.trans hinside⟩
    rw [← hsent]
    simp only [decide_eq_true_eq]

/-- **Transmit lines stand alone.** -/
theorem stands_alone {is : List Input} (hinside : s.msg.outside = false)
    (h : StepsOk Cond step s is) : StepsOk Law step s is :=
  h.mono (I := fun s => s.msg.outside = false) (fun _ _ hs hc => (law_of_cond hs hc).2)
    (fun _ _ hs hc => law_of_cond hs hc) hinside

end

/-- nothing has been received -/
def State.zero : State where
  buff := ⟨List.replicate 50 0, rfl⟩
  msg := ⟨0, 0, false, false, 0, fun _ => 0, false⟩

/-- `t1232AABB` -/
def twoBytes : Line where
  bytes := [0x74, 0x31, 0x32, 0x33, 0x32, 0x41, 0x41, 0x42, 0x42, 0x0d]
  length_le := by decide
  cr_last := by decide

/-- `r1230` -/
def noBytes : Line where
  bytes := [0x72, 0x31, 0x32, 0x33, 0x30, 0x0d]
  length_le := by decide
  cr_last := by decide

/-- `t1232` -/
def shortLine : Line where
  bytes := [0x74, 0x31, 0x32, 0x33, 0x32, 0x0d]
  length_le := by decide
  cr_last := by decide

theorem stands_alone_two : StepsOk Law step State.zero [⟨twoBytes, []⟩, ⟨noBytes, []⟩] :=
  stands_alone rfl (by decide +kernel)

/-- behind `t1232AABB` the line `t1232` is sent with the data `AB 0B` -/
theorem leftover_is_sent :
    ¬ ∀ s is, s.msg.outside = false → StepsOk Law step s is := by
  intro h
  have hlaw := (h State.zero [⟨twoBytes, []⟩, ⟨shortLine, []⟩] rfl).2.1.1
  revert hlaw
  decide +kernel

end Slcan
end Hydra
