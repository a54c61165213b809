import HydraFw.Console.Write
import HydraFw.Console.Leaving
import HydraFw.Lib.Chunks
import HydraFw.Lib.Rams

/-!
# The transfers from the bus

`hydrabus_mode_read` and `hydrabus_mode_hexdump` (`hydrabus_mode.c`), with `print_hex` (`common.c`).

* `printHex`         what `print_hex` prints; `hexColumn` the bytes, `asciiColumn` the characters;
* `Bus`              what the operations answer, `fetched` what a list of requests obtains;
* `readRequests`     the requests of `read`;
* `Dump.pass`        a pass of the loop of `hd`, `hexdump` the loop;
* `Dump.Chunked`     the state between two passes;
* `readsAll_iff`     when `read` obtains what `hd` does;
* `dumps_iff`        when `hd` calls what the mode has, and prints what it obtains.
-/

namespace Hydra
namespace Transfer
open Walk Write Leaving Loops Rams

/-! ## `print_hex` -/

inductive Out where
  /-- `%02X ` -/
  | hex (b : UInt8)
  | text (s : String)
  /-- `|  %s \r\n` -/
  | row (ascii : List UInt8)
  /-- `READ error:%d\r\n` -/
  | readError (status : Nat)
  deriving DecidableEq

def printable (b : UInt8) : UInt8 := if b ≥ 0x20 ∧ b ≤ 0x7f then b else 0x2E

/-- the string in the array `ascii` -/
def cString (ascii : Nat → UInt8) : List UInt8 := (slice ascii 0 17).takeWhile (· ≠ 0)

/-- what is printed behind the byte `i` of `size` -/
def rowEnd (size i : Nat) (ascii : Nat → UInt8) : List Out :=
  if (i + 1) % 8 = 0 ∨ i + 1 = size then
    .text " " ::
      if (i + 1) % 16 = 0 then [.row (cString ascii)]
      else if i + 1 = size then
        (if (i + 1) % 16 ≤ 8 then [.text " "] else []) ++
          List.replicate (16 - (i + 1) % 16) (.text "   ") ++
          [.row (cString (Function.update ascii ((i + 1) % 16) 0))]
      else []
  else []

/-- the loop from the byte `i` on -/
def printFrom (size : Nat) : Nat → (Nat → UInt8) → List UInt8 → List Out
  | _, _, [] => []
  | i, ascii, b :: data =>
    let ascii := Function.update ascii (i % 16) (printable b)
    .hex b :: rowEnd size i ascii ++ printFrom size (i + 1) ascii data

/-- `junk` is on the stack where `ascii` is -/
def printHex (junk : Nat → UInt8) (data : List UInt8) : List Out :=
  printFrom data.length 0 (Function.update junk 16 0) data

def Out.hexByte : Out → Option UInt8
  | .hex b => some b
  | _ => none

def Out.asciiRow : Out → List UInt8
  | .row ascii => ascii
  | _ => []

def hexColumn (out : List Out) : List UInt8 := out.filterMap Out.hexByte

def asciiColumn (out : List Out) : List UInt8 := out.flatMap Out.asciiRow

/-! ## the bus -/

/-- the mode: the `k`-th request of a command succeeds or not, and leaves these bytes in
`buffer_rx` -/
structure Bus where
  status : Nat → Nat
  rx : Nat → Nat → UInt8
  junk : Nat → UInt8

/-- the bytes that requests of these sizes take off a stream, one after the other -/
def fetched (stream : Nat → UInt8) : Nat → List Nat → List UInt8
  | _, [] => []
  | pos, n :: sizes => slice stream pos n ++ fetched stream (pos + n) sizes

/-! ## `hydrabus_mode_read` -/

/-- the count behind `T_READ` -/
def readCount (p : Line) (t : Nat) : Int :=
  if p.tok (t + 1) = .argTokenSuffixInt then p.int (p.offset (t + 2)) else 1

/-- the sizes that `read` is called with: it takes the count as `uint8_t` -/
def readRequests (exec : Exec) (p : Line) (t : Nat) : List Nat :=
  if exec.read then [(readCount p t % 2 ^ 8).toNat] else []

/-! ## `hydrabus_mode_hexdump` -/

/-- `HEXDUMP_CHUNK_SIZE` -/
def hexdumpChunkSize : UInt8 := 64

structure Dump where
  bytesRead : UInt32
  /-- the passes so far -/
  turns : Nat
  /-- the sizes that `dump` has been called with -/
  requests : List UInt8
  out : List Out

section
variable (exec : Exec) (bus : Bus) (ubtn : Nat → Bool) (count : UInt32)

def Dump.more (s : Dump) : Bool := s.bytesRead < count ∧ ubtn s.turns = false

def Dump.toRx (s : Dump) : UInt8 :=
  if count - s.bytesRead ≥ 64 then hexdumpChunkSize else (count - s.bytesRead).toUInt8

/-- `read` is looked for, and `dump` called -/
def Dump.pass (s : Dump) : Dump :=
  let toRx := s.toRx count
  let status := if exec.read then bus.status s.turns else 1
  { bytesRead := s.bytesRead + toRx.toUInt32
    turns := s.turns + 1
    requests := if exec.read then s.requests ++ [toRx] else s.requests
    out := s.out ++
      if status = 0 then printHex bus.junk (slice (bus.rx s.turns) 0 toRx.toNat)
      else [.readError status] }

/-- each pass counts at least a byte -/
def hexdump : Dump :=
  whileN (Dump.more ubtn count) (Dump.pass exec bus count) count.toNat ⟨0, 0, [], []⟩

end

/-- the count of the line -/
def hydrabusModeHexdump (exec : Exec) (bus : Bus) (ubtn : Nat → Bool) (p : Line) (t : Nat) : Dump :=
  hexdump exec bus ubtn (UInt32.ofNat (hexdumpCount p.toParsed t).toNat)

/-! ## what `print_hex` prints -/

section
variable {size i : Nat} {ascii : Nat → UInt8} {data : List UInt8}

theorem hexColumn_append (x y : List Out) : hexColumn (x ++ y) = hexColumn x ++ hexColumn y :=
  List.filterMap_append
theorem asciiColumn_append (x y : List Out) :
    asciiColumn (x ++ y) = asciiColumn x ++ asciiColumn y := List.flatMap_append

/-- between the bytes there is no byte -/
theorem hexColumn_rowEnd (size i : Nat) (ascii : Nat → UInt8) :
    hexColumn (rowEnd size i ascii) = [] := by
  refine List.filterMap_eq_nil_iff.mpr fun o ho => ?_
  cases o with
  | hex b =>
    unfold rowEnd at ho
    grind
  | _ => rfl

/-- the bytes, once and in order -/
theorem hexColumn_printFrom (size i : Nat) (ascii : Nat → UInt8) (data : List UInt8) :
    hexColumn (printFrom size i ascii data) = data := by
  induction data generalizing i ascii with
  | nil => rfl
  | cons b data ih =>
    show b :: hexColumn (rowEnd size i _ ++ printFrom size (i + 1) _ data) = _
    rw [hexColumn_append, hexColumn_rowEnd, ih]
    rfl

theorem hexColumn_printHex (junk : Nat → UInt8) (data : List UInt8) :
    hexColumn (printHex junk data) = data := hexColumn_printFrom ..

/-- a string of `n` characters -/
theorem cString_eq {n : Nat} (hn : n ≤ 16) (hchars : ∀ k < n, ascii k ≠ 0) (hend : ascii n = 0) :
    cString ascii = slice ascii 0 n := by
  obtain ⟨m, hm⟩ := Nat.exists_eq_add_of_lt (Nat.lt_succ_of_le hn)
  have hsplit : slice ascii 0 17 = slice ascii 0 n ++ slice ascii n (m + 1) := by
    rw [show (17 : Nat) = n + (m + 1) from by omega, slice_append, Nat.zero_add]
  unfold cString
  rw [hsplit, List.takeWhile_append_of_pos]
  · have hstop : (slice ascii n (m + 1)).takeWhile (· ≠ 0) = [] := by
      unfold slice
      rw [List.range_succ_eq_map, List.map_cons, Nat.add_zero, List.takeWhile_cons, hend]
      rfl
    rw [hstop, List.append_nil]
  · intro b hb
    obtain ⟨k, hk, rfl⟩ := List.mem_map.mp hb
    rw [Nat.zero_add]
    exact decide_eq_true (hchars k (List.mem_range.mp hk))

theorem printable_ne (b : UInt8) : printable b ≠ 0 := by
  unfold printable
  split_ifs with h
  · rintro rfl
    exact absurd h.1 (by decide)
  · decide

/-- one more character in the row -/
theorem slice_update {m : Nat → UInt8} {n : Nat} (v : UInt8) :
    slice (Function.update m n v) 0 (n + 1) = slice m 0 n ++ [v] := by
  rw [slice_append, Nat.zero_add]
  congr 1
  · refine slice_congr fun k hk => ?_
    rw [Nat.zero_add, Function.update_of_ne (Nat.ne_of_lt hk)]
  · show [Function.update m n v (n + 0)] = [v]
    rw [Nat.add_zero, Function.update_self]

/-- nothing but texts is printed behind the byte `i`, or texts and a row -/
theorem rowEnd_shape (size : Nat) (h16 : ascii 16 = 0) (hrow : ∀ k ≤ i % 16, ascii k ≠ 0) :
    ∃ texts : List String, rowEnd size i ascii = texts.map .text ++
      if (i + 1) % 16 = 0 ∨ i + 1 = size then [.row (slice ascii 0 (i % 16 + 1))] else [] := by
  by_cases hfull : (i + 1) % 16 = 0
  · have hlast : i % 16 + 1 = 16 := by omega
    refine ⟨[" "], ?_⟩
    unfold rowEnd
    rw [if_pos (.inl (by omega)), if_pos hfull, if_pos (.inl hfull),
      cString_eq (Nat.le_refl 16) (fun k hk => hrow k (by omega)) h16, hlast]
    rfl
  · by_cases hend : i + 1 = size
    · have hnext : (i + 1) % 16 = i % 16 + 1 := by omega
      let ascii' := Function.update ascii (i % 16 + 1) 0
      have hshort : cString ascii' = slice ascii' 0 (i % 16 + 1) := by
        refine cString_eq (by omega) (fun k hk => ?_) (Function.update_self ..)
        unfold ascii'
        rw [Function.update_of_ne hk.ne]
        exact hrow k (Nat.le_of_lt_succ hk)
      have hsame : slice ascii' 0 (i % 16 + 1) = slice ascii 0 (i % 16 + 1) := by
        refine slice_congr fun k hk => ?_
        unfold ascii'
        rw [Function.update_of_ne (by omega)]
      have hhalf : (if (i + 1) % 16 ≤ 8 then [Out.text " "] else []) =
          (if (i + 1) % 16 ≤ 8 then [" "] else []).map .text := by
        split_ifs <;> rfl
      refine ⟨" " :: (if (i + 1) % 16 ≤ 8 then [" "] else []) ++
        List.replicate (16 - (i + 1) % 16) "   ", ?_⟩
      have hlast : rowEnd size i ascii =
          (.text " " :: (if (i + 1) % 16 ≤ 8 then [.text " "] else [])) ++
            List.replicate (16 - (i + 1) % 16) (.text "   ") ++ [.row (cString ascii')] := by
        unfold rowEnd
        rw [if_pos (.inr hend), if_neg hfull, if_pos hend, hnext]
        rfl
      rw [hlast, if_pos (Or.inr hend), hhalf, ← hsame, ← hshort, List.map_append,
        List.map_replicate]
      rfl
    · rw [if_neg (not_or.mpr ⟨hfull, hend⟩)]
      unfold rowEnd
      rw [if_neg hfull, if_neg hend]
      split_ifs
      · exact ⟨[" "], rfl⟩
      · exact ⟨[], rfl⟩

theorem asciiColumn_texts (texts : List String) : asciiColumn (texts.map .text) = [] := by
  refine List.flatMap_eq_nil_iff.mpr fun o ho => ?_
  obtain ⟨s, -, rfl⟩ := List.mem_map.mp ho
  rfl

/-- the row that ends behind the byte `i`, if one does -/
theorem asciiColumn_rowEnd (size : Nat) (h16 : ascii 16 = 0)
    (hrow : ∀ k ≤ i % 16, ascii k ≠ 0) :
    asciiColumn (rowEnd size i ascii) =
      if (i + 1) % 16 = 0 ∨ i + 1 = size then slice ascii 0 (i % 16 + 1) else [] := by
  obtain ⟨texts, hshape⟩ := rowEnd_shape size h16 hrow
  rw [hshape, asciiColumn_append, asciiColumn_texts]
  split_ifs
  · exact List.append_nil _
  · rfl

/-- the characters, once and in order -/
theorem asciiColumn_printFrom {size i : Nat} {ascii : Nat → UInt8} {data : List UInt8}
    (hdata : data ≠ []) (hsize : i + data.length = size) (h16 : ascii 16 = 0)
    (hrow : ∀ k < i % 16, ascii k ≠ 0) :
    asciiColumn (printFrom size i ascii data) =
      slice ascii 0 (i % 16) ++ data.map printable := by
  induction data generalizing i ascii with
  | nil => exact absurd rfl hdata
  | cons b data ih =>
    have hmod : i % 16 < 16 := Nat.mod_lt _ (by decide)
    let ascii' := Function.update ascii (i % 16) (printable b)
    have h16' : ascii' 16 = 0 := by
      unfold ascii'
      rwa [Function.update_of_ne (by omega)]
    have hrow' : ∀ k ≤ i % 16, ascii' k ≠ 0 := by
      intro k hk
      unfold ascii'
      rcases Nat.lt_or_eq_of_le hk with hlt | rfl
      · rw [Function.update_of_ne hlt.ne]
        exact hrow k hlt
      · rw [Function.update_self]
        exact printable_ne b
    show asciiColumn (rowEnd size i ascii' ++ printFrom size (i + 1) ascii' data) = _
    rw [asciiColumn_append, asciiColumn_rowEnd size h16' hrow', slice_update]
    rw [List.length_cons] at hsize
    cases data with
    | nil =>
      rw [if_pos (.inr (by rw [← hsize]; rfl))]
      exact List.append_nil _
    | cons c data =>
      have hnext : asciiColumn (printFrom size (i + 1) ascii' (c :: data)) =
          slice ascii' 0 ((i + 1) % 16) ++ (c :: data).map printable :=
        ih (List.cons_ne_nil _ _) (by omega) h16' fun k hk => hrow' k (by omega)
      have hmore : i + 1 ≠ size := by
        rw [← hsize, List.length_cons]
        omega
      rw [hnext]
      by_cases hfull : (i + 1) % 16 = 0
      · rw [if_pos (.inl hfull), hfull, slice_zero, List.nil_append, List.append_assoc]
        rfl
      · have hmod' : (i + 1) % 16 = i % 16 + 1 := by omega
        rw [if_neg (not_or.mpr ⟨hfull, hmore⟩), hmod', slice_update, List.nil_append,
          List.append_assoc]
        rfl

theorem asciiColumn_printHex (junk : Nat → UInt8) (data : List UInt8) :
    asciiColumn (printHex junk data) = data.map printable := by
  cases data with
  | nil => rfl
  | cons b data =>
    exact asciiColumn_printFrom (List.cons_ne_nil _ _) (Nat.zero_add _) (Function.update_self ..)
      fun k hk => absurd hk (Nat.not_lt_zero k)

end

/-! ## the loop of `hd` -/

/-- the size of a chunk of `n` bytes -/
abbrev chunk (n j : Nat) : Nat := Chunks.size 64 n j

/-- the number of chunks -/
abbrev chunks (n : Nat) : Nat := Chunks.count 64 n

theorem chunk_pos : 0 < 64 := by decide

/-- the bytes of the requests that succeed -/
def obtained (exec : Exec) (bus : Bus) (n j : Nat) : List UInt8 :=
  (List.range j).flatMap fun k =>
    if exec.read = true ∧ bus.status k = 0 then slice (bus.rx k) 0 (chunk n k) else []

/-- between two passes: `j` chunks are done -/
structure Dump.Chunked (exec : Exec) (bus : Bus) (count : UInt32) (s : Dump) (j : Nat) : Prop where
  bytesRead : s.bytesRead.toNat = min (j * 64) count.toNat
  turns : s.turns = j
  requests : s.requests.map UInt8.toNat =
    if exec.read then (List.range j).map (chunk count.toNat) else []
  out : hexColumn s.out = obtained exec bus count.toNat j

section
variable {exec : Exec} {bus : Bus} {ubtn : Nat → Bool} {count : UInt32} {s : Dump} {j : Nat}

theorem Dump.Chunked.more (h : s.Chunked exec bus count j) (hu : ∀ k, ubtn k = false) :
    s.more ubtn count = decide (j < chunks count.toNat) := by
  unfold Dump.more
  rw [decide_eq_decide, hu, and_iff_left rfl, Chunks.lt_count chunk_pos, UInt32.lt_iff_toNat_lt,
    h.bytesRead]
  exact ⟨fun h => by omega, fun h => by omega⟩

theorem Dump.Chunked.toRx (h : s.Chunked exec bus count j) :
    (s.toRx count).toNat = chunk count.toNat j :=
  @Chunks.size_toNat j hexdumpChunkSize 64 s.bytesRead count rfl h.bytesRead

/-- one chunk -/
theorem Dump.Chunked.pass (h : s.Chunked exec bus count j) :
    (s.pass exec bus count).Chunked exec bus count (j + 1) := by
  have hrx := h.toRx
  refine ⟨?_, congrArg (· + 1) h.turns, ?_, ?_⟩
  · show (s.bytesRead + (s.toRx count).toUInt32).toNat = _
    have hlt := count.toNat_lt
    rw [UInt32.toNat_add, UInt8.toNat_toUInt32, hrx, h.bytesRead]
    unfold chunk Chunks.size
    omega
  · show (if exec.read then s.requests ++ [s.toRx count] else s.requests).map UInt8.toNat = _
    have hrequests := h.requests
    split_ifs at hrequests ⊢
    · rw [List.map_append, hrequests, List.range_succ, List.map_append, List.map_singleton, hrx]
      rfl
    · exact hrequests
  · show hexColumn (s.out ++ _) = _
    unfold obtained
    rw [hexColumn_append, h.out, List.range_succ, List.flatMap_append, List.flatMap_singleton,
      h.turns, hrx]
    congr 1
    cases exec.read with
    | false => rfl
    | true =>
      simp only [if_true, true_and]
      split_ifs
      · exact hexColumn_printHex ..
      · rfl

/-- the loop, while the button is not pressed -/
theorem hexdump_chunked (exec : Exec) (bus : Bus) (count : UInt32) (hu : ∀ k, ubtn k = false) :
    (hexdump exec bus ubtn count).Chunked exec bus count (chunks count.toNat) := by
  have hrun : ∀ j ≤ chunks count.toNat,
      (whileN (Dump.more ubtn count) (Dump.pass exec bus count) j ⟨0, 0, [], []⟩).Chunked
        exec bus count j := by
    intro j
    induction j with
    | zero =>
      intro _
      refine ⟨by rw [Nat.zero_mul, Nat.zero_min]; rfl, rfl, ?_, rfl⟩
      split_ifs <;> rfl
    | succ j ih =>
      intro hj
      have hnow := ih (Nat.le_of_succ_le hj)
      rw [whileN_succ, whileN_pass ((hnow.more hu).trans (decide_eq_true hj))]
      exact hnow.pass
  have hlast := hrun _ (Nat.le_refl _)
  have hend := (hlast.more hu).trans (decide_eq_false (Nat.lt_irrefl _))
  unfold hexdump
  rw [whileN_ended (Chunks.count_le chunk_pos count.toNat) hend]
  exact hlast

/-! ## the law of `hd` -/

/-- `n` bytes in chunks of 64 -/
structure Covered (n : Nat) (requests : List Nat) : Prop where
  length : requests.length = (n + 63) / 64
  sum : requests.sum = n
  full : ∀ j (h : j + 1 < requests.length), requests[j] = 64
  last : ∀ r ∈ requests, 1 ≤ r ∧ r ≤ 64

theorem covered_sizes (n : Nat) : Covered n (Chunks.sizes 64 n) := by
  have hlength : (Chunks.sizes 64 n).length = chunks n := by
    unfold Chunks.sizes
    rw [List.length_map, List.length_range]
  refine ⟨hlength, Chunks.sizes_sum chunk_pos n, fun j hj => ?_, fun r hr => ?_⟩
  · rw [hlength] at hj
    unfold Chunks.sizes
    rw [List.getElem_map, List.getElem_range]
    exact Chunks.size_full chunk_pos hj
  · obtain ⟨j, hj, rfl⟩ := List.mem_map.mp hr
    exact ⟨Chunks.size_pos chunk_pos (List.mem_range.mp hj), Chunks.size_le ..⟩

/-- the loop has ended, called only what the mode has, and if it has both operations has requested
the bytes and printed what it obtained -/
structure Dumps (exec : Exec) (bus : Bus) (ubtn : Nat → Bool) (count : UInt32) (s : Dump) :
    Prop where
  ends : s.more ubtn count = false
  provided : s.requests ≠ [] → exec.dump = true
  covered : exec.read = true → exec.dump = true →
    Covered count.toNat (s.requests.map UInt8.toNat)
  printed : exec.read = true → exec.dump = true →
    hexColumn s.out = (List.range s.requests.length).flatMap fun k =>
      if bus.status k = 0 then slice (bus.rx k) 0 (chunk count.toNat k) else []

/-- **A hex dump.**  It is as it should be exactly when there is nothing to dump, or the mode has
`dump`, or lacks `read`. -/
theorem dumps_iff (exec : Exec) (bus : Bus) (ubtn : Nat → Bool) (count : UInt32)
    (hu : ∀ k, ubtn k = false) :
    Dumps exec bus ubtn count (hexdump exec bus ubtn count) ↔
      count = 0 ∨ exec.dump = true ∨ exec.read = false := by
  have h := hexdump_chunked exec bus count hu
  have hlen : (hexdump exec bus ubtn count).requests.length =
      if exec.read then chunks count.toNat else 0 := by
    have := congrArg List.length h.requests
    rw [List.length_map] at this
    rw [this]
    split_ifs
    · rw [List.length_map, List.length_range]
    · rfl
  constructor
  · intro hd
    by_contra hnot
    simp only [not_or, Bool.not_eq_true, Bool.not_eq_false] at hnot
    obtain ⟨hcount, hdump, hread⟩ := hnot
    have hpos : 0 < count.toNat := Nat.pos_of_ne_zero fun h0 => hcount (UInt32.toNat_inj.mp h0)
    have hne : (hexdump exec bus ubtn count).requests ≠ [] := by
      intro hnil
      rw [hnil, if_pos hread] at hlen
      exact absurd hlen (Chunks.count_pos chunk_pos hpos).ne
    exact absurd (hd.provided hne) (by rw [hdump]; exact Bool.false_ne_true)
  · intro hcond
    refine ⟨(h.more hu).trans (decide_eq_false (Nat.lt_irrefl _)), fun hne => ?_, fun hread _ => ?_,
      fun hread _ => ?_⟩
    · rcases hcond with rfl | hdump | hread
      · refine absurd (List.length_eq_zero_iff.mp ?_) hne
        rw [hlen]
        split_ifs <;> rfl
      · exact hdump
      · rw [hread] at hlen
        exact absurd (List.length_eq_zero_iff.mp hlen) hne
    · rw [h.requests, if_pos hread]
      exact covered_sizes _
    · rw [h.out, hlen, if_pos hread, obtained]
      simp only [hread, true_and]

/-! ## the law of `read` -/

theorem fetched_eq (stream : Nat → UInt8) (pos : Nat) (sizes : List Nat) :
    fetched stream pos sizes = slice stream pos sizes.sum := by
  induction sizes generalizing pos with
  | nil => rfl
  | cons n sizes ih => rw [fetched, ih, List.sum_cons, slice_append]

/-- `read` obtains `n` bytes, in requests that fit `buffer_rx`, as `hd` does in a mode that has
both -/
structure ReadsAll (exec : Exec) (p : Line) (t n : Nat) : Prop where
  bytes : ∀ stream, fetched stream 0 (readRequests exec p t) = slice stream 0 n
  fits : ∀ r ∈ readRequests exec p t, r ≤ bufferSize
  same : exec.dump = true → ∀ (bus : Bus) (ubtn : Nat → Bool), (∀ k, ubtn k = false) → ∀ stream,
    fetched stream 0 (readRequests exec p t) =
      fetched stream 0 ((hydrabusModeHexdump exec bus ubtn p t).requests.map UInt8.toNat)

theorem slice_length_inj {m m' : Nat → UInt8} {n n' : Nat} (h : slice m 0 n = slice m' 0 n') :
    n = n' := by
  have := congrArg List.length h
  rwa [slice_length, slice_length] at this

/-- the bytes that `hd` obtains -/
theorem hexdump_sum (p : Line) (t : Nat) {n : Nat} (hn : readCount p t = n)
    (hread : exec.read = true) (hu : ∀ k, ubtn k = false) :
    ((hydrabusModeHexdump exec bus ubtn p t).requests.map UInt8.toNat).sum = n := by
  have hlt : n < 2 ^ 31 := by
    have hint : readCount p t < 2 ^ 31 := by
      unfold readCount
      split_ifs
      · exact p.hi _
      · decide
    omega
  have hcount : (UInt32.ofNat (hexdumpCount p.toParsed t).toNat).toNat = n := by
    have hsame : hexdumpCount p.toParsed t = readCount p t % 2 ^ 32 := by
      unfold hexdumpCount readCount
      split_ifs <;> rfl
    rw [hsame, hn, UInt32.toNat_ofNat']
    omega
  unfold hydrabusModeHexdump
  rw [(hexdump_chunked exec bus _ hu).requests, if_pos hread, hcount]
  exact Chunks.sizes_sum chunk_pos n

/-- **A counted read** obtains its bytes exactly when there are at most 255. -/
theorem readsAll_iff (exec : Exec) (p : Line) (t n : Nat) (hn : readCount p t = n) (hpos : 1 ≤ n) :
    ReadsAll exec p t n ↔ exec.read = true ∧ n ≤ 255 := by
  have hone : exec.read = true → readRequests exec p t = [n % 2 ^ 8] := fun hread => by
    unfold readRequests
    rw [if_pos hread, hn]
    congr 1
  constructor
  · intro h
    have hread : exec.read = true := by
      by_contra hno
      have hnone := h.bytes fun _ => 0
      rw [readRequests, if_neg hno, fetched_eq] at hnone
      exact absurd (slice_length_inj hnone) (by rw [List.sum_nil]; omega)
    have hbytes := h.bytes fun _ => 0
    rw [hone hread, fetched_eq, List.sum_singleton] at hbytes
    have := slice_length_inj hbytes
    exact ⟨hread, by omega⟩
  · rintro ⟨hread, hle⟩
    have hsize : n % 2 ^ 8 = n := Nat.mod_eq_of_lt (by omega)
    have hrequests := hone hread
    rw [hsize] at hrequests
    refine ⟨fun stream => ?_, fun r hr => ?_, fun _ bus ubtn hu stream => ?_⟩
    · rw [hrequests, fetched_eq, List.sum_singleton]
    · rw [hrequests, List.mem_singleton] at hr
      rw [hr]
      exact hle.trans (by decide)
    · rw [hrequests, fetched_eq, fetched_eq, hexdump_sum p t hn hread hu, List.sum_singleton]

end

/-- `read:255` -/
theorem readsAll_255 :
    let p := lineOf [⟨.read, none, rfl, Token.noConfusion⟩, wordSuffix 0] fun _ => 255
    ReadsAll ⟨true, true, true, true⟩ p 0 255 :=
  (readsAll_iff _ _ _ _ rfl (by decide)).mpr ⟨rfl, by decide⟩

/-- `read:256` obtains nothing -/
theorem read_256 :
    ¬ ∀ (exec : Exec) (p : Line) (t n : Nat), exec.read = true → readCount p t = n → 1 ≤ n →
      ReadsAll exec p t n := by
  intro hall
  let p := lineOf [⟨.read, none, rfl, Token.noConfusion⟩, wordSuffix 0] fun _ => 256
  have hbytes := (hall ⟨true, true, true, true⟩ p 0 256 rfl rfl (by decide)).bytes fun _ => 0
  rw [fetched_eq, show readRequests ⟨true, true, true, true⟩ p 0 = [0] from by decide] at hbytes
  exact absurd (slice_length_inj hbytes) (by decide)

/-- `mode_jtag_exec`: it has `read`, and no `dump` -/
def jtagExec : Exec := ⟨true, true, false, false⟩

def busQuiet : Bus := ⟨fun _ => 0, fun _ _ => 0, fun _ => 0⟩

/-- two chunks in a mode with both operations -/
theorem dumps_100 :
    Dumps ⟨true, true, true, true⟩ busQuiet (fun _ => false) 100
      (hexdump ⟨true, true, true, true⟩ busQuiet (fun _ => false) 100) :=
  (dumps_iff _ _ _ _ fun _ => rfl).mpr (.inr (.inl rfl))

/-- `hd` in the mode `jtag` calls the operation that is not there -/
theorem dump_of_jtag :
    ¬ ∀ (exec : Exec) (bus : Bus) (ubtn : Nat → Bool) (count : UInt32), (∀ k, ubtn k = false) →
      Dumps exec bus ubtn count (hexdump exec bus ubtn count) := by
  intro hall
  have hd := hall jtagExec busQuiet (fun _ => false) 1 fun _ => rfl
  have hcalled : (hexdump jtagExec busQuiet (fun _ => false) 1).requests = [1] := by decide
  exact absurd (hd.provided (by rw [hcalled]; exact List.cons_ne_nil _ _)) (by decide)

end Transfer
end Hydra
