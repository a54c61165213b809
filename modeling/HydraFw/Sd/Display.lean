import HydraFw.Console.Transfer

/-!
# Files on the console

`cmd_sd_cat` (`hydrabus_sd.c`), the command of `sd cat` and `sd hd`.

* `Disk`             the card, and what FatFs answers;
* `Cat`, `catLoop`   the loop over the blocks of the file;
* `cmdSdCat`         the command;
* `Displays`         the law: the bytes of the file, or its rows;
* `displays_iff`     `cat` keeps it, `hd` for files of at most 255 bytes: `print_hex` takes the
                     size of a block as `uint8_t`.
-/

namespace Hydra
namespace Sd
open Loops Rams Transfer

/-! ## the command -/

/-- what is printed -/
inductive Put where
  | bytes (data : List UInt8)
  /-- from `print_hex` -/
  | hex (out : Out)
  /-- `Mount failed: error %d.\r\n` -/
  | mountFailed (err : Nat)
  /-- `Failed to open file %s: error %d.\r\n` -/
  | openFailed (err : Nat)
  /-- `File is too big!\r\n` -/
  | tooBig
  /-- `Failed to read file: error %d.\r\n` -/
  | readFailed (err : Nat)

/-- the card: 0 is `FR_OK` -/
structure Disk where
  /-- what `mount` returns, if the file system is not ready -/
  mount : Nat
  opened : Nat
  file : List UInt8
  size_lt : file.length < 2 ^ 32
  /-- what the `k`-th `f_read` returns; it reads to the end of the file at most -/
  read : Nat → Nat
  /-- what is on the stack of `print_hex` -/
  junk : Nat → UInt8

def inOutBufSize : UInt32 := 2048

def maxFileSize : UInt32 := 524288

structure Cat where
  filelen : UInt32
  /-- where the file is read -/
  pos : Nat
  /-- how many times `f_read` has been called -/
  turns : Nat
  out : List Put
  /-- the loop has been left by a `break` -/
  left : Bool

section
variable (disk : Disk) (hex : Bool)

/-- the size of the next block -/
def Cat.cnt (s : Cat) : UInt32 := if s.filelen ≥ inOutBufSize then inOutBufSize else s.filelen

def Cat.less (s : Cat) : UInt32 := if s.filelen ≥ inOutBufSize then s.filelen - inOutBufSize else 0

def Cat.more (s : Cat) : Bool := !s.left && s.filelen ≠ 0

/-- a block; its size is passed to `print_hex` as `uint8_t` -/
def shown (block : List UInt8) : List Put :=
  if hex then (printHex disk.junk (block.take (block.length % 2 ^ 8))).map .hex
  else [.bytes block]

def Cat.pass (s : Cat) : Cat :=
  let err := disk.read s.turns
  let block := (disk.file.drop s.pos).take s.cnt.toNat
  if err ≠ 0 then
    { s with
      filelen := s.less
      turns := s.turns + 1
      out := s.out ++ [.readFailed err]
      left := true }
  else
    { filelen := s.less
      pos := s.pos + block.length
      turns := s.turns + 1
      out := if block = [] then s.out else s.out ++ shown disk hex block
      left := block = [] }

def catStart : Cat := ⟨UInt32.ofNat disk.file.length, 0, 0, [], false⟩

/-- each pass takes from the length -/
def catLoop : Cat :=
  whileN Cat.more (Cat.pass disk hex) (catStart disk).filelen.toNat (catStart disk)

/-- what is printed, and what is returned; `argument` is whether the line is as it should be -/
def cmdSdCat (argument : Bool) : List Put × Bool :=
  if ¬ argument then ([], false)
  else if disk.mount ≠ 0 then ([.mountFailed disk.mount], false)
  else if disk.opened ≠ 0 then ([.openFailed disk.opened], false)
  else if (catStart disk).filelen > maxFileSize then ([.tooBig], false)
  else ((catLoop disk hex).out ++ if hex then [] else [.bytes [0x0D, 0x0A]], true)

end

/-! ## the law -/

/-- the file is there, and FatFs reads it -/
structure Disk.Healthy (disk : Disk) : Prop where
  mount : disk.mount = 0
  opened : disk.opened = 0
  read : ∀ k, disk.read k = 0

def Put.raw : Put → List UInt8
  | .bytes data => data
  | _ => []

/-- the rows of a hex dump, each with its bytes and its text, and the bytes behind the last row;
`row` are the bytes of the row so far -/
def rows (row : List UInt8) : List Out → List (List UInt8 × List UInt8) × List UInt8
  | [] => ([], row)
  | .hex b :: out => rows (row ++ [b]) out
  | .row ascii :: out => ((row, ascii) :: (rows [] out).1, (rows [] out).2)
  | _ :: out => rows row out

/-- the bytes of the file once and in order, each in a row with its characters -/
structure Dumped (file : List UInt8) (out : List Out) : Prop where
  bytes : hexColumn out = file
  matched : ∀ r ∈ (rows [] out).1, r.2 = r.1.map printable
  last : (rows [] out).2 = []

structure Displays (disk : Disk) (hex : Bool) (put : List Put) : Prop where
  cat : hex = false → (∀ o ∈ put, ∃ data, o = .bytes data) ∧
    put.flatMap Put.raw = disk.file ++ [0x0D, 0x0A]
  hd : hex = true → ∃ out : List Out, put = out.map .hex ∧ Dumped disk.file out
  ends : (catLoop disk hex).more = false

/-! ## the rows of `print_hex` -/

section
variable {size i : Nat} {ascii : Nat → UInt8} {row data : List UInt8} {out : List Out}

theorem rows_texts (texts : List String) (row : List UInt8) (out : List Out) :
    rows row (texts.map .text ++ out) = rows row out := by
  induction texts with
  | nil => rfl
  | cons s texts ih => exact ih

/-- a row and its characters -/
structure Matches (r : List (List UInt8 × List UInt8) × List UInt8) : Prop where
  matched : ∀ x ∈ r.1, x.2 = x.1.map printable
  last : r.2 = []

theorem matches_printFrom (hdata : data ≠ []) (hsize : i + data.length = size)
    (h16 : ascii 16 = 0) (hchars : ∀ k < i % 16, ascii k ≠ 0)
    (hrow : slice ascii 0 (i % 16) = row.map printable) :
    Matches (rows row (printFrom size i ascii data)) := by
  induction data generalizing i ascii row with
  | nil => exact absurd rfl hdata
  | cons b data ih =>
    have hmod : i % 16 < 16 := Nat.mod_lt _ (by decide)
    let ascii' := Function.update ascii (i % 16) (printable b)
    have h16' : ascii' 16 = 0 := by
      unfold ascii'
      rwa [Function.update_of_ne (by omega)]
    have hchars' : ∀ k ≤ i % 16, ascii' k ≠ 0 := by
      intro k hk
      unfold ascii'
      rcases Nat.lt_or_eq_of_le hk with hlt | rfl
      · rw [Function.update_of_ne hlt.ne]
        exact hchars k hlt
      · rw [Function.update_self]
        exact printable_ne b
    have hrow' : slice ascii' 0 (i % 16 + 1) = (row ++ [b]).map printable := by
      rw [slice_update, hrow, List.map_append]
      rfl
    obtain ⟨texts, hshape⟩ := rowEnd_shape size h16' hchars'
    show Matches (rows (row ++ [b]) (rowEnd size i ascii' ++ printFrom size (i + 1) ascii' data))
    rw [hshape, List.append_assoc, rows_texts]
    rw [List.length_cons] at hsize
    by_cases hend : (i + 1) % 16 = 0 ∨ i + 1 = size
    · -- the row is complete
      rw [if_pos hend, hrow', List.singleton_append]
      have hrest : Matches (rows [] (printFrom size (i + 1) ascii' data)) := by
        cases data with
        | nil => exact ⟨fun x hx => absurd hx List.not_mem_nil, rfl⟩
        | cons c data =>
          rw [List.length_cons] at hsize
          have hfull : (i + 1) % 16 = 0 := hend.resolve_right (by omega)
          refine ih (List.cons_ne_nil _ _) (by rw [List.length_cons]; omega) h16' ?_ ?_
          · rw [hfull]
            exact fun k hk => absurd hk (Nat.not_lt_zero k)
          · rw [hfull]
            rfl
      refine ⟨fun x hx => ?_, hrest.last⟩
      rcases List.mem_cons.mp hx with rfl | hx
      · rfl
      · exact hrest.matched x hx
    · obtain ⟨hopen, hmore⟩ := not_or.mp hend
      have hnext : (i + 1) % 16 = i % 16 + 1 := by omega
      rw [if_neg hend, List.nil_append]
      refine ih ?_ (by omega) h16' ?_ ?_
      · rintro rfl
        exact hmore hsize
      · rw [hnext]
        exact fun k hk => hchars' k (Nat.le_of_lt_succ hk)
      · rw [hnext]
        exact hrow'

/-- `print_hex` prints its bytes as it should -/
theorem dumped_printHex (junk : Nat → UInt8) (data : List UInt8) :
    Dumped data (printHex junk data) := by
  have hmatches : Matches (rows [] (printHex junk data)) := by
    cases data with
    | nil => exact ⟨fun x hx => absurd hx List.not_mem_nil, rfl⟩
    | cons b data =>
      exact matches_printFrom (List.cons_ne_nil _ _) (Nat.zero_add _) (Function.update_self ..)
        (fun k hk => absurd hk (Nat.not_lt_zero k)) rfl
  exact ⟨hexColumn_printHex junk data, hmatches.matched, hmatches.last⟩

end
/-! ## the loop over the blocks -/

theorem block_pos : 0 < 2048 := Nat.succ_pos _

section
variable {disk : Disk} {hex : Bool} {s : Cat} {rest : List UInt8} {n : Nat}

/-- between two passes, with `rest` of the file to go -/
structure Reading (disk : Disk) (s : Cat) (rest : List UInt8) : Prop where
  going : s.left = false
  filelen : s.filelen.toNat = rest.length
  drop : disk.file.drop s.pos = rest

theorem Reading.more (h : Reading disk s rest) : s.more = true ↔ rest ≠ [] := by
  have hzero : s.filelen ≠ 0 ↔ rest ≠ [] := by
    rw [← List.length_pos_iff_ne_nil, ← h.filelen, Nat.pos_iff_ne_zero]
    exact not_congr ⟨fun h => by rw [h]; rfl, fun h => UInt32.toNat_inj.mp h⟩
  unfold Cat.more
  rw [h.going, ← hzero]
  simp

theorem cnt_toNat (s : Cat) : s.cnt.toNat = min 2048 s.filelen.toNat := by
  have hblock : inOutBufSize.toNat = 2048 := rfl
  unfold Cat.cnt
  split_ifs with hbig
  · have hle := UInt32.le_iff_toNat_le.mp hbig
    omega
  · have hlt : ¬ 2048 ≤ s.filelen.toNat := fun hle => hbig (UInt32.le_iff_toNat_le.mpr hle)
    omega

theorem less_toNat (s : Cat) : s.less.toNat = s.filelen.toNat - 2048 := by
  unfold Cat.less
  split_ifs with hbig
  · rw [UInt32.toNat_sub_of_le _ _ hbig]
    rfl
  · have hlt : ¬ 2048 ≤ s.filelen.toNat := fun hle => hbig (UInt32.le_iff_toNat_le.mpr hle)
    rw [Nat.sub_eq_zero_of_le (by omega)]
    rfl

theorem Reading.pass (h : Reading disk s rest) (hd : disk.Healthy) (hne : rest ≠ []) :
    Reading disk (s.pass disk hex) (rest.drop 2048) ∧
      (s.pass disk hex).out = s.out ++ shown disk hex (rest.take 2048) := by
  have hpos := List.length_pos_of_ne_nil hne
  have htake : rest.take s.cnt.toNat = rest.take 2048 := by
    rw [cnt_toNat, h.filelen]
    rcases Nat.le_total 2048 rest.length with hle | hle
    · rw [Nat.min_eq_left hle]
    · rw [Nat.min_eq_right hle, List.take_length, List.take_of_length_le hle]
  have hlength : (rest.take 2048).length = min 2048 rest.length := List.length_take
  have hsome : rest.take 2048 ≠ [] := by
    rw [← List.length_pos_iff_ne_nil]
    omega
  have hpass : s.pass disk hex = ⟨s.less, s.pos + (rest.take 2048).length, s.turns + 1,
      s.out ++ shown disk hex (rest.take 2048), false⟩ := by
    unfold Cat.pass
    simp only [hd.read, h.drop, htake, if_neg hsome, decide_eq_false hsome]
    rfl
  rw [hpass]
  refine ⟨⟨rfl, ?_, ?_⟩, rfl⟩
  · rw [List.length_drop, ← h.filelen]
    exact less_toNat s
  · show disk.file.drop (s.pos + (rest.take 2048).length) = _
    rw [← List.drop_drop, h.drop, hlength]
    rcases Nat.le_total 2048 rest.length with hle | hle
    · rw [Nat.min_eq_left hle]
    · rw [Nat.min_eq_right hle, List.drop_length, List.drop_eq_nil_iff.mpr hle]

/-- the loop prints the blocks of what is left -/
theorem Reading.run (hd : disk.Healthy) (rest : List UInt8) :
    ∀ s n, Reading disk s rest → rest.length ≤ n →
      (whileN Cat.more (Cat.pass disk hex) n s).out =
        s.out ++ (Chunks.blocks 2048 block_pos rest).flatMap (shown disk hex) := by
  induction rest using Chunks.blocks.induct 2048 block_pos with
  | case1 =>
    intro s n h _
    have hdone : s.more = false := Bool.eq_false_iff.mpr fun hm => h.more.mp hm rfl
    rw [whileN_done hdone, Chunks.blocks_nil]
    exact (List.append_nil _).symm
  | case2 rest hne ih =>
    intro s n h hn
    have hpos := List.length_pos_of_ne_nil hne
    obtain ⟨n, rfl⟩ := Nat.exists_eq_succ_of_ne_zero (by omega : n ≠ 0)
    obtain ⟨hnext, hout⟩ := h.pass hd hne
    rw [whileN_pass (h.more.mpr hne), ih _ n hnext (by rw [List.length_drop]; omega), hout,
      Chunks.blocks_cons _ hne, List.flatMap_cons, List.append_assoc]

theorem catLoop_out (hd : disk.Healthy) : (catLoop disk hex).out =
    (Chunks.blocks 2048 block_pos disk.file).flatMap (shown disk hex) := by
  have hsize : (catStart disk).filelen.toNat = disk.file.length :=
    UInt32.toNat_ofNat_of_lt' disk.size_lt
  exact Reading.run hd disk.file (catStart disk) _ ⟨rfl, hsize, rfl⟩ (Nat.le_of_eq hsize.symm)

theorem pass_filelen (disk : Disk) (hex : Bool) (s : Cat) :
    (s.pass disk hex).filelen = s.less := by
  unfold Cat.pass
  dsimp only
  split_ifs <;> rfl

theorem catLoop_ends (disk : Disk) (hex : Bool) : (catLoop disk hex).more = false := by
  refine whileN_measure (fun s : Cat => s.filelen.toNat) (fun s hs => ?_) (Nat.le_refl _)
  have hne : s.filelen ≠ 0 := by
    unfold Cat.more at hs
    exact of_decide_eq_true (Bool.and_eq_true_iff.mp hs).2
  have hpos : 0 < s.filelen.toNat := Nat.pos_of_ne_zero fun hz => hne (UInt32.toNat_inj.mp hz)
  rw [pass_filelen, less_toNat]
  omega

/-! ## the law of the command -/

def Put.hexByte : Put → List UInt8
  | .hex (.hex b) => [b]
  | _ => []

/-- how many bytes are printed in hexadecimal -/
def hexCount (put : List Put) : Nat := (put.flatMap Put.hexByte).length

theorem hexCount_append (x y : List Put) : hexCount (x ++ y) = hexCount x + hexCount y := by
  unfold hexCount
  rw [List.flatMap_append, List.length_append]

theorem hexCount_hex (out : List Out) : hexCount (out.map .hex) = (hexColumn out).length := by
  induction out with
  | nil => rfl
  | cons o out ih =>
    have hcons : hexCount ((o :: out).map .hex) = hexCount [.hex o] + hexCount (out.map .hex) :=
      hexCount_append [.hex o] _
    have hcolumn : hexColumn (o :: out) = hexColumn [o] ++ hexColumn out :=
      hexColumn_append [o] out
    rw [hcons, hcolumn, ih, List.length_append]
    cases o <;> rfl

/-- of each block as many bytes are printed as its size says modulo 256 -/
theorem hexCount_shown (disk : Disk) (block : List UInt8) :
    hexCount (shown disk true block) = block.length % 2 ^ 8 := by
  show hexCount ((printHex disk.junk _).map .hex) = _
  rw [hexCount_hex, hexColumn_printHex, List.length_take]
  exact Nat.min_eq_left (Nat.mod_le _ _)

theorem hexCount_blocks (disk : Disk) (file : List UInt8) :
    hexCount ((Chunks.blocks 2048 block_pos file).flatMap (shown disk true)) =
      file.length % 2 ^ 8 := by
  induction file using Chunks.blocks.induct 2048 block_pos with
  | case1 =>
    rw [Chunks.blocks_nil]
    rfl
  | case2 file hne ih =>
    rw [Chunks.blocks_cons _ hne, List.flatMap_cons, hexCount_append, hexCount_shown, ih,
      List.length_take, List.length_drop]
    omega

theorem raw_blocks (blocks : List (List UInt8)) :
    (blocks.flatMap (shown disk false)).flatMap Put.raw = blocks.flatten := by
  induction blocks with
  | nil => rfl
  | cons block blocks ih =>
    rw [List.flatMap_cons, List.flatMap_append, ih, List.flatten_cons]
    exact congrArg (· ++ blocks.flatten) (List.append_nil block)

/-- what the command prints of a file that is not too big -/
theorem cmdSdCat_out (hd : disk.Healthy) (hsize : disk.file.length ≤ 524288) :
    (cmdSdCat disk hex true).1 =
      (Chunks.blocks 2048 block_pos disk.file).flatMap (shown disk hex) ++
        if hex then [] else [.bytes [0x0D, 0x0A]] := by
  have hfits : ¬ (catStart disk).filelen > maxFileSize := by
    have hlen : (catStart disk).filelen.toNat = disk.file.length :=
      UInt32.toNat_ofNat_of_lt' disk.size_lt
    refine fun hbig => absurd (UInt32.lt_iff_toNat_lt.mp hbig) ?_
    rw [hlen]
    exact Nat.not_lt_of_le hsize
  unfold cmdSdCat
  rw [if_neg (not_not.mpr rfl), if_neg (not_not.mpr hd.mount), if_neg (not_not.mpr hd.opened),
    if_neg hfits, ← catLoop_out hd]

/-- **A file on the console.**  `sd cat` shows every file, `sd hd` those of at most 255 bytes. -/
theorem displays_iff (disk : Disk) (hex : Bool) (hd : disk.Healthy)
    (hsize : disk.file.length ≤ 524288) :
    Displays disk hex (cmdSdCat disk hex true).1 ↔ hex = false ∨ disk.file.length ≤ 255 := by
  rw [cmdSdCat_out hd hsize]
  constructor
  · intro h
    cases hex with
    | false => exact .inl rfl
    | true =>
      obtain ⟨out, hout, hdumped⟩ := h.hd rfl
      have hcount := congrArg hexCount hout
      rw [if_pos rfl, List.append_nil, hexCount_blocks, hexCount_hex, hdumped.bytes] at hcount
      exact .inr (by omega)
  · intro h
    refine ⟨fun hcat => ?_, fun hhd => ?_, catLoop_ends disk hex⟩
    · subst hcat
      refine ⟨fun o ho => ?_, ?_⟩
      · rcases List.mem_append.mp ho with ho | ho
        · obtain ⟨block, -, ho⟩ := List.mem_flatMap.mp ho
          exact ⟨block, List.mem_singleton.mp ho⟩
        · exact ⟨_, List.mem_singleton.mp ho⟩
      · rw [List.flatMap_append, raw_blocks, Chunks.flatten_blocks]
        rfl
    · subst hhd
      have hshort := h.resolve_left Bool.noConfusion
      refine ⟨printHex disk.junk disk.file, ?_, dumped_printHex _ _⟩
      rw [if_pos rfl, List.append_nil]
      by_cases hempty : disk.file = []
      · rw [hempty, Chunks.blocks_nil]
        rfl
      · rw [Chunks.blocks_short _ hempty (by omega), List.flatMap_singleton]
        have hwhole : disk.file.take (disk.file.length % 2 ^ 8) = disk.file := by
          rw [Nat.mod_eq_of_lt (by omega), List.take_length]
        show (printHex disk.junk (disk.file.take (disk.file.length % 2 ^ 8))).map Put.hex = _
        rw [hwhole]

end

/-- a file of three bytes -/
def threeBytes : Disk := ⟨0, 0, [0x41, 0x00, 0x42], by decide, fun _ => 0, fun _ => 0⟩

theorem threeBytes_healthy : threeBytes.Healthy := ⟨rfl, rfl, fun _ => rfl⟩

theorem displays_three : Displays threeBytes true (cmdSdCat threeBytes true true).1 :=
  (displays_iff threeBytes true threeBytes_healthy (by decide)).mpr (.inr (by decide))

/-- of a file of 256 bytes nothing is printed -/
theorem hd_256 : ¬ ∀ (disk : Disk) (hex : Bool), disk.Healthy → disk.file.length ≤ 524288 →
    Displays disk hex (cmdSdCat disk hex true).1 := by
  intro hall
  have hlength : (List.replicate 256 (0 : UInt8)).length = 256 := List.length_replicate
  let disk : Disk := ⟨0, 0, List.replicate 256 0, by rw [hlength]; decide, fun _ => 0, fun _ => 0⟩
  have hd : disk.Healthy := ⟨rfl, rfl, fun _ => rfl⟩
  have hsize : disk.file.length ≤ 524288 := by
    rw [show disk.file.length = 256 from hlength]
    decide
  obtain ⟨out, hout, hdumped⟩ := (hall disk true hd hsize).hd rfl
  have hcount := congrArg hexCount hout
  rw [cmdSdCat_out hd hsize, if_pos rfl, List.append_nil, hexCount_blocks, hexCount_hex,
    hdumped.bytes, show disk.file.length = 256 from hlength] at hcount
  exact absurd hcount (by decide)

end Sd
end Hydra
