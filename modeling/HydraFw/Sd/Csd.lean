import Mathlib.Algebra.Order.Ring.Nat
import Mathlib.Data.BitVec

/-!
# The CSD register

`cmd_show_sd_csd` (`hydrabus_sd.c`), and the copy of the register that `cmd_show_sd` gives it.

* `mulInt`, `entry`    a product of `int`s and an entry of a table, which may fail;
* `cmdShowSdCsd`       the lines that are printed;
* `capacity`           what the specification says of the capacity;
* `Decodes`            the law: no failure, and that capacity in MiB;
* `shown_iff`          it holds for an original without a format group, of less than 2 GiB.
-/

namespace Hydra
namespace Csd

inductive Failure where
  /-- a product that is no 32-bit `int` -/
  | overflow
  /-- an index behind the end of its table -/
  | outOfBounds
  deriving DecidableEq

/-- of two numbers that are not negative -/
def mulInt (a b : Nat) : Except Failure Nat :=
  if a * b < 2 ^ 31 then .ok (a * b) else .error .overflow

def entry {α : Type} (table : List α) (i : Nat) : Except Failure α :=
  match table[i]? with
  | some x => .ok x
  | none => .error .outOfBounds

structure Line where
  label : String
  text : String

/-- `%02x` -/
def hex02 (n : Nat) : String :=
  let digits := Nat.toDigits 16 n
  String.ofList (List.replicate (2 - digits.length) '0' ++ digits)

def yesNo (b : Bool) : String := if b then "yes\r\n" else "no\r\n"

def taacMul : List Nat := [1, 10, 100]

def tranMul : List Nat := [10, 100, 1000, 10000]

def tranVal : List Nat := [0, 10, 12, 13, 15, 20, 25, 30, 35, 40, 45, 50, 55, 60, 70, 80]

def fileSystems : List String := ["Partition table", "Boot record", "Universal", "Other"]

def writeProtected : List String := ["no", "temporarily", "permanently", "definitely"]

/-! ## the lines -/

section
variable (csd : Fin 16 → Nat)

def csdVer : Nat := csd 0 >>> 6

def blockLen : Nat :=
  let tmp := csd 5 &&& 0x0f
  if tmp < 9 ∨ tmp > 11 then 0 else 1 <<< tmp

def capacityMiB : Except Failure Nat :=
  if csdVer csd = 0 then do
    let tmp := ((csd 6 &&& 0x03) <<< 10) + (csd 7 <<< 2) + (csd 8 >>> 6)
    let mul := 1 <<< ((((csd 9 &&& 0x03) <<< 1) + (csd 10 >>> 7)) + 2)
    let blocks ← mulInt (tmp + 1) mul
    let bytes ← mulInt blocks (blockLen csd)
    return bytes / 1024 / 1024
  else
    let tmp := ((csd 7 &&& 0x3f) <<< 16) + (csd 8 <<< 8) + csd 9
    return (tmp + 1) / 2

def taac : Except Failure String := do
  let mul := csd 1 &&& 0x07
  let (suffix, mul) :=
    if mul < 3 then ("ns", mul) else if mul < 6 then ("us", mul - 3) else ("ms", mul - 6)
  let val := (csd 1 &&& 0x78) >>> 3
  let factor ← entry taacMul mul
  let time ← mulInt val factor
  return toString time ++ " " ++ suffix ++ "\r\n"

def nsac : Except Failure (List Line) :=
  if csdVer csd = 0 ∧ csd 2 ≠ 0 then do
    let cycles ← mulInt 100 (csd 2)
    return [⟨"NSAC", toString cycles ++ " clock cycles\r\n"⟩]
  else return []

def transferRate : Except Failure String :=
  let mul := csd 3 &&& 0x07
  let val := (csd 3 >>> 3) &&& 0x0f
  if mul > 3 ∨ val = 0 then return "Invalid (" ++ hex02 (csd 3) ++ ")"
  else do
    let value ← entry tranVal val
    let factor ← entry tranMul mul
    let speed ← mulInt value factor
    let speed := if mul ≠ 0 then speed / 1000 else speed
    return toString speed ++ " " ++ (if mul ≠ 0 then "M" else "K") ++ "bit/s\r\n"

def commandClasses : String :=
  let tmp := (csd 4 <<< 4) + (csd 5 >>> 4)
  let classes := (List.range 12).filter fun i => tmp &&& (1 <<< i) ≠ 0
  String.join (classes.map fun i => toString i ++ " ") ++ "\r\n"

def readBlockLength : String :=
  if blockLen csd ≠ 0 then toString (blockLen csd) ++ " bytes\r\n"
  else "Invalid (" ++ hex02 (csd 3) ++ ")\r\n"

def writeBlockLength : String :=
  let size := 1 <<< (((csd 12 &&& 0x03) <<< 2) + (csd 13 >>> 6))
  toString size ++ " bytes\r\n"

def readWriteFactor : String :=
  let tmp := (csd 12 >>> 2) &&& 0x07
  if tmp > 5 then "invalid (" ++ hex02 tmp ++ ")\r\n" else toString (1 <<< tmp) ++ "\r\n"

def eraseSectorSize : Nat := ((csd 10 &&& 0x3f) <<< 1) + (csd 11 >>> 7) + 1

def minimumEraseSize : Nat := if csd 10 &&& 0x40 ≠ 0 then 512 else eraseSectorSize csd

def writeProtectPossible : String :=
  if csd 12 &&& 0x80 ≠ 0 then
    "yes (group size " ++ toString ((csd 11 &&& 0x7f) + 1) ++ " bytes)\r\n"
  else "no\r\n"

def writeProtectedText : Except Failure String := do
  let text ← entry writeProtected (csd 14 >>> 4)
  return text ++ "\r\n"

/-- a set `FILE_FORMAT_GRP` is reserved -/
def format : Except Failure (List Line) :=
  if csdVer csd = 0 ∧ csd 14 &&& 0x80 = 0 then do
    let text ← entry fileSystems ((csd 14 &&& 0x0c) >>> 2)
    return [⟨"Format", text ++ "\r\n"⟩]
  else return []

def capacityLine (size : Nat) : Line := ⟨"Capacity", toString size ++ " MiB\r\n"⟩

def cmdShowSdCsd : Except Failure (List Line) := do
  let size ← capacityMiB csd
  let taac ← taac csd
  let nsac ← nsac csd
  let rate ← transferRate csd
  let protectedText ← writeProtectedText csd
  let format ← format csd
  return [capacityLine size,
      ⟨"Capacity class",
        (if csdVer csd ≠ 0 then "HC (High" else "SC (Standard") ++ " capacity)\r\n"⟩,
      ⟨"TAAC", taac⟩] ++ nsac ++
    [⟨"Data transfer rate", rate⟩,
      ⟨"Command classes", commandClasses csd⟩,
      ⟨"Read block length", readBlockLength csd⟩,
      ⟨"Write block length", writeBlockLength csd⟩,
      ⟨"Partial block reads", yesNo (csd 6 &&& 0x80 ≠ 0)⟩,
      ⟨"Partial block writes", yesNo (csd 13 &&& 0x20 ≠ 0)⟩,
      ⟨"Read-write factor", readWriteFactor csd⟩,
      ⟨"Misaligned block writes", yesNo (csd 6 &&& 0x40 ≠ 0)⟩,
      ⟨"Misaligned block reads", yesNo (csd 6 &&& 0x20 ≠ 0)⟩,
      ⟨"Contents copied", yesNo (csd 14 &&& 0x40 ≠ 0)⟩,
      ⟨"Erase sector size", toString (eraseSectorSize csd) ++ " bytes\r\n"⟩,
      ⟨"Minimum erase size", toString (minimumEraseSize csd) ++ " bytes\r\n"⟩,
      ⟨"Write-protect possible", writeProtectPossible csd⟩,
      ⟨"write-protected", protectedText⟩] ++ format ++
    [⟨"Driver stage register", yesNo (csd 6 &&& 0x10 ≠ 0)⟩]

end

/-- `buf`: the register has its last byte first in memory -/
def copied (reg : BitVec 128) (i : Fin 16) : Nat := (reg.extractLsb' (8 * (15 - i.val)) 8).toNat

/-! ## the law -/

/-- the bits `[lo + len - 1 : lo]` of the register -/
def field (reg : BitVec 128) (lo len : Nat) : Nat := (reg.extractLsb' lo len).toNat

/-- `(C_SIZE + 1) * 2 ^ (C_SIZE_MULT + 2)` -/
def blocks (reg : BitVec 128) : Nat := (field reg 62 12 + 1) * 2 ^ (field reg 47 3 + 2)

/-- the bytes that the specification gives a card: `C_SIZE`, `C_SIZE_MULT` and `READ_BL_LEN` in
version 1, `C_SIZE` in version 2; nothing for what is reserved -/
def capacity (reg : BitVec 128) : Option Nat :=
  if field reg 126 2 = 0 ∧ 9 ≤ field reg 80 4 ∧ field reg 80 4 ≤ 11 then
    some (blocks reg * 2 ^ field reg 80 4)
  else if field reg 126 2 = 1 then some ((field reg 48 22 + 1) * (512 * 1024))
  else none

def Decodes (reg : BitVec 128) : Prop :=
  ∃ lines, cmdShowSdCsd (copied reg) = .ok lines ∧
    ∀ bytes ∈ capacity reg, lines.head? = some (capacityLine (bytes / 2 ^ 20))

/-- no bit of `COPY` and `FILE_FORMAT_GRP`, and a version 1 card of less than 2 GiB -/
structure Cond (reg : BitVec 128) : Prop where
  original : field reg 14 2 = 0
  small : field reg 126 2 = 0 → ∀ bytes ∈ capacity reg, bytes < 2 ^ 31

/-! ## failures -/

theorem bind_ok {α β : Type} {x : Except Failure α} {f : α → Except Failure β} {b : β} :
    x >>= f = .ok b ↔ ∃ a, x = .ok a ∧ f a = .ok b := by
  cases x with
  | error e =>
    constructor
    · intro h
      cases h
    · rintro ⟨a, h, -⟩
      cases h
  | ok a =>
    constructor
    · intro h
      exact ⟨a, rfl, h⟩
    · rintro ⟨a', h, hf⟩
      cases h
      exact hf

theorem mulInt_ok {a b c : Nat} : mulInt a b = .ok c ↔ a * b < 2 ^ 31 ∧ a * b = c := by
  rw [mulInt]
  split
  · next h => simp only [h, true_and, Except.ok.injEq]
  · next h => simp only [h, false_and, reduceCtorEq]

theorem entry_ok {α : Type} {table : List α} {i : Nat} {x : α} :
    entry table i = .ok x ↔ table[i]? = some x := by
  rw [entry]
  split
  · next h => rw [h, Except.ok.injEq, Option.some.injEq]
  · next h => simp only [h, reduceCtorEq]

theorem mulInt_small {a b : Nat} (h : a * b < 2 ^ 31) : mulInt a b = .ok (a * b) := if_pos h

theorem entry_lt {α : Type} {table : List α} {i : Nat} (h : i < table.length) :
    ∃ x ∈ table, entry table i = .ok x :=
  ⟨table[i], List.getElem_mem h, entry_ok.mpr (List.getElem?_eq_getElem h)⟩

/-! ## bits -/

section
variable (reg : BitVec 128)

theorem copied_eq (i : Fin 16) : copied reg i = reg.toNat / 2 ^ (8 * (15 - i.val)) % 2 ^ 8 := by
  rw [copied, BitVec.extractLsb'_toNat, Nat.shiftRight_eq_div_pow]

theorem field_eq (lo len : Nat) : field reg lo len = reg.toNat / 2 ^ lo % 2 ^ len := by
  rw [field, BitVec.extractLsb'_toNat, Nat.shiftRight_eq_div_pow]

theorem copied_lt (i : Fin 16) : copied reg i < 256 := by
  rw [copied_eq]
  exact Nat.mod_lt _ (by decide)

/-- what stands above bit `lo` of the register -/
theorem div_above {lo hi : Nat} (h : lo ≤ hi) :
    reg.toNat / 2 ^ hi = reg.toNat / 2 ^ lo / 2 ^ (hi - lo) := by
  rw [Nat.div_div_eq_div_mul, ← Nat.pow_add, Nat.add_sub_cancel' h]

theorem csdVer_eq : csdVer (copied reg) = field reg 126 2 := by
  have h126 := div_above reg (show 120 ≤ 126 by decide)
  rw [csdVer, copied_eq, field_eq, Nat.shiftRight_eq_div_pow, h126]
  show reg.toNat / 2 ^ 120 % 2 ^ 8 / 2 ^ 6 = _
  omega

theorem cSize_eq : ((copied reg 6 &&& 0x03) <<< 10) + (copied reg 7 <<< 2) + (copied reg 8 >>> 6) =
    field reg 62 12 := by
  have h72 := div_above reg (show 56 ≤ 72 by decide)
  have h64 := div_above reg (show 56 ≤ 64 by decide)
  have h62 := div_above reg (show 56 ≤ 62 by decide)
  rw [copied_eq, copied_eq, copied_eq, field_eq, Nat.shiftRight_eq_div_pow, Nat.shiftLeft_eq,
    Nat.shiftLeft_eq, show (0x03 : Nat) = 2 ^ 2 - 1 from rfl, Nat.and_two_pow_sub_one_eq_mod, h62]
  show reg.toNat / 2 ^ 72 % 2 ^ 8 % 2 ^ 2 * 2 ^ 10 + reg.toNat / 2 ^ 64 % 2 ^ 8 * 2 ^ 2 +
    reg.toNat / 2 ^ 56 % 2 ^ 8 / 2 ^ 6 = _
  rw [h72, h64]
  omega

theorem cSizeMult_eq : ((copied reg 9 &&& 0x03) <<< 1) + (copied reg 10 >>> 7) =
    field reg 47 3 := by
  have h48 := div_above reg (show 40 ≤ 48 by decide)
  have h47 := div_above reg (show 40 ≤ 47 by decide)
  rw [copied_eq, copied_eq, field_eq, Nat.shiftRight_eq_div_pow, Nat.shiftLeft_eq,
    show (0x03 : Nat) = 2 ^ 2 - 1 from rfl, Nat.and_two_pow_sub_one_eq_mod, h47]
  show reg.toNat / 2 ^ 48 % 2 ^ 8 % 2 ^ 2 * 2 ^ 1 + reg.toNat / 2 ^ 40 % 2 ^ 8 / 2 ^ 7 = _
  rw [h48]
  omega

theorem readBlLen_eq : copied reg 5 &&& 0x0f = field reg 80 4 := by
  rw [copied_eq, field_eq]
  show reg.toNat / 2 ^ 80 % 2 ^ 8 &&& 2 ^ 4 - 1 = _
  rw [Nat.and_two_pow_sub_one_eq_mod]
  omega

theorem cSize2_eq : ((copied reg 7 &&& 0x3f) <<< 16) + (copied reg 8 <<< 8) + copied reg 9 =
    field reg 48 22 := by
  have h64 := div_above reg (show 48 ≤ 64 by decide)
  have h56 := div_above reg (show 48 ≤ 56 by decide)
  rw [copied_eq, copied_eq, copied_eq, field_eq, Nat.shiftLeft_eq, Nat.shiftLeft_eq,
    show (0x3f : Nat) = 2 ^ 6 - 1 from rfl, Nat.and_two_pow_sub_one_eq_mod]
  show reg.toNat / 2 ^ 64 % 2 ^ 8 % 2 ^ 6 * 2 ^ 16 + reg.toNat / 2 ^ 56 % 2 ^ 8 * 2 ^ 8 +
    reg.toNat / 2 ^ 48 % 2 ^ 8 = _
  rw [h64, h56]
  omega

theorem copyGroup_eq : copied reg 14 >>> 4 < 4 ↔ field reg 14 2 = 0 := by
  have h14 := div_above reg (show 8 ≤ 14 by decide)
  rw [copied_eq, field_eq, Nat.shiftRight_eq_div_pow, h14]
  show reg.toNat / 2 ^ 8 % 2 ^ 8 / 2 ^ 4 < 4 ↔ _
  omega

end

/-! ## the lines that never fail -/

section
variable (reg : BitVec 128)

theorem taac_total : ∃ text, taac (copied reg) = .ok text := by
  have hmul : copied reg 1 &&& 0x07 ≤ 7 := Nat.and_le_right
  have hval : (copied reg 1 &&& 0x78) >>> 3 ≤ 15 := by
    rw [Nat.shiftRight_eq_div_pow]
    have hle : copied reg 1 &&& 0x78 ≤ 0x78 := Nat.and_le_right
    omega
  have hfactor : ∀ {suffix : String} {mul : Nat}, mul < 3 → ∃ text, (do
      let factor ← entry taacMul mul
      let time ← mulInt ((copied reg 1 &&& 0x78) >>> 3) factor
      return toString time ++ " " ++ suffix ++ "\r\n" : Except Failure String) = .ok text := by
    intro suffix mul h
    obtain ⟨factor, hmem, hentry⟩ := @entry_lt _ taacMul _ h
    have hle : ∀ x ∈ taacMul, x ≤ 100 := by decide
    have hbound := Nat.mul_le_mul hval (hle factor hmem)
    rw [hentry]
    show ∃ text, (mulInt _ factor >>= _) = .ok text
    rw [mulInt_small (Nat.lt_of_le_of_lt hbound (by decide))]
    exact ⟨_, rfl⟩
  rw [taac]
  split
  next suffix mul h =>
    apply hfactor
    split at h
    · cases h
      assumption
    · split at h
      · cases h
        omega
      · cases h
        omega

theorem nsac_total : ∃ lines, nsac (copied reg) = .ok lines := by
  have hlt := copied_lt reg 2
  rw [nsac]
  split
  · rw [mulInt_small (by omega)]
    exact ⟨_, rfl⟩
  · exact ⟨_, rfl⟩

theorem transferRate_total : ∃ text, transferRate (copied reg) = .ok text := by
  have hval : copied reg 3 >>> 3 &&& 0x0f ≤ 15 := Nat.and_le_right
  rw [transferRate]
  split
  · exact ⟨_, rfl⟩
  · next h =>
    obtain ⟨value, hvalue, hentry⟩ := @entry_lt _ tranVal _ (Nat.lt_succ_of_le hval)
    obtain ⟨factor, hfactor, hentry'⟩ := @entry_lt _ tranMul _
      (Nat.lt_succ_of_le (Nat.not_lt.mp (not_or.mp h).1))
    have hle : ∀ x ∈ tranVal, x ≤ 80 := by decide
    have hle' : ∀ x ∈ tranMul, x ≤ 10000 := by decide
    have hbound := Nat.mul_le_mul (hle value hvalue) (hle' factor hfactor)
    rw [hentry, hentry']
    show ∃ text, (mulInt value factor >>= _) = .ok text
    rw [mulInt_small (Nat.lt_of_le_of_lt hbound (by decide))]
    exact ⟨_, rfl⟩

theorem format_total : ∃ lines, format (copied reg) = .ok lines := by
  have hval : (copied reg 14 &&& 0x0c) >>> 2 < 4 := by
    rw [Nat.shiftRight_eq_div_pow]
    have hle : copied reg 14 &&& 0x0c ≤ 0x0c := Nat.and_le_right
    omega
  rw [format]
  split
  · obtain ⟨text, -, hentry⟩ := @entry_lt _ fileSystems _ hval
    rw [hentry]
    exact ⟨_, rfl⟩
  · exact ⟨_, rfl⟩

theorem writeProtectedText_total :
    (∃ text, writeProtectedText (copied reg) = .ok text) ↔ field reg 14 2 = 0 := by
  rw [← copyGroup_eq]
  constructor
  · rintro ⟨text, h⟩
    obtain ⟨x, hentry, -⟩ := bind_ok.mp h
    obtain ⟨hlt, -⟩ := List.getElem?_eq_some_iff.mp (entry_ok.mp hentry)
    exact hlt
  · intro h
    obtain ⟨text, -, hentry⟩ := @entry_lt _ writeProtected _ h
    rw [writeProtectedText, hentry]
    exact ⟨_, rfl⟩

/-- the lines are printed when those do not fail that may -/
theorem cmdShowSdCsd_ok :
    (∃ lines, cmdShowSdCsd (copied reg) = .ok lines) ↔
      (∃ size, capacityMiB (copied reg) = .ok size) ∧ field reg 14 2 = 0 := by
  rw [← writeProtectedText_total]
  constructor
  · rintro ⟨lines, h⟩
    obtain ⟨size, hsize, h⟩ := bind_ok.mp h
    obtain ⟨_, -, h⟩ := bind_ok.mp h
    obtain ⟨_, -, h⟩ := bind_ok.mp h
    obtain ⟨_, -, h⟩ := bind_ok.mp h
    obtain ⟨text, htext, -⟩ := bind_ok.mp h
    exact ⟨⟨size, hsize⟩, text, htext⟩
  · rintro ⟨⟨size, hsize⟩, text, htext⟩
    obtain ⟨_, htaac⟩ := taac_total reg
    obtain ⟨_, hnsac⟩ := nsac_total reg
    obtain ⟨_, hrate⟩ := transferRate_total reg
    obtain ⟨_, hformat⟩ := format_total reg
    rw [cmdShowSdCsd, hsize, htaac, hnsac, hrate, htext, hformat]
    exact ⟨_, rfl⟩

variable {reg} in
/-- the capacity comes first -/
theorem cmdShowSdCsd_head {lines : List Line} (h : cmdShowSdCsd (copied reg) = .ok lines) :
    ∃ size, capacityMiB (copied reg) = .ok size ∧ lines.head? = some (capacityLine size) := by
  obtain ⟨size, hsize, h⟩ := bind_ok.mp h
  obtain ⟨_, -, h⟩ := bind_ok.mp h
  obtain ⟨_, -, h⟩ := bind_ok.mp h
  obtain ⟨_, -, h⟩ := bind_ok.mp h
  obtain ⟨_, -, h⟩ := bind_ok.mp h
  obtain ⟨_, -, h⟩ := bind_ok.mp h
  cases h
  exact ⟨size, hsize, rfl⟩

/-! ## the capacity -/

theorem blockLen_eq : blockLen (copied reg) =
    if 9 ≤ field reg 80 4 ∧ field reg 80 4 ≤ 11 then 2 ^ field reg 80 4 else 0 := by
  rw [blockLen, readBlLen_eq, Nat.one_shiftLeft]
  show (if _ ∨ _ then _ else _) = _
  split
  · rw [if_neg (by omega)]
  · rw [if_pos (by omega)]

/-- version 1 -/
theorem capacityMiB_one {size : Nat} (h : field reg 126 2 = 0) :
    capacityMiB (copied reg) = .ok size ↔
      blocks reg * blockLen (copied reg) < 2 ^ 31 ∧
        blocks reg * blockLen (copied reg) / 2 ^ 20 = size := by
  have hsize : field reg 62 12 < 2 ^ 12 := (reg.extractLsb' 62 12).isLt
  have hmult : field reg 47 3 < 2 ^ 3 := (reg.extractLsb' 47 3).isLt
  have hmul : 2 ^ (field reg 47 3 + 2) ≤ 2 ^ 9 := Nat.pow_le_pow_right (by decide) (by omega)
  have hblocks : blocks reg ≤ 2 ^ 12 * 2 ^ 9 := Nat.mul_le_mul hsize hmul
  have hfirst : mulInt (field reg 62 12 + 1) (2 ^ (field reg 47 3 + 2)) = .ok (blocks reg) :=
    mulInt_small (Nat.lt_of_le_of_lt hblocks (by decide))
  rw [capacityMiB, if_pos ((csdVer_eq reg).trans h), cSize_eq, cSizeMult_eq, Nat.one_shiftLeft]
  dsimp only
  rw [hfirst]
  show (mulInt _ _ >>= _) = _ ↔ _
  rw [bind_ok]
  constructor
  · rintro ⟨bytes, hbytes, hdiv⟩
    obtain ⟨hlt, rfl⟩ := mulInt_ok.mp hbytes
    cases hdiv
    exact ⟨hlt, (Nat.div_div_eq_div_mul _ 1024 1024).symm⟩
  · rintro ⟨hlt, rfl⟩
    refine ⟨_, mulInt_small hlt, ?_⟩
    exact congrArg Except.ok (Nat.div_div_eq_div_mul _ 1024 1024)

/-- version 2, and what is taken for it -/
theorem capacityMiB_two (h : field reg 126 2 ≠ 0) :
    capacityMiB (copied reg) = .ok ((field reg 48 22 + 1) * (512 * 1024) / 2 ^ 20) := by
  rw [capacityMiB, csdVer_eq, if_neg h]
  dsimp only
  rw [cSize2_eq]
  exact congrArg Except.ok (by omega)

/-- a legal block length -/
theorem bytes_eq (h : field reg 126 2 = 0) :
    (∀ bytes ∈ capacity reg, bytes = blocks reg * blockLen (copied reg)) ∧
      (capacity reg = none → blockLen (copied reg) = 0) := by
  rw [capacity, blockLen_eq]
  by_cases hlegal : 9 ≤ field reg 80 4 ∧ field reg 80 4 ≤ 11
  · rw [if_pos ⟨h, hlegal⟩, if_pos hlegal]
    refine ⟨?_, fun hnone => by cases hnone⟩
    rintro bytes ⟨⟩
    rfl
  · have hne : field reg 126 2 ≠ 1 := by omega
    rw [if_neg fun hand => hlegal hand.2, if_neg hne, if_neg hlegal]
    refine ⟨?_, fun _ => rfl⟩
    rintro bytes ⟨⟩

theorem capacity_two (h : field reg 126 2 ≠ 0) :
    ∀ bytes ∈ capacity reg, bytes = (field reg 48 22 + 1) * (512 * 1024) := by
  rw [capacity, if_neg fun hand => h hand.1]
  split
  · rintro bytes ⟨⟩
    rfl
  · rintro bytes ⟨⟩

/-- the product of version 1 fits -/
theorem small_iff (h : field reg 126 2 = 0) :
    (∀ bytes ∈ capacity reg, bytes < 2 ^ 31) ↔
      blocks reg * blockLen (copied reg) < 2 ^ 31 := by
  obtain ⟨hsome, hnone⟩ := bytes_eq reg h
  cases hcap : capacity reg with
  | none =>
    rw [hnone hcap, Nat.mul_zero]
    exact iff_of_true (fun bytes hbytes => by cases hbytes) (by decide)
  | some bytes =>
    rw [← hsome bytes hcap]
    constructor
    · intro hall
      exact hall bytes rfl
    · rintro hlt bytes' ⟨⟩
      exact hlt

/-- **The CSD register** is decoded without a failure, and with the right capacity, when it has
neither a `COPY` nor a `FILE_FORMAT_GRP` bit, and less than 2 GiB in version 1. -/
theorem shown_iff : Decodes reg ↔ Cond reg := by
  constructor
  · rintro ⟨lines, hlines, -⟩
    obtain ⟨⟨size, hsize⟩, hcopy⟩ := (cmdShowSdCsd_ok reg).mp ⟨lines, hlines⟩
    refine ⟨hcopy, fun hver => ?_⟩
    rw [small_iff reg hver]
    exact ((capacityMiB_one reg hver).mp hsize).1
  · intro h
    have hsize : ∃ size, capacityMiB (copied reg) = .ok size ∧
        ∀ bytes ∈ capacity reg, bytes / 2 ^ 20 = size := by
      by_cases hver : field reg 126 2 = 0
      · have hsmall := (small_iff reg hver).mp (h.small hver)
        refine ⟨_, (capacityMiB_one reg hver).mpr ⟨hsmall, rfl⟩, fun bytes hbytes => ?_⟩
        rw [(bytes_eq reg hver).1 bytes hbytes]
      · refine ⟨_, capacityMiB_two reg hver, fun bytes hbytes => ?_⟩
        rw [capacity_two reg hver bytes hbytes]
    obtain ⟨size, hsize, hright⟩ := hsize
    obtain ⟨lines, hlines⟩ := (cmdShowSdCsd_ok reg).mpr ⟨⟨size, hsize⟩, h.original⟩
    refine ⟨lines, hlines, fun bytes hbytes => ?_⟩
    obtain ⟨size', hsize', hhead⟩ := cmdShowSdCsd_head hlines
    obtain rfl : size = size' := Except.ok.inj (hsize.symm.trans hsize')
    rw [hhead, hright bytes hbytes]

/-- a card of 2 GiB: 4096 units of 512 blocks of 1024 bytes -/
def card2GiB : BitVec 128 := 10 <<< 80 ||| 4095 <<< 62 ||| 7 <<< 47

theorem card_of_2_GiB : ¬ ∀ reg, Decodes reg := by
  intro hall
  obtain ⟨lines, hlines, -⟩ := hall card2GiB
  obtain ⟨size, hsize, -⟩ := cmdShowSdCsd_head hlines
  have hver : field card2GiB 126 2 = 0 := by decide
  obtain ⟨hlt, -⟩ := (capacityMiB_one card2GiB hver).mp hsize
  exact absurd hlt (by decide)

end

end Csd
end Hydra
