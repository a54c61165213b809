import HydraFw.Ce.Session
import HydraFw.Lib.Volumes
import Mathlib.Data.List.TakeDrop

/-!
# Success means stored

`file_append` and `file_create_write` (`microsd.c`), and `read_ul_image_file` with its caller
(`hydranfc_v2_ce.c`), for everything that FatFs may answer.

* `fileAppend`, `fileCreateWrite`   the two writers;
* `ImageRead`, `readUlImage`, `startImage`   the image of an emulation, `startImage_eq` as the
                     session has it;
* `Call`             a call of one of them, `Call.Stored` what its success owes;
* `Call.Sound`       the answers under which it is kept, `stored_iff`.
-/

namespace Hydra
namespace Sd
open Rams Volumes

abbrev Name := List UInt8

abbrev Files := Volume Name UInt8

/-! ## `file_append` -/

structure AppendAnswers where
  lseek : Bool
  write : WriteAnswer

/-- an open file -/
structure OpenFile (files : Files) where
  name : Name
  pos : Nat
  content : List UInt8
  found : files name = some content

def OpenFile.fs {files : Files} (h : OpenFile files) : Fs Name UInt8 :=
  ⟨files, some ⟨h.name, h.pos⟩⟩

/-- the number of bytes written is not looked at -/
def fileAppend {files : Files} (h : OpenFile files) (data : List UInt8) (a : AppendAnswers) :
    Fs Name UInt8 × Bool :=
  let (fs, ok) := h.fs.seek h.content.length a.lseek
  if ¬ ok then (fs, false)
  else
    let (fs, ok, _) := fs.write data a.write
    (fs, ok)

/-! ## `file_create_write` -/

/-- `FILENAME_SIZE` -/
def filenameSize : Nat := 255

/-- `0:%s%ld.txt` -/
def fileName (pre : List UInt8) (i : Nat) : Name :=
  let digits := (Nat.toDigits 10 i).map fun c : Char => UInt8.ofNat c.toNat
  (([0x30, 0x3A] : List UInt8) ++ pre ++ digits ++ [0x2E, 0x74, 0x78, 0x74]).take (filenameSize - 1)

structure CreateAnswers where
  /-- the file system is ready, or `mount` succeeds -/
  mounted : Bool
  /-- of the name with this number -/
  opens : Nat → Bool
  write : WriteAnswer
  close : CloseAnswer

/-- for the names that are tried -/
def numbers : List Nat := List.range 999

structure Tried where
  fs : Fs Name UInt8
  opened : Bool
  filename : Name

/-- the loop over the numbers, up to the first name that can be created -/
def tryNames (pre : List UInt8) (opens : Nat → Bool) :
    List Nat → Fs Name UInt8 → Name → Tried
  | [], fs, filename => ⟨fs, false, filename⟩
  | i :: is, fs, _ =>
    let (fs, ok) := fs.create (fileName pre i) (opens i)
    if ok then ⟨fs, true, fileName pre i⟩ else tryNames pre opens is fs (fileName pre i)

structure Created where
  fs : Fs Name UInt8
  ok : Bool
  filename : Name

def fileCreateWrite (fs : Fs Name UInt8) (data pre : List UInt8) (filename : Name)
    (a : CreateAnswers) : Created :=
  if data.length = 0 then ⟨fs, false, filename⟩
  else if ¬ a.mounted then ⟨fs, false, filename⟩
  else
    let t := tryNames pre a.opens numbers fs filename
    if t.opened then
      let (fs, ok, _) := t.fs.write data a.write
      let (fs, closed) := fs.close a.close
      ⟨fs, ok && closed, t.filename⟩
    else ⟨t.fs, false, t.filename⟩

/-! ## `read_ul_image_file` -/

/-- what FatFs answers to it: `data` is what `f_read` stores, with success or without -/
structure ImageRead where
  mounted : Bool
  opened : Bool
  size : Nat
  ok : Bool
  data : List UInt8
  data_le : data.length ≤ 64

/-- `file_read` -/
def ImageRead.cnt (r : ImageRead) : Nat := if r.ok then r.data.length else 0

/-- `ul_image`, and what is returned -/
def readUlImage (image : Nat → UInt8) (r : ImageRead) : (Nat → UInt8) × Bool :=
  if ¬ r.mounted then (image, false)
  else if ¬ r.opened then (image, false)
  else if r.size ≠ mfcUltralightDataSize then (image, false)
  else
    let image := overwrite image 0 r.data
    if r.cnt = 0 then (image, false)
    -- the roll-over piece
    else (overwrite image mfcUltralightDataSize (slice image 0 12), true)

/-- the case `L3_MODE_MIF_UL` of `hydranfc_ce_common`; `none` without a file name -/
def startImage (image : Nat → UInt8) : Option ImageRead → Nat → UInt8
  | none => overwrite image 0 ulImageFactory
  | some r =>
    let (image, ok) := readUlImage image r
    if ok then image else overwrite image 0 ulImageFactory

/-! ## the law -/

/-- a call with what FatFs answers to it; `file_create_write` is given a closed file -/
inductive Call where
  | append {files : Files} (h : OpenFile files) (data : List UInt8) (a : AppendAnswers)
  | create (files : Files) (data pre : List UInt8) (filename : Name) (a : CreateAnswers)
  | image (ulImage : Nat → UInt8) (r : ImageRead)

/-- all of `data` is in the new file, and the old ones are as before -/
structure CreateLaw (files : Files) (data : List UInt8) (c : Created) : Prop where
  stored : c.ok = true → c.fs.files c.filename = some data
  kept : ∀ name content, files name = some content → c.fs.files name = some content
  closed : c.fs.handle = none

/-- the image is the file's, or that of the factory -/
structure ImageLaw (image : Nat → UInt8) (r : ImageRead) : Prop where
  read : (readUlImage image r).2 = true → r.data.length = 64 ∧
    slice (startImage image (some r)) 0 64 = r.data
  factory : (readUlImage image r).2 = false →
    slice (startImage image (some r)) 0 76 = ulImageFactory

def Call.Stored : Call → Prop
  | .append h data a => (fileAppend h data a).2 = true →
      (fileAppend h data a).1.files h.name = some (h.content ++ data)
  | .create files data pre filename a =>
      CreateLaw files data (fileCreateWrite ⟨files, none⟩ data pre filename a)
  | .image ulImage r => ImageLaw ulImage r

/-- a free name is opened -/
def Opens (files : Files) (pre : List UInt8) (a : CreateAnswers) : Prop :=
  a.mounted = true ∧ ∃ i < 999, files (fileName pre i) = none ∧ a.opens i = true

/-- no write that succeeds is short, no file stays open, and no read that succeeds is short -/
def Call.Sound : Call → Prop
  | .append _ data a => a.lseek = true → a.write.ok = true → data.length ≤ a.write.takes
  | .create files data pre _ a => data ≠ [] → Opens files pre a →
      a.close ≠ .leftOpen ∧
        (a.write.ok = true → a.close = .closed → data.length ≤ a.write.takes)
  | .image _ r => r.mounted = true → r.opened = true → r.size = 64 → r.ok = true →
      r.data.length = 0 ∨ r.data.length = 64

/-! ## the writers -/

section
variable {files : Files} {data pre : List UInt8}

theorem append_stored_iff (h : OpenFile files) (data : List UInt8) (a : AppendAnswers) :
    (Call.append h data a).Stored ↔ (Call.append h data a).Sound := by
  cases hseek : a.lseek with
  | false =>
    have hrefused : fileAppend h data a = (h.fs, false) := by
      unfold fileAppend Fs.seek
      rw [hseek]
      rfl
    refine iff_of_true (fun hok => ?_) fun hs => ?_
    · rw [hrefused] at hok
      cases hok
    · rw [hseek] at hs
      cases hs
  | true =>
    let fs : Fs Name UInt8 := ⟨files, some ⟨h.name, h.content.length⟩⟩
    have hrun : fileAppend h data a = ((fs.write data a.write).1, (fs.write data a.write).2.1) := by
      unfold fileAppend Fs.seek
      rw [hseek]
      rfl
    have hend : (fs.write data a.write).1.files h.name =
        some (h.content ++ data.take a.write.takes) := write_end rfl h.found
    show ((fileAppend h data a).2 = true → (fileAppend h data a).1.files h.name = _) ↔
      (a.lseek = true → _)
    rw [hrun, hend, write_ok rfl, hseek, Option.some_inj, List.append_cancel_left_eq,
      List.take_eq_self_iff data]
    exact ⟨fun hs _ => hs, fun hs => hs rfl⟩

/-- what the loop over the names leaves -/
theorem tryNames_spec (files : Files) (pre : List UInt8) (opens : Nat → Bool) (is : List Nat)
    (filename : Name) :
    let t := tryNames pre opens is ⟨files, none⟩ filename
    (t.opened = true ↔ ∃ i ∈ is, files (fileName pre i) = none ∧ opens i = true) ∧
      (t.opened = false → t.fs = ⟨files, none⟩) ∧
      (t.opened = true → files t.filename = none ∧ t.fs = created files t.filename) := by
  induction is generalizing filename with
  | nil => exact ⟨by simp [tryNames], fun _ => rfl, fun h => by cases h⟩
  | cons i is ih =>
    by_cases hc : files (fileName pre i) = none ∧ opens i = true
    · have ht : tryNames pre opens (i :: is) ⟨files, none⟩ filename =
          ⟨created files (fileName pre i), true, fileName pre i⟩ := by
        rw [tryNames, create_ok hc]
        rfl
      rw [ht]
      exact ⟨iff_of_true rfl ⟨i, List.mem_cons_self, hc⟩, fun hf => Bool.noConfusion hf,
        fun _ => ⟨hc.1, rfl⟩⟩
    · have ht : tryNames pre opens (i :: is) ⟨files, none⟩ filename =
          tryNames pre opens is ⟨files, none⟩ (fileName pre i) := by
        rw [tryNames, create_refused hc]
        rfl
      obtain ⟨hiff, hrefused, hopened⟩ := ih (fileName pre i)
      rw [ht]
      refine ⟨hiff.trans ⟨fun ⟨j, hj, h⟩ => ⟨j, List.mem_cons_of_mem _ hj, h⟩, ?_⟩, hrefused,
        hopened⟩
      rintro ⟨j, hj, h⟩
      rcases List.mem_cons.mp hj with rfl | hj
      · exact absurd h hc
      · exact ⟨j, hj, h⟩

/-- a call that opens no file -/
theorem fileCreateWrite_refused (filename : Name) {a : CreateAnswers}
    (h : data = [] ∨ ¬ Opens files pre a) :
    (fileCreateWrite ⟨files, none⟩ data pre filename a).ok = false ∧
      (fileCreateWrite ⟨files, none⟩ data pre filename a).fs = ⟨files, none⟩ := by
  obtain ⟨hiff, hrefused, -⟩ := tryNames_spec files pre a.opens numbers filename
  unfold fileCreateWrite
  by_cases hd : data.length = 0
  · rw [if_pos hd]
    exact ⟨rfl, rfl⟩
  by_cases hm : a.mounted = true
  · have hnone : (tryNames pre a.opens numbers ⟨files, none⟩ filename).opened = false := by
      rw [Bool.eq_false_iff]
      intro ht
      obtain ⟨i, hi, hopen⟩ := hiff.mp ht
      rcases h with rfl | h
      · exact hd rfl
      · exact h ⟨hm, i, List.mem_range.mp hi, hopen⟩
    rw [if_neg hd, if_neg (not_not.mpr hm)]
    generalize tryNames pre a.opens numbers ⟨files, none⟩ filename = t at hnone hrefused ⊢
    dsimp only
    rw [if_neg (by rw [hnone]; decide)]
    exact ⟨rfl, hrefused hnone⟩
  · rw [if_neg hd, if_pos hm]
    exact ⟨rfl, rfl⟩

/-- a call that opens one: the write and the close on a new file -/
theorem fileCreateWrite_opened (filename : Name) {a : CreateAnswers}
    (hd : data ≠ []) (h : Opens files pre a) :
    ∃ name, files name = none ∧
      let fs := created files name
      fileCreateWrite ⟨files, none⟩ data pre filename a =
        ⟨((fs.write data a.write).1.close a.close).1,
          (fs.write data a.write).2.1 && ((fs.write data a.write).1.close a.close).2, name⟩ := by
  obtain ⟨hm, i, hi, hopen⟩ := h
  obtain ⟨hiff, -, hopened⟩ := tryNames_spec files pre a.opens numbers filename
  have ht := hiff.mpr ⟨i, List.mem_range.mpr hi, hopen⟩
  obtain ⟨hnew, hfs⟩ := hopened ht
  refine ⟨_, hnew, ?_⟩
  unfold fileCreateWrite
  rw [if_neg (mt List.eq_nil_of_length_eq_zero hd), if_neg (not_not.mpr hm)]
  dsimp only
  rw [if_pos ht, hfs]

theorem create_stored_iff (files : Files) (data pre : List UInt8) (filename : Name)
    (a : CreateAnswers) :
    (Call.create files data pre filename a).Stored ↔
      (Call.create files data pre filename a).Sound := by
  show CreateLaw files data _ ↔ (data ≠ [] → Opens files pre a → _)
  by_cases hcall : data = [] ∨ ¬ Opens files pre a
  · obtain ⟨hok, hfs⟩ := fileCreateWrite_refused filename hcall
    refine iff_of_true ⟨fun h => ?_, fun name content h => ?_, ?_⟩ fun hd ho => ?_
    · rw [hok] at h
      cases h
    · rw [hfs]
      exact h
    · rw [hfs]
    · exact absurd hcall (not_or.mpr ⟨hd, not_not.mpr ho⟩)
  · obtain ⟨hd, ho⟩ := not_or.mp hcall
    obtain ⟨name, hnew, hrun⟩ := fileCreateWrite_opened filename hd (not_not.mp ho)
    let fs := created files name
    have hcontent := created_write files name data a.write
    have hclosed : ((fs.write data a.write).1.close a.close).1.handle = none ↔
        a.close ≠ .leftOpen :=
      close_handle (h := ⟨name, 0 + (data.take a.write.takes).length⟩) rfl _
    rw [hrun]
    constructor
    · rintro ⟨hstored, -, hhandle⟩ _ _
      refine ⟨hclosed.mp hhandle, fun hw hc => ?_⟩
      have h := hstored (by rw [Bool.and_eq_true, write_ok rfl, close_ok_iff]; exact ⟨hw, hc⟩)
      rw [close_files, hcontent, Option.some_inj, List.take_eq_self_iff data] at h
      exact h
    · intro hs
      obtain ⟨hopen, hall⟩ := hs hd (not_not.mp ho)
      refine ⟨fun hok => ?_, fun other content h => ?_, hclosed.mpr hopen⟩
      · rw [Bool.and_eq_true, write_ok rfl, close_ok_iff] at hok
        rw [close_files, hcontent, List.take_of_length_le (hall hok.1 hok.2)]
      · rw [close_files]
        exact created_kept hnew h

end

/-! ## the image -/

section
variable (image : Nat → UInt8) (r : ImageRead)

theorem readUlImage_ok_iff : (readUlImage image r).2 = true ↔
    r.mounted = true ∧ r.opened = true ∧ r.size = 64 ∧ r.cnt ≠ 0 := by
  unfold readUlImage mfcUltralightDataSize
  split_ifs <;> simp_all

theorem readUlImage_read (h : (readUlImage image r).2 = true) :
    (readUlImage image r).1 = overwrite (overwrite image 0 r.data) 64
      (slice (overwrite image 0 r.data) 0 12) := by
  obtain ⟨hm, ho, hsize, hcnt⟩ := (readUlImage_ok_iff image r).mp h
  have hdata : r.size = mfcUltralightDataSize := hsize
  unfold readUlImage
  rw [if_neg (not_not.mpr hm), if_neg (not_not.mpr ho), if_neg (not_not.mpr hdata)]
  dsimp only
  rw [if_neg hcnt]
  rfl

theorem cnt_ne_zero_iff : r.cnt ≠ 0 ↔ r.ok = true ∧ r.data.length ≠ 0 := by
  unfold ImageRead.cnt
  cases r.ok <;> simp

theorem image_stored_iff : (Call.image image r).Stored ↔ (Call.image image r).Sound := by
  have hread := readUlImage_ok_iff image r
  rw [cnt_ne_zero_iff] at hread
  have hstart : startImage image (some r) = if (readUlImage image r).2 = true then
      (readUlImage image r).1 else overwrite (readUlImage image r).1 0 ulImageFactory := rfl
  show ImageLaw image r ↔ (r.mounted = true → r.opened = true → r.size = 64 → r.ok = true → _)
  constructor
  · intro h hm ho hsize hok
    by_cases hempty : r.data.length = 0
    · exact .inl hempty
    · exact .inr (h.read (hread.mpr ⟨hm, ho, hsize, hok, hempty⟩)).1
  · intro hs
    refine ⟨fun hok => ?_, fun hok => ?_⟩
    · obtain ⟨hm, ho, hsize, hr, hsome⟩ := hread.mp hok
      have hlen : r.data.length = 64 := (hs hm ho hsize hr).resolve_left hsome
      refine ⟨hlen, ?_⟩
      rw [hstart, if_pos hok, readUlImage_read image r hok]
      -- the roll-over piece is behind what was read
      refine Eq.trans (slice_congr fun k hk => overwrite_out _ _ _ _ (.inl (by omega))) ?_
      rw [← hlen]
      exact slice_overwrite image 0 r.data
    · rw [hstart, if_neg (by rw [hok]; decide)]
      exact slice_overwrite _ 0 ulImageFactory

/-- what `file_read` counts -/
def ImageRead.counted : List UInt8 := if r.ok then r.data else []

theorem counted_le : r.counted.length ≤ 64 := by
  unfold ImageRead.counted
  split_ifs
  exacts [r.data_le, Nat.zero_le _]

theorem cnt_eq : r.cnt = r.counted.length := by
  unfold ImageRead.cnt ImageRead.counted
  split_ifs <;> rfl

/-- as the session has it -/
def ImageRead.file : Option ImageFile :=
  if r.mounted ∧ r.opened then some ⟨r.size, r.counted, counted_le r⟩ else none

theorem readUlImageFile_file (c : Card) : readUlImageFile c r.file =
    if (readUlImage c.image r).2 = true then some (c.putImage (readUlImage c.image r).1)
    else none := by
  have hread := readUlImage_ok_iff c.image r
  unfold ImageRead.file
  by_cases hok : (readUlImage c.image r).2 = true
  · obtain ⟨hm, ho, hsize, hcnt⟩ := hread.mp hok
    have hdata : r.size = mfcUltralightDataSize := hsize
    have hcounted : r.counted = r.data := if_pos ((cnt_ne_zero_iff r).mp hcnt).1
    rw [cnt_eq] at hcnt
    rw [if_pos ⟨hm, ho⟩, if_pos hok, readUlImage_read _ _ hok, readUlImageFile]
    dsimp only
    rw [if_neg (not_not.mpr hdata), if_neg hcnt, hcounted]
    rfl
  · rw [if_neg hok]
    split_ifs with hopen
    · rw [readUlImageFile]
      dsimp only
      split_ifs with hsize hempty
      · rfl
      · rfl
      · rw [← cnt_eq] at hempty
        exact absurd (hread.mpr ⟨hopen.1, hopen.2, not_not.mp hsize, hempty⟩) hok
    · rfl

theorem overwrite_longer (m : Nat → UInt8) {data data' : List UInt8}
    (h : data.length ≤ data'.length) :
    overwrite (overwrite m 0 data) 0 data' = overwrite m 0 data' := by
  funext i
  rcases Nat.lt_or_ge i data'.length with hi | hi
  · have hnew := overwrite_in (overwrite m 0 data) 0 data' i hi
    have hold := overwrite_in m 0 data' i hi
    rw [Nat.zero_add] at hnew hold
    rw [hnew, hold]
  · rw [overwrite_out _ 0 data' i (.inr (by omega)), overwrite_out m 0 data i (.inr (by omega)),
      overwrite_out m 0 data' i (.inr (by omega))]

/-- what a read that fails has stored is gone with the factory's -/
theorem readUlImage_failed (h : ¬ (readUlImage image r).2 = true) :
    overwrite (readUlImage image r).1 0 ulImageFactory = overwrite image 0 ulImageFactory := by
  have hfactory : r.data.length ≤ ulImageFactory.length :=
    r.data_le.trans (show 64 ≤ 76 by decide)
  unfold readUlImage at h ⊢
  dsimp only at h ⊢
  split_ifs at h ⊢ with hm ho hsize hcnt
  · rfl
  · exact overwrite_longer image hfactory
  · exact absurd rfl h
  · rfl
  · rfl

/-- the image with which the session starts -/
theorem startImage_eq (c : Card) (r : Option ImageRead) : startImage c.image r =
    ((readUlImageFile c (r.bind ImageRead.file)).getD (resetUlImageFile c)).image := by
  cases r with
  | none => exact (putImage_image c _).symm
  | some r =>
    have hstart : startImage c.image (some r) = if (readUlImage c.image r).2 = true then
        (readUlImage c.image r).1 else overwrite (readUlImage c.image r).1 0 ulImageFactory := rfl
    rw [Option.bind_some, readUlImageFile_file, hstart]
    split_ifs with hok
    · exact (putImage_image c _).symm
    · exact (readUlImage_failed c.image r hok).trans (putImage_image c _).symm

end

/-- every success is stored just when no transfer that succeeds is short, and no file stays open -/
theorem stored_iff (c : Call) : c.Stored ↔ c.Sound :=
  match c with
  | .append h data a => append_stored_iff h data a
  | .create files data pre filename a => create_stored_iff files data pre filename a
  | .image ulImage r => image_stored_iff ulImage r

/-- a byte for a file on a full volume -/
theorem full_volume : ¬ ∀ c : Call, c.Stored := fun h =>
  absurd (h (@Call.append (fun _ => some []) ⟨[0x61], 0, [], rfl⟩ [0x55] ⟨true, true, 0⟩) rfl)
    (by decide)

end Sd
end Hydra
