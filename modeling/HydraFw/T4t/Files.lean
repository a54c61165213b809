import HydraFw.T4t.Answers
import HydraFw.T4t.Confine

/-!
# The two files of the tag

Abstractly the tag holds two files, and a reader's history is the list of its accepted UPDATEs:
`Files.store` applies one of them, and the capability container never changes.

* `accepted`         the UPDATE an exchange answered with 90 00, as a store into the NDEF file;
* `readData`         `file[off .. min(off + le, size))`;
* `FileLaw`          what one exchange must do, given the files its history has built;
* `step_files`       the exchange refines the abstract store;
* `fileLaw_run`      the law at every exchange of every run that stays in bounds.

Out of bounds the law fails: behind the end of a file `toRead` wraps.
-/

namespace Hydra
open Rams Runs

/-! ## the abstract files -/

structure Files where
  cc : Nat → UInt8
  ndef : Nat → UInt8

/-- one accepted UPDATE: `w.2` from offset `w.1` on -/
def Files.store (f : Files) (w : Nat × List UInt8) : Files :=
  { f with ndef := overwrite f.ndef w.1 w.2 }

def Files.content (f : Files) (idx : Int) : Nat → UInt8 := if idx = 0 then f.cc else f.ndef

def readData (content : Nat → UInt8) (size off le : Nat) : List UInt8 :=
  slice content off (min (off + le) size - off)

/-- the room a file really has -/
def fileRoom (idx : Int) : Nat := if idx = 0 then objSize .ccfile else ndefMaxSize

theorem readData_behind (content : Nat → UInt8) {size off : Nat} (le : Nat) (h : size ≤ off) :
    readData content size off le = [] := by
  unfold readData
  rw [show min (off + le) size - off = 0 by omega, slice_zero]

theorem store_cc (f : Files) (ws : List (Nat × List UInt8)) : (run Files.store f ws).cc = f.cc := by
  induction ws generalizing f with
  | nil => rfl
  | cons w ws ih => exact ih (f.store w)

theorem store_ndef (f : Files) (ws : List (Nat × List UInt8)) :
    (run Files.store f ws).ndef = replay f.ndef ws := by
  induction ws generalizing f with
  | nil => rfl
  | cons w ws ih => exact ih (f.store w)

/-! ## the card refines them -/

def Card.files (c : Card) : Files := ⟨c.ram.mem .ccfile, c.ram.mem .ndefBuffer⟩

def accepted (c : Card) (apdu : List UInt8) : List (Nat × List UInt8) :=
  match decode (c.frame apdu) with
  | .update off lc =>
    if (exchange c apdu).answer = [0x90, 0x00] then [(off, slice (c.frame apdu) 5 lc)] else []
  | _ => []

theorem accepted_eq (c : Card) (apdu : List UInt8) : accepted c apdu = stores c apdu := by
  unfold accepted stores
  cases way c apdu with
  | select h => rw [h]
  | unsupported h => rw [h]
  | readNone off le h hf => rw [h]
  | read off le f h hf => rw [h]
  | updateNone off lc h hf => rw [h]; simp [answer_update_none h hf, hf]
  | updateLong off lc h hf hl =>
    rw [h]; simp [answer_update_long h hf hl, Nat.not_le.mpr hl]
  | update off lc h hf hl => rw [h]; simp [answer_update h hf hl, hf, hl]

theorem step_files (c : Card) (apdu : List UInt8) :
    (step c apdu).files = run Files.store c.files (accepted c apdu) := by
  have hcc : (step c apdu).files.cc = c.files.cc := step_mem_ne .ccfile (by decide) (by decide)
  have hndef : (step c apdu).files.ndef = replay c.files.ndef (stores c apdu) := step_ndef
  rw [← accepted_eq] at hndef
  have e : ∀ f : Files, f = ⟨f.cc, f.ndef⟩ := fun _ => rfl
  rw [e (step c apdu).files, e (run Files.store c.files _), hcc, hndef, store_cc, store_ndef]

/-- without a store the files stay as they are -/
theorem step_files_of_refused {c : Card} {apdu : List UInt8}
    (h : (exchange c apdu).status ≠ [0x90, 0x00]) : (step c apdu).files = c.files := by
  have hnil : accepted c apdu = [] := by
    unfold accepted
    split
    · refine if_neg fun ha => h ?_
      exact Rsp.status_eq [] ha
    · rfl
  rw [step_files, hnil, run_nil]

/-! ## the law -/

/-- What an exchange must do when the history of the card has built `files`.  `size` is the size
the source keeps for the file or the room it really has. -/
structure FileLaw (files : Files) (c : Card) (apdu : List UInt8) : Prop where
  content : c.files = files
  read : ∀ off le size, decode (c.frame apdu) = .read off le →
    c.nSelectedIdx = 0 ∨ c.nSelectedIdx = 1 →
    size = pdwFileSize c.nSelectedIdx ∨ size = fileRoom c.nSelectedIdx →
    (exchange c apdu).answer
      = readData (files.content c.nSelectedIdx) size off le ++ [0x90, 0x00]
  refused : (exchange c apdu).status ≠ [0x90, 0x00] → (step c apdu).files = files

/-- in bounds the clip is the intended one, for either size -/
theorem clipped_in_bounds {idx : Int} {off le size : Nat} (hle : le < 2 ^ 8)
    (hidx : idx = 0 ∨ idx = 1) (hb : (Command.read off le).InBounds idx)
    (hs : size = pdwFileSize idx ∨ size = fileRoom idx) :
    clipped idx off le = min (off + le) size - off ∧ clipped idx off le < 2 ^ 8 := by
  obtain ⟨h0, h1⟩ := hb
  rcases hidx with rfl | rfl
  · have hoff : off ≤ 15 := h0 rfl
    have hp : pdwFileSize 0 = 15 := rfl
    have hr : fileRoom 0 = 15 := rfl
    rw [clipped_of_le (by omega)]
    omega
  · have hoff := h1 rfl
    have hp : pdwFileSize 1 = ndefSize := rfl
    have hr : fileRoom 1 = ndefMaxSize := rfl
    unfold ndefMaxSize ndefSize at *
    rw [clipped_of_le (by omega)]
    omega

theorem answer_read_in_bounds {c : Card} {apdu : List UInt8} {off le size : Nat}
    (hfile : c.ndefFile = .ndefBuffer) (h : decode (c.frame apdu) = .read off le)
    (hidx : c.nSelectedIdx = 0 ∨ c.nSelectedIdx = 1) (hb : InBounds c apdu)
    (hs : size = pdwFileSize c.nSelectedIdx ∨ size = fileRoom c.nSelectedIdx) :
    (exchange c apdu).answer
      = readData (c.files.content c.nSelectedIdx) size off le ++ [0x90, 0x00] := by
  have hle : le < 2 ^ 8 := by
    rw [(decode_read h).2]
    exact cmdLength_lt _
  have hb' : (Command.read off le).InBounds c.nSelectedIdx := by
    unfold InBounds at hb
    rwa [h] at hb
  obtain ⟨hclip, hlt⟩ := clipped_in_bounds hle hidx hb' hs
  unfold readData
  rw [← hclip]
  rcases hidx with h0 | h1
  · have hf : selectedObj c = some .ccfile := if_pos h0
    rw [answer_read h hf (by decide) (by omega), h0]
    rfl
  · have hf : selectedObj c = some .ndefBuffer := by
      unfold selectedObj
      rw [if_neg (by omega), if_pos h1, hfile]
    rw [answer_read h hf (by decide) (by omega), h1]
    rfl

/-- **The file law.**  In every run whose exchanges are all in bounds, at every exchange: the files
are the initial ones overwritten by the accepted UPDATEs in order, READ answers the bytes of the
selected file, and an exchange answered with another status than 90 00 leaves them unchanged. -/
theorem fileLaw_run (c : Card) (h : c.ndefFile = .ndefBuffer) (pre : List (List UInt8))
    (apdu : List UInt8) (hok : StepsOk InBounds step c (pre ++ [apdu])) :
    FileLaw (run Files.store c.files (outs accepted step c pre)) (run step c pre) apdu ∧
    (run Files.store c.files (outs accepted step c pre)).cc = c.files.cc := by
  obtain ⟨hpre, hlast⟩ := hok.last
  have hfile : (run step c pre).ndefFile = .ndefBuffer :=
    inv_run_all (I := fun c : Card => c.ndefFile = .ndefBuffer) (fun _ _ hc => step_ndefFile hc) pre h
  have hfiles : (run step c pre).files = run Files.store c.files (outs accepted step c pre) :=
    sim_run (R := fun c f => c.files = f) accepted
      (fun c f apdu hR _ => by rw [step_files, hR]) rfl hpre
  refine ⟨⟨hfiles, fun off le size hd hidx hs => ?_, fun hst => ?_⟩, store_cc _ _⟩
  · rw [← hfiles]
    exact answer_read_in_bounds hfile hd hidx hlast hs
  · rw [step_files_of_refused hst, hfiles]

/-- one byte read behind the end of the capability container: the response has one byte -/
def apduReadBehind : List UInt8 := [0x00, 0xB0, 0x00, 0x10, 0x01]

theorem read_behind_cc :
    (exchange (run step sessionCard [apduSelectApp, apduSelectCC]) apduReadBehind).answer.length = 1 ∧
      ¬ ∀ (c : Card) (pre : List (List UInt8)) (apdu : List UInt8), c.ndefFile = .ndefBuffer →
        FileLaw (run Files.store c.files (outs accepted step c pre)) (run step c pre) apdu := by
  have hlen : (exchange (run step sessionCard [apduSelectApp, apduSelectCC])
      apduReadBehind).answer.length = 1 := by
    unfold Rsp.answer
    rw [slice_length]
    decide
  refine ⟨hlen, fun hall => ?_⟩
  have hlaw := hall sessionCard [apduSelectApp, apduSelectCC] apduReadBehind rfl
  have hread := hlaw.read 16 1 15 (by decide) (Or.inl (by decide)) (Or.inl (by decide))
  rw [readData_behind _ _ (by decide)] at hread
  rw [hread] at hlen
  exact absurd hlen (by decide)

/-- select, write two overlapping pieces, read back -/
theorem fileLaw_run_overlap :
    FileLaw
      (run Files.store sessionCard.files [(2, [1, 2, 3]), (3, [9])])
      (run step sessionCard [apduSelectApp, apduSelectNdef,
        [0x00, 0xD6, 0x00, 0x02, 0x03, 1, 2, 3], [0x00, 0xD6, 0x00, 0x03, 0x01, 9]])
      [0x00, 0xB0, 0x00, 0x02, 0x03] :=
  (fileLaw_run sessionCard rfl [apduSelectApp, apduSelectNdef,
    [0x00, 0xD6, 0x00, 0x02, 0x03, 1, 2, 3], [0x00, 0xD6, 0x00, 0x03, 0x01, 9]]
    [0x00, 0xB0, 0x00, 0x02, 0x03] (by decide)).1

end Hydra
