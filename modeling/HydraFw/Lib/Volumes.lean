import Mathlib.Logic.Function.Basic
import Mathlib.Data.List.Basic

/-!
# Files on a volume

A volume has files by their names, and a program has one file open.  The operations are those of a
FAT library, with what it answers as an argument: it may refuse, and a write may take fewer of the
bytes than it is given, with success or without.

* `Volume`, `Fs`     the files, and the handle;
* `Fs.create`        opens a file that does not exist yet;
* `Fs.seek`, `Fs.write`, `Fs.close`   the operations on the open file;
* `write_end`        what a write at the end of a file leaves there;
* `write_other`      the files that stay as they are;
* `created_write`, `created_kept`   the two for a new file.
-/

set_option linter.unusedSectionVars false

namespace Volumes

variable {ν β : Type*} [DecidableEq ν]

abbrev Volume (ν β : Type*) := ν → Option (List β)

structure Handle (ν : Type*) where
  name : ν
  pos : Nat

structure Fs (ν β : Type*) where
  files : Volume ν β
  handle : Option (Handle ν)

/-- how many of the bytes are taken at most, and whether that is reported as a success -/
structure WriteAnswer where
  ok : Bool
  takes : Nat

/-- the file is closed, or an error leaves it closed or open -/
inductive CloseAnswer where
  | closed
  | failed
  | leftOpen
  deriving DecidableEq

/-- a file that has just been created -/
def created (files : Volume ν β) (name : ν) : Fs ν β :=
  ⟨Function.update files name (some []), some ⟨name, 0⟩⟩

/-- an existing file is refused -/
def Fs.create (fs : Fs ν β) (name : ν) (ok : Bool) : Fs ν β × Bool :=
  if (fs.files name).isNone ∧ ok then (created fs.files name, true)
  else (⟨fs.files, none⟩, false)

def Fs.seek (fs : Fs ν β) (pos : Nat) (ok : Bool) : Fs ν β × Bool :=
  match fs.handle with
  | none => (fs, false)
  | some h => if ok then ({ fs with handle := some { h with pos := pos } }, true) else (fs, false)

/-- a file with `data` in it from `pos` on -/
def stored (content : List β) (pos : Nat) (data : List β) : List β :=
  content.take pos ++ data ++ content.drop (pos + data.length)

/-- whether the write succeeds, and how many bytes it has taken -/
def Fs.write (fs : Fs ν β) (data : List β) (a : WriteAnswer) : Fs ν β × Bool × Nat :=
  match fs.handle with
  | none => (fs, false, 0)
  | some h =>
    let part := data.take a.takes
    let content := (fs.files h.name).map fun c => stored c h.pos part
    (⟨Function.update fs.files h.name content, some { h with pos := h.pos + part.length }⟩, a.ok,
      part.length)

def Fs.close (fs : Fs ν β) : CloseAnswer → Fs ν β × Bool
  | .closed => (⟨fs.files, none⟩, true)
  | .failed => (⟨fs.files, none⟩, false)
  | .leftOpen => (fs, false)

section
variable {fs : Fs ν β} {name other : ν} {content data : List β} {a : WriteAnswer}

theorem stored_end (content data : List β) :
    stored content content.length data = content ++ data := by
  unfold stored
  rw [List.take_length, List.drop_eq_nil_iff.mpr (Nat.le_add_right _ _), List.append_nil]

theorem create_ok {ok : Bool} (h : fs.files name = none ∧ ok = true) :
    fs.create name ok = (created fs.files name, true) :=
  if_pos ⟨by rw [h.1]; rfl, h.2⟩

theorem create_refused {ok : Bool} (h : ¬ (fs.files name = none ∧ ok = true)) :
    fs.create name ok = (⟨fs.files, none⟩, false) :=
  if_neg fun hc => h ⟨Option.isNone_iff_eq_none.mp hc.1, hc.2⟩

/-- a write leaves the other files -/
theorem write_other {pos : Nat} (hh : fs.handle = some ⟨name, pos⟩) (hne : other ≠ name) :
    (fs.write data a).1.files other = fs.files other := by
  unfold Fs.write
  rw [hh]
  exact Function.update_of_ne hne ..

/-- a write at the end of a file leaves there what it takes -/
theorem write_end (hh : fs.handle = some ⟨name, content.length⟩)
    (hf : fs.files name = some content) :
    (fs.write data a).1.files name = some (content ++ data.take a.takes) := by
  unfold Fs.write
  rw [hh]
  show Function.update fs.files name _ name = _
  rw [Function.update_self, hf, Option.map_some, stored_end]

theorem created_write (files : Volume ν β) (name : ν) (data : List β) (a : WriteAnswer) :
    ((created files name).write data a).1.files name = some (data.take a.takes) :=
  @write_end _ _ _ (created files name) name [] data a rfl (Function.update_self ..)

/-- what is written to it leaves the files that there were -/
theorem created_kept {files : Volume ν β} (hnew : files name = none)
    (hold : files other = some content) :
    ((created files name).write data a).1.files other = some content := by
  have hne : other ≠ name := by
    rintro rfl
    rw [hnew] at hold
    cases hold
  rw [write_other rfl hne]
  exact (Function.update_of_ne hne ..).trans hold

theorem write_ok {h : Handle ν} (hh : fs.handle = some h) : (fs.write data a).2.1 = a.ok := by
  unfold Fs.write
  rw [hh]

theorem close_files (fs : Fs ν β) (c : CloseAnswer) : (fs.close c).1.files = fs.files := by
  cases c <;> rfl

theorem close_ok_iff (fs : Fs ν β) (c : CloseAnswer) : (fs.close c).2 = true ↔ c = .closed := by
  cases c <;> simp [Fs.close]

theorem close_handle {h : Handle ν} (hh : fs.handle = some h) (c : CloseAnswer) :
    (fs.close c).1.handle = none ↔ c ≠ .leftOpen := by
  cases c <;> simp [Fs.close, hh]

end

end Volumes
