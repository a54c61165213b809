import HydraFw.Lib.Runs
import HydraFw.T4t.Exchange

/-!
# Which memory an APDU touches

`Confined c apdu` says that every access of the exchange lies inside its object, that READ BINARY
copies from the selected object only and that UPDATE BINARY stores into `NDEF_Buffer` only.
`processCmd` checks an offset and a length against the advertised `NDEF_SIZE`, not against the
buffer, and clips in an `unsigned short`, so this is a condition on the APDU:

* `InBounds`                the offsets and lengths that stay inside the two files;
* `confined_iff`            one exchange is confined exactly when it is in bounds;
* `stepsOk_confined_iff`    the same for whole runs, from any selection and any content.
-/

namespace Hydra
open Rams Runs

/-- the accesses a command may make on an object, given the selection -/
def Permitted (c : Card) (a : Access Obj) : Prop :=
  match a.obj with
  | .rxtxFrameBuf => True
  | .ccfile => a.dir = .rd ∧ c.nSelectedIdx = 0
  | .ndefBuffer => c.nSelectedIdx = 1
  | _ => False

def Confined (c : Card) (apdu : List UInt8) : Prop :=
  ∀ a ∈ (step c apdu).ram.trace, Permitted c a ∧ a.Inside objSize

/-- READ and UPDATE stay inside `ccfile` and `NDEF_Buffer` -/
def Command.InBounds (idx : Int) : Command → Prop
  | .read off le =>
    (idx = 0 → off ≤ objSize .ccfile) ∧
    (idx = 1 → off + le ≤ ndefMaxSize ∨ off = ndefSize ∨ le = 0 ∧ off < ndefSize)
  | .update off lc => idx = 1 → off + lc ≤ ndefMaxSize ∨ ndefSize < off + lc ∨ lc = 0
  | _ => True

def InBounds (c : Card) (apdu : List UInt8) : Prop :=
  (decode (c.frame apdu)).InBounds c.nSelectedIdx

instance (idx : Int) : ∀ cmd : Command, Decidable (cmd.InBounds idx)
  | .read _ _ => inferInstanceAs (Decidable (_ ∧ _))
  | .update _ _ => inferInstanceAs (Decidable (_ → _))
  | .select => inferInstanceAs (Decidable True)
  | .unsupported => inferInstanceAs (Decidable True)

instance (c : Card) (apdu : List UInt8) : Decidable (InBounds c apdu) :=
  inferInstanceAs (Decidable (Command.InBounds _ _))

/-! ## the clipped length -/

theorem clipped_of_le {idx : Int} {off le : Nat} (h : off ≤ pdwFileSize idx) :
    clipped idx off le = min le (pdwFileSize idx - off) := by
  have hs : pdwFileSize idx ≤ ndefSize := by
    unfold pdwFileSize
    split <;> decide
  unfold clipped
  unfold ndefSize at hs
  split <;> omega

theorem clipped_le_of_inside {idx : Int} {off le n : Nat} (hn : n ≤ pdwFileSize idx)
    (h : clipped idx off le = 0 ∨ off + clipped idx off le ≤ n) : clipped idx off le ≤ le := by
  rcases h with h | h
  · omega
  · rw [clipped_of_le (by omega)]
    exact Nat.min_le_left ..

section
variable {off le : Nat}

/-- reading the capability container: the difference wraps exactly behind its end -/
theorem clipped_cc_inside (hoff : off < 2 ^ 16) (hle : le < 2 ^ 8) :
    clipped 0 off le = 0 ∨ off + clipped 0 off le ≤ 15 ↔ off ≤ 15 := by
  have hs : pdwFileSize 0 = 15 := rfl
  unfold clipped
  rw [hs]
  split <;> omega

/-- reading the NDEF file: the clip keeps to `NDEF_SIZE` -/
theorem clipped_ndef_inside (hoff : off < 2 ^ 16) (hle : le < 2 ^ 8) :
    clipped 1 off le = 0 ∨ off + clipped 1 off le ≤ ndefMaxSize ↔
      off + le ≤ ndefMaxSize ∨ off = ndefSize ∨ le = 0 ∧ off < ndefSize := by
  have hs : pdwFileSize 1 = ndefSize := rfl
  unfold clipped
  rw [hs]
  unfold ndefSize ndefMaxSize
  split <;> omega

end

/-! ## one exchange -/

section
variable {c : Card} {apdu : List UInt8}

theorem trace_select (h : decode (c.frame apdu) = .select) :
    (step c apdu).ram.trace = [⟨.rd, .rxtxFrameBuf, 0, 2⟩, ⟨.rd, .rxtxFrameBuf, 0, 26⟩,
      ⟨.wr, .rxtxFrameBuf, 0, 1⟩, ⟨.wr, .rxtxFrameBuf, 1, 1⟩] := by
  unfold step
  rw [exchange_select h]
  simp

theorem trace_unsupported (h : decode (c.frame apdu) = .unsupported) :
    (step c apdu).ram.trace = [⟨.rd, .rxtxFrameBuf, 0, 2⟩, ⟨.wr, .rxtxFrameBuf, 0, 1⟩,
      ⟨.wr, .rxtxFrameBuf, 1, 1⟩] := by
  unfold step
  rw [exchange_unsupported h]
  simp

theorem trace_read {off le : Nat} {f : Obj} (h : decode (c.frame apdu) = .read off le)
    (hf : selectedObj c = some f) :
    (step c apdu).ram.trace = [⟨.rd, .rxtxFrameBuf, 0, 2⟩, ⟨.rd, .rxtxFrameBuf, 2, 3⟩,
      ⟨.rd, f, off, clipped c.nSelectedIdx off le⟩,
      ⟨.wr, .rxtxFrameBuf, 0, clipped c.nSelectedIdx off le⟩,
      ⟨.wr, .rxtxFrameBuf, clipped c.nSelectedIdx off le, 1⟩,
      ⟨.wr, .rxtxFrameBuf, clipped c.nSelectedIdx off le + 1, 1⟩] := by
  unfold step
  rw [exchange_read h hf]
  simp

/-- a refused READ or UPDATE: only its header is looked at -/
def refusedTrace : List (Access Obj) :=
  [⟨.rd, .rxtxFrameBuf, 0, 2⟩, ⟨.rd, .rxtxFrameBuf, 2, 3⟩, ⟨.wr, .rxtxFrameBuf, 0, 1⟩,
    ⟨.wr, .rxtxFrameBuf, 1, 1⟩]

theorem trace_read_none {off le : Nat} (h : decode (c.frame apdu) = .read off le)
    (hf : selectedObj c = none) : (step c apdu).ram.trace = refusedTrace := by
  unfold step
  rw [exchange_read_none h hf]
  simp [refusedTrace]

theorem trace_update_none {off lc : Nat} (h : decode (c.frame apdu) = .update off lc)
    (hf : c.nSelectedIdx ≠ 1) : (step c apdu).ram.trace = refusedTrace := by
  unfold step
  rw [exchange_update_none h hf]
  simp [refusedTrace]

theorem trace_update_long {off lc : Nat} (h : decode (c.frame apdu) = .update off lc)
    (hf : c.nSelectedIdx = 1) (hl : ndefSize < off + lc) :
    (step c apdu).ram.trace = refusedTrace := by
  unfold step
  rw [exchange_update_long h hf hl]
  simp [refusedTrace]

theorem trace_update {off lc : Nat} (h : decode (c.frame apdu) = .update off lc)
    (hf : c.nSelectedIdx = 1) (hl : off + lc ≤ ndefSize) :
    (step c apdu).ram.trace = [⟨.rd, .rxtxFrameBuf, 0, 2⟩, ⟨.rd, .rxtxFrameBuf, 2, 3⟩,
      ⟨.rd, .rxtxFrameBuf, 5, lc⟩, ⟨.wr, .ndefBuffer, off, lc⟩, ⟨.wr, .rxtxFrameBuf, 0, 1⟩,
      ⟨.wr, .rxtxFrameBuf, 1, 1⟩] := by
  unfold step
  rw [exchange_update h hf hl]
  simp

theorem confined_refused (h : (step c apdu).ram.trace = refusedTrace) : Confined c apdu := by
  unfold Confined
  rw [h]
  simp [refusedTrace, Permitted, Access.Inside, objSize]

/-- one READ with a file selected: the access to the file decides -/
theorem confined_read {off le : Nat} {f : Obj} (h : decode (c.frame apdu) = .read off le)
    (hf : selectedObj c = some f) (hp : Permitted c ⟨.rd, f, off, clipped c.nSelectedIdx off le⟩)
    (hs : objSize f ≤ pdwFileSize c.nSelectedIdx) :
    Confined c apdu ↔ clipped c.nSelectedIdx off le = 0 ∨
      off + clipped c.nSelectedIdx off le ≤ objSize f := by
  have hle : le < 2 ^ 8 := by
    rw [(decode_read h).2]
    exact cmdLength_lt _
  unfold Confined
  rw [trace_read h hf]
  constructor
  · intro hall
    exact (hall ⟨.rd, f, off, clipped c.nSelectedIdx off le⟩ (by simp)).2
  · intro hin a ha
    have hlen := clipped_le_of_inside hs hin
    simp only [List.mem_cons, List.not_mem_nil, or_false] at ha
    rcases ha with rfl | rfl | rfl | rfl | rfl | rfl
    · exact ⟨trivial, Or.inr (by decide)⟩
    · exact ⟨trivial, Or.inr (by decide)⟩
    · exact ⟨hp, hin⟩
    · exact ⟨trivial, Or.inr (by simp only [objSize]; omega)⟩
    · exact ⟨trivial, Or.inr (by simp only [objSize]; omega)⟩
    · exact ⟨trivial, Or.inr (by simp only [objSize]; omega)⟩

theorem confined_update {off lc : Nat} (h : decode (c.frame apdu) = .update off lc)
    (hf : c.nSelectedIdx = 1) (hl : off + lc ≤ ndefSize) :
    Confined c apdu ↔ lc = 0 ∨ off + lc ≤ ndefMaxSize := by
  have hlc : lc < 2 ^ 8 := by
    rw [(decode_update h).2]
    exact cmdLength_lt _
  unfold Confined
  rw [trace_update h hf hl]
  constructor
  · intro hall
    exact (hall ⟨.wr, .ndefBuffer, off, lc⟩ (by simp)).2
  · intro hin a ha
    simp only [List.mem_cons, List.not_mem_nil, or_false] at ha
    rcases ha with rfl | rfl | rfl | rfl | rfl | rfl
    · exact ⟨trivial, Or.inr (by decide)⟩
    · exact ⟨trivial, Or.inr (by decide)⟩
    · exact ⟨trivial, Or.inr (by simp only [objSize]; omega)⟩
    · exact ⟨hf, hin⟩
    · exact ⟨trivial, Or.inr (by decide)⟩
    · exact ⟨trivial, Or.inr (by decide)⟩

end

/-- **One exchange is confined exactly when it is in bounds.** -/
theorem confined_iff {c : Card} (h : c.ndefFile = .ndefBuffer) (apdu : List UInt8) :
    Confined c apdu ↔ InBounds c apdu := by
  unfold InBounds
  cases way c apdu with
  | select hd =>
    rw [hd]
    refine iff_of_true ?_ trivial
    unfold Confined
    rw [trace_select hd]
    simp [Permitted, Access.Inside, objSize]
  | unsupported hd =>
    rw [hd]
    refine iff_of_true ?_ trivial
    unfold Confined
    rw [trace_unsupported hd]
    simp [Permitted, Access.Inside, objSize]
  | readNone off le hd hf =>
    rw [hd]
    refine iff_of_true (confined_refused (trace_read_none hd hf)) ?_
    have hn := (selectedObj_none c).mp hf
    unfold nFiles at hn
    exact ⟨fun h0 => by omega, fun h1 => by omega⟩
  | read off le f hd hf =>
    have hoff : off < 2 ^ 16 := by rw [(decode_read hd).1]; exact cmdOffset_lt _
    have hle : le < 2 ^ 8 := by rw [(decode_read hd).2]; exact cmdLength_lt _
    rw [hd]
    rcases selectedObj_some hf with ⟨h0, rfl⟩ | ⟨h1, hfile⟩
    · have hs : pdwFileSize c.nSelectedIdx = 15 := by rw [h0]; rfl
      rw [confined_read hd hf ⟨rfl, h0⟩ hs.ge, h0]
      show _ ∨ _ ≤ 15 ↔ (0 = (0 : Int) → off ≤ 15) ∧ _
      rw [clipped_cc_inside hoff hle]
      exact ⟨fun hi => ⟨fun _ => hi, fun h1 => by omega⟩, fun hi => hi.1 rfl⟩
    · rw [h] at hfile
      subst hfile
      have hs : ndefMaxSize ≤ pdwFileSize c.nSelectedIdx := by rw [h1]; decide
      rw [confined_read hd hf h1 hs, h1]
      show _ ∨ _ ≤ ndefMaxSize ↔ _ ∧ (1 = (1 : Int) → _)
      rw [clipped_ndef_inside hoff hle]
      exact ⟨fun hi => ⟨fun h0 => by omega, fun _ => hi⟩, fun hi => hi.2 rfl⟩
  | updateNone off lc hd hf =>
    rw [hd]
    exact iff_of_true (confined_refused (trace_update_none hd hf)) fun h1 => absurd h1 hf
  | updateLong off lc hd hf hl =>
    rw [hd]
    exact iff_of_true (confined_refused (trace_update_long hd hf hl)) fun _ => Or.inr (Or.inl hl)
  | update off lc hd hf hl =>
    rw [hd, confined_update hd hf hl]
    constructor
    · rintro (hz | hi) _
      · exact Or.inr (Or.inr hz)
      · exact Or.inl hi
    · intro hi
      rcases hi hf with hi | hi | hi
      · exact Or.inr hi
      · omega
      · exact Or.inl hi

/-- **Confinement of whole runs.**  From any selection and any file content, the exchanges of a
run all stay inside the selected objects exactly when they are all in bounds. -/
theorem stepsOk_confined_iff (c : Card) (h : c.ndefFile = .ndefBuffer)
    (apdus : List (List UInt8)) :
    StepsOk Confined step c apdus ↔ StepsOk InBounds step c apdus := by
  have keep : ∀ (P : Card → List UInt8 → Prop) (c : Card) (apdu : List UInt8),
      c.ndefFile = .ndefBuffer → P c apdu → (step c apdu).ndefFile = .ndefBuffer :=
    fun _ _ _ hc _ => step_ndefFile hc
  constructor
  · exact StepsOk.mono (keep _) (fun c apdu hc => (confined_iff hc apdu).mp) h
  · exact StepsOk.mono (keep _) (fun c apdu hc => (confined_iff hc apdu).mpr) h

/-! ## a run -/

/-- a card at the start of an emulation session, with an empty NDEF message -/
def sessionCard : Card := Card.boot.prepareNdef []

def apduSelectApp : List UInt8 :=
  [0x00, 0xA4, 0x04, 0x00, 0x07, 0xD2, 0x76, 0x00, 0x00, 0x85, 0x01, 0x01, 0x00]
def apduSelectCC : List UInt8 := [0x00, 0xA4, 0x00, 0x0C, 0x02, 0xE1, 0x03]
def apduSelectNdef : List UInt8 := [0x00, 0xA4, 0x00, 0x0C, 0x02, 0xE1, 0x04]

/-- UPDATE BINARY of one byte behind the end of `NDEF_Buffer` -/
def apduUpdateBehind : List UInt8 := [0x00, 0xD6, 0x0C, 0x00, 0x01, 0x55]

/-- the update is accepted and its byte stored at index `0xC00` -/
theorem update_behind_buffer :
    (exchange (run step sessionCard [apduSelectApp, apduSelectNdef]) apduUpdateBehind).answer
        = [0x90, 0x00] ∧
      ¬ ∀ (c : Card) (apdus : List (List UInt8)), c.ndefFile = .ndefBuffer →
        StepsOk Confined step c apdus := by
  refine ⟨by decide, fun hall => ?_⟩
  have h := hall sessionCard [apduSelectApp, apduSelectNdef, apduUpdateBehind] rfl
  have hc : Confined (run step sessionCard [apduSelectApp, apduSelectNdef]) apduUpdateBehind :=
    h.2.2.1
  have ha := hc ⟨.wr, .ndefBuffer, 0xC00, 1⟩ (by decide)
  exact absurd ha.2 (by decide)

/-- the capability container read in three overlapping pieces -/
theorem stepsOk_confined_iff_read_cc :
    StepsOk Confined step (step (step sessionCard apduSelectApp) apduSelectCC)
      [[0x00, 0xB0, 0x00, 0x00, 0x0F], [0x00, 0xB0, 0x00, 0x02, 0xFF],
        [0x00, 0xB0, 0x00, 0x0F, 0x01]] :=
  (stepsOk_confined_iff _ (by decide) _).mpr (by decide)

end Hydra
