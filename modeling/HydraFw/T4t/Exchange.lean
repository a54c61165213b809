import HydraFw.T4t.Commands

/-!
# All that one APDU does

Seven lemmas, one for each way through `processCmd` in `CARDEMU_4A`, give the card after the
exchange and the length of the response; no later proof unfolds a command.

* `exchange_select`, `exchange_unsupported`;
* `exchange_read_none`, `exchange_read`          READ BINARY without and with a file selected;
* `exchange_update_none`, `exchange_update_long`, `exchange_update`
                                                 UPDATE BINARY refused, too long, accepted;
* `way`                                          every exchange goes one of these ways;
* `stores`                                       what the exchange stores into the NDEF file;
* `step_mem_ne`, `step_ndef`                     the frame rule: nothing else changes.
-/

namespace Hydra
open Rams

/-- the card at the `switch` on the instruction byte -/
def Card.dispatched (c : Card) (apdu : List UInt8) : Card :=
  { c.received apdu with ram := (c.received apdu).ram.rd .rxtxFrameBuf 0 2 }

section
variable {c : Card} {apdu : List UInt8}

@[simp] theorem dispatched_frame : (c.dispatched apdu).ram.mem .rxtxFrameBuf = c.frame apdu :=
  received_frame c apdu
@[simp] theorem dispatched_trace :
    (c.dispatched apdu).ram.trace = [⟨.rd, .rxtxFrameBuf, 0, 2⟩] := rfl

theorem dispatched_mem_ne (o : Obj) (h : o ≠ .rxtxFrameBuf) :
    (c.dispatched apdu).ram.mem o = c.ram.mem o := received_mem_ne c apdu o h

/-! ## what the frame buffer spells -/

theorem exchange_eq : exchange c apdu = match decode (c.frame apdu) with
    | .select => reply (t4select (c.dispatched apdu) .rxtxFrameBuf .rxtxFrameBuf)
    | .read _ _ => reply (read (c.dispatched apdu) .rxtxFrameBuf .rxtxFrameBuf)
    | .update _ _ => reply (update (c.dispatched apdu) .rxtxFrameBuf .rxtxFrameBuf)
    | .unsupported => ⟨{ c.dispatched apdu with
        ram := put2 (c.dispatched apdu).ram .rxtxFrameBuf 0 0x68 0x00 }, 16, false⟩ := by
  unfold exchange processCmd decode
  simp only [received_frame]
  split_ifs <;> rfl

theorem decode_read {m : Nat → UInt8} {off le : Nat} (h : decode m = .read off le) :
    off = cmdOffset m ∧ le = cmdLength m := by
  unfold decode at h
  split_ifs at h
  injection h with h1 h2
  exact ⟨h1.symm, h2.symm⟩

theorem decode_update {m : Nat → UInt8} {off lc : Nat} (h : decode m = .update off lc) :
    off = cmdOffset m ∧ lc = cmdLength m := by
  unfold decode at h
  split_ifs at h
  injection h with h1 h2
  exact ⟨h1.symm, h2.symm⟩

end

/-! ## which file -/

theorem selectedObj_none (c : Card) :
    selectedObj c = none ↔ c.nSelectedIdx < 0 ∨ c.nSelectedIdx ≥ nFiles := by
  unfold selectedObj nFiles
  split_ifs with h0 h1
  · simp [h0]
  · simp [h1]
  · simp only [true_iff]
    omega

theorem selectedObj_some {c : Card} {f : Obj} (h : selectedObj c = some f) :
    (c.nSelectedIdx = 0 ∧ f = .ccfile) ∨ (c.nSelectedIdx = 1 ∧ f = c.ndefFile) := by
  unfold selectedObj at h
  split_ifs at h with h0 h1
  · exact Or.inl ⟨h0, by injection h with h; exact h.symm⟩
  · exact Or.inr ⟨h1, by injection h with h; exact h.symm⟩

/-! ## the file commands, way by way -/

section
variable {c : Card} {d r f : Obj}

theorem read_none (hf : selectedObj c = none) :
    read c d r = ({ c with ram := put2 (c.ram.rd d 2 3) r 0 0x6A 0x82 }, 2) := by
  unfold read
  rw [if_pos ((selectedObj_none c).mp hf)]

theorem read_file (hf : selectedObj c = some f) :
    read c d r =
      ({ c with
          ram := put2 ((c.ram.rd d 2 3).copy r 0 f (cmdOffset (c.ram.mem d))
            (clipped c.nSelectedIdx (cmdOffset (c.ram.mem d)) (cmdLength (c.ram.mem d)))) r
            (clipped c.nSelectedIdx (cmdOffset (c.ram.mem d)) (cmdLength (c.ram.mem d)))
            0x90 0x00 },
        (clipped c.nSelectedIdx (cmdOffset (c.ram.mem d)) (cmdLength (c.ram.mem d)) + 2)
          % 2 ^ 16) := by
  have hn : ¬ (c.nSelectedIdx < 0 ∨ c.nSelectedIdx ≥ nFiles) := by
    rw [← selectedObj_none, hf]
    exact Option.some_ne_none f
  have hp : (if c.nSelectedIdx = 0 then Obj.ccfile else c.ndefFile) = f := by
    rcases selectedObj_some hf with ⟨h0, rfl⟩ | ⟨h1, rfl⟩
    · rw [if_pos h0]
    · rw [if_neg (by omega)]
  unfold read
  rw [if_neg hn]
  simp only [hp]

theorem update_none (hf : c.nSelectedIdx ≠ 1) :
    update c d r = ({ c with ram := put2 (c.ram.rd d 2 3) r 0 0x6A 0x82 }, 2) := by
  unfold update
  rw [if_pos hf]

theorem update_long (hf : c.nSelectedIdx = 1)
    (hl : ndefSize < cmdOffset (c.ram.mem d) + cmdLength (c.ram.mem d)) :
    update c d r = ({ c with ram := put2 (c.ram.rd d 2 3) r 0 0x62 0x82 }, 2) := by
  unfold update
  rw [if_neg (not_not.mpr hf), if_pos (by rw [hf]; exact hl)]

theorem update_ok (hf : c.nSelectedIdx = 1)
    (hl : cmdOffset (c.ram.mem d) + cmdLength (c.ram.mem d) ≤ ndefSize) :
    update c d r =
      ({ c with
          ram := put2 ((c.ram.rd d 2 3).copy .ndefBuffer (cmdOffset (c.ram.mem d)) d 5
            (cmdLength (c.ram.mem d))) r 0 0x90 0x00
          ndefFile := .ndefBuffer }, 2) := by
  unfold update
  rw [if_neg (not_not.mpr hf), if_neg (by rw [hf]; exact Nat.not_lt.mpr hl)]

end

/-! ## the seven ways of an exchange -/

section
variable {c : Card} {apdu : List UInt8} {off le lc : Nat} {f : Obj}

theorem exchange_select (h : decode (c.frame apdu) = .select) :
    exchange c apdu =
      { card := { c.dispatched apdu with
          ram := put2 ((c.dispatched apdu).ram.rd .rxtxFrameBuf 0 26) .rxtxFrameBuf 0
            (if (selectFile (c.frame apdu) c.nState c.nSelectedIdx).2.2 then 0x90 else 0x6A)
            (if (selectFile (c.frame apdu) c.nState c.nSelectedIdx).2.2 then 0x00 else 0x82)
          nState := (selectFile (c.frame apdu) c.nState c.nSelectedIdx).1
          nSelectedIdx := (selectFile (c.frame apdu) c.nState c.nSelectedIdx).2.1 }
        bits := 16
        reset := false } := by
  rw [exchange_eq, h]
  show reply (t4select _ _ _) = _
  unfold t4select
  rw [dispatched_frame]
  rfl

theorem exchange_unsupported (h : decode (c.frame apdu) = .unsupported) :
    exchange c apdu =
      { card := { c.dispatched apdu with
          ram := put2 (c.dispatched apdu).ram .rxtxFrameBuf 0 0x68 0x00 }
        bits := 16
        reset := false } := by
  rw [exchange_eq, h]

theorem exchange_read_none (h : decode (c.frame apdu) = .read off le)
    (hf : selectedObj c = none) :
    exchange c apdu =
      { card := { c.dispatched apdu with
          ram := put2 ((c.dispatched apdu).ram.rd .rxtxFrameBuf 2 3) .rxtxFrameBuf 0 0x6A 0x82 }
        bits := 16
        reset := false } := by
  rw [exchange_eq, h]
  show reply (read _ _ _) = _
  rw [read_none (by exact hf)]
  rfl

theorem exchange_read (h : decode (c.frame apdu) = .read off le) (hf : selectedObj c = some f) :
    exchange c apdu =
      { card := { c.dispatched apdu with
          ram := put2 (((c.dispatched apdu).ram.rd .rxtxFrameBuf 2 3).copy .rxtxFrameBuf 0 f off
            (clipped c.nSelectedIdx off le)) .rxtxFrameBuf (clipped c.nSelectedIdx off le)
            0x90 0x00 }
        bits := 8 * ((clipped c.nSelectedIdx off le + 2) % 2 ^ 16) % 2 ^ 16
        reset := false } := by
  obtain ⟨rfl, rfl⟩ := decode_read h
  rw [exchange_eq, h]
  show reply (read _ _ _) = _
  rw [read_file (by exact hf), dispatched_frame]
  rfl

theorem exchange_update_none (h : decode (c.frame apdu) = .update off lc)
    (hf : c.nSelectedIdx ≠ 1) :
    exchange c apdu =
      { card := { c.dispatched apdu with
          ram := put2 ((c.dispatched apdu).ram.rd .rxtxFrameBuf 2 3) .rxtxFrameBuf 0 0x6A 0x82 }
        bits := 16
        reset := false } := by
  rw [exchange_eq, h]
  show reply (update _ _ _) = _
  rw [update_none (by exact hf)]
  rfl

theorem exchange_update_long (h : decode (c.frame apdu) = .update off lc)
    (hf : c.nSelectedIdx = 1) (hl : ndefSize < off + lc) :
    exchange c apdu =
      { card := { c.dispatched apdu with
          ram := put2 ((c.dispatched apdu).ram.rd .rxtxFrameBuf 2 3) .rxtxFrameBuf 0 0x62 0x82 }
        bits := 16
        reset := false } := by
  obtain ⟨rfl, rfl⟩ := decode_update h
  rw [exchange_eq, h]
  show reply (update _ _ _) = _
  rw [update_long (by exact hf) (by rw [dispatched_frame]; exact hl)]
  rfl

theorem exchange_update (h : decode (c.frame apdu) = .update off lc)
    (hf : c.nSelectedIdx = 1) (hl : off + lc ≤ ndefSize) :
    exchange c apdu =
      { card := { c.dispatched apdu with
          ram := put2 (((c.dispatched apdu).ram.rd .rxtxFrameBuf 2 3).copy .ndefBuffer off
            .rxtxFrameBuf 5 lc) .rxtxFrameBuf 0 0x90 0x00
          ndefFile := .ndefBuffer }
        bits := 16
        reset := false } := by
  obtain ⟨rfl, rfl⟩ := decode_update h
  rw [exchange_eq, h]
  show reply (update _ _ _) = _
  rw [update_ok (by exact hf) (by rw [dispatched_frame]; exact hl), dispatched_frame]
  rfl

/-- the way an APDU takes through `processCmd` -/
inductive Way (c : Card) (apdu : List UInt8) : Prop
  | select (h : decode (c.frame apdu) = .select)
  | unsupported (h : decode (c.frame apdu) = .unsupported)
  | readNone (off le : Nat) (h : decode (c.frame apdu) = .read off le)
      (hf : selectedObj c = none)
  | read (off le : Nat) (f : Obj) (h : decode (c.frame apdu) = .read off le)
      (hf : selectedObj c = some f)
  | updateNone (off lc : Nat) (h : decode (c.frame apdu) = .update off lc)
      (hf : c.nSelectedIdx ≠ 1)
  | updateLong (off lc : Nat) (h : decode (c.frame apdu) = .update off lc)
      (hf : c.nSelectedIdx = 1) (hl : ndefSize < off + lc)
  | update (off lc : Nat) (h : decode (c.frame apdu) = .update off lc)
      (hf : c.nSelectedIdx = 1) (hl : off + lc ≤ ndefSize)

theorem way (c : Card) (apdu : List UInt8) : Way c apdu := by
  cases h : decode (c.frame apdu) with
  | select => exact .select h
  | unsupported => exact .unsupported h
  | read off le =>
    cases hf : selectedObj c with
    | none => exact .readNone off le h hf
    | some f => exact .read off le f h hf
  | update off lc =>
    by_cases hf : c.nSelectedIdx = 1
    · rcases Nat.lt_or_ge ndefSize (off + lc) with hl | hl
      · exact .updateLong off lc h hf hl
      · exact .update off lc h hf hl
    · exact .updateNone off lc h hf

/-! ## the frame rule -/

/-- the store into the NDEF file that the exchange makes -/
def stores (c : Card) (apdu : List UInt8) : List (Nat × List UInt8) :=
  match decode (c.frame apdu) with
  | .update off lc =>
    if c.nSelectedIdx = 1 ∧ off + lc ≤ ndefSize then [(off, slice (c.frame apdu) 5 lc)] else []
  | _ => []

theorem step_ndefFile (h : c.ndefFile = .ndefBuffer) : (step c apdu).ndefFile = .ndefBuffer := by
  unfold step
  cases way c apdu with
  | select hd => rw [exchange_select hd]; exact h
  | unsupported hd => rw [exchange_unsupported hd]; exact h
  | readNone off le hd hf => rw [exchange_read_none hd hf]; exact h
  | read off le f hd hf => rw [exchange_read hd hf]; exact h
  | updateNone off lc hd hf => rw [exchange_update_none hd hf]; exact h
  | updateLong off lc hd hf hl => rw [exchange_update_long hd hf hl]; exact h
  | update off lc hd hf hl => rw [exchange_update hd hf hl]

theorem step_mem_ne (o : Obj) (h1 : o ≠ .rxtxFrameBuf) (h2 : o ≠ .ndefBuffer) :
    (step c apdu).ram.mem o = c.ram.mem o := by
  unfold step
  cases way c apdu with
  | select hd => rw [exchange_select hd]; simp [put2_mem_ne, h1, dispatched_mem_ne]
  | unsupported hd => rw [exchange_unsupported hd]; simp [put2_mem_ne, h1, dispatched_mem_ne]
  | readNone off le hd hf =>
    rw [exchange_read_none hd hf]; simp [put2_mem_ne, h1, dispatched_mem_ne]
  | read off le f hd hf =>
    rw [exchange_read hd hf]; simp [put2_mem_ne, Ram.copy_mem_ne, h1, dispatched_mem_ne]
  | updateNone off lc hd hf =>
    rw [exchange_update_none hd hf]; simp [put2_mem_ne, h1, dispatched_mem_ne]
  | updateLong off lc hd hf hl =>
    rw [exchange_update_long hd hf hl]; simp [put2_mem_ne, h1, dispatched_mem_ne]
  | update off lc hd hf hl =>
    rw [exchange_update hd hf hl]; simp [put2_mem_ne, Ram.copy_mem_ne, h1, h2, dispatched_mem_ne]

theorem step_ndef :
    (step c apdu).ram.mem .ndefBuffer = replay (c.ram.mem .ndefBuffer) (stores c apdu) := by
  have hd : (c.dispatched apdu).ram.mem .ndefBuffer = c.ram.mem .ndefBuffer :=
    dispatched_mem_ne _ (by decide)
  unfold step stores
  cases way c apdu with
  | select h => rw [exchange_select h, h]; simp [put2_mem_ne, hd]
  | unsupported h => rw [exchange_unsupported h, h]; simp [put2_mem_ne, hd]
  | readNone off le h hf => rw [exchange_read_none h hf, h]; simp [put2_mem_ne, hd]
  | read off le f h hf => rw [exchange_read h hf, h]; simp [put2_mem_ne, Ram.copy_mem_ne, hd]
  | updateNone off lc h hf => rw [exchange_update_none h hf, h]; simp [put2_mem_ne, hd, hf]
  | updateLong off lc h hf hl =>
    rw [exchange_update_long h hf hl, h]
    simp [put2_mem_ne, hd, Nat.not_le.mpr hl]
  | update off lc h hf hl =>
    rw [exchange_update h hf hl, h]
    simp [put2_mem_ne, Ram.copy_mem_same, hd, hf, hl, replay_single]

end

end Hydra
