import HydraFw.Lib.Rams
import HydraFw.Lib.Runs
import HydraFw.Lib.Scanf

/-!
# The properties of the emulated tag

`user_tag_properties` with the arguments of `uid`, `sak` and `uri` (`hydranfc_v2_nfc_mode.c`), of
which `buf_ascii2hex` (`common.c`) decodes the first two straight into it, and with the start of an
emulation.

* `Text`           a string argument, with what lies behind it in the token buffer;
* `bufAscii2hex`   the bytes it stores, and whether it succeeds;
* `Properties`     the structure, byte by byte from `uid` on;
* `Step`, `step`   an argument or an emulation;
* `WellFormed`     the lengths, `Lawful` what a step owes;
* `Sound`          the condition, `stepsOk_lawful_iff`.
-/

namespace Hydra
namespace Tag
open Rams Runs

/-! ## `buf_ascii2hex` -/

/-- the token buffer from the string on; what is behind its end reads as 0 -/
structure Text where
  bytes : List UInt8
  length_lt : bytes.length < 2 ^ 32

def hexDigit (c : UInt8) : Option UInt8 :=
  if 0x30 ≤ c ∧ c ≤ 0x39 then some (c - 0x30)
  else if 0x41 ≤ c ∧ c ≤ 0x46 then some (c - 0x37)
  else if 0x61 ≤ c ∧ c ≤ 0x66 then some (c - 0x57)
  else none

/-- `%02hhx` -/
def sscanfHhx (s : List UInt8) : Option UInt8 :=
  (Scanf.sscanf [.int .hex (some 2)] (s.map UInt8.toBitVec)).values.head?.map UInt8.ofInt

/-- the bytes stored before the loop ends, and `false` if a conversion fails; two characters on,
the string may have ended in between -/
def bufAscii2hex : List UInt8 → List UInt8 × Bool
  | [] => ([], true)
  | [c] =>
    if c = 0 then ([], true)
    else
      match sscanfHhx [c] with
      | none => ([], false)
      | some v => ([v], true)
  | c :: d :: rest =>
    if c = 0 then ([], true)
    else
      match sscanfHhx (c :: d :: rest) with
      | none => ([], false)
      | some v =>
        let (bytes, ok) := bufAscii2hex rest
        (v :: bytes, ok)

theorem bufAscii2hex_length_le (s : List UInt8) : (bufAscii2hex s).1.length ≤ s.length := by
  induction s using bufAscii2hex.induct with
  | case1 => exact Nat.le_refl 0
  | case2 => simp [bufAscii2hex]
  | case3 c h hscan => simp [bufAscii2hex, h, hscan]
  | case4 c h v hscan => simp [bufAscii2hex, h, hscan]
  | case5 d rest => simp [bufAscii2hex]
  | case6 c d rest h hscan => simp [bufAscii2hex, h, hscan]
  | case7 c d rest h v hscan bytes ok hrest ih =>
    have hlen : bytes.length ≤ rest.length := by rwa [hrest] at ih
    simp only [bufAscii2hex, h, hscan, hrest, if_false, List.length_cons]
    omega

theorem Text.decoded_lt (s : Text) : (bufAscii2hex s.bytes).1.length < 2 ^ 32 :=
  (bufAscii2hex_length_le s.bytes).trans_lt s.length_lt

/-! ## `user_tag_properties` -/

/-- `rest` are the bytes from `uid` on; an enumeration takes one byte -/
structure Properties where
  uidLen : Nat
  rest : Nat → UInt8

def uidAt : Nat := 0
def sakLenAt : Nat := 8
def sakAt : Nat := 12
def uriAt : Nat := 16
def level4EnabledAt : Nat := 20
def t4tEmulationModeAt : Nat := 21
def l3EmulationModeAt : Nat := 22
def ceImageFilenameAt : Nat := 24

def Properties.sakLen (p : Properties) : BitVec 32 := word p.rest sakLenAt

def Properties.set (p : Properties) (off : Nat) (data : List UInt8) : Properties :=
  { p with rest := overwrite p.rest off data }

/-- T_EMUL_TAG_PROPERTY_UID; `none` when the argument is no string.  `true` when it is accepted -/
def Properties.setUid (p : Properties) : Option Text → Properties × Bool
  | none => (p, false)
  | some s =>
    let (bytes, ok) := bufAscii2hex s.bytes
    let p := p.set uidAt bytes
    if ok then
      let p := { p with uidLen := bytes.length }
      (p, p.uidLen = 4 ∨ p.uidLen = 7)
    else (p, false)

/-- T_EMUL_TAG_PROPERTY_SAK -/
def Properties.setSak (p : Properties) : Option Text → Properties × Bool
  | none => (p, false)
  | some s =>
    let (bytes, ok) := bufAscii2hex s.bytes
    let p := p.set sakAt bytes
    if ok then
      let p := p.set sakLenAt (le32 (BitVec.ofNat 32 bytes.length))
      (p, p.sakLen = 1)
    else (p, false)

/-! ## the start of an emulation -/

/-- the commands that start one -/
inductive Emulation where
  | iso14443a
  | t4t
  /-- with the address of the file name, or `NULL` -/
  | mfUltralight (filename : BitVec 32)

/-- the fields of `startCmd` that are patched -/
inductive Field where
  | uidSize
  | uid
  | sensRes
  | sak
  deriving DecidableEq

/-- place and size of the field -/
def Field.place : Field → Nat × Nat
  | .uidSize => (3, 1)
  | .uid => (4, 10)
  | .sensRes => (14, 2)
  | .sak => (16, 1)

structure Patch where
  field : Field
  off : Nat
  len : Nat

def Patch.Inside (a : Patch) : Prop :=
  a.field.place.1 ≤ a.off ∧ a.off + a.len ≤ a.field.place.1 + a.field.place.2

/-- the stores of `hydranfc_ce_common` to `startCmd` -/
def Properties.patches (p : Properties) : List Patch :=
  (if p.sakLen ≠ 0 then [⟨.sak, 16, p.sakLen.toNat⟩] else []) ++
  (if p.uidLen ≠ 0 then
    [⟨.uidSize, 3, 1⟩, ⟨.uid, 4, p.uidLen⟩] ++
      if p.uidLen = 4 ∨ p.uidLen = 7 then [⟨.sensRes, 14, 1⟩] else []
  else [])

/-- the checks of `hydranfc_card_emul_iso14443a` -/
def Properties.mayStart (p : Properties) : Bool :=
  p.uidLen ≠ 0 ∧ p.sakLen ≠ 0 ∧
    (p.rest level4EnabledAt = 0 ∨ p.rest t4tEmulationModeAt = 1 ∧ word p.rest uriAt ≠ 0)

/-- the modes are cleared behind the emulation -/
def Properties.clearModes (p : Properties) : Properties :=
  p.set level4EnabledAt [0, 0, 0]

def Properties.emulate (p : Properties) (e : Emulation) : Properties × List Patch :=
  let p :=
    match e with
    | .iso14443a => p
    | .t4t => p.set level4EnabledAt [1]
    | .mfUltralight filename =>
      (p.set ceImageFilenameAt (le32 filename)).set l3EmulationModeAt [1]
  let (p, patches) := if p.mayStart then (p.clearModes, p.patches) else (p, [])
  match e with
  | .iso14443a => (p, patches)
  | .t4t => (p.set level4EnabledAt [0], patches)
  | .mfUltralight _ => ((p.set l3EmulationModeAt [0]).set ceImageFilenameAt (le32 0), patches)

/-- T_EMUL_TAG_PROPERTY_URI: with a string the address of the message is set, else the mode -/
def Properties.setUri (p : Properties) : Option (BitVec 32) → Properties
  | some message => p.set uriAt (le32 message)
  | none => p.set t4tEmulationModeAt [1]

inductive Step where
  | uid (arg : Option Text)
  | sak (arg : Option Text)
  | uri (message : Option (BitVec 32))
  | emulate (e : Emulation)

def step (p : Properties) : Step → Properties
  | .uid arg => (p.setUid arg).1
  | .sak arg => (p.setSak arg).1
  | .uri message => p.setUri message
  | .emulate e => (p.emulate e).1

/-! ## the law -/

structure WellFormed (p : Properties) : Prop where
  uidLen : p.uidLen = 0 ∨ p.uidLen = 4 ∨ p.uidLen = 7
  sakLen : p.sakLen = 0 ∨ p.sakLen = 1

/-- the lengths stay well formed, a rejected argument changes nothing, a patch keeps to its field -/
def Lawful (p : Properties) (i : Step) : Prop :=
  WellFormed (step p i) ∧
    match i with
    | .uid arg => (p.setUid arg).2 = false → step p i = p
    | .sak arg => (p.setSak arg).2 = false → step p i = p
    | .uri _ => True
    | .emulate e => ∀ a ∈ (p.emulate e).2, a.Inside

/-- a complete decoding of one of the lengths -/
def Decodes (arg : Text) (lengths : List Nat) : Prop :=
  (bufAscii2hex arg.bytes).2 = true ∧ (bufAscii2hex arg.bytes).1.length ∈ lengths

/-- the argument has a length that is accepted, or what is decoded of it is there already -/
def Sound (p : Properties) : Step → Prop
  | .uid (some arg) =>
    Decodes arg [4, 7] ∨
      slice p.rest uidAt (bufAscii2hex arg.bytes).1.length = (bufAscii2hex arg.bytes).1 ∧
        ((bufAscii2hex arg.bytes).2 = true → p.uidLen = (bufAscii2hex arg.bytes).1.length)
  | .sak (some arg) =>
    Decodes arg [1] ∨
      slice p.rest sakAt (bufAscii2hex arg.bytes).1.length = (bufAscii2hex arg.bytes).1 ∧
        ((bufAscii2hex arg.bytes).2 = true → p.sakLen.toNat = (bufAscii2hex arg.bytes).1.length)
  | _ => True

/-! ## lengths -/

structure SameLens (q p : Properties) : Prop where
  uidLen : q.uidLen = p.uidLen
  sakLen : q.sakLen = p.sakLen

theorem SameLens.trans {q p o : Properties} (h : SameLens q p) (h' : SameLens p o) : SameLens q o :=
  ⟨h.uidLen.trans h'.uidLen, h.sakLen.trans h'.sakLen⟩

theorem SameLens.refl (p : Properties) : SameLens p p := ⟨rfl, rfl⟩

theorem SameLens.wellFormed {q p : Properties} (h : SameLens q p) (hp : WellFormed p) :
    WellFormed q := by
  obtain ⟨hu, hs⟩ := hp
  rw [← h.uidLen] at hu
  rw [← h.sakLen] at hs
  exact ⟨hu, hs⟩

/-- a store behind `sak_len` leaves the lengths -/
theorem set_lens (p : Properties) {off : Nat} (data : List UInt8) (h : 12 ≤ off) :
    SameLens (p.set off data) p := by
  refine ⟨rfl, word_congr fun k hk => ?_⟩
  exact overwrite_out _ _ _ _ (Or.inl (by unfold sakLenAt; omega))

theorem setUri_lens (p : Properties) (message : Option (BitVec 32)) :
    SameLens (p.setUri message) p := by
  cases message with
  | none => exact set_lens p _ (by decide)
  | some a => exact set_lens p _ (by decide)

theorem clearModes_lens (p : Properties) : SameLens p.clearModes p := set_lens p _ (by decide)

/-- the patches of an emulation are those of its lengths, if there are any -/
theorem emulate_lens (p : Properties) (e : Emulation) :
    SameLens (p.emulate e).1 p ∧ ∀ a ∈ (p.emulate e).2, ∃ q, SameLens q p ∧ a ∈ q.patches := by
  have hbody : ∀ q : Properties, SameLens q p →
      SameLens (if q.mayStart then (q.clearModes, q.patches) else (q, [])).1 p ∧
        ∀ a ∈ (if q.mayStart then (q.clearModes, q.patches) else (q, [])).2,
          ∃ q, SameLens q p ∧ a ∈ q.patches := by
    intro q hq
    split_ifs
    · exact ⟨(clearModes_lens q).trans hq, fun a ha => ⟨q, hq, ha⟩⟩
    · exact ⟨hq, fun a ha => absurd ha List.not_mem_nil⟩
  cases e with
  | iso14443a => exact hbody p (.refl p)
  | t4t =>
    obtain ⟨h1, h2⟩ := hbody (p.set level4EnabledAt [1]) (set_lens p _ (by decide))
    exact ⟨(set_lens _ _ (by decide)).trans h1, h2⟩
  | mfUltralight filename =>
    obtain ⟨h1, h2⟩ := hbody ((p.set ceImageFilenameAt (le32 filename)).set l3EmulationModeAt [1])
      ((set_lens _ _ (by decide)).trans (set_lens p _ (by decide)))
    exact ⟨((set_lens _ _ (by decide)).trans (set_lens _ _ (by decide))).trans h1, h2⟩

/-- with well-formed lengths every patch keeps to its field -/
theorem patches_inside {p : Properties} (h : WellFormed p) : ∀ a ∈ p.patches, a.Inside := by
  obtain ⟨hu, hs⟩ := h
  intro a ha
  unfold Properties.patches at ha
  rcases List.mem_append.mp ha with ha | ha
  · rcases hs with hs | hs
    · rw [if_neg (by rw [hs]; decide)] at ha
      exact absurd ha List.not_mem_nil
    · rw [if_pos (by rw [hs]; decide), hs] at ha
      obtain rfl := List.mem_singleton.mp ha
      exact ⟨by decide, by decide⟩
  · rcases hu with hu | hu | hu
    · rw [if_neg (by rw [hu]; decide)] at ha
      exact absurd ha List.not_mem_nil
    all_goals
      rw [if_pos (by rw [hu]; decide), if_pos (by rw [hu]; decide), hu] at ha
      simp only [List.cons_append, List.nil_append, List.mem_cons, List.not_mem_nil, or_false] at ha
      rcases ha with rfl | rfl | rfl
      · exact ⟨by decide, by decide⟩
      · exact ⟨by decide, by decide⟩
      · exact ⟨by decide, by decide⟩

theorem emulate_lawful {p : Properties} (h : WellFormed p) (e : Emulation) :
    Lawful p (.emulate e) := by
  obtain ⟨hlens, hpatches⟩ := emulate_lens p e
  refine ⟨hlens.wellFormed h, fun a ha => ?_⟩
  obtain ⟨q, hq, haq⟩ := hpatches a ha
  exact patches_inside (hq.wellFormed h) a haq

/-! ## the arguments -/

section
variable (p : Properties) (s : Text)

theorem setUid_rest : (p.setUid (some s)).1.rest = overwrite p.rest uidAt (bufAscii2hex s.bytes).1 := by
  unfold Properties.setUid
  dsimp only
  split_ifs <;> rfl

theorem setUid_uidLen : (p.setUid (some s)).1.uidLen
    = if (bufAscii2hex s.bytes).2 then (bufAscii2hex s.bytes).1.length else p.uidLen := by
  unfold Properties.setUid
  dsimp only
  split_ifs <;> rfl

theorem setUid_accepts : (p.setUid (some s)).2 = true ↔ Decodes s [4, 7] := by
  unfold Properties.setUid Decodes
  dsimp only
  split_ifs with h
  · simp [h]
  · simp [h]

theorem setSak_rest : (p.setSak (some s)).1.rest
    = if (bufAscii2hex s.bytes).2 then
        overwrite (overwrite p.rest sakAt (bufAscii2hex s.bytes).1) sakLenAt
          (le32 (BitVec.ofNat 32 (bufAscii2hex s.bytes).1.length))
      else overwrite p.rest sakAt (bufAscii2hex s.bytes).1 := by
  unfold Properties.setSak
  dsimp only
  split_ifs <;> rfl

theorem setSak_uidLen : (p.setSak (some s)).1.uidLen = p.uidLen := by
  unfold Properties.setSak
  dsimp only
  split_ifs <;> rfl

theorem setSak_sakLen (h : (bufAscii2hex s.bytes).2 = true) :
    (p.setSak (some s)).1.sakLen = BitVec.ofNat 32 (bufAscii2hex s.bytes).1.length := by
  unfold Properties.sakLen
  rw [setSak_rest, if_pos h, word_overwrite]

/-- a length of a string fits into the word -/
theorem Text.ofNat_eq {n : Nat} (hn : n < 2 ^ 32) :
    BitVec.ofNat 32 (bufAscii2hex s.bytes).1.length = BitVec.ofNat 32 n
      ↔ (bufAscii2hex s.bytes).1.length = n := by
  constructor
  · intro h
    have h' := congrArg BitVec.toNat h
    rwa [BitVec.toNat_ofNat, BitVec.toNat_ofNat, Nat.mod_eq_of_lt s.decoded_lt,
      Nat.mod_eq_of_lt hn] at h'
  · exact fun h => by rw [h]

theorem setSak_accepts : (p.setSak (some s)).2 = true ↔ Decodes s [1] := by
  unfold Decodes
  by_cases h : (bufAscii2hex s.bytes).2 = true
  · have hlen : (((p.set sakAt (bufAscii2hex s.bytes).1).set sakLenAt
        (le32 (BitVec.ofNat 32 (bufAscii2hex s.bytes).1.length))).sakLen)
        = BitVec.ofNat 32 (bufAscii2hex s.bytes).1.length := word_overwrite ..
    simp only [Properties.setSak, h, if_true, decide_eq_true_iff, true_and, List.mem_singleton]
    rw [hlen]
    exact s.ofNat_eq (by decide)
  · simp only [Properties.setSak, h, Bool.false_eq_true, if_false, false_and]

end

theorem Properties.ext {p q : Properties} (hu : p.uidLen = q.uidLen) (hr : p.rest = q.rest) :
    p = q := by
  cases p; cases q; cases hu; cases hr; rfl

/-- what an argument of `uid` owes, by its decoding -/
theorem uid_lawful_iff {p : Properties} (hp : WellFormed p) (s : Text) :
    Lawful p (.uid (some s)) ↔ Sound p (.uid (some s)) := by
  have hacc := setUid_accepts p s
  have hrest := setUid_rest p s
  have hlen := setUid_uidLen p s
  constructor
  · rintro ⟨-, hrej⟩
    by_cases hd : Decodes s [4, 7]
    · exact Or.inl hd
    · right
      have heq : (p.setUid (some s)).1 = p := hrej (Bool.eq_false_iff.mpr fun h => hd (hacc.mp h))
      rw [heq] at hrest hlen
      refine ⟨overwrite_eq_self.mp hrest.symm, fun hok => ?_⟩
      rwa [if_pos hok] at hlen
  · intro hs
    by_cases hd : Decodes s [4, 7]
    · rw [if_pos hd.1] at hlen
      have hn := hd.2
      simp only [List.mem_cons, List.not_mem_nil, or_false] at hn
      refine ⟨⟨?_, ?_⟩, fun h => absurd (hacc.mpr hd) (by rw [h]; exact Bool.false_ne_true)⟩
      · have huid : (step p (.uid (some s))).uidLen = (bufAscii2hex s.bytes).1.length := hlen
        rw [huid]
        exact Or.inr hn
      · -- at most seven bytes, and `sak_len` is behind the eighth
        have hsak : (step p (.uid (some s))).sakLen = p.sakLen := by
          show word (p.setUid (some s)).1.rest sakLenAt = word p.rest sakLenAt
          rw [hrest]
          refine word_congr fun k hk => overwrite_out _ _ _ _ (Or.inr ?_)
          unfold uidAt sakLenAt
          omega
        rw [hsak]
        exact hp.sakLen
    · obtain ⟨hslice, huid⟩ := hs.resolve_left hd
      have heq : (p.setUid (some s)).1 = p := by
        apply Properties.ext
        · rw [hlen]
          split_ifs with hok
          · exact (huid hok).symm
          · rfl
        · rw [hrest]
          exact overwrite_eq_self.mpr hslice
      refine ⟨?_, fun _ => heq⟩
      show WellFormed (p.setUid (some s)).1
      rw [heq]
      exact hp

/-- the same for `sak`, whose length is behind its byte in the decoding but before it in place -/
theorem sak_lawful_iff {p : Properties} (hp : WellFormed p) (s : Text) :
    Lawful p (.sak (some s)) ↔ Sound p (.sak (some s)) := by
  have hacc := setSak_accepts p s
  have hrest := setSak_rest p s
  have hlt := s.decoded_lt
  constructor
  · rintro ⟨-, hrej⟩
    by_cases hd : Decodes s [1]
    · exact Or.inl hd
    · right
      have heq : (p.setSak (some s)).1 = p := hrej (Bool.eq_false_iff.mpr fun h => hd (hacc.mp h))
      have hlen := setSak_sakLen p s
      rw [heq] at hrest hlen
      constructor
      · rw [slice_eq_list_iff]
        intro k hk
        rw [hrest]
        split_ifs
        · rw [overwrite_out _ _ _ _ (Or.inr (by rw [le32_length]; unfold sakLenAt sakAt; omega))]
          exact overwrite_in _ _ _ k hk
        · exact overwrite_in _ _ _ k hk
      · intro hok
        rw [hlen hok, BitVec.toNat_ofNat, Nat.mod_eq_of_lt hlt]
  · intro hs
    by_cases hd : Decodes s [1]
    · have hn : (bufAscii2hex s.bytes).1.length = 1 := List.mem_singleton.mp hd.2
      refine ⟨⟨?_, ?_⟩, fun h => absurd (hacc.mpr hd) (by rw [h]; exact Bool.false_ne_true)⟩
      · have huid : (step p (.sak (some s))).uidLen = p.uidLen := setSak_uidLen p s
        rw [huid]
        exact hp.uidLen
      · right
        show (p.setSak (some s)).1.sakLen = 1
        rw [setSak_sakLen p s hd.1, hn]
        rfl
    · obtain ⟨hslice, hsak⟩ := hs.resolve_left hd
      have heq : (p.setSak (some s)).1 = p := by
        apply Properties.ext
        · exact setSak_uidLen p s
        · rw [hrest, overwrite_eq_self.mpr hslice]
          split_ifs with hok
          · have hw : BitVec.ofNat 32 (bufAscii2hex s.bytes).1.length = word p.rest sakLenAt := by
              rw [← hsak hok, BitVec.ofNat_toNat, BitVec.setWidth_eq]
              rfl
            rw [hw, overwrite_word]
          · rfl
      refine ⟨?_, fun _ => heq⟩
      show WellFormed (p.setSak (some s)).1
      rw [heq]
      exact hp

theorem lawful_iff {p : Properties} (hp : WellFormed p) (i : Step) : Lawful p i ↔ Sound p i := by
  cases i with
  | uid arg =>
    cases arg with
    | none => exact ⟨fun _ => trivial, fun _ => ⟨hp, fun _ => rfl⟩⟩
    | some s => exact uid_lawful_iff hp s
  | sak arg =>
    cases arg with
    | none => exact ⟨fun _ => trivial, fun _ => ⟨hp, fun _ => rfl⟩⟩
    | some s => exact sak_lawful_iff hp s
  | uri message => exact ⟨fun _ => trivial, fun _ => ⟨(setUri_lens p message).wellFormed hp, trivial⟩⟩
  | emulate e => exact ⟨fun _ => trivial, fun _ => emulate_lawful hp e⟩

/-- the memory behind `memset`: nothing is set -/
def cleared : Properties := ⟨0, fun _ => 0⟩

theorem cleared_wellFormed : WellFormed cleared := ⟨Or.inl rfl, Or.inl rfl⟩

/-- **The properties of the tag.**  Over a run the law holds exactly when every argument has an
accepted length or decodes to what is there. -/
theorem stepsOk_lawful_iff (is : List Step) :
    StepsOk Lawful step cleared is ↔ StepsOk Sound step cleared is := by
  constructor
  · exact StepsOk.mono (I := WellFormed) (fun p i _ h => h.1) (fun p i hp h => (lawful_iff hp i).mp h)
      cleared_wellFormed
  · exact StepsOk.mono (I := WellFormed) (fun p i hp h => ((lawful_iff hp i).mpr h).1)
      (fun p i hp h => (lawful_iff hp i).mpr h) cleared_wellFormed

/-! ## a rejected argument -/

/-- `uid 04112233`, then `uid 5566`: the second one has a wrong length -/
def uidOfFour : Text := ⟨[0x30, 0x34, 0x31, 0x31, 0x32, 0x32, 0x33, 0x33], by decide⟩
def uidOfTwo : Text := ⟨[0x35, 0x35, 0x36, 0x36], by decide⟩

/-- the rejected argument leaves `uid_len` at two, and its bytes in the first two of the UID -/
theorem rejected_uid_stays :
    ¬ StepsOk Lawful step cleared [.uid (some uidOfFour), .uid (some uidOfTwo)] := by
  rintro ⟨-, ⟨⟨hu, -⟩, -⟩, -⟩
  exact absurd hu (by decide)

end Tag
end Hydra
