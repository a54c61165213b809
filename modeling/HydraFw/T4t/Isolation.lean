import HydraFw.T4t.Confine
import HydraFw.T4t.Effect

/-!
# Does a command depend on its own bytes only?

`processCmd` ignores `cmdLen`, and `cmdFind` searches twenty offsets whatever the length of the
command, so bytes behind the command take part: leftovers of earlier frames and of responses.

* `Agree n b m`           the buffer `m` starts with the `n` bytes of `b`;
* `Isolated`              all buffers that start with the command give the same outcome;
* `Carried`, `Completable`  a pattern found inside the command, or possibly with leftovers;
* `SelfContained`         the commands long enough for what they ask;
* `isolated_iff`          `Isolated` holds of exactly these.
-/

namespace Hydra
open Rams

def Agree (n : Nat) (b m : Nat → UInt8) : Prop := ∀ k, k < n → m k = b k

/-- the outcome of a command of `n` bytes does not depend on the rest of the buffer -/
def Isolated (state : LmState) (c : Card) (n : Nat) (b : Nat → UInt8) : Prop :=
  ∀ m m', Agree n b m → Agree n b m' →
    (process state c m n).outcome = (process state c m' n).outcome

/-- the command followed by `g` -/
def pad (n : Nat) (b g : Nat → UInt8) : Nat → UInt8 := fun k => if k < n then b k else g k

theorem agree_pad (n : Nat) (b g : Nat → UInt8) : Agree n b (pad n b g) := fun _ hk => if_pos hk

theorem pad_behind {n : Nat} {b g : Nat → UInt8} {k : Nat} (h : n ≤ k) : pad n b g k = g k :=
  if_neg (Nat.not_lt.mpr h)

/-! ## patterns -/

/-- `find` lies inside the command, where `cmdFind` looks -/
def Carried (n : Nat) (b : Nat → UInt8) (find : List UInt8) : Prop :=
  ∃ i, i < 20 ∧ i + find.length ≤ n ∧ slice b i find.length = find

/-- some bytes behind the command complete it to one with `find` -/
def Completable (n : Nat) (b : Nat → UInt8) (find : List UInt8) : Prop :=
  ∃ i, i < 20 ∧ ∀ k (h : k < find.length), i + k < n → b (i + k) = find[k]

section
variable {n : Nat} {b m : Nat → UInt8} {find : List UInt8}

theorem find_of_carried (hm : Agree n b m) (h : Carried n b find) : cmdFind m find = true := by
  obtain ⟨i, hi, hlen, hs⟩ := h
  refine (cmdFind_iff m find).mpr ⟨i, hi, ?_⟩
  rw [slice_congr fun k hk => hm (i + k) (by omega), hs]

theorem completable_of_find (hm : Agree n b m) (h : cmdFind m find = true) :
    Completable n b find := by
  obtain ⟨i, hi, hs⟩ := (cmdFind_iff m find).mp h
  rw [slice_eq_list_iff] at hs
  exact ⟨i, hi, fun k hk hn => by rw [← hm (i + k) hn, hs k hk]⟩

/-- with a filler that the pattern does not use, only a carried pattern is found -/
theorem carried_of_find_pad {x : UInt8} (hx : x ∉ find) (hne : 0 < find.length)
    (h : cmdFind (pad n b fun _ => x) find = true) : Carried n b find := by
  obtain ⟨i, hi, hs⟩ := (cmdFind_iff _ find).mp h
  have hs' := slice_eq_list_iff.mp hs
  have hlen : i + find.length ≤ n := by
    by_contra hn
    have hlast := hs' (find.length - 1) (by omega)
    rw [pad_behind (by omega)] at hlast
    exact hx (hlast ▸ List.getElem_mem _)
  refine ⟨i, hi, hlen, ?_⟩
  rw [← slice_congr fun k hk => agree_pad n b (fun _ => x) (i + k) (by omega), hs]

theorem find_of_completable (h : Completable n b find) :
    ∃ m, Agree n b m ∧ cmdFind m find = true := by
  obtain ⟨i, hi, hk⟩ := h
  refine ⟨pad n b fun k => (find[k - i]?).getD 0, agree_pad n b _, ?_⟩
  refine (cmdFind_iff _ find).mpr ⟨i, hi, slice_eq_list_iff.mpr fun k hk' => ?_⟩
  by_cases hn : i + k < n
  · rw [agree_pad n b _ _ hn, hk k hk' hn]
  · rw [pad_behind (by omega), Nat.add_sub_cancel_left, List.getElem?_eq_getElem hk']
    rfl

end

/-! ## SELECT -/

def SelectSelfContained (nState : States) (n : Nat) (b : Nat → UInt8) : Prop :=
  Carried n b aid ∨ ¬ Completable n b aid ∧
    (nState = .idle ∨ Carried n b fidCC ∨ ¬ Completable n b fidCC ∧
      (Carried n b fidNDEF ∨ Carried n b selectFileId ∨
        ¬ Completable n b fidNDEF ∧ ¬ Completable n b selectFileId))

section
variable {m : Nat → UInt8} {s : States} {idx : Int}

theorem ge_appSelected_iff : s.toNat ≥ States.appSelected.toNat ↔ s ≠ .idle := by
  cases s <;> decide

theorem selectFile_app (ha : cmdFind m aid = true) :
    selectFile m s idx = (.appSelected, idx, true) := by
  unfold selectFile
  rw [if_pos ha]

theorem selectFile_idle (ha : ¬ cmdFind m aid = true) (hs : s = .idle) :
    selectFile m s idx = (.idle, idx, false) := by
  unfold selectFile
  simp [ha, hs, States.toNat]

theorem selectFile_cc (ha : ¬ cmdFind m aid = true) (hs : s ≠ .idle)
    (hc : cmdFind m fidCC = true) : selectFile m s idx = (.ccSelected, 0, true) := by
  unfold selectFile
  rw [if_neg ha, if_pos ⟨ge_appSelected_iff.mpr hs, hc⟩]

theorem selectFile_ndef (ha : ¬ cmdFind m aid = true) (hs : s ≠ .idle)
    (hc : ¬ cmdFind m fidCC = true)
    (hn : cmdFind m fidNDEF = true ∨ cmdFind m selectFileId = true) :
    selectFile m s idx = (.fidSelected, 1, true) := by
  unfold selectFile
  rw [if_neg ha, if_neg (fun h => hc h.2), if_pos ⟨ge_appSelected_iff.mpr hs, hn⟩]

theorem selectFile_none (ha : ¬ cmdFind m aid = true) (hc : ¬ cmdFind m fidCC = true)
    (hn : ¬ (cmdFind m fidNDEF = true ∨ cmdFind m selectFileId = true)) :
    selectFile m s idx = (.idle, idx, false) := by
  unfold selectFile
  rw [if_neg ha, if_neg (fun h => hc h.2), if_neg (fun h => hn h.2)]

end

section
variable {n : Nat} {b m m' : Nat → UInt8} {s : States}

theorem selectFile_congr (idx : Int) (h : SelectSelfContained s n b) (hm : Agree n b m)
    (hm' : Agree n b m') : selectFile m s idx = selectFile m' s idx := by
  rcases h with ha | ⟨ha, h⟩
  · rw [selectFile_app (find_of_carried hm ha), selectFile_app (find_of_carried hm' ha)]
  have hna := fun hf => ha (completable_of_find hm hf)
  have hna' := fun hf => ha (completable_of_find hm' hf)
  by_cases hs : s = .idle
  · rw [selectFile_idle hna hs, selectFile_idle hna' hs]
  rcases h with h | hc | ⟨hc, h⟩
  · exact absurd h hs
  · rw [selectFile_cc hna hs (find_of_carried hm hc), selectFile_cc hna' hs (find_of_carried hm' hc)]
  have hnc := fun hf => hc (completable_of_find hm hf)
  have hnc' := fun hf => hc (completable_of_find hm' hf)
  rcases h with hn | hn | ⟨hn, hi⟩
  · rw [selectFile_ndef hna hs hnc (Or.inl (find_of_carried hm hn)),
      selectFile_ndef hna' hs hnc' (Or.inl (find_of_carried hm' hn))]
  · rw [selectFile_ndef hna hs hnc (Or.inr (find_of_carried hm hn)),
      selectFile_ndef hna' hs hnc' (Or.inr (find_of_carried hm' hn))]
  · rw [selectFile_none hna hnc fun h => h.elim (fun h => hn (completable_of_find hm h))
        (fun h => hi (completable_of_find hm h)),
      selectFile_none hna' hnc' fun h => h.elim (fun h => hn (completable_of_find hm' h))
        (fun h => hi (completable_of_find hm' h))]

/-- otherwise one filler completes a pattern that another one leaves out -/
theorem selectFile_differ (idx : Int) (h : ¬ SelectSelfContained s n b) :
    ∃ m m', Agree n b m ∧ Agree n b m' ∧
      (selectFile m s idx).1 ≠ (selectFile m' s idx).1 := by
  unfold SelectSelfContained at h
  have hff := agree_pad n b fun _ => 0xFF
  have ha : ¬ cmdFind (pad n b fun _ => 0xFF) aid = true := fun hf =>
    h (Or.inl (carried_of_find_pad (by decide) (by decide) hf))
  by_cases hca : Completable n b aid
  · obtain ⟨m, hm, hf⟩ := find_of_completable hca
    refine ⟨m, _, hm, hff, ?_⟩
    rw [selectFile_app hf]
    unfold selectFile
    rw [if_neg ha]
    split_ifs <;> exact States.noConfusion
  have hna : ∀ {m}, Agree n b m → ¬ cmdFind m aid = true := fun hm hf =>
    hca (completable_of_find hm hf)
  by_cases hs : s = .idle
  · exact absurd (Or.inr ⟨hca, Or.inl hs⟩) h
  have hc : ¬ cmdFind (pad n b fun _ => 0xFF) fidCC = true := fun hf =>
    h (Or.inr ⟨hca, Or.inr (Or.inl (carried_of_find_pad (by decide) (by decide) hf))⟩)
  by_cases hcc : Completable n b fidCC
  · obtain ⟨m, hm, hf⟩ := find_of_completable hcc
    refine ⟨m, _, hm, hff, ?_⟩
    rw [selectFile_cc (hna hm) hs hf]
    unfold selectFile
    rw [if_neg ha, if_neg (fun h => hc h.2)]
    split_ifs <;> exact States.noConfusion
  have hnc : ∀ {m}, Agree n b m → ¬ cmdFind m fidCC = true := fun hm hf =>
    hcc (completable_of_find hm hf)
  have hn : ¬ (cmdFind (pad n b fun _ => 0xFF) fidNDEF = true ∨
      cmdFind (pad n b fun _ => 0xFF) selectFileId = true) := by
    rintro (hf | hf)
    · exact h (Or.inr ⟨hca, Or.inr (Or.inr ⟨hcc, Or.inl
        (carried_of_find_pad (by decide) (by decide) hf)⟩)⟩)
    · exact h (Or.inr ⟨hca, Or.inr (Or.inr ⟨hcc, Or.inr (Or.inl
        (carried_of_find_pad (by decide) (by decide) hf))⟩)⟩)
  have hone : Completable n b fidNDEF ∨ Completable n b selectFileId := by
    by_contra hno
    rw [not_or] at hno
    exact h (Or.inr ⟨hca, Or.inr (Or.inr ⟨hcc, Or.inr (Or.inr hno)⟩)⟩)
  have hfound : ∃ m, Agree n b m ∧ (cmdFind m fidNDEF = true ∨ cmdFind m selectFileId = true) := by
    rcases hone with h1 | h1
    · obtain ⟨m, hm, hf⟩ := find_of_completable h1
      exact ⟨m, hm, Or.inl hf⟩
    · obtain ⟨m, hm, hf⟩ := find_of_completable h1
      exact ⟨m, hm, Or.inr hf⟩
  obtain ⟨m, hm, hf⟩ := hfound
  refine ⟨m, _, hm, hff, ?_⟩
  rw [selectFile_ndef (hna hm) hs (hnc hm) hf, selectFile_none ha hc hn]
  exact States.noConfusion

end

/-! ## the other commands -/

def ReadSelfContained (c : Card) (n : Nat) (b : Nat → UInt8) : Prop :=
  selectedObj c = none ∨ 5 ≤ n ∨ n = 4 ∧ pdwFileSize c.nSelectedIdx ≤ cmdOffset b

def UpdateSelfContained (c : Card) (n : Nat) (b : Nat → UInt8) : Prop :=
  c.nSelectedIdx ≠ 1 ∨ n = 4 ∧ cmdOffset b = 0xFFFF ∨
    5 ≤ n ∧ (ndefSize < cmdOffset b + cmdLength b ∨ 5 + cmdLength b ≤ n)

/-- The commands long enough for what they ask.  A command of no byte never is, and of a command
of class 00 the instruction has to be there. -/
def SelfContained (state : LmState) (c : Card) (n : Nat) (b : Nat → UInt8) : Prop :=
  state ≠ .cardemu4A ∨ 1 ≤ n ∧ (b 0 ≠ 0x00 ∨ 2 ≤ n ∧
    (b 1 = 0xA4 → SelectSelfContained c.nState n b) ∧
    (b 1 = 0xB0 → ReadSelfContained c n b) ∧
    (b 1 = 0xD6 → UpdateSelfContained c n b))

section
variable {c : Card} {m : Nat → UInt8}

theorem effect_class (h : m 0 ≠ 0x00) : effect c m = .refuse 0x68 0x00 := by
  unfold effect decode
  simp [h]

theorem effect_other (h4 : m 1 ≠ 0xA4) (hb : m 1 ≠ 0xB0) (hd : m 1 ≠ 0xD6) :
    effect c m = .refuse 0x68 0x00 := by
  unfold effect decode
  simp [h4, hb, hd]

theorem effect_select (h0 : m 0 = 0x00) (h1 : m 1 = 0xA4) :
    effect c m = .select (selectFile m c.nState c.nSelectedIdx) := by
  unfold effect decode
  simp [h0, h1]

theorem decode_of_read (h0 : m 0 = 0x00) (h1 : m 1 = 0xB0) :
    decode m = .read (cmdOffset m) (cmdLength m) := by
  unfold decode
  simp [h0, h1]

theorem decode_of_update (h0 : m 0 = 0x00) (h1 : m 1 = 0xD6) :
    decode m = .update (cmdOffset m) (cmdLength m) := by
  unfold decode
  simp [h0, h1]

theorem effect_read_none (h0 : m 0 = 0x00) (h1 : m 1 = 0xB0) (hf : selectedObj c = none) :
    effect c m = .refuse 0x6A 0x82 := by
  unfold effect
  rw [decode_of_read h0 h1]
  simp only [hf]

theorem effect_read {f : Obj} (h0 : m 0 = 0x00) (h1 : m 1 = 0xB0) (hf : selectedObj c = some f) :
    effect c m = .data f (cmdOffset m) (clipped c.nSelectedIdx (cmdOffset m) (cmdLength m)) := by
  unfold effect
  rw [decode_of_read h0 h1]
  simp only [hf]

theorem effect_update_none (h0 : m 0 = 0x00) (h1 : m 1 = 0xD6) (hf : c.nSelectedIdx ≠ 1) :
    effect c m = .refuse 0x6A 0x82 := by
  unfold effect
  rw [decode_of_update h0 h1]
  exact if_pos hf

theorem effect_update_long (h0 : m 0 = 0x00) (h1 : m 1 = 0xD6) (hf : c.nSelectedIdx = 1)
    (hl : ndefSize < cmdOffset m + cmdLength m) : effect c m = .refuse 0x62 0x82 := by
  unfold effect
  rw [decode_of_update h0 h1]
  show (if _ then _ else _) = _
  rw [if_neg (not_not.mpr hf), if_pos hl]

theorem effect_update (h0 : m 0 = 0x00) (h1 : m 1 = 0xD6) (hf : c.nSelectedIdx = 1)
    (hl : cmdOffset m + cmdLength m ≤ ndefSize) :
    effect c m = .store (cmdOffset m) (slice m 5 (cmdLength m)) := by
  unfold effect
  rw [decode_of_update h0 h1]
  show (if _ then _ else _) = _
  rw [if_neg (not_not.mpr hf), if_neg (Nat.not_lt.mpr hl)]

/-- behind the end of the file the length asked for no longer matters -/
theorem clipped_behind {idx : Int} {off : Nat} (le : Nat) (h : pdwFileSize idx ≤ off)
    (hoff : off < 2 ^ 16) :
    clipped idx off le = (pdwFileSize idx + 2 ^ 32 - off) % 2 ^ 32 % 2 ^ 16 := by
  unfold clipped
  split
  · rfl
  · omega

end

/-! ## self-contained commands are isolated -/

section
variable {c : Card} {n : Nat} {b m m' : Nat → UInt8}

theorem cmdOffset_agree (hm : Agree n b m) (hn : 4 ≤ n) : cmdOffset m = cmdOffset b := by
  unfold cmdOffset
  rw [hm 2 (by omega), hm 3 (by omega)]

theorem cmdLength_agree (hm : Agree n b m) (hn : 5 ≤ n) : cmdLength m = cmdLength b := by
  unfold cmdLength
  rw [hm 4 (by omega)]

theorem effect_read_congr (h : ReadSelfContained c n b) (hm : Agree n b m) (hm' : Agree n b m')
    (h0 : m 0 = 0x00) (h1 : m 1 = 0xB0) (h0' : m' 0 = 0x00) (h1' : m' 1 = 0xB0) :
    effect c m = effect c m' := by
  cases hf : selectedObj c with
  | none => rw [effect_read_none h0 h1 hf, effect_read_none h0' h1' hf]
  | some f =>
    rw [effect_read h0 h1 hf, effect_read h0' h1' hf]
    rcases h with h | h | ⟨h, hoff⟩
    · exact absurd (h.symm.trans hf) (Option.some_ne_none f).symm
    · rw [cmdOffset_agree hm (by omega), cmdOffset_agree hm' (by omega), cmdLength_agree hm h,
        cmdLength_agree hm' h]
    · have hlt := cmdOffset_lt b
      rw [cmdOffset_agree hm (by omega), cmdOffset_agree hm' (by omega),
        clipped_behind _ hoff hlt, clipped_behind _ hoff hlt]

theorem effect_update_congr (h : UpdateSelfContained c n b) (hm : Agree n b m)
    (hm' : Agree n b m') (h0 : m 0 = 0x00) (h1 : m 1 = 0xD6) (h0' : m' 0 = 0x00)
    (h1' : m' 1 = 0xD6) : effect c m = effect c m' := by
  by_cases hf : c.nSelectedIdx = 1
  · rcases h with h | ⟨h, hoff⟩ | ⟨h, hlen⟩
    · exact absurd hf h
    · have hl := cmdOffset_agree hm (by omega)
      have hl' := cmdOffset_agree hm' (by omega)
      rw [effect_update_long h0 h1 hf (by unfold ndefSize; omega),
        effect_update_long h0' h1' hf (by unfold ndefSize; omega)]
    · have ho := cmdOffset_agree hm (by omega)
      have ho' := cmdOffset_agree hm' (by omega)
      have hl := cmdLength_agree hm h
      have hl' := cmdLength_agree hm' h
      rcases Nat.lt_or_ge ndefSize (cmdOffset b + cmdLength b) with hlong | hok
      · rw [effect_update_long h0 h1 hf (by omega), effect_update_long h0' h1' hf (by omega)]
      · have hin : 5 + cmdLength b ≤ n := by omega
        rw [effect_update h0 h1 hf (by omega), effect_update h0' h1' hf (by omega), ho, ho', hl, hl']
        congr 1
        exact slice_congr fun k hk => by rw [hm _ (by omega), hm' _ (by omega)]
  · rw [effect_update_none h0 h1 hf, effect_update_none h0' h1' hf]

theorem effect_congr (h : SelfContained .cardemu4A c n b) (hm : Agree n b m)
    (hm' : Agree n b m') : effect c m = effect c m' := by
  rcases h with h | ⟨hn1, h⟩
  · exact absurd rfl h
  have e0 := hm 0 (by omega)
  have e0' := hm' 0 (by omega)
  by_cases h0 : b 0 = 0x00
  · rcases h with h | ⟨hn2, hsel, hread, hupd⟩
    · exact absurd h0 h
    have e1 := hm 1 (by omega)
    have e1' := hm' 1 (by omega)
    rw [h0] at e0 e0'
    by_cases h4 : b 1 = 0xA4
    · rw [effect_select e0 (by rw [e1, h4]), effect_select e0' (by rw [e1', h4]),
        selectFile_congr _ (hsel h4) hm hm']
    by_cases hb : b 1 = 0xB0
    · exact effect_read_congr (hread hb) hm hm' e0 (by rw [e1, hb]) e0' (by rw [e1', hb])
    by_cases hd : b 1 = 0xD6
    · exact effect_update_congr (hupd hd) hm hm' e0 (by rw [e1, hd]) e0' (by rw [e1', hd])
    · rw [effect_other (by rwa [e1]) (by rwa [e1]) (by rwa [e1]),
        effect_other (by rwa [e1']) (by rwa [e1']) (by rwa [e1'])]
  · rw [effect_class (by rwa [e0]), effect_class (by rwa [e0'])]

end

/-! ## all others are not -/

/-- two fillers give different outcomes -/
def Differ (c : Card) (n : Nat) (b : Nat → UInt8) : Prop :=
  ∃ m m', Agree n b m ∧ Agree n b m' ∧ (effect c m).run c ≠ (effect c m').run c

section
variable {c : Card} {n : Nat} {b : Nat → UInt8}

/-- a buffer that is zero but for one byte -/
def only (i : Nat) (x : UInt8) : Nat → UInt8 := fun k => if k = i then x else 0

theorem pad_only_ne {i k : Nat} {x : UInt8} (hk : k ≠ i) (y : UInt8) :
    pad n b (only i x) k = pad n b (only i y) k := by
  unfold pad only
  rw [if_neg hk, if_neg hk]

/-- without class or instruction a whole SELECT may stand in the buffer -/
theorem differ_short (hn : n ≤ 1) (h : n = 1 → b 0 = 0x00) : Differ c n b := by
  have hm0 : pad n b (fun k => (apduSelectApp[k]?).getD 0) 0 = 0x00 := by
    rcases Nat.eq_zero_or_pos n with h0 | h0
    · rw [pad_behind (by omega)]
      rfl
    · rw [agree_pad n b _ 0 h0, h (by omega)]
  have hm1 : pad n b (fun k => (apduSelectApp[k]?).getD 0) 1 = 0xA4 := by
    rw [pad_behind (by omega)]
    rfl
  have hfind : cmdFind (pad n b fun k => (apduSelectApp[k]?).getD 0) aid = true := by
    refine (cmdFind_iff _ _).mpr ⟨5, by decide, ?_⟩
    rw [slice_congr fun k _ => pad_behind (b := b) (by omega)]
    decide
  have hff : effect c (pad n b fun _ => 0xFF) = .refuse 0x68 0x00 := by
    rcases Nat.eq_zero_or_pos n with h0 | h0
    · apply effect_class
      rw [pad_behind (by omega)]
      decide
    · have h1 : pad n b (fun _ => 0xFF) 1 = 0xFF := pad_behind (by omega)
      exact effect_other (by rw [h1]; decide) (by rw [h1]; decide) (by rw [h1]; decide)
  refine ⟨_, _, agree_pad n b fun k => (apduSelectApp[k]?).getD 0, agree_pad n b fun _ => 0xFF,
    fun he => ?_⟩
  rw [hff, effect_select hm0 hm1, selectFile_app hfind] at he
  exact absurd (congrArg Outcome.answer he) (by simp [Effect.run, Effect.answer])

theorem differ_select (hn : 2 ≤ n) (h0 : b 0 = 0x00) (h1 : b 1 = 0xA4)
    (h : ¬ SelectSelfContained c.nState n b) : Differ c n b := by
  obtain ⟨m, m', hm, hm', hne⟩ := selectFile_differ c.nSelectedIdx h
  refine ⟨m, m', hm, hm', fun he => hne ?_⟩
  rw [effect_select (by rw [hm 0 (by omega), h0]) (by rw [hm 1 (by omega), h1]),
    effect_select (by rw [hm' 0 (by omega), h0]) (by rw [hm' 1 (by omega), h1])] at he
  exact congrArg Outcome.nState he

/-- the announced length tells lengths apart that differ by one -/
theorem data_bits_ne {c : Card} {f : Obj} {off off' k k' : Nat} (h : k' = k + 1) :
    ((Effect.data f off k).run c) ≠ ((Effect.data f off' k').run c) := by
  intro he
  have hb : 8 * ((k + 2) % 2 ^ 16) % 2 ^ 16 = 8 * ((k' + 2) % 2 ^ 16) % 2 ^ 16 :=
    congrArg Outcome.bits he
  omega

theorem differ_read (hn : 2 ≤ n) (h0 : b 0 = 0x00) (h1 : b 1 = 0xB0)
    (h : ¬ ReadSelfContained c n b) : Differ c n b := by
  unfold ReadSelfContained at h
  rw [not_or, not_or] at h
  obtain ⟨hnone, hn5, h4⟩ := h
  obtain ⟨f, hf⟩ := Option.ne_none_iff_exists'.mp hnone
  have e0 : ∀ g, pad n b g 0 = 0x00 := fun g => by rw [agree_pad n b g 0 (by omega), h0]
  have e1 : ∀ g, pad n b g 1 = 0xB0 := fun g => by rw [agree_pad n b g 1 (by omega), h1]
  -- the fillers differ in Le while the offset is inside the file, in P2 otherwise
  by_cases hoff : cmdOffset (pad n b (only 4 0)) < pdwFileSize c.nSelectedIdx
  · have ho : cmdOffset (pad n b (only 4 1)) = cmdOffset (pad n b (only 4 0)) := by
      unfold cmdOffset
      rw [pad_only_ne (by decide) 0, pad_only_ne (k := 3) (by decide) 0]
    have hl : ∀ x, cmdLength (pad n b (only 4 x)) = x.toNat := fun x => by
      unfold cmdLength
      rw [pad_behind (by omega)]
      rfl
    refine ⟨_, _, agree_pad n b (only 4 0), agree_pad n b (only 4 1), ?_⟩
    rw [effect_read (e0 _) (e1 _) hf, effect_read (e0 _) (e1 _) hf, ho, hl, hl,
      clipped_of_le (by omega), clipped_of_le (by omega)]
    apply data_bits_ne
    show min 1 _ = min 0 _ + 1
    omega
  · have hn3 : n ≤ 3 := by
      by_contra hn4
      have ho := cmdOffset_agree (agree_pad n b (only 4 0)) (by omega)
      exact h4 ⟨by omega, by omega⟩
    have hlow : ∀ x, pad n b (only 3 x) 3 = x := fun x => by
      rw [pad_behind (by omega)]
      rfl
    have hhigh : pad n b (only 3 1) 2 = pad n b (only 3 0) 2 :=
      pad_only_ne (by decide) 0
    have hsame : cmdOffset (pad n b (only 3 0)) = cmdOffset (pad n b (only 4 0)) := by
      have e : only 3 0 = only 4 0 := by
        funext k
        unfold only
        rw [ite_self, ite_self]
      rw [e]
    have ho0 : cmdOffset (pad n b (only 3 0)) = (pad n b (only 3 0) 2).toNat * 256 := by
      unfold cmdOffset
      rw [hlow, show (0 : UInt8).toNat = 0 by decide, Nat.add_zero]
    have ho1 : cmdOffset (pad n b (only 3 1)) = (pad n b (only 3 0) 2).toNat * 256 + 1 := by
      unfold cmdOffset
      rw [hlow, hhigh, show (1 : UInt8).toNat = 1 by decide]
    have hlt := (pad n b (only 3 0) 2).toNat_lt
    -- an offset with a zero low byte lies behind the capability container only
    have hsize : pdwFileSize c.nSelectedIdx = 15 := by
      unfold pdwFileSize at hoff ⊢
      split_ifs at hoff ⊢
      · rfl
      · unfold ndefSize at hoff
        omega
    refine ⟨_, _, agree_pad n b (only 3 1), agree_pad n b (only 3 0), ?_⟩
    rw [effect_read (e0 _) (e1 _) hf, effect_read (e0 _) (e1 _) hf,
      clipped_behind _ (by omega) (by omega), clipped_behind _ (by omega) (by omega), hsize]
    exact data_bits_ne (by omega)

theorem run_store_mem (off : Nat) (d : List UInt8) : ((Effect.store off d).run c).mem .ndefBuffer
    = overwrite (c.ram.mem .ndefBuffer) off d := by
  show Function.update (Function.update c.ram.mem .ndefBuffer
    (overwrite (c.ram.mem .ndefBuffer) off d)) .rxtxFrameBuf blank .ndefBuffer = _
  rw [Function.update_of_ne (by decide), Function.update_self]

/-- a store of other bytes leaves another file -/
theorem store_ne {off j : Nat} {d d' : List UInt8} (h : overwrite (c.ram.mem .ndefBuffer) off d j ≠
    overwrite (c.ram.mem .ndefBuffer) off d' j) :
    (Effect.store off d).run c ≠ (Effect.store off d').run c := by
  intro he
  have hm := congrArg (fun o : Outcome => o.mem .ndefBuffer j) he
  simp only [run_store_mem] at hm
  exact h hm

/-- the data of an UPDATE reaches behind the command -/
theorem differ_update_data (hn : 5 ≤ n) (h0 : b 0 = 0x00) (h1 : b 1 = 0xD6)
    (hf : c.nSelectedIdx = 1) (hok : cmdOffset b + cmdLength b ≤ ndefSize)
    (hlen : n < 5 + cmdLength b) : Differ c n b := by
  have eff : ∀ x, effect c (pad n b fun _ => x)
      = .store (cmdOffset b) (slice (pad n b fun _ => x) 5 (cmdLength b)) := fun x => by
    have ha := agree_pad n b fun _ => x
    have ho := cmdOffset_agree ha (by omega)
    have hl := cmdLength_agree ha (by omega)
    rw [effect_update (by rw [ha 0 (by omega), h0]) (by rw [ha 1 (by omega), h1]) hf (by omega),
      ho, hl]
  refine ⟨_, _, agree_pad n b fun _ => 0, agree_pad n b fun _ => 1, ?_⟩
  rw [eff, eff]
  refine store_ne (j := cmdOffset b + (n - 5)) ?_
  rw [overwrite_slice, overwrite_slice, if_pos (by omega), if_pos (by omega)]
  rw [pad_behind (by omega), pad_behind (by omega)]
  decide

/-- the length of an UPDATE is not part of the command -/
theorem differ_update_length (hn2 : 2 ≤ n) (hn : n ≤ 4) (h0 : b 0 = 0x00) (h1 : b 1 = 0xD6)
    (hf : c.nSelectedIdx = 1) (hoff : n = 4 → cmdOffset b ≠ 0xFFFF) : Differ c n b := by
  -- Lc = 0 against Lc = 1 with a byte that is not in the file yet
  obtain ⟨x, hx⟩ : ∃ x, x ≠ c.ram.mem .ndefBuffer (cmdOffset (pad n b fun _ => 0)) := by
    by_cases hz : c.ram.mem .ndefBuffer (cmdOffset (pad n b fun _ => 0)) = 0
    · exact ⟨1, by rw [hz]; decide⟩
    · exact ⟨0, fun h => hz h.symm⟩
  have e0 : ∀ g, pad n b g 0 = 0x00 := fun g => by rw [agree_pad n b g 0 (by omega), h0]
  have e1 : ∀ g, pad n b g 1 = 0xD6 := fun g => by rw [agree_pad n b g 1 (by omega), h1]
  have ho : cmdOffset (pad n b fun k => if k = 4 then 1 else if k = 5 then x else 0)
      = cmdOffset (pad n b fun _ => 0) := by
    unfold cmdOffset pad
    rfl
  have hl0 : cmdLength (pad n b fun _ => 0) = 0 := by
    unfold cmdLength
    rw [pad_behind hn]
    rfl
  have hl1 : cmdLength (pad n b fun k => if k = 4 then 1 else if k = 5 then x else 0) = 1 := by
    unfold cmdLength
    rw [pad_behind hn]
    rfl
  have hd1 : slice (pad n b fun k => if k = 4 then 1 else if k = 5 then x else 0) 5 1 = [x] := by
    show [pad n b _ 5] = [x]
    rw [pad_behind (by omega)]
    rfl
  have hle : cmdOffset (pad n b fun _ => 0) ≤ ndefSize := by
    have hlt := cmdOffset_lt (pad n b fun _ => 0)
    unfold ndefSize
    rcases Nat.lt_or_ge n 4 with h3 | h4
    · have hz : pad n b (fun _ => 0) 3 = 0 := pad_behind (by omega)
      unfold cmdOffset at hlt ⊢
      rw [hz, show (0 : UInt8).toNat = 0 by decide] at hlt ⊢
      omega
    · have := hoff (by omega)
      have := cmdOffset_agree (agree_pad n b fun _ => 0) h4
      omega
  refine ⟨_, _, agree_pad n b fun _ => 0,
    agree_pad n b fun k => if k = 4 then 1 else if k = 5 then x else 0, ?_⟩
  rw [effect_update (e0 _) (e1 _) hf (by omega)]
  rcases Nat.lt_or_ge ndefSize (cmdOffset (pad n b fun _ => 0) + 1) with hlong | hok
  · rw [effect_update_long (e0 _) (e1 _) hf (by omega)]
    intro he
    exact absurd (congrArg Outcome.answer he) (by simp [Effect.run, Effect.answer])
  · rw [effect_update (e0 _) (e1 _) hf (by omega), hl0, hl1, hd1, ho]
    refine store_ne (j := cmdOffset (pad n b fun _ => 0)) ?_
    rw [slice_zero, overwrite_nil]
    have hcell := overwrite_in (c.ram.mem .ndefBuffer) (cmdOffset (pad n b fun _ => 0)) [x] 0
      (by simp)
    rw [Nat.add_zero] at hcell
    rw [hcell]
    exact hx.symm

theorem differ_update (hn : 2 ≤ n) (h0 : b 0 = 0x00) (h1 : b 1 = 0xD6)
    (h : ¬ UpdateSelfContained c n b) : Differ c n b := by
  unfold UpdateSelfContained at h
  rw [not_or, not_or, not_not] at h
  obtain ⟨hf, h4, h5⟩ := h
  by_cases hn5 : 5 ≤ n
  · have hlen : ¬ (ndefSize < cmdOffset b + cmdLength b ∨ 5 + cmdLength b ≤ n) :=
      fun hl => h5 ⟨hn5, hl⟩
    rw [not_or] at hlen
    exact differ_update_data hn5 h0 h1 hf (by omega) (by omega)
  · exact differ_update_length hn (by omega) h0 h1 hf fun hn4 ho => h4 ⟨hn4, ho⟩

theorem differ_of_not_selfContained (h : ¬ SelfContained .cardemu4A c n b) : Differ c n b := by
  unfold SelfContained at h
  rw [not_or, not_not] at h
  have h := h.2
  rcases Nat.lt_or_ge n 2 with hn | hn
  · refine differ_short (by omega) fun hn1 => ?_
    by_contra hb
    exact h ⟨by omega, Or.inl hb⟩
  by_cases h0 : b 0 = 0x00
  · by_cases h4 : b 1 = 0xA4
    · refine differ_select hn h0 h4 fun hs => h ⟨by omega, Or.inr ⟨hn, fun _ => hs, ?_, ?_⟩⟩
      · rw [h4]
        exact fun hb => absurd hb (by decide)
      · rw [h4]
        exact fun hd => absurd hd (by decide)
    by_cases hb : b 1 = 0xB0
    · refine differ_read hn h0 hb fun hs =>
        h ⟨by omega, Or.inr ⟨hn, fun he => absurd he h4, fun _ => hs, ?_⟩⟩
      rw [hb]
      exact fun hd => absurd hd (by decide)
    by_cases hd : b 1 = 0xD6
    · exact differ_update hn h0 hd fun hs => h ⟨by omega, Or.inr ⟨hn, fun he => absurd he h4,
        fun he => absurd he hb, fun _ => hs⟩⟩
    · exact absurd ⟨by omega, Or.inr ⟨hn, fun he => absurd he h4, fun he => absurd he hb,
        fun he => absurd he hd⟩⟩ h
  · exact absurd ⟨by omega, Or.inl h0⟩ h

end

/-- the other listen states answer nothing and change nothing -/
theorem outcome_other {state : LmState} (hs : state ≠ .cardemu4A) (c : Card) (m m' : Nat → UInt8)
    (n : Nat) : (process state c m n).outcome = (process state c m' n).outcome := by
  have hmem : Function.update (c.withFrame m).ram.mem .rxtxFrameBuf blank
      = Function.update (c.withFrame m').ram.mem .rxtxFrameBuf blank := by
    refine mem_frame_free fun o ho => ?_
    show Function.update c.ram.mem .rxtxFrameBuf m o = Function.update c.ram.mem .rxtxFrameBuf m' o
    rw [Function.update_of_ne ho, Function.update_of_ne ho]
  have hquiet : ∀ (r : Bool) (ms : Nat → UInt8),
      (Rsp.mk (c.withFrame ms) 0 r).answer = [] := fun _ _ => by
    unfold Rsp.answer
    rw [show rfalConvBitsToBytes 0 = 0 by decide, slice_zero]
  cases state with
  | cardemu4A => exact absurd rfl hs
  | _ => exact Outcome.ext rfl ((hquiet _ _).trans (hquiet _ _).symm) rfl rfl rfl rfl rfl hmem

/-- **Isolation.**  Exactly the self-contained commands are processed alike whatever the rest of
the frame buffer holds. -/
theorem isolated_iff (state : LmState) (c : Card) (hfile : c.ndefFile = .ndefBuffer) (n : Nat)
    (b : Nat → UInt8) : Isolated state c n b ↔ SelfContained state c n b := by
  have hne : c.ndefFile ≠ .rxtxFrameBuf := by
    rw [hfile]
    decide
  by_cases hs : state = .cardemu4A
  · subst hs
    constructor
    · intro hiso
      by_contra hnot
      obtain ⟨m, m', hm, hm', hd⟩ := differ_of_not_selfContained hnot
      have he := hiso m m' hm hm'
      rw [outcome_eq hne, outcome_eq hne] at he
      exact hd he
    · intro h m m' hm hm'
      rw [outcome_eq hne, outcome_eq hne, effect_congr h hm hm']
  · exact iff_of_true (fun m m' _ _ => outcome_other hs c m m' n) (Or.inl hs)

/-! ## leftovers -/

/-- the buffer after an application SELECT of 13 bytes -/
def selectAppBuf : Nat → UInt8 := fun k => (apduSelectApp[k]?).getD 0

/-- a SELECT of five bytes, without data -/
def selectNothing : Nat → UInt8 := fun k => ([0x00, 0xA4, 0x04, 0x00, 0x00][k]?).getD 0

/-- a SELECT that carries no name selects the application left over in the buffer -/
theorem select_leftover :
    (process .cardemu4A sessionCard (pad 5 selectNothing selectAppBuf) 5).answer = [0x90, 0x00] ∧
    (process .cardemu4A sessionCard (pad 5 selectNothing blank) 5).answer = [0x6A, 0x82] ∧
    ¬ ∀ (state : LmState) (c : Card) (n : Nat) (b : Nat → UInt8), c.ndefFile = .ndefBuffer →
      Isolated state c n b := by
  have h1 : (process .cardemu4A sessionCard (pad 5 selectNothing selectAppBuf) 5).answer
      = [0x90, 0x00] := by decide
  have h2 : (process .cardemu4A sessionCard (pad 5 selectNothing blank) 5).answer
      = [0x6A, 0x82] := by decide
  refine ⟨h1, h2, fun hall => ?_⟩
  have he := hall .cardemu4A sessionCard 5 selectNothing rfl _ _
    (agree_pad 5 selectNothing selectAppBuf) (agree_pad 5 selectNothing blank)
  have ha : (process .cardemu4A sessionCard (pad 5 selectNothing selectAppBuf) 5).answer
      = (process .cardemu4A sessionCard (pad 5 selectNothing blank) 5).answer :=
    congrArg Outcome.answer he
  rw [h1, h2] at ha
  exact absurd ha (by decide)

/-- the application SELECT itself carries all it needs -/
theorem isolated_iff_select_app : Isolated .cardemu4A sessionCard 13 selectAppBuf :=
  (isolated_iff .cardemu4A sessionCard rfl 13 selectAppBuf).mpr
    (Or.inr ⟨by decide, Or.inr ⟨by decide, fun _ => Or.inl ⟨5, by decide, by decide, by decide⟩,
      fun h => absurd h (by decide), fun h => absurd h (by decide)⟩⟩)

end Hydra
