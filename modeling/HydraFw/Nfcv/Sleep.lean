import HydraFw.Nfcv.Complete

/-!
# The NFC-V resolution that puts devices to sleep

`rfalNfcvPollerSleepCollisionResolution` resolves again and again, and tells every device found to
stay quiet, so that a later resolution has fewer collisions.

* `sleepFrom_spec`   the devices of a resolution are put to sleep;
* `Slept`            the devices found so far are quiet, and no others;
* `round_spec`       one resolution with its devices;
* `sleep_lists`      in any field, the run ends and lists different cards, which are quiet;
* `sleep_leaves`     in an ideal field, it never leaves one, two or three cards.
-/

namespace Hydra
namespace Nfcv
open BitBuf hiding Byte
open Vicinity hiding Byte
open Rams Common Trie

section
variable {ω : Type*} {p : Population} {r : Radio ω} {σ : ω → Vicc → State} {st : Vicc → State}
  {limit n : Nat} {s : SleepRound ω} {found : List Vicc} {list : Nat → ListenDevice}

theorem ofBytes_stayQuiet (uid : List Byte) :
    Command.ofBytes ([0x00 ||| reqFlagAddress, 0x02] ++ uid) = .stayQuiet uid := by
  rfl

theorem sleep_world (air : Air p r σ) (uid : List Byte) (w : ω) :
    σ (rfalNfcvPollerSleep r 0x00 uid w).2 = hear (σ w) (.stayQuiet uid) := by
  have hworld : (rfalNfcvPollerSleep r 0x00 uid w).2 =
      (r.transceive ([0x00 ||| reqFlagAddress, 0x02] ++ uid) w).2 := by
    unfold rfalNfcvPollerSleep
    dsimp only
    split_ifs <;> rfl
  rw [hworld, air.transceive, ofBytes_stayQuiet]

/-- the devices from `i` on are told to stay quiet -/
theorem sleepFrom_spec (air : Air p r σ) (left i : Nat) (list : Nat → ListenDevice) (w : ω) :
    (∀ j, ((sleepFrom r left i (list, w)).1 j).invRes = (list j).invRes) ∧
      (∀ j, ((sleepFrom r left i (list, w)).1 j).isSleep =
        if i ≤ j ∧ j < i + left then true else (list j).isSleep) ∧
      ∀ v, σ (sleepFrom r left i (list, w)).2 v = .quiet ↔
        σ w v = .quiet ∨ ∃ j, i ≤ j ∧ j < i + left ∧ (list j).uid = v.uid := by
  induction left generalizing i list w with
  | zero =>
    refine ⟨fun j => rfl, fun j => ?_, fun v => ?_⟩
    · rw [if_neg (by omega)]
      rfl
    · constructor
      · exact .inl
      · rintro (h | ⟨j, hij, hj, -⟩)
        · exact h
        · omega
  | succ left ih =>
    obtain ⟨hres, hsleep, hquiet⟩ := ih (i + 1)
      (Function.update list i { list i with isSleep := true })
      (rfalNfcvPollerSleep r 0x00 (list i).uid w).2
    have hupd : ∀ j, (Function.update list i { list i with isSleep := true } j).invRes =
        (list j).invRes := by
      intro j
      by_cases hj : j = i
      · rw [hj, Function.update_self]
      · rw [Function.update_of_ne hj]
    have huid : ∀ j, (Function.update list i { list i with isSleep := true } j).uid =
        (list j).uid := by
      intro j
      unfold ListenDevice.uid
      rw [hupd]
    refine ⟨fun j => (hres j).trans (hupd j), fun j => (hsleep j).trans ?_, fun v => ?_⟩
    · by_cases hj : j = i
      · rw [if_neg (by omega), if_pos (by omega), hj, Function.update_self]
      · rw [Function.update_of_ne hj]
        congr 1
        rw [eq_iff_iff]
        omega
    · refine (hquiet v).trans ?_
      rw [sleep_world air, hear_stayQuiet_iff, or_assoc]
      apply or_congr_right
      simp only [huid]
      constructor
      · rintro (h | ⟨j, hij, hj, h⟩)
        · exact ⟨i, Nat.le_refl i, by omega, h⟩
        · exact ⟨j, by omega, by omega, h⟩
      · rintro ⟨j, hij, hj, h⟩
        rcases Nat.eq_or_lt_of_le hij with rfl | hlt
        · exact .inl h
        · exact .inr ⟨j, hlt, by omega, h⟩

/-- the devices found so far are quiet, and no others became so -/
structure Slept (p : Population) (σ : ω → Vicc → State) (st : Vicc → State) (s : SleepRound ω)
    (found : List Vicc) : Prop where
  listing : Listing p (fun v => st v ≠ .quiet) s.nfcvDevList found
  devCnt : s.devCnt = found.length
  isSleep : ∀ i < found.length, (s.nfcvDevList i).isSleep = true
  quiet : ∀ v ∈ p.cards, σ s.world v = .quiet ↔ st v = .quiet ∨ v ∈ found

/-- the part of the list that is free -/
def SleepRound.free (s : SleepRound ω) : Resolution ω where
  colFound := s.colFound
  nfcvDevList := fun i => s.nfcvDevList (s.devCnt + i)
  devCnt := 0
  colIt := 0
  colCnt := 0
  slotNum := 0
  returned := false
  world := s.world

/-- the devices of a resolution behind those found before -/
theorem Listing.append {list list' : Nat → ListenDevice} {new : List Vicc}
    (h : Listing p (fun v => st v ≠ .quiet) list found)
    (hnew : Listing p (fun v => st v ≠ .quiet ∧ v ∉ found) list' new) {both : Nat → ListenDevice}
    (hold : ∀ i < found.length, (both i).invRes = (list i).invRes)
    (hbehind : ∀ i < new.length, (both (found.length + i)).invRes = (list' i).invRes) :
    Listing p (fun v => st v ≠ .quiet) both (found ++ new) where
  nodup := by
    apply List.Nodup.append h.nodup hnew.nodup
    intro v hv hv'
    exact (hnew.mem v hv').2.2 hv
  mem := by
    intro v hv
    rcases List.mem_append.mp hv with hv | hv
    · exact h.mem v hv
    · exact ⟨(hnew.mem v hv).1, (hnew.mem v hv).2.1⟩
  describes := by
    intro i v hv
    rw [List.getElem?_append] at hv
    unfold Describes
    split_ifs at hv with hi
    · rw [hold i hi]
      exact h.describes i v hv
    · have hi' := (List.getElem?_eq_some_iff.mp hv).1
      have heq := hbehind (i - found.length) hi'
      rw [Nat.add_sub_cancel' (Nat.not_lt.mp hi)] at heq
      rw [heq]
      exact hnew.describes _ v hv

/-- what was found before, and behind it the devices of a resolution -/
def SleepRound.joined (s : SleepRound ω) (t : Resolution ω) : Nat → ListenDevice := fun i =>
  if i < s.devCnt then s.nfcvDevList i else t.nfcvDevList (i - s.devCnt)

theorem round_eq {t : Resolution ω} {ret : ReturnCode}
    (h : rfalNfcvPollerCollisionResolution r .iso (limit - s.devCnt) n s.free = some (ret, t)) :
    s.round r limit n = some
      { ret
        tmpDevCnt := t.devCnt
        nfcvDevList := (sleepFrom r t.devCnt s.devCnt (s.joined t, t.world)).1
        devCnt := s.devCnt + t.devCnt
        colFound := t.colFound
        world := (sleepFrom r t.devCnt s.devCnt (s.joined t, t.world)).2 } := by
  unfold SleepRound.free at h
  unfold SleepRound.round
  rw [h]
  rfl

/-- the entry of a device of the resolution -/
theorem joined_behind (h : s.devCnt = found.length) (t : Resolution ω) (i : Nat) :
    s.joined t (found.length + i) = t.nfcvDevList i := by
  unfold SleepRound.joined
  rw [if_neg (by omega), h, Nat.add_sub_cancel_left]

/-- an awake card is one that was not found yet -/
theorem Slept.awake_iff (h : Slept p σ st s found) {v : Vicc} (hv : v ∈ p.cards) :
    σ s.world v ≠ .quiet ↔ st v ≠ .quiet ∧ v ∉ found := by
  rw [ne_eq, h.quiet v hv, not_or]

/-- the cards that are quiet behind a resolution with its devices -/
theorem sleepFrom_quiet (air : Air p r σ) (h : s.devCnt = found.length) {t : Resolution ω}
    {new : List Vicc} (hnew : Listing p (fun v => σ s.world v ≠ .quiet) t.nfcvDevList new)
    {v : Vicc} (hv : v ∈ p.cards) :
    σ (sleepFrom r new.length s.devCnt (s.joined t, t.world)).2 v = .quiet ↔
      σ t.world v = .quiet ∨ v ∈ new := by
  rw [(sleepFrom_spec air new.length s.devCnt (s.joined t) t.world).2.2 v]
  apply or_congr_right
  constructor
  · rintro ⟨j, hij, hj, huid⟩
    obtain ⟨i, rfl⟩ := Nat.exists_eq_add_of_le hij
    have hi : i < new.length := by omega
    have hget := List.getElem?_eq_getElem hi
    rw [h, joined_behind h, (hnew.describes i _ hget).uid] at huid
    rw [← card_eq (hnew.mem _ (List.getElem_mem hi)).1 hv huid]
    exact List.getElem_mem hi
  · intro hmem
    obtain ⟨i, hi⟩ := List.mem_iff_getElem?.mp hmem
    have hlt := (List.getElem?_eq_some_iff.mp hi).1
    refine ⟨s.devCnt + i, Nat.le_add_right _ _, by omega, ?_⟩
    rw [h, joined_behind h]
    exact (hnew.describes i v hi).uid

theorem awakeCards_congr {st' : Vicc → State}
    (h : ∀ v ∈ p.cards, st v = .quiet ↔ st' v = .quiet) : awakeCards p st = awakeCards p st' := by
  unfold awakeCards
  apply List.filter_congr
  intro v hv
  rw [decide_eq_decide, ne_eq, ne_eq, h v hv]

/-- the list behind a resolution -/
theorem Slept.listing_round (air : Air p r σ) (h : Slept p σ st s found) {t : Resolution ω}
    {new : List Vicc} (hnew : Listing p (fun v => σ s.world v ≠ .quiet) t.nfcvDevList new) :
    Listing p (fun v => st v ≠ .quiet)
      (sleepFrom r new.length s.devCnt (s.joined t, t.world)).1 (found ++ new) := by
  obtain ⟨hres, -⟩ := sleepFrom_spec air new.length s.devCnt (s.joined t) t.world
  have hnew' : Listing p (fun v => st v ≠ .quiet ∧ v ∉ found) t.nfcvDevList new :=
    { hnew with
      mem := fun v hv => by
        obtain ⟨hmem, hawake⟩ := hnew.mem v hv
        exact ⟨hmem, (h.awake_iff hmem).mp hawake⟩ }
  apply h.listing.append hnew'
  · intro i hi
    refine (hres i).trans ?_
    unfold SleepRound.joined
    rw [if_pos (by rw [h.devCnt]; exact hi)]
  · intro i _
    refine (hres _).trans ?_
    rw [joined_behind h.devCnt]

/-- **One resolution with its devices.** -/
theorem round_spec (air : Air p r σ) (h : Slept p σ st s found) (hlt : found.length < limit)
    (hn : maxCollSupported ≤ n) :
    ∃ t new, s.round r limit n = some t ∧ t.ret = .errNone ∧ t.tmpDevCnt = new.length ∧
      (found ++ new).length ≤ limit ∧ Slept p σ st t (found ++ new) ∧
      (Ideal p r σ → new = [] → (awakeCards p (σ t.world)).length ≤ 3 →
        awakeCards p (σ t.world) = []) := by
  have hpos : 0 < limit - s.devCnt := by
    rw [h.devCnt]
    omega
  obtain ⟨t, new, ht, hdev, hle, hnew, hquiet⟩ := resolution_outcome air .iso s.free hpos hn
  change Listing p (fun v => σ s.world v ≠ .quiet) t.nfcvDevList new at hnew
  change ∀ v, σ t.world v = .quiet ↔ σ s.world v = .quiet at hquiet
  obtain ⟨-, hsleep, -⟩ := sleepFrom_spec air new.length s.devCnt (s.joined t) t.world
  have hafter : ∀ v ∈ p.cards,
      σ (sleepFrom r new.length s.devCnt (s.joined t, t.world)).2 v = .quiet ↔
        σ s.world v = .quiet ∨ v ∈ new := by
    intro v hv
    rw [sleepFrom_quiet air h.devCnt hnew hv, hquiet]
  refine ⟨_, new, round_eq ht, rfl, hdev, ?_, ?_, ?_⟩
  · rw [h.devCnt] at hle
    rw [List.length_append]
    omega
  · rw [hdev]
    refine ⟨h.listing_round air hnew, ?_, ?_, ?_⟩
    · show s.devCnt + new.length = _
      rw [h.devCnt, List.length_append]
    · intro i hi
      rw [List.length_append] at hi
      refine (hsleep i).trans ?_
      by_cases hb : s.devCnt ≤ i ∧ i < s.devCnt + new.length
      · rw [if_pos hb]
      · rw [if_neg hb]
        have hdev' := h.devCnt
        unfold SleepRound.joined
        rw [if_pos (by omega)]
        exact h.isSleep i (by omega)
    · intro v hv
      rw [hafter v hv, h.quiet v hv, List.mem_append, or_assoc]
  · intro ideal hnil hfew
    rw [hdev] at hfew ⊢
    have hsame : awakeCards p (σ s.world) =
        awakeCards p (σ (sleepFrom r new.length s.devCnt (s.joined t, t.world)).2) := by
      apply awakeCards_congr
      intro v hv
      rw [hafter v hv, hnil]
      exact ⟨.inl, fun hor => hor.resolve_right List.not_mem_nil⟩
    obtain ⟨t', ht', hfinds, -⟩ := resolution_counts ideal .iso s.free hpos hn
    have heq : t' = t := congrArg Prod.snd (Option.some.inj (ht'.symm.trans ht))
    have hcount := hfinds (crowds_of_few (by
      show (awakeCards p (σ s.world)).length ≤ 3
      rw [hsame]
      exact hfew))
    rw [heq, hdev, hnil] at hcount
    change 0 = min (limit - s.devCnt) (awakeCards p (σ s.world)).length at hcount
    rw [← hsame]
    apply List.eq_nil_of_length_eq_zero
    omega

/-- the resolutions one behind the other -/
theorem rounds_spec (air : Air p r σ) (hn : maxCollSupported ≤ n) {k : Nat}
    (h : Slept p σ st s found) (hlt : found.length < limit) (hk : limit - found.length ≤ k) :
    ∃ t found', s.rounds r limit n k = some t ∧ t.ret = .errNone ∧ found'.length ≤ limit ∧
      Slept p σ st t found' ∧
      (Ideal p r σ → found'.length < limit → (awakeCards p (σ t.world)).length ≤ 3 →
        awakeCards p (σ t.world) = []) := by
  induction k generalizing s found with
  | zero => omega
  | succ k ih =>
    obtain ⟨t, new, ht, hret, htmp, hle, hslept, hideal⟩ := round_spec air h hlt hn
    have hcnt := hslept.devCnt
    unfold SleepRound.rounds
    rw [ht, Option.bind_some]
    by_cases hgo : t.ret = .errNone ∧ 0 < t.tmpDevCnt ∧ t.devCnt < limit
    · rw [if_pos hgo]
      obtain ⟨-, hpos, hlimit⟩ := hgo
      have hlen : (found ++ new).length = found.length + new.length := List.length_append
      exact ih hslept (by omega) (by omega)
    · rw [if_neg hgo]
      refine ⟨t, found ++ new, rfl, hret, hle, hslept, fun ideal hroom hfew => ?_⟩
      apply hideal ideal ?_ hfew
      apply List.eq_nil_of_length_eq_zero
      by_contra hne
      exact hgo ⟨hret, by omega, by omega⟩

theorem slept_start (s : SleepRound ω) : Slept p σ (σ s.world) { s with devCnt := 0 } [] where
  listing := ⟨List.nodup_nil, fun v hv => absurd hv List.not_mem_nil, fun i v hv => by cases hv⟩
  devCnt := rfl
  isSleep := fun i hi => absurd hi (Nat.not_lt_zero i)
  quiet := fun v _ => ⟨.inl, fun h => h.resolve_right List.not_mem_nil⟩

/-- **Resolving with sleep.**  In any field: the run ends, the devices listed are different cards
that were awake, no more than asked for, and the cards that have become quiet are these. -/
theorem sleep_lists (air : Air p r σ) (s : SleepRound ω) (hlimit : 0 < limit)
    (hn : maxCollSupported ≤ n) {k : Nat} (hk : limit ≤ k) :
    ∃ t found, rfalNfcvPollerSleepCollisionResolution r limit n k s = some t ∧
      t.ret = .errNone ∧ t.devCnt = found.length ∧ found.length ≤ limit ∧
      Listing p (fun v => σ s.world v ≠ .quiet) t.nfcvDevList found ∧
      (∀ i < found.length, (t.nfcvDevList i).isSleep = true) ∧
      ∀ v ∈ p.cards, σ t.world v = .quiet ↔ σ s.world v = .quiet ∨ v ∈ found := by
  obtain ⟨t, found, ht, hret, hle, hslept, -⟩ :=
    rounds_spec air hn (slept_start s) hlimit (Nat.le_trans (Nat.sub_le _ _) hk)
  exact ⟨t, found, ht, hret, hslept.devCnt, hle, hslept.listing, hslept.isSleep, hslept.quiet⟩

/-- **No few cards are left.**  In an ideal field a run that stays below the limit leaves no card
awake, or at least four. -/
theorem sleep_leaves (ideal : Ideal p r σ) (s : SleepRound ω) (hlimit : 0 < limit)
    (hn : maxCollSupported ≤ n) {k : Nat} (hk : limit ≤ k) :
    ∃ t, rfalNfcvPollerSleepCollisionResolution r limit n k s = some t ∧
      (t.devCnt = limit ∨ awakeCards p (σ t.world) = [] ∨
        4 ≤ (awakeCards p (σ t.world)).length) := by
  obtain ⟨t, found, ht, -, hle, hslept, hfew⟩ :=
    rounds_spec ideal.toAir hn (slept_start s) hlimit (Nat.le_trans (Nat.sub_le _ _) hk)
  refine ⟨t, ht, ?_⟩
  rcases Nat.eq_or_lt_of_le hle with heq | hlt
  · exact .inl (hslept.devCnt.trans heq)
  · right
    by_cases hthree : (awakeCards p (σ t.world)).length ≤ 3
    · exact .inl (hfew ideal hlt hthree)
    · exact .inr (Nat.not_le.mp hthree)

end

/-! ## two cards -/

/-- the field has just been switched on -/
def sleepOn : SleepRound (Vicc → State) where
  ret := .errNone
  tmpDevCnt := 0
  nfcvDevList := fun _ => .zero
  devCnt := 0
  colFound := fun _ => 0xff
  world := fun _ => .ready none

theorem sleep_lists_pair :
    ∃ t found, rfalNfcvPollerSleepCollisionResolution (idealRadio pair) 4 16 4 sleepOn = some t ∧
      t.ret = .errNone ∧ t.devCnt = found.length ∧ found.length ≤ 4 ∧
      Listing pair (fun v => sleepOn.world v ≠ .quiet) t.nfcvDevList found ∧
      (∀ i < found.length, (t.nfcvDevList i).isSleep = true) ∧
      ∀ v ∈ pair.cards, t.world v = .quiet ↔ sleepOn.world v = .quiet ∨ v ∈ found :=
  sleep_lists (idealRadio_ideal pair).toAir sleepOn (Nat.succ_pos 3) (Nat.le_refl 16)
    (Nat.le_refl 4)

/-! ## two pairs of cards -/

def cardOfEnds (first last : Byte) : Vicc where
  uid := [first, 0x22, 0x33, 0x44, 0x55, 0x66, 0x02, last]
  dsfid := 0x00
  sized := rfl

/-- cards that differ in their first digit or in their last one -/
def pairs : Population where
  cards := [cardOfEnds 0x11 0xe0, cardOfEnds 0x11 0xd0, cardOfEnds 0x12 0xe0, cardOfEnds 0x12 0xd0]
  distinct := by decide

/-- none of the four is found -/
theorem sleep_leaves_pairs :
    ∃ t, rfalNfcvPollerSleepCollisionResolution (idealRadio pairs) 4 16 4 sleepOn = some t ∧
      t.devCnt = 0 ∧ 4 ≤ (awakeCards pairs t.world).length := by
  obtain ⟨t, ht, hleft⟩ :=
    sleep_leaves (idealRadio_ideal pairs) sleepOn (Nat.succ_pos 3) (Nat.le_refl 16) (Nat.le_refl 4)
  have hrun : (rfalNfcvPollerSleepCollisionResolution (idealRadio pairs) 4 16 4 sleepOn).any
      (fun t => decide (t.devCnt = 0 ∧ awakeCards pairs t.world ≠ [])) = true := by
    decide +kernel
  rw [ht] at hrun
  obtain ⟨hnone, hsome⟩ := of_decide_eq_true hrun
  refine ⟨t, ht, hnone, ?_⟩
  rcases hleft with h | h | h
  · rw [hnone] at h
    cases h
  · exact absurd h hsome
  · exact h

end Nfcv
end Hydra
