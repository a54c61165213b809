import HydraFw.Nfcv.Refine

/-!
# What the collision resolution writes

Whatever the radio reports, the loops end, and write into the device list below the limit only.
The stores into `colFound` stay inside, but for one: when every request but the last had one
collision, the mask of the last entry is followed by a byte behind the array.

* `Overrun`      the last entry came of a mask of seven bytes;
* `Footprint`    what is outside of the two arrays;
* `collisionResolution_memory`.
-/

namespace Hydra
namespace Nfcv
open BitBuf hiding Byte
open Vicinity hiding Byte
open Rams Common Trie
open Nfca (ComplianceMode)

section
variable {ω : Type*}

/-- the last entry of `colFound` is used, and its mask has sixty bits -/
def Overrun (s : Resolution ω) : Prop := s.colCnt = maxCollSupported ∧ maskLen s.colFound 15 = 60

instance (s : Resolution ω) : Decidable (Overrun s) :=
  inferInstanceAs (Decidable (_ ∧ _))

structure Footprint (limit : Nat) (c : Nat → Byte) (list : Nat → ListenDevice)
    (s : Resolution ω) : Prop where
  colFound : ∀ k, entry maxCollSupported ≤ k →
    s.colFound k = if Overrun s ∧ k = entry maxCollSupported then 0 else c k
  nfcvDevList : ∀ i, limit ≤ i → s.nfcvDevList i = list i

variable {r : Radio ω} {limit : Nat} {c : Nat → Byte} {list : Nat → ListenDevice}
  {S : Search (Fin 16)} {s : Resolution ω} {m : List (Fin 16)}

theorem Footprint.store (h : Footprint limit c list s) (hb : s.devCnt < limit)
    (invRes : Nat → Byte) : Footprint limit c list (s.store invRes) where
  colFound := h.colFound
  nfcvDevList := fun i hi => by
    show Function.update s.nfcvDevList s.devCnt _ i = _
    rw [Function.update_of_ne (by omega)]
    exact h.nfcvDevList i hi

/-- a collision -/
theorem Footprint.add (h : Footprint limit c list s) (hd : During S s m)
    (hcap : s.colCnt < maxCollSupported) (hslot : s.slotNum < 16) (t : Resolution ω)
    (hcol : t.colFound = addCollision s.colFound s.colIt s.colCnt s.slotNum)
    (hcnt : t.colCnt = s.colCnt + 1) (hlist : t.nfcvDevList = s.nfcvDevList) :
    Footprint limit c list t := by
  have hit := hd.colIt_lt
  have hdepth := hd.tree.depth _ _ hd.cur
  have hmask := hd.masks _ _ hd.cur
  unfold maxCollSupported at hcap
  have hm : m.length ≤ 14 := by omega
  have hover : Overrun t ↔ s.colCnt = 15 ∧ m.length = 14 := by
    unfold Overrun maxCollSupported
    rw [hcnt, hcol]
    constructor
    · rintro ⟨hc, hlen⟩
      have h15 : s.colCnt = 15 := by omega
      rw [h15] at hlen hit
      have := maskLen_addCollision (d := ⟨s.slotNum, hslot⟩) hit hmask hm
      change maskLen (addCollision s.colFound s.colIt 15 s.slotNum) 15 = _ at this
      omega
    · rintro ⟨hc, hlen⟩
      rw [hc] at hit ⊢
      have := maskLen_addCollision (d := ⟨s.slotNum, hslot⟩) hit hmask hm
      change maskLen (addCollision s.colFound s.colIt 15 s.slotNum) 15 = _ at this
      omega
  have hnot : ¬ Overrun s := fun ho => by
    have := ho.1
    unfold maxCollSupported at this
    omega
  refine ⟨fun k hk => ?_, fun i hi => by rw [hlist]; exact h.nfcvDevList i hi⟩
  have hk' : entry (s.colCnt + 1) ≤ k := by
    have hmul : entry (s.colCnt + 1) ≤ entry maxCollSupported := by
      unfold entry maxCollSupported
      exact Nat.mul_le_mul_left _ (by omega)
    exact Nat.le_trans hmul hk
  have hold := h.colFound k hk
  rw [if_neg fun ho => hnot ho.1] at hold
  have hnew := addCollision_behind (d := ⟨s.slotNum, hslot⟩) hit hmask hm hk'
  change addCollision s.colFound s.colIt s.colCnt s.slotNum k = _ at hnew
  rw [hcol, hnew, hold]
  by_cases h14 : m.length = 14
  · have h15 : s.colCnt = 15 := by omega
    by_cases hkk : k = entry maxCollSupported
    · rw [if_pos ⟨h14, by rw [h15]; exact hkk⟩, if_pos ⟨hover.mpr ⟨h15, h14⟩, hkk⟩]
    · rw [if_neg fun hn => hkk (by rw [hn.2, h15]; rfl), if_neg fun hn => hkk hn.2]
  · rw [if_neg fun hn => h14 hn.1, if_neg fun hn => h14 (hover.mp hn.1).2]

theorem footprint_kept (r : Radio ω) (limit : Nat) (c : Nat → Byte) (list : Nat → ListenDevice) :
    Kept r limit (fun _ s => Footprint limit c list s) (fun _ _ s => Footprint limit c list s) where
  opens := fun _ _ _ _ _ hB _ => { hB with }
  closes := fun _ _ _ _ hK => { hK with }
  slot := by
    intro S s m q rest hd hK hnow hb
    have hheard : Footprint limit c list (s.heard r) := { hK.store hb (s.exchange r).invRes with }
    have hanswered : Footprint limit c list (s.answered r) := by
      rw [answered_eq]
      split
      · exact hheard
      · exact { hheard with }
      · split_ifs with hcap
        · obtain ⟨hlt, -⟩ := hd.head hnow
          have hh : Footprint limit c list { s.heard r with slotNum := s.slotNum } :=
            { hheard with }
          exact hh.add (S := S) (m := m) { hd.toSim.heard r with
            cur := hd.cur, now := hd.now, later := hd.later } hcap hlt _ rfl rfl rfl
        · exact hheard
    rw [slot_def]
    split_ifs
    · exact { hanswered with }
    · exact hanswered

/-- before the first request -/
theorem between_start (hcol : ∀ k < 144, s.colFound k = 0) (hit : s.colIt = 0)
    (hcnt : s.colCnt = 1) (hdev : s.devCnt = 0) : Between Search.start s where
  tree := Search.start_tree (by decide)
  colCnt := hcnt
  masks := by
    intro i m hm
    cases i with
    | zero =>
      cases hm
      exact mask_root hcol
    | succ i => cases hm
  devCnt := hdev
  found := fun i w hw => by cases hw
  now := rfl
  later := by rw [hit]; rfl

/-- the last entry is so long only behind a chain of single collisions -/
theorem Sim.overrun (h : Sim S s) (ho : Overrun s) :
    ∃ w : List (Fin 16), w.length = 15 ∧ ∀ i ≤ 15, Mask s.colFound i (w.take i) := by
  obtain ⟨hcnt, hlen⟩ := ho
  have hlast : S.seen.length = 16 := h.colCnt.symm.trans hcnt
  have hget : S.seen[15]? = some S.seen[15] := List.getElem?_eq_getElem (by omega)
  have hw : S.seen[15].length = 15 := by
    have := (h.masks 15 _ hget).len
    omega
  refine ⟨S.seen[15], hw, fun i hi => h.masks i _ ?_⟩
  apply h.tree.chain
  · rw [hw]
    exact hget
  · rw [hw, hlast]
  · rw [hw]
    exact hi

/-- **The memory of a resolution.**  Whatever the radio reports: the run ends, no more devices are
counted than there is room for, and behind `colFound` one byte is written when the sixteen requests
were the prefixes of one word, and none otherwise. -/
theorem collisionResolution_memory (r : Radio ω) (compMode : ComplianceMode) (s : Resolution ω)
    (hlimit : 0 < limit) {n : Nat} (hn : maxCollSupported ≤ n) :
    ∃ t, rfalNfcvPollerCollisionResolution r compMode limit n s = some (.errNone, t) ∧
      t.devCnt ≤ limit ∧ (∀ i, limit ≤ i → t.nfcvDevList i = s.nfcvDevList i) ∧
      (∀ k, entry maxCollSupported ≤ k →
        t.colFound k = if Overrun t ∧ k = entry maxCollSupported then 0 else s.colFound k) ∧
      (Overrun t →
        ∃ w : List (Fin 16), w.length = 15 ∧ ∀ i ≤ 15, Mask t.colFound i (w.take i)) := by
  have hinit : Footprint limit s.colFound s.nfcvDevList (s.init limit) := by
    constructor
    · intro k hk
      rw [if_neg fun h => Nat.noConfusion h.1.1]
      exact if_neg (Nat.not_lt.mpr hk)
    · intro i hi
      exact if_neg (Nat.not_lt.mpr hi)
  have hone : ∀ t : Resolution ω, Footprint limit s.colFound s.nfcvDevList t → t.colCnt = 0 →
      Footprint limit s.colFound s.nfcvDevList { t with colCnt := 1 } := by
    intro t ht hc
    refine ⟨fun k hk => ?_, ht.nfcvDevList⟩
    rw [if_neg fun h => absurd (show 1 = 16 from h.1.1) (by decide)]
    exact (ht.colFound k hk).trans (if_neg fun h => by rw [Overrun, hc] at h; cases h.1.1)
  have hrun : ∀ t : Resolution ω, Footprint limit s.colFound s.nfcvDevList t →
      (∀ k < 144, t.colFound k = 0) → t.colIt = 0 → t.colCnt = 0 → t.devCnt = 0 →
      t.returned = false →
      ∃ u, { t with colCnt := 1 }.resolve r limit n = some (.errNone, u) ∧ u.devCnt ≤ limit ∧
        Footprint limit s.colFound s.nfcvDevList u ∧ ∃ S, Sim S u := by
    intro t ht hcol hit hcnt hdev hret
    obtain ⟨S, u, hu, hsim, hf, hb, -⟩ := resolve_rule
      (footprint_kept r limit s.colFound s.nfcvDevList)
      (between_start (s := { t with colCnt := 1 }) hcol hit rfl hdev) (hone t ht hcnt) hret
      (by show t.devCnt < limit; rw [hdev]; exact hlimit) hit hn
    refine ⟨u, hu, ?_, hf, S, hsim⟩
    unfold Bounded at hb
    split_ifs at hb with hr
    · exact Nat.le_of_eq hb
    · exact Nat.le_of_lt hb
  have hzero : ∀ k < 144, (s.init limit).colFound k = 0 := fun k hk => if_pos hk
  have hfirst : ∀ (invRes : Nat → Byte) (w : ω), Footprint limit s.colFound s.nfcvDevList
      ({ (s.init limit).store invRes with world := w } : Resolution ω) := fun invRes w =>
    { hinit.store hlimit invRes with }
  unfold rfalNfcvPollerCollisionResolution
  dsimp only
  generalize rfalNfcvPollerInventory r .one 0 none (s.init limit).device.invRes
    (s.init limit).world = e
  split_ifs with h1 h2 h3 h4
  · exact ⟨_, rfl, Nat.zero_le _, (hfirst e.invRes e.world).nfcvDevList,
      (hfirst e.invRes e.world).colFound, fun ho => Nat.noConfusion ho.1⟩
  · exact ⟨_, rfl, hlimit, (hfirst e.invRes e.world).nfcvDevList,
      (hfirst e.invRes e.world).colFound, fun ho => Nat.noConfusion ho.1⟩
  · exact absurd h4 (Nat.ne_of_gt hlimit)
  · obtain ⟨u, hu, hle, hf, S, hsim⟩ := hrun _ (hfirst e.invRes e.world) hzero rfl rfl rfl rfl
    exact ⟨u, hu, hle, hf.nfcvDevList, hf.colFound, hsim.overrun⟩
  · obtain ⟨u, hu, hle, hf, S, hsim⟩ := hrun _ hinit hzero rfl rfl rfl rfl
    exact ⟨u, hu, hle, hf.nfcvDevList, hf.colFound, hsim.overrun⟩

end

/-! ## a radio that reports a collision in every first slot -/

def stuckRadio : Radio Unit where
  anticollision f w := (if f = [] then ⟨errTimeout, [], 0⟩ else ⟨errRfCollision, [], 0⟩, w)
  transceive _ w := (errTimeout, w)

def blank : Resolution Unit where
  colFound := fun _ => 0xff
  nfcvDevList := fun _ => .zero
  devCnt := 0
  colIt := 0
  colCnt := 0
  slotNum := 0
  returned := false
  world := ()

theorem collisionResolution_memory_stuck :
    ∃ t, rfalNfcvPollerCollisionResolution stuckRadio .iso 1 16 blank = some (.errNone, t) ∧
      t.colFound 144 = 0x00 ∧ blank.colFound 144 = 0xff := by
  obtain ⟨t, ht, -, -, hcol, -⟩ :=
    collisionResolution_memory stuckRadio .iso blank Nat.one_pos (Nat.le_refl 16)
  have hover : Overrun t := by
    have h : (rfalNfcvPollerCollisionResolution stuckRadio .iso 1 16 blank).any
        (fun t => decide (Overrun t.2)) = true := by decide +kernel
    rw [ht] at h
    exact of_decide_eq_true h
  exact ⟨t, ht, (hcol 144 (Nat.le_refl _)).trans (if_pos ⟨hover, rfl⟩), rfl⟩

end Nfcv
end Hydra
