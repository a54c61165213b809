import HydraFw.Nfcv.Masks

/-!
# The collision resolution is a search

Whatever the radio reports, the loops of `rfalNfcvPollerCollisionResolution` are a search for words
of sixteen digits: `colFound` has room for the requests, and the answer to a slot is read off the
status and the bytes received.

* `Resolution.answer`   what a slot is taken for;
* `Sim S s`             the variables stand for the search `S`;
* `Between`, `During`   before a request, and in one;
* `slot_search`         a slot is one answer;
* `Kept`, `resolve_rule`   what requests and slots keep holds at the end.
-/

namespace Hydra
namespace Nfcv
open BitBuf hiding Byte
open Vicinity hiding Byte
open Rams Common Trie Loops
open Nfca (Reply ComplianceMode)

def ListenDevice.digits (d : ListenDevice) : List (Fin 16) := d.uid.flatMap digitsOf

/-- the values of four bits -/
abbrev slots : List (Fin 16) := List.finRange 16

section
variable {ω : Type*}

def Inventoried.answer (e : Inventoried ω) : Answer (Fin 16) :=
  if e.ret = errTimeout then .silent
  else if e.ret = .errNone ∨ e.ret = errProto then
    if rfalNfcvCheckInvRes (e.invRes 0) e.rcvdLen then .word (ListenDevice.mk e.invRes false).digits
    else .silent
  else .crowd

def Resolution.answer (r : Radio ω) (s : Resolution ω) : Answer (Fin 16) := (s.exchange r).answer

structure Sim (S : Search (Fin 16)) (s : Resolution ω) : Prop where
  tree : S.Tree maxCollSupported
  colCnt : s.colCnt = S.seen.length
  masks : ∀ i m, S.seen[i]? = some m → Mask s.colFound i m
  devCnt : s.devCnt = S.found.length
  found : ∀ i w, S.found[i]? = some w → (s.nfcvDevList i).digits = w

structure Between (S : Search (Fin 16)) (s : Resolution ω) : Prop extends Sim S s where
  now : S.now = []
  later : S.later = S.seen.drop s.colIt

structure During (S : Search (Fin 16)) (s : Resolution ω) (m : List (Fin 16)) : Prop
    extends Sim S s where
  cur : S.seen[s.colIt]? = some m
  now : S.now = (slots.drop s.slotNum).map fun d => m ++ [d]
  later : S.later = S.seen.drop (s.colIt + 1)

section
variable {r : Radio ω} {S : Search (Fin 16)} {s : Resolution ω} {m q : List (Fin 16)}
  {rest : List (List (Fin 16))} {limit : Nat}

/-- a slot before the test of the limit -/
def Resolution.heard (r : Radio ω) (s : Resolution ω) : Resolution ω :=
  let e := s.exchange r
  { s.store e.invRes with slotNum := s.slotNum + 1, world := e.world }

def Resolution.answered (r : Radio ω) (s : Resolution ω) : Resolution ω :=
  (s.heard r).received (s.exchange r).ret (s.exchange r).rcvdLen

theorem slot_def (r : Radio ω) (limit : Nat) (s : Resolution ω) :
    s.slot r limit =
      if limit ≤ (s.answered r).devCnt then { s.answered r with returned := true }
      else s.answered r := rfl

theorem heard_device (r : Radio ω) (s : Resolution ω) :
    (s.heard r).device.invRes = (s.exchange r).invRes := by
  show (Function.update s.nfcvDevList s.devCnt { s.device with invRes := (s.exchange r).invRes }
    s.devCnt).invRes = _
  rw [Function.update_self]

/-- what a slot does, by what it is taken for -/
theorem answered_eq (r : Radio ω) (s : Resolution ω) :
    s.answered r =
      match s.answer r with
      | .silent => s.heard r
      | .word _ => { s.heard r with devCnt := s.devCnt + 1 }
      | .crowd =>
        if s.colCnt < maxCollSupported then
          { s.heard r with
            colFound := addCollision s.colFound s.colIt s.colCnt s.slotNum
            colCnt := s.colCnt + 1 }
        else s.heard r := by
  unfold Resolution.answered Resolution.received Resolution.answer Inventoried.answer
  rw [heard_device]
  by_cases h1 : (s.exchange r).ret = errTimeout
  · rw [if_pos h1, if_pos h1]
  · rw [if_neg h1, if_neg h1]
    by_cases h2 : (s.exchange r).ret = .errNone ∨ (s.exchange r).ret = errProto
    · rw [if_pos h2, if_pos h2]
      by_cases h3 : rfalNfcvCheckInvRes ((s.exchange r).invRes 0) (s.exchange r).rcvdLen = true
      · rw [if_pos h3, if_pos h3]
        rfl
      · rw [if_neg h3, if_neg h3]
    · rw [if_neg h2, if_neg h2]
      rfl

/-- the digits of the bytes received -/
theorem answer_word {w : List (Fin 16)} (h : s.answer r = .word w) :
    (s.heard r).device.digits = w := by
  unfold Resolution.answer Inventoried.answer at h
  split_ifs at h
  rw [← Answer.word.inj h]
  unfold ListenDevice.digits ListenDevice.uid
  rw [heard_device]

theorem answered_frame (r : Radio ω) (s : Resolution ω) :
    (s.answered r).colIt = s.colIt ∧ (s.answered r).slotNum = s.slotNum + 1 ∧
      (s.answered r).world = (s.exchange r).world ∧ (s.answered r).returned = s.returned ∧
      (s.answered r).nfcvDevList = (s.heard r).nfcvDevList := by
  rw [answered_eq]
  split
  · exact ⟨rfl, rfl, rfl, rfl, rfl⟩
  · exact ⟨rfl, rfl, rfl, rfl, rfl⟩
  · split_ifs <;> exact ⟨rfl, rfl, rfl, rfl, rfl⟩

theorem answered_devCnt (r : Radio ω) (s : Resolution ω) :
    s.devCnt ≤ (s.answered r).devCnt ∧ (s.answered r).devCnt ≤ s.devCnt + 1 := by
  rw [answered_eq]
  split
  · exact ⟨Nat.le_refl _, Nat.le_succ _⟩
  · exact ⟨Nat.le_succ _, Nat.le_refl _⟩
  · split_ifs <;> exact ⟨Nat.le_refl _, Nat.le_succ _⟩

/-- the entry that is being found is free -/
theorem heard_list (r : Radio ω) (s : Resolution ω) {i : Nat} (hi : i ≠ s.devCnt) :
    (s.heard r).nfcvDevList i = s.nfcvDevList i := Function.update_of_ne hi ..

theorem Sim.heard (h : Sim S s) (r : Radio ω) : Sim S (s.heard r) :=
  { h with
    found := fun i w hw => by
      rw [heard_list r s (Nat.ne_of_lt ?_)]
      · exact h.found i w hw
      · rw [h.devCnt]
        exact (List.getElem?_eq_some_iff.mp hw).1 }

/-- the head of the regions is that of the slot -/
theorem During.head (h : During S s m) (hnow : S.now = q :: rest) :
    ∃ hlt : s.slotNum < 16, q = m ++ [⟨s.slotNum, hlt⟩] ∧
      rest = (slots.drop (s.slotNum + 1)).map fun d => m ++ [d] := by
  have heq := h.now.symm.trans hnow
  have hlt : s.slotNum < 16 := by
    by_contra hge
    rw [List.drop_eq_nil_of_le (by rw [List.length_finRange]; exact Nat.not_lt.mp hge)] at heq
    cases heq
  rw [List.drop_eq_getElem_cons (by rw [List.length_finRange]; exact hlt), List.map_cons,
    List.cons.injEq] at heq
  refine ⟨hlt, ?_, heq.2.symm⟩
  rw [← heq.1, List.getElem_finRange]
  rfl

theorem During.colIt_lt (h : During S s m) : s.colIt < s.colCnt := by
  rw [h.colCnt]
  exact (List.getElem?_eq_some_iff.mp h.cur).1

theorem Sim.colCnt_le (h : Sim S s) : s.colCnt ≤ 16 := by
  rw [h.colCnt]
  exact h.tree.seen_le

/-- a collision is kept -/
theorem During.add (h : During S s m) (hnow : S.now = q :: rest)
    (hcap : s.colCnt < maxCollSupported) :
    Sim (S.ask maxCollSupported q rest .crowd)
      { s.heard r with
        colFound := addCollision s.colFound s.colIt s.colCnt s.slotNum
        colCnt := s.colCnt + 1 } := by
  have htree := h.tree.ask hnow .crowd
  have hlen : S.seen.length < maxCollSupported := by rwa [← h.colCnt]
  obtain ⟨hlt, hq, -⟩ := h.head hnow
  have hit := h.colIt_lt
  have hdepth := h.tree.depth _ _ h.cur
  have hm : m.length ≤ 14 := by
    unfold maxCollSupported at hcap
    omega
  rw [Search.ask_crowd_lt hlen] at htree ⊢
  refine { h.toSim.heard r with tree := htree, colCnt := ?_, masks := ?_ }
  · show s.colCnt + 1 = (S.seen ++ [q]).length
    rw [List.length_append, h.colCnt]
    rfl
  · intro i e he
    change (S.seen ++ [q])[i]? = some e at he
    show Mask (addCollision s.colFound s.colIt s.colCnt
      (Fin.mk (n := 16) s.slotNum hlt).val) i e
    rw [List.getElem?_append] at he
    split_ifs at he with hi
    · have hd := h.tree.depth i e he
      apply (h.masks i e he).congr (by unfold maxCollSupported at hlen; omega)
      intro k _ hk
      apply addCollision_before
      have hle := entry_lt (show i < s.colCnt by rw [h.colCnt]; exact hi)
      omega
    · have heq : e = q := List.mem_singleton.mp (List.mem_of_getElem? he)
      have hi' := (List.getElem?_eq_some_iff.mp he).1
      rw [List.length_singleton] at hi'
      rw [heq, hq, show i = s.colCnt by rw [h.colCnt]; omega]
      exact mask_addCollision hit (h.masks _ _ h.cur) hm

/-- a device is listed -/
theorem During.list (h : During S s m) (hnow : S.now = q :: rest) {w : List (Fin 16)}
    (hw : s.answer r = .word w) :
    Sim (S.ask maxCollSupported q rest (.word w)) { s.heard r with devCnt := s.devCnt + 1 } := by
  refine { h.toSim.heard r with
    tree := h.tree.ask hnow _, colCnt := h.colCnt, masks := h.masks, devCnt := ?_, found := ?_ }
  · show s.devCnt + 1 = (S.found ++ [w]).length
    rw [List.length_append, h.devCnt]
    rfl
  · intro i x hx
    change (S.found ++ [w])[i]? = some x at hx
    show ((s.heard r).nfcvDevList i).digits = x
    rw [List.getElem?_append] at hx
    split_ifs at hx with hi
    · exact (h.toSim.heard r).found i x hx
    · have hi' := (List.getElem?_eq_some_iff.mp hx).1
      rw [List.length_singleton] at hi'
      rw [show x = w from List.mem_singleton.mp (List.mem_of_getElem? hx),
        show i = s.devCnt by rw [h.devCnt]; omega]
      exact answer_word hw

theorem answered_sim (h : During S s m) (hnow : S.now = q :: rest) :
    Sim (S.ask maxCollSupported q rest (s.answer r)) (s.answered r) := by
  rw [answered_eq]
  cases ha : s.answer r with
  | silent => exact { h.toSim.heard r with tree := h.tree.ask hnow .silent }
  | word w => exact h.list hnow ha
  | crowd =>
    dsimp only
    split_ifs with hcap
    · exact h.add hnow hcap
    · have hfull : maxCollSupported ≤ S.seen.length := by
        rw [← h.colCnt]
        exact Nat.not_lt.mp hcap
      have htree := h.tree.ask hnow .crowd
      rw [Search.ask_crowd_full hfull] at htree ⊢
      exact { h.toSim.heard r with tree := htree }

/-- the parts of a search that an answer leaves, or adds to -/
theorem ask_seen (S : Search (Fin 16)) (q : List (Fin 16)) (rest : List (List (Fin 16)))
    (a : Answer (Fin 16)) :
    (S.ask maxCollSupported q rest a).now = rest ∧
      ∃ l, (S.ask maxCollSupported q rest a).seen = S.seen ++ l ∧
        (S.ask maxCollSupported q rest a).later = S.later ++ l := by
  cases a with
  | silent => exact ⟨rfl, [], (List.append_nil _).symm, (List.append_nil _).symm⟩
  | word w => exact ⟨rfl, [], (List.append_nil _).symm, (List.append_nil _).symm⟩
  | crowd =>
    by_cases hcap : S.seen.length < maxCollSupported
    · rw [Search.ask_crowd_lt hcap]
      exact ⟨rfl, [q], rfl, rfl⟩
    · rw [Search.ask_crowd_full (Nat.not_lt.mp hcap)]
      exact ⟨rfl, [], (List.append_nil _).symm, (List.append_nil _).symm⟩

/-- **A slot is one answer.** -/
theorem slot_search (h : During S s m) (hnow : S.now = q :: rest) (limit : Nat) :
    During (S.ask maxCollSupported q rest (s.answer r)) (s.slot r limit) m := by
  obtain ⟨hit, hslot, -, -, -⟩ := answered_frame r s
  obtain ⟨-, -, hrest⟩ := h.head hnow
  obtain ⟨hnow', l, hseen, hlater⟩ := ask_seen S q rest (s.answer r)
  have hlt := (List.getElem?_eq_some_iff.mp h.cur).1
  have hd : During (S.ask maxCollSupported q rest (s.answer r)) (s.answered r) m :=
    { answered_sim h hnow with
      cur := by rw [hit, hseen, List.getElem?_append_left hlt, h.cur]
      now := by rw [hnow', hrest, hslot]
      later := by rw [hlater, hseen, hit, h.later, List.drop_append_of_le_length hlt] }
  rw [slot_def]
  split_ifs
  · exact { hd with }
  · exact hd

/-- a request starts with all its slots -/
theorem Between.opens (h : Between S s) (hlater : S.later = m :: rest) :
    During (S.next slots m rest) { s with slotNum := 0 } m := by
  have hdrop := h.later.symm.trans hlater
  refine { h.toSim with tree := ?_, cur := ?_, now := ?_, later := ?_ }
  · exact h.tree.next (List.nodup_finRange 16) h.now hlater
  · show S.seen[s.colIt]? = some m
    rw [← List.head?_drop, hdrop]
    rfl
  · rfl
  · show rest = S.seen.drop (s.colIt + 1)
    rw [← List.tail_drop, hdrop]
    rfl

theorem During.closes (h : During S s m) (hslot : 16 ≤ s.slotNum) :
    Between S { s with colIt := s.colIt + 1 } :=
  { h.toSim with
    now := by
      rw [h.now, List.drop_eq_nil_of_le (by rw [List.length_finRange]; exact hslot)]
      rfl
    later := h.later }

end

/-! ## loops -/

/-- what requests and slots keep: `B` before a request, `K` in one -/
structure Kept (r : Radio ω) (limit : Nat) (B : Search (Fin 16) → Resolution ω → Prop)
    (K : Search (Fin 16) → List (Fin 16) → Resolution ω → Prop) : Prop where
  opens : ∀ S s m rest, Between S s → B S s → S.later = m :: rest →
    K (S.next slots m rest) m { s with slotNum := 0 }
  slot : ∀ S s m q rest, During S s m → K S m s → S.now = q :: rest → s.devCnt < limit →
    K (S.ask maxCollSupported q rest (s.answer r)) m (s.slot r limit)
  closes : ∀ S s m i, K S m s → B S { s with colIt := i }

/-- the limit is reached by the device that ends the loops -/
def Bounded (limit : Nat) (s : Resolution ω) : Prop :=
  if s.returned then s.devCnt = limit else s.devCnt < limit

section
variable {r : Radio ω} {limit : Nat} {B : Search (Fin 16) → Resolution ω → Prop}
  {K : Search (Fin 16) → List (Fin 16) → Resolution ω → Prop} {S : Search (Fin 16)}
  {s : Resolution ω} {m : List (Fin 16)}

theorem slot_bounded (hb : s.devCnt < limit) (hret : s.returned = false) :
    Bounded limit (s.slot r limit) := by
  obtain ⟨-, -, -, hsame, -⟩ := answered_frame r s
  have hle := (answered_devCnt r s).2
  rw [slot_def]
  split_ifs with h
  · exact Nat.le_antisymm (Nat.le_trans hle hb) h
  · unfold Bounded
    rw [hsame, hret]
    exact Nat.not_le.mp h

theorem slot_frame (r : Radio ω) (limit : Nat) (s : Resolution ω) :
    (s.slot r limit).colIt = s.colIt ∧ (s.slot r limit).slotNum = s.slotNum + 1 := by
  obtain ⟨hit, hslot, -⟩ := answered_frame r s
  rw [slot_def]
  split_ifs
  · exact ⟨hit, hslot⟩
  · exact ⟨hit, hslot⟩

theorem inSlots_iff : s.inSlots = true ↔ s.returned = false ∧ s.slotNum < 16 := by
  unfold Resolution.inSlots maxSlots
  rw [Bool.and_eq_true, Bool.not_eq_true', decide_eq_true_iff]

theorem pending_iff : s.pending = true ↔ s.returned = false ∧ s.colIt < s.colCnt := by
  unfold Resolution.pending
  rw [Bool.and_eq_true, Bool.not_eq_true', decide_eq_true_iff]

/-- the slots of a request -/
theorem slots_rule (kept : Kept r limit B K) (h : During S s m) (hk : K S m s)
    (hret : s.returned = false) (hb : s.devCnt < limit) :
    ∃ S', During S' (whileN Resolution.inSlots (Resolution.slot r limit) maxSlots s) m ∧
      K S' m (whileN Resolution.inSlots (Resolution.slot r limit) maxSlots s) ∧
      Bounded limit (whileN Resolution.inSlots (Resolution.slot r limit) maxSlots s) ∧
      (whileN Resolution.inSlots (Resolution.slot r limit) maxSlots s).colIt = s.colIt ∧
      (whileN Resolution.inSlots (Resolution.slot r limit) maxSlots s).inSlots = false := by
  have hinv := whileN_inv (c := Resolution.inSlots) (f := Resolution.slot r limit)
    (I := fun t => ∃ S', During S' t m ∧ K S' m t ∧ Bounded limit t ∧ t.colIt = s.colIt)
    (fun t hc ⟨S', hd, hk, hb, hit⟩ => by
      obtain ⟨hret, hlt⟩ := inSlots_iff.mp hc
      have hbt : t.devCnt < limit := by
        unfold Bounded at hb
        rwa [hret, if_neg Bool.false_ne_true] at hb
      obtain ⟨q, rest, hnow⟩ : ∃ q rest, S'.now = q :: rest := by
        rw [hd.now, List.drop_eq_getElem_cons (by rw [List.length_finRange]; exact hlt)]
        exact ⟨_, _, rfl⟩
      exact ⟨_, slot_search hd hnow limit, kept.slot _ _ _ _ _ hd hk hnow hbt,
        slot_bounded hbt hret, (slot_frame r limit t).1.trans hit⟩)
    ⟨S, h, hk, by unfold Bounded; rwa [hret, if_neg Bool.false_ne_true], rfl⟩ maxSlots
  obtain ⟨S', hd, hk', hb', hit⟩ := hinv
  refine ⟨S', hd, hk', hb', hit, ?_⟩
  apply whileN_measure (fun t => 16 - t.slotNum)
  · intro t hc
    have hslot := (slot_frame r limit t).2
    have hlt := (inSlots_iff.mp hc).2
    omega
  · exact Nat.sub_le _ _

/-- the invariant of the outer loop -/
structure Resolving (limit : Nat) (B : Search (Fin 16) → Resolution ω → Prop)
    (S : Search (Fin 16)) (s : Resolution ω) : Prop where
  sim : Sim S s
  keeps : B S s
  bounded : Bounded limit s
  between : s.returned = false → Between S s

theorem collision_rule (kept : Kept r limit B K) (h : Resolving limit B S s)
    (hp : s.pending = true) :
    ∃ S', Resolving limit B S' (s.collision r limit) ∧
      ((s.collision r limit).returned = true ∨ (s.collision r limit).colIt = s.colIt + 1) := by
  obtain ⟨hret, hlt⟩ := pending_iff.mp hp
  have hbetween := h.between hret
  have hb : s.devCnt < limit := by
    have hb := h.bounded
    unfold Bounded at hb
    rwa [hret, if_neg Bool.false_ne_true] at hb
  obtain ⟨m, rest, hlater⟩ : ∃ m rest, S.later = m :: rest := by
    rw [hbetween.later, List.drop_eq_getElem_cons (by rw [← h.sim.colCnt]; exact hlt)]
    exact ⟨_, _, rfl⟩
  obtain ⟨S', hd, hk, hb', hit, hend⟩ := slots_rule kept (hbetween.opens hlater)
    (kept.opens _ _ _ _ hbetween h.keeps hlater) hret hb
  refine ⟨S', ?_⟩
  unfold Resolution.collision
  dsimp only
  generalize whileN Resolution.inSlots (Resolution.slot r limit) maxSlots
    { s with slotNum := 0 } = t at hd hk hb' hit hend
  by_cases hr : t.returned = true
  · rw [if_pos hr]
    refine ⟨⟨hd.toSim, kept.closes S' t m t.colIt hk, hb', fun hf => ?_⟩, .inl hr⟩
    rw [hr] at hf
    cases hf
  · rw [if_neg hr]
    have hslot : 16 ≤ t.slotNum := by
      by_contra hge
      rw [inSlots_iff.mpr ⟨eq_false_of_ne_true hr, by omega⟩] at hend
      cases hend
    exact ⟨⟨{ hd.toSim with }, kept.closes S' t m _ hk, hb', fun _ => hd.closes hslot⟩,
      .inr (by rw [hit])⟩

/-- **The loops end, and what requests and slots keep holds then.** -/
theorem resolve_rule (kept : Kept r limit B K) (h : Between S s) (hB : B S s)
    (hret : s.returned = false) (hb : s.devCnt < limit) (hit : s.colIt = 0) {n : Nat}
    (hn : maxCollSupported ≤ n) :
    ∃ S' t, s.resolve r limit n = some (.errNone, t) ∧ Sim S' t ∧ B S' t ∧ Bounded limit t ∧
      (t.returned = false → S'.now = [] ∧ S'.later = []) := by
  have hstart : Resolving limit B S s :=
    ⟨h.toSim, hB, by unfold Bounded; rwa [hret, if_neg Bool.false_ne_true], fun _ => h⟩
  obtain ⟨S', hS'⟩ := whileN_inv (c := Resolution.pending) (f := Resolution.collision r limit)
    (I := fun t => ∃ S', Resolving limit B S' t)
    (fun t hc ⟨S', ht⟩ => (collision_rule kept ht hc).imp fun _ hs => hs.1) ⟨S, hstart⟩ n
  have hend : (whileN Resolution.pending (Resolution.collision r limit) n s).pending = false := by
    apply whileN_measure_inv (I := fun t => ∃ S', Resolving limit B S' t)
      (fun t => if t.returned then 0 else 16 - t.colIt)
    · intro t hc ⟨S', ht⟩
      obtain ⟨S'', hs, hdone⟩ := collision_rule kept ht hc
      obtain ⟨hret, hlt⟩ := pending_iff.mp hc
      have hle := ht.sim.colCnt_le
      refine ⟨⟨S'', hs⟩, ?_⟩
      rw [hret, if_neg Bool.false_ne_true]
      rcases hdone with hdone | hdone
      · rw [hdone, if_pos rfl]
        omega
      · rw [hdone]
        split_ifs <;> omega
    · exact ⟨S, hstart⟩
    · rw [hret, if_neg Bool.false_ne_true, hit]
      exact hn
  refine ⟨S', _, ?_, hS'.sim, hS'.keeps, hS'.bounded, fun hr => ?_⟩
  · unfold Resolution.resolve
    dsimp only
    rw [hend, if_neg Bool.false_ne_true]
  · have hbetween := hS'.between hr
    refine ⟨hbetween.now, ?_⟩
    rw [hbetween.later, List.drop_eq_nil_iff, ← hS'.sim.colCnt]
    by_contra hlt
    rw [pending_iff.mpr ⟨hr, Nat.not_le.mp hlt⟩] at hend
    cases hend

end

end

end Nfcv
end Hydra
