import Mathlib.Data.List.Nodup
import Mathlib.Data.List.Dedup
import Mathlib.Data.Finset.Card

/-!
# A search for words by their first digits

All words have one length.  A request names a prefix, and is answered for each digit that may
follow it: no word goes on so, one does, or several do.  In the last case the longer prefix is kept
for a request of its own, as long as there is room for it.

* `Apart a b`       no word starts with both;
* `Crowded words q` two words start with `q`;
* `Search`          the state of a search: `ask` takes one answer, `next` starts the next request;
* `Search.Tree`     the shape of the requests, whatever the answers;
* `Search.Safe`     no word is found twice, as long as answers are about what was asked;
* `Search.Honest`   what right answers leave;
* `Search.Honest.complete`, `Search.Honest.length_le`   a search with right answers finds every word
  if there is room for all crowded prefixes, and only then;
* `crowds_length_le`      three words do not crowd more prefixes than a word has digits.
-/

namespace Trie

variable {β : Type*}

/-- no word starts with both -/
def Apart (a b : List β) : Prop := ¬ a <+: b ∧ ¬ b <+: a

theorem Apart.symm {a b : List β} (h : Apart a b) : Apart b a := ⟨h.2, h.1⟩

/-- prefixes of one word are not apart -/
theorem Apart.not_both {a b w : List β} (h : Apart a b) (ha : a <+: w) : ¬ b <+: w := fun hb =>
  (List.prefix_or_prefix_of_prefix ha hb).elim h.1 h.2

theorem Apart.mono {a b c : List β} (h : Apart a b) (hc : a <+: c) : Apart c b :=
  ⟨fun hcb => h.1 (hc.trans hcb), fun hbc => h.not_both hc hbc⟩

/-- the prefixes that are one digit longer -/
def children (ds : List β) (m : List β) : List (List β) := ds.map fun d => m ++ [d]

theorem mem_children {ds m r : List β} : r ∈ children ds m ↔ ∃ d ∈ ds, r = m ++ [d] := by
  unfold children
  rw [List.mem_map]
  exact exists_congr fun d => and_congr_right fun _ => eq_comm

theorem snoc_prefix_iff {m w : List β} {d : β} :
    m ++ [d] <+: w ↔ m <+: w ∧ w[m.length]? = some d := by
  constructor
  · rintro ⟨t, rfl⟩
    refine ⟨⟨d :: t, by rw [List.append_assoc]; rfl⟩, ?_⟩
    rw [List.append_assoc, List.getElem?_append_right (Nat.le_refl _), Nat.sub_self]
    rfl
  · rintro ⟨⟨t, rfl⟩, h⟩
    rw [List.getElem?_append_right (Nat.le_refl _), Nat.sub_self] at h
    cases t with
    | nil => cases h
    | cons x t =>
      cases h
      exact ⟨t, by rw [List.append_assoc]; rfl⟩

/-- the children of a prefix part the words below it -/
theorem children_apart {ds : List β} (hds : ds.Nodup) (m : List β) :
    (children ds m).Pairwise Apart := by
  unfold children
  rw [List.pairwise_map]
  apply hds.imp
  intro a b hab
  have hne : ∀ {x y : β}, x ≠ y → ¬ m ++ [x] <+: m ++ [y] := by
    intro x y hxy h
    have heq := h.eq_of_length (by rw [List.length_append, List.length_append]; rfl)
    exact hxy (List.singleton_injective (List.append_cancel_left heq))
  exact ⟨hne hab, hne hab.symm⟩

/-! ## crowded prefixes -/

def Crowded (words : List (List β)) (q : List β) : Prop :=
  ∃ w ∈ words, ∃ w' ∈ words, w ≠ w' ∧ q <+: w ∧ q <+: w'

instance [DecidableEq β] (words : List (List β)) : DecidablePred (Crowded words) := fun q =>
  inferInstanceAs (Decidable (∃ w ∈ words, ∃ w' ∈ words, w ≠ w' ∧ q <+: w ∧ q <+: w'))

section
variable {words : List (List β)} {q r w : List β} {n : Nat}

theorem Crowded.mono (h : Crowded words r) (hq : q <+: r) : Crowded words q := by
  obtain ⟨w, hw, w', hw', hne, hr, hr'⟩ := h
  exact ⟨w, hw, w', hw', hne, hq.trans hr, hq.trans hr'⟩

/-- words of one length part before their end -/
theorem Crowded.length_lt (h : Crowded words q) (hlen : ∀ w ∈ words, w.length = n) :
    q.length < n := by
  obtain ⟨w, hw, w', hw', hne, hq, hq'⟩ := h
  by_contra hge
  have heq : ∀ x ∈ words, q <+: x → q = x := fun x hx hqx =>
    hqx.eq_of_length_le (by rw [hlen x hx]; exact Nat.not_lt.mp hge)
  exact hne ((heq w hw hq).symm.trans (heq w' hw' hq'))

/-- the only word below a prefix that is not crowded -/
theorem eq_of_not_crowded {w' : List β} (h : ¬ Crowded words q) (hw : w ∈ words) (hw' : w' ∈ words)
    (hq : q <+: w) (hq' : q <+: w') : w = w' := by
  by_contra hne
  exact h ⟨w, hw, w', hw', hne, hq, hq'⟩

variable [DecidableEq β]

/-- the prefixes that two words share -/
def crowds (n : Nat) (words : List (List β)) : List (List β) :=
  ((words.flatMap fun w => (List.range n).map w.take).dedup).filter fun q => Crowded words q

theorem crowds_nodup (n : Nat) (words : List (List β)) : (crowds n words).Nodup :=
  (List.nodup_dedup _).filter _

theorem mem_crowds (hlen : ∀ w ∈ words, w.length = n) : q ∈ crowds n words ↔ Crowded words q := by
  unfold crowds
  rw [List.mem_filter, decide_eq_true_iff, List.mem_dedup]
  constructor
  · exact fun h => h.2
  · intro h
    refine ⟨?_, h⟩
    have hlt := h.length_lt hlen
    obtain ⟨w, hw, -, -, -, hq, -⟩ := h
    rw [List.mem_flatMap]
    refine ⟨w, hw, ?_⟩
    rw [List.mem_map]
    exact ⟨q.length, List.mem_range.mpr hlt, (List.prefix_iff_eq_take.mp hq).symm⟩

/-- three words crowd at most one prefix of each length -/
theorem crowds_length_le (hlen : ∀ w ∈ words, w.length = n) (hthree : words.length ≤ 3) :
    (crowds n words).length ≤ n := by
  have hinj : ∀ a ∈ crowds n words, ∀ b ∈ crowds n words, a.length = b.length → a = b := by
    intro a ha b hb hab
    rw [mem_crowds hlen] at ha hb
    obtain ⟨w, hw, w', hw', hne, ha, ha'⟩ := ha
    obtain ⟨v, hv, v', hv', hne', hb, hb'⟩ := hb
    have heq : ∀ x : List β, a <+: x → b <+: x → a = b := fun x hax hbx =>
      (List.prefix_of_prefix_length_le hax hbx (Nat.le_of_eq hab)).eq_of_length hab
    by_contra hneq
    -- a word below both would make them equal, so four words are needed
    have hapart : ∀ x y : List β, a <+: x → b <+: y → x ≠ y := fun x y hx hy hxy =>
      hneq (heq y (hxy ▸ hx) hy)
    have hsub : ({w, w', v, v'} : Finset (List β)) ⊆ words.toFinset := by
      intro x hx
      rw [List.mem_toFinset]
      simp only [Finset.mem_insert, Finset.mem_singleton] at hx
      rcases hx with rfl | rfl | rfl | rfl <;> assumption
    have hcard : ({w, w', v, v'} : Finset (List β)).card = 4 := by
      rw [Finset.card_insert_of_notMem, Finset.card_insert_of_notMem, Finset.card_pair hne']
      · simp only [Finset.mem_insert, Finset.mem_singleton, not_or]
        exact ⟨hapart w' v ha' hb, hapart w' v' ha' hb'⟩
      · simp only [Finset.mem_insert, Finset.mem_singleton, not_or]
        exact ⟨hne, hapart w v ha hb, hapart w v' ha hb'⟩
    have hle := (Finset.card_le_card hsub).trans (List.toFinset_card_le words)
    omega
  have hmap : ((crowds n words).map List.length).Nodup :=
    (crowds_nodup n words).map_on hinj
  have hsub : (crowds n words).map List.length ⊆ List.range n := by
    intro k hk
    obtain ⟨q, hq, rfl⟩ := List.mem_map.mp hk
    exact List.mem_range.mpr (((mem_crowds hlen).mp hq).length_lt hlen)
  have hle := (hmap.subperm hsub).length_le
  rwa [List.length_map, List.length_range] at hle

end

/-! ## the search -/

inductive Answer (β : Type*) where
  | silent
  | word (w : List β)
  | crowd

structure Search (β : Type*) where
  /-- the prefixes of all requests: made, being made or kept for later -/
  seen : List (List β)
  /-- what the request that is being made has still to be answered for -/
  now : List (List β)
  later : List (List β)
  found : List (List β)

namespace Search

def ask (cap : Nat) (s : Search β) (r : List β) (rest : List (List β)) : Answer β → Search β
  | .silent => { s with now := rest }
  | .word w => { s with now := rest, found := s.found ++ [w] }
  | .crowd =>
    if s.seen.length < cap then
      { s with now := rest, seen := s.seen ++ [r], later := s.later ++ [r] }
    else { s with now := rest }

def next (ds : List β) (s : Search β) (m : List β) (rest : List (List β)) : Search β :=
  { s with now := children ds m, later := rest }

/-- the request for all words -/
def start : Search β where
  seen := [[]]
  now := []
  later := [[]]
  found := []

/-- the prefixes below which words may still be found -/
def regions (s : Search β) : List (List β) := s.now ++ s.later

/-! ### what holds whatever the answers -/

structure Tree (cap : Nat) (s : Search β) : Prop where
  seen_le : s.seen.length ≤ cap
  nodup : s.seen.Nodup
  apart : s.regions.Pairwise Apart
  root : [] ∈ s.seen
  kept : ∀ e ∈ s.later, e ∈ s.seen
  fresh : ∀ q ∈ s.regions, ∀ e ∈ s.seen, q <+: e → e ∈ s.later
  parent : ∀ e ∈ s.seen, e = [] ∨ ∃ m ∈ s.seen, ∃ d, e = m ++ [d]
  child : ∀ q ∈ s.now, ∃ m ∈ s.seen, ∃ d, q = m ++ [d]
  depth : ∀ (i : Nat) (e : List β), s.seen[i]? = some e → e.length ≤ i

section
variable {s : Search β} {r m w : List β} {rest : List (List β)} {cap : Nat} {ds : List β}
  {a : Answer β}

theorem ask_crowd_lt (h : s.seen.length < cap) :
    s.ask cap r rest .crowd =
      { s with now := rest, seen := s.seen ++ [r], later := s.later ++ [r] } := if_pos h

theorem ask_crowd_full (h : cap ≤ s.seen.length) :
    s.ask cap r rest .crowd = { s with now := rest } := if_neg (Nat.not_lt.mpr h)

theorem regions_of_now (hnow : s.now = r :: rest) : s.regions = r :: (rest ++ s.later) := by
  rw [regions, hnow, List.cons_append]

theorem regions_of_later (hnow : s.now = []) (hlater : s.later = m :: rest) :
    s.regions = m :: rest := by
  rw [regions, hnow, hlater, List.nil_append]

theorem head_mem_regions (hnow : s.now = r :: rest) : r ∈ s.regions := by
  rw [regions_of_now hnow]
  exact List.mem_cons_self

theorem mem_regions_of_now {q : List β} (hnow : s.now = r :: rest) (hq : q ∈ rest ++ s.later) :
    q ∈ s.regions := by
  rw [regions_of_now hnow]
  exact List.mem_cons_of_mem r hq

/-- the regions behind a collision are those before -/
theorem mem_regions_of_kept {q : List β} (hnow : s.now = r :: rest)
    (hq : q ∈ rest ++ (s.later ++ [r])) : q ∈ s.regions := by
  rw [← List.append_assoc] at hq
  rcases List.mem_append.mp hq with hq | hq
  · exact mem_regions_of_now hnow hq
  · rw [List.mem_singleton.mp hq]
    exact head_mem_regions hnow

theorem start_tree (hcap : 1 ≤ cap) : (start : Search β).Tree cap where
  seen_le := hcap
  nodup := List.nodup_singleton _
  apart := List.pairwise_singleton _ _
  root := List.mem_singleton_self _
  kept := fun _ he => he
  fresh := fun _ _ _ he _ => he
  parent := fun e he => .inl (List.mem_singleton.mp he)
  child := fun q hq => absurd hq List.not_mem_nil
  depth := by
    intro i e he
    rw [show e = [] from List.mem_singleton.mp (List.mem_of_getElem? he)]
    exact Nat.zero_le i

/-- the region that is asked for is apart from all others -/
theorem Tree.head (ht : s.Tree cap) (hnow : s.now = r :: rest) :
    (∀ q ∈ rest ++ s.later, Apart r q) ∧ (rest ++ s.later).Pairwise Apart := by
  have hp := ht.apart
  rw [regions_of_now hnow] at hp
  exact List.pairwise_cons.mp hp

/-- a prefix that is asked for has no request of its own -/
theorem Tree.head_notMem (ht : s.Tree cap) (hnow : s.now = r :: rest) : r ∉ s.seen := by
  intro hr
  have hlater := ht.fresh r (head_mem_regions hnow) r hr (List.prefix_refl r)
  exact ((ht.head hnow).1 r (List.mem_append_right rest hlater)).1 (List.prefix_refl r)

theorem Tree.drop (ht : s.Tree cap) (hnow : s.now = r :: rest) (found : List (List β)) :
    ({ s with now := rest, found } : Search β).Tree cap :=
  { ht with
    apart := (ht.head hnow).2
    fresh := fun q hq => ht.fresh q (mem_regions_of_now hnow hq)
    child := fun q hq => ht.child q (by rw [hnow]; exact List.mem_cons_of_mem r hq) }

theorem Tree.ask (ht : s.Tree cap) (hnow : s.now = r :: rest) (a : Answer β) :
    (s.ask cap r rest a).Tree cap := by
  cases a with
  | silent => exact ht.drop hnow s.found
  | word w => exact ht.drop hnow (s.found ++ [w])
  | crowd =>
    by_cases hcap : s.seen.length < cap
    · rw [ask_crowd_lt hcap]
      obtain ⟨hhead, hrest⟩ := ht.head hnow
      have hnotMem := ht.head_notMem hnow
      obtain ⟨m, hm, d, hr⟩ := ht.child r (by rw [hnow]; exact List.mem_cons_self)
      constructor
      · show (s.seen ++ [r]).length ≤ cap
        rw [List.length_append, List.length_singleton]
        exact hcap
      · apply List.Nodup.append ht.nodup (List.nodup_singleton r)
        intro x hx hxr
        rw [List.mem_singleton.mp hxr] at hx
        exact hnotMem hx
      · show (rest ++ (s.later ++ [r])).Pairwise Apart
        rw [← List.append_assoc, List.pairwise_append]
        refine ⟨hrest, List.pairwise_singleton _ _, fun q hq x hx => ?_⟩
        rw [List.mem_singleton.mp hx]
        exact (hhead q hq).symm
      · exact List.mem_append_left _ ht.root
      · intro e he
        rcases List.mem_append.mp he with he | he
        · exact List.mem_append_left _ (ht.kept e he)
        · exact List.mem_append_right _ he
      · intro q hq e he hqe
        rcases List.mem_append.mp he with he | he
        · exact List.mem_append_left _ (ht.fresh q (mem_regions_of_kept hnow hq) e he hqe)
        · exact List.mem_append_right _ he
      · intro e he
        rcases List.mem_append.mp he with he | he
        · rcases ht.parent e he with hroot | ⟨m', hm', hd⟩
          · exact .inl hroot
          · exact .inr ⟨m', List.mem_append_left _ hm', hd⟩
        · exact .inr ⟨m, List.mem_append_left _ hm, d, (List.mem_singleton.mp he).trans hr⟩
      · intro q hq
        obtain ⟨m', hm', hd⟩ := ht.child q (by rw [hnow]; exact List.mem_cons_of_mem r hq)
        exact ⟨m', List.mem_append_left _ hm', hd⟩
      · intro i e he
        rw [List.getElem?_append] at he
        split_ifs at he with hi
        · exact ht.depth i e he
        · have her : e = r := List.mem_singleton.mp (List.mem_of_getElem? he)
          obtain ⟨j, hj⟩ := List.mem_iff_getElem?.mp hm
          have hlt := (List.getElem?_eq_some_iff.mp hj).1
          have hdepth := ht.depth j m hj
          rw [her, hr, List.length_append, List.length_singleton]
          omega
    · rw [ask_crowd_full (Nat.not_lt.mp hcap)]
      exact ht.drop hnow s.found

/-- what is below a request or behind it -/
theorem mem_regions_next {q : List β} (hq : q ∈ children ds m ++ rest) : q ∈ rest ∨ m <+: q := by
  rcases List.mem_append.mp hq with hq | hq
  · obtain ⟨d, -, rfl⟩ := mem_children.mp hq
    exact .inr (List.prefix_append m [d])
  · exact .inl hq

theorem Tree.next (ht : s.Tree cap) (hds : ds.Nodup) (hnow : s.now = [])
    (hlater : s.later = m :: rest) : (s.next ds m rest).Tree cap := by
  have hregions := regions_of_later hnow hlater
  have hp := ht.apart
  rw [hregions, List.pairwise_cons] at hp
  have hm : m ∈ s.seen := ht.kept m (by rw [hlater]; exact List.mem_cons_self)
  refine { ht with
    apart := ?_
    kept := fun e he => ht.kept e (by rw [hlater]; exact List.mem_cons_of_mem m he)
    fresh := ?_
    child := ?_ }
  · show (children ds m ++ rest).Pairwise Apart
    rw [List.pairwise_append]
    refine ⟨children_apart hds m, hp.2, fun c hc q hq => ?_⟩
    obtain ⟨d, -, rfl⟩ := mem_children.mp hc
    exact (hp.1 q hq).mono (List.prefix_append m [d])
  · intro q hq e he hqe
    show e ∈ rest
    have hlt : ∀ x ∈ m :: rest, x <+: e → e = m ∨ e ∈ rest := by
      intro x hx hxe
      have hmem := ht.fresh x (by rw [hregions]; exact hx) e he hxe
      rw [hlater] at hmem
      exact List.mem_cons.mp hmem
    rcases List.mem_append.mp hq with hq | hq
    · obtain ⟨d, -, rfl⟩ := mem_children.mp hq
      rcases hlt m List.mem_cons_self ((List.prefix_append m [d]).trans hqe) with heq | hmem
      · rw [heq] at hqe
        exact absurd hqe.length_le (by simp)
      · exact hmem
    · rcases hlt q (List.mem_cons_of_mem m hq) hqe with heq | hmem
      · rw [heq] at hqe
        exact absurd hqe (hp.1 q hq).2
      · exact hmem
  · intro q hq
    obtain ⟨d, -, rfl⟩ := mem_children.mp hq
    exact ⟨m, hm, d, rfl⟩

/-- with a prefix, all shorter ones were requested -/
theorem Tree.mem_of_le (ht : s.Tree cap) {e q : List β} (he : e ∈ s.seen) (hq : q <+: e) :
    q ∈ s.seen := by
  induction hn : e.length generalizing e with
  | zero =>
    rw [List.eq_nil_of_length_eq_zero hn] at hq
    rw [List.prefix_nil.mp hq]
    exact ht.root
  | succ n ih =>
    rcases ht.parent e he with rfl | ⟨m, hm, d, rfl⟩
    · cases hn
    · rcases List.prefix_concat_iff.mp hq with rfl | hq
      · exact he
      · apply ih hm hq
        rw [List.length_append, List.length_singleton] at hn
        exact Nat.succ.inj hn

/-- a last request that is as long as it can be was reached by the prefixes before it -/
theorem Tree.chain (ht : s.Tree cap) (hw : s.seen[w.length]? = some w)
    (hlast : s.seen.length = w.length + 1) {i : Nat} (hi : i ≤ w.length) :
    s.seen[i]? = some (w.take i) := by
  -- from the last one down: all later places are taken
  induction hk : w.length - i using Nat.strong_induction_on generalizing i with
  | _ k ih =>
    have hmem := ht.mem_of_le (List.mem_of_getElem? hw) (List.take_prefix i w)
    obtain ⟨j, hj⟩ := List.mem_iff_getElem?.mp hmem
    have hdepth := ht.depth j _ hj
    have hlt := (List.getElem?_eq_some_iff.mp hj).1
    rw [List.length_take, Nat.min_eq_left hi] at hdepth
    rcases Nat.eq_or_lt_of_le hdepth with rfl | hij
    · exact hj
    · have hj' := ih (w.length - j) (by omega) (i := j) (by omega) rfl
      have heq := congrArg List.length (Option.some.inj (hj.symm.trans hj'))
      rw [List.length_take, List.length_take] at heq
      omega

end

/-! ### no word is found twice -/

structure Safe (s : Search β) : Prop where
  nodup : s.found.Nodup
  closed : ∀ w ∈ s.found, ∀ q ∈ s.regions, ¬ q <+: w

section
variable {s : Search β} {r m : List β} {rest : List (List β)} {cap : Nat} {a : Answer β}

theorem start_safe : (start : Search β).Safe where
  nodup := List.nodup_nil
  closed := fun _ hw => absurd hw List.not_mem_nil

theorem Safe.drop (h : s.Safe) (hnow : s.now = r :: rest) :
    ({ s with now := rest } : Search β).Safe where
  nodup := h.nodup
  closed := fun w hw q hq => h.closed w hw q (mem_regions_of_now hnow hq)

/-- an answer is about the region that was asked for -/
theorem Safe.ask (h : s.Safe) (ht : s.Tree cap) (hnow : s.now = r :: rest)
    (ha : ∀ w, a = .word w → r <+: w) : (s.ask cap r rest a).Safe := by
  cases a with
  | silent => exact h.drop hnow
  | word w =>
    have hw := ha w rfl
    constructor
    · apply List.Nodup.append h.nodup (List.nodup_singleton w)
      intro x hx hxw
      rw [List.mem_singleton.mp hxw] at hx
      exact h.closed w hx r (head_mem_regions hnow) hw
    · intro x hx q hq
      rcases List.mem_append.mp hx with hx | hx
      · exact h.closed x hx q (mem_regions_of_now hnow hq)
      · rw [List.mem_singleton.mp hx]
        exact ((ht.head hnow).1 q hq).not_both hw
  | crowd =>
    by_cases hcap : s.seen.length < cap
    · rw [ask_crowd_lt hcap]
      exact ⟨h.nodup, fun w hw q hq => h.closed w hw q (mem_regions_of_kept hnow hq)⟩
    · rw [ask_crowd_full (Nat.not_lt.mp hcap)]
      exact h.drop hnow

theorem Safe.next (h : s.Safe) (ds : List β) (hnow : s.now = []) (hlater : s.later = m :: rest) :
    (s.next ds m rest).Safe := by
  refine ⟨h.nodup, fun w hw q hq hqw => ?_⟩
  have hregions := regions_of_later hnow hlater
  rcases mem_regions_next hq with hq | hq
  · exact h.closed w hw q (by rw [hregions]; exact List.mem_cons_of_mem m hq) hqw
  · exact h.closed w hw m (by rw [hregions]; exact List.mem_cons_self) (hq.trans hqw)

end

/-! ### right answers -/

def Right (words : List (List β)) (r : List β) : Answer β → Prop
  | .silent => ∀ w ∈ words, ¬ r <+: w
  | .word w => w ∈ words ∧ r <+: w ∧ ¬ Crowded words r
  | .crowd => Crowded words r

structure Honest (cap : Nat) (words : List (List β)) (s : Search β) : Prop where
  crowded : ∀ e ∈ s.seen, e = [] ∨ Crowded words e
  cover : ∀ w ∈ words, w ∈ s.found ∨ (∃ q ∈ s.regions, q <+: w) ∨
    cap ≤ s.seen.length ∧ ∃ q, q <+: w ∧ Crowded words q ∧ q ∉ s.seen
  lone : ∀ w ∈ s.found, w ∈ words ∧ ∃ m ∈ s.seen, ∃ d, m ++ [d] <+: w ∧ ¬ Crowded words (m ++ [d])

section
variable {s : Search β} {words : List (List β)} {r m : List β} {rest : List (List β)} {cap n : Nat}
  {ds : List β} {a : Answer β}

/-- a digit follows a prefix that is not a whole word -/
theorem exists_child (hlen : ∀ w ∈ words, w.length = n) (hds : ∀ w ∈ words, ∀ d ∈ w, d ∈ ds)
    {w : List β} (hw : w ∈ words) (hm : m <+: w) (hlt : m.length < n) :
    ∃ q ∈ children ds m, q <+: w := by
  have hlt' : m.length < w.length := by rwa [hlen w hw]
  refine ⟨m ++ [w[m.length]], mem_children.mpr ⟨_, hds w hw _ (List.getElem_mem hlt'), rfl⟩, ?_⟩
  rw [snoc_prefix_iff]
  exact ⟨hm, List.getElem?_eq_getElem hlt'⟩

theorem start_honest (cap : Nat) (words : List (List β)) : start.Honest cap words where
  crowded := fun _ he => .inl (List.mem_singleton.mp he)
  cover := fun _ _ => .inr (.inl ⟨[], List.mem_singleton_self _, List.nil_prefix⟩)
  lone := fun _ hw => absurd hw List.not_mem_nil

theorem Honest.ask (hh : s.Honest cap words) (ht : s.Tree cap) (hnow : s.now = r :: rest)
    (ha : Right words r a) : (s.ask cap r rest a).Honest cap words := by
  have hsplit : ∀ w, (∃ q ∈ s.regions, q <+: w) → r <+: w ∨ ∃ q ∈ rest ++ s.later, q <+: w := by
    intro w ⟨q, hq, hqw⟩
    rw [regions_of_now hnow] at hq
    rcases List.mem_cons.mp hq with rfl | hq
    · exact .inl hqw
    · exact .inr ⟨q, hq, hqw⟩
  cases a with
  | silent =>
    refine { hh with cover := fun w hw => ?_ }
    rcases hh.cover w hw with hf | hreg | hlost
    · exact .inl hf
    · rcases hsplit w hreg with hr | hq
      · exact absurd hr (ha w hw)
      · exact .inr (.inl hq)
    · exact .inr (.inr hlost)
  | word v =>
    obtain ⟨hv, hrv, hlone⟩ := ha
    refine { hh with cover := fun w hw => ?_, lone := fun w hw => ?_ }
    · rcases hh.cover w hw with hf | hreg | hlost
      · exact .inl (List.mem_append_left _ hf)
      · rcases hsplit w hreg with hr | hq
        · refine .inl (List.mem_append_right _ (List.mem_singleton.mpr ?_))
          exact eq_of_not_crowded hlone hw hv hr hrv
        · exact .inr (.inl hq)
      · exact .inr (.inr hlost)
    · obtain ⟨m, hm, d, hr⟩ := ht.child r (by rw [hnow]; exact List.mem_cons_self)
      rw [hr] at hrv hlone
      rcases List.mem_append.mp hw with hw | hw
      · exact hh.lone w hw
      · rw [List.mem_singleton.mp hw]
        exact ⟨hv, m, hm, d, hrv, hlone⟩
  | crowd =>
    by_cases hcap : s.seen.length < cap
    · rw [ask_crowd_lt hcap]
      constructor
      · intro e he
        rcases List.mem_append.mp he with he | he
        · exact hh.crowded e he
        · rw [List.mem_singleton.mp he]
          exact .inr ha
      · intro w hw
        rcases hh.cover w hw with hf | hreg | ⟨hfull, -⟩
        · exact .inl hf
        · refine .inr (.inl ?_)
          rcases hsplit w hreg with hr | ⟨q, hq, hqw⟩
          · refine ⟨r, List.mem_append_right _ (List.mem_append_right _ ?_), hr⟩
            exact List.mem_singleton_self r
          · refine ⟨q, ?_, hqw⟩
            show q ∈ rest ++ (s.later ++ [r])
            rw [← List.append_assoc]
            exact List.mem_append_left _ hq
        · exact absurd hcap (Nat.not_lt.mpr hfull)
      · intro w hw
        obtain ⟨hmem, m, hm, hd⟩ := hh.lone w hw
        exact ⟨hmem, m, List.mem_append_left _ hm, hd⟩
    · have hfull := Nat.not_lt.mp hcap
      rw [ask_crowd_full hfull]
      refine { hh with cover := fun w hw => ?_ }
      rcases hh.cover w hw with hf | hreg | hlost
      · exact .inl hf
      · rcases hsplit w hreg with hr | hq
        · exact .inr (.inr ⟨hfull, r, hr, ha, ht.head_notMem hnow⟩)
        · exact .inr (.inl hq)
      · exact .inr (.inr hlost)

theorem Honest.next (hh : s.Honest cap words) (ht : s.Tree cap)
    (hlen : ∀ w ∈ words, w.length = n) (hds : ∀ w ∈ words, ∀ d ∈ w, d ∈ ds) (hn : 0 < n)
    (hnow : s.now = []) (hlater : s.later = m :: rest) :
    (s.next ds m rest).Honest cap words := by
  refine { hh with cover := fun w hw => ?_ }
  rcases hh.cover w hw with hf | ⟨q, hq, hqw⟩ | hlost
  · exact .inl hf
  · refine .inr (.inl ?_)
    rw [regions_of_later hnow hlater] at hq
    rcases List.mem_cons.mp hq with rfl | hq
    · have hlt : q.length < n := by
        rcases hh.crowded q (ht.kept q (by rw [hlater]; exact List.mem_cons_self)) with rfl | hc
        · exact hn
        · exact hc.length_lt hlen
      obtain ⟨c, hc, hcw⟩ := exists_child hlen hds hw hqw hlt
      exact ⟨c, List.mem_append_left _ hc, hcw⟩
    · exact ⟨q, List.mem_append_right _ hq, hqw⟩
  · exact .inr (.inr hlost)

/-- a crowded prefix whose words were found had a request -/
theorem Honest.mem_seen (hh : s.Honest cap words) (ht : s.Tree cap) {q w : List β}
    (hc : Crowded words q) (hqw : q <+: w) (hw : w ∈ s.found) : q ∈ s.seen := by
  obtain ⟨-, m, hm, d, hmd, hlone⟩ := hh.lone w hw
  -- the prefix below which `w` was found alone is longer than the crowded one
  have hqm : q <+: m := by
    rcases List.prefix_or_prefix_of_prefix hqw hmd with h | h
    · rcases List.prefix_concat_iff.mp h with rfl | h
      · exact absurd hc hlone
      · exact h
    · exact absurd (hc.mono h) hlone
  exact ht.mem_of_le hm hqm

variable [DecidableEq β]

/-- when all words were found, there was room for all crowded prefixes -/
theorem Honest.length_le (hh : s.Honest cap words) (ht : s.Tree cap)
    (hlen : ∀ w ∈ words, w.length = n) (hall : ∀ w ∈ words, w ∈ s.found) :
    (crowds n words).length ≤ cap := by
  have hsub : crowds n words ⊆ s.seen := by
    intro q hq
    have hc := (mem_crowds hlen).mp hq
    obtain ⟨w, hw, -, -, -, hqw, -⟩ := id hc
    exact hh.mem_seen ht hc hqw (hall w hw)
  exact ((crowds_nodup n words).subperm hsub).length_le.trans ht.seen_le

/-- with room for all crowded prefixes, a search that has ended has found all words -/
theorem Honest.complete (hh : s.Honest cap words) (ht : s.Tree cap)
    (hlen : ∀ w ∈ words, w.length = n) (hnow : s.now = []) (hlater : s.later = [])
    (hle : (crowds n words).length ≤ cap) : ∀ w ∈ words, w ∈ s.found := by
  intro w hw
  rcases hh.cover w hw with hf | ⟨q, hq, -⟩ | ⟨hfull, q, hqw, hc, hqs⟩
  · exact hf
  · rw [regions, hnow, hlater] at hq
    exact absurd hq List.not_mem_nil
  · exfalso
    have hsub : (q :: s.seen) ⊆ crowds n words := by
      intro e he
      rw [mem_crowds hlen]
      rcases List.mem_cons.mp he with rfl | he
      · exact hc
      · rcases hh.crowded e he with rfl | he
        · exact hc.mono List.nil_prefix
        · exact he
    have hlen' := ((List.nodup_cons.mpr ⟨hqs, ht.nodup⟩).subperm hsub).length_le
    rw [List.length_cons] at hlen'
    omega

end

end Search
end Trie
