import HydraFw.Nfcv.Air

/-!
# The NFC-V resolution in a field without noise

In an ideal field a slot is silent when no card answers, heard when one does, and a collision when
several do.

* `Ideal`       the promises of such a field, on top of those of `Air`;
* `words`       the UIDs of the cards that are awake;
* `right_answer`   a slot is taken for what it is;
* `inventory_finds`   when the prefixes shared by several cards fit into the container, the
  resolution finds all cards or as many as it was asked for; otherwise it misses one;
* `overrun_iff`        when the container is overrun;
* `idealRadio`  a field that can be computed.
-/

namespace Hydra
namespace Nfcv
open BitBuf hiding Byte
open Vicinity hiding Byte
open Rams Common Trie
open Nfca (ComplianceMode Reply)

structure Ideal {ω : Type*} (p : Population) (r : Radio ω) (σ : ω → Vicc → State) : Prop
    extends Air p r σ where
  silent : ∀ f w, replies p.cards (σ w) (.ofBytes f) = [] → (r.anticollision f w).1.ret = errTimeout
  clear : ∀ f w a, a ∈ replies p.cards (σ w) (.ofBytes f) →
    (∀ b ∈ replies p.cards (σ w) (.ofBytes f), b = a) →
      (r.anticollision f w).1.ret = .errNone ∧ (r.anticollision f w).1.rcvdLen = 96
  collides : ∀ f w a b, a ∈ replies p.cards (σ w) (.ofBytes f) →
    b ∈ replies p.cards (σ w) (.ofBytes f) → a ≠ b →
      (r.anticollision f w).1.ret ≠ errTimeout ∧ (r.anticollision f w).1.ret ≠ .errNone ∧
        (r.anticollision f w).1.ret ≠ errProto

/-- the cards that take part -/
def awakeCards (p : Population) (st : Vicc → State) : List Vicc :=
  p.cards.filter fun v => st v ≠ .quiet

def words (p : Population) (st : Vicc → State) : List (List (Fin 16)) :=
  (awakeCards p st).map Vicc.digits

section
variable {ω : Type*} {p : Population} {r : Radio ω} {σ : ω → Vicc → State} {st : Vicc → State}
  {S : Search (Fin 16)} {s : Resolution ω} {m q : List (Fin 16)} {rest : List (List (Fin 16))}
  {limit : Nat} {v v' : Vicc}

/-! ## cards and words -/

theorem mem_awakeCards : v ∈ awakeCards p st ↔ v ∈ p.cards ∧ st v ≠ .quiet := by
  unfold awakeCards
  rw [List.mem_filter, decide_eq_true_iff]

theorem awakeCards_nodup (p : Population) (st : Vicc → State) : (awakeCards p st).Nodup :=
  (List.Nodup.of_map _ p.distinct).filter _

theorem mem_words {w : List (Fin 16)} :
    w ∈ words p st ↔ ∃ v ∈ p.cards, st v ≠ .quiet ∧ v.digits = w := by
  unfold words
  rw [List.mem_map]
  exact exists_congr fun v => by rw [mem_awakeCards, and_assoc]

theorem words_length (p : Population) (st : Vicc → State) : ∀ w ∈ words p st, w.length = 16 := by
  intro w hw
  obtain ⟨v, -, -, rfl⟩ := mem_words.mp hw
  exact digits_length v

/-- a card is told by its UID -/
theorem card_eq (hv : v ∈ p.cards) (hv' : v' ∈ p.cards) (h : v.uid = v'.uid) : v = v' :=
  List.inj_on_of_nodup_map p.distinct hv hv' h

theorem card_eq_of_digits (hv : v ∈ p.cards) (hv' : v' ∈ p.cards) (h : v.digits = v'.digits) :
    v = v' := card_eq hv hv' (uid_eq_of_digits h)

theorem response_inj (h : v.response = v'.response) : v.uid = v'.uid := by
  have hdrop := congrArg (List.drop 2) h
  exact hdrop

/-! ## right answers -/

/-- a frame that one card answers is heard -/
theorem Heard.clear {f : List Byte} {invRes : Nat → Byte} {w : ω} {e : Inventoried ω}
    (h : Heard r f invRes w e) (ideal : Ideal p r σ) {a : List Byte}
    (ha : a ∈ replies p.cards (σ w) (.ofBytes f))
    (hall : ∀ b ∈ replies p.cards (σ w) (.ofBytes f), b = a) :
    e.ret = .errNone ∧ rfalNfcvCheckInvRes (e.invRes 0) e.rcvdLen = true := by
  obtain ⟨hret, hlen⟩ := ideal.clear f w a ha hall
  obtain ⟨b, hb, crc, hdata, -⟩ := ideal.answered f w (.inl hret) hlen
  obtain ⟨v, -, hreply⟩ := mem_replies.mp hb
  have hcheck : rfalNfcvCheckInvRes (e.invRes 0) e.rcvdLen = true := by
    rw [checkInvRes_iff]
    refine ⟨h.rcvdLen.trans hlen, ?_⟩
    rw [h.invRes, hdata, ← reply_response hreply]
    rfl
  rcases h.ret with hr | hr
  · exact ⟨hr.trans hret, hcheck⟩
  · rw [hr.2.2] at hcheck
    cases hcheck

/-- a frame without an answer, or with several -/
theorem Heard.ret_eq {f : List Byte} {invRes : Nat → Byte} {w : ω} {e : Inventoried ω}
    (h : Heard r f invRes w e) (hne : (r.anticollision f w).1.ret ≠ .errNone) :
    e.ret = (r.anticollision f w).1.ret := h.ret.resolve_right fun hr => hne hr.1

/-- **A slot is taken for what it is.** -/
theorem right_answer (ideal : Ideal p r σ) (h : During S s m) (hin : InSlot σ m s)
    (hnow : S.now = q :: rest) (hquiet : ∀ v, σ s.world v = .quiet ↔ ¬ st v ≠ .quiet) :
    Search.Right (words p st) q (s.answer r) := by
  have hheard := exchange_heard r s
  have hreplies : ∀ a, a ∈ replies p.cards (σ s.world) (.ofBytes s.request) ↔
      ∃ v ∈ p.cards, st v ≠ .quiet ∧ q <+: v.digits ∧ v.response = a := by
    intro a
    rw [mem_replies]
    refine exists_congr fun v => and_congr_right fun _ => ?_
    rw [h.reply_iff hin hnow, ne_eq, hquiet, not_not]
  by_cases hnil : replies p.cards (σ s.world) (.ofBytes s.request) = []
  · have hret := ideal.silent _ _ hnil
    have hans : s.answer r = .silent := by
      unfold Resolution.answer Inventoried.answer
      rw [if_pos ((hheard.ret_eq (by rw [hret]; exact ReturnCode.noConfusion)).trans hret)]
    rw [hans]
    intro w hw hq
    obtain ⟨v, hv, ha, rfl⟩ := mem_words.mp hw
    have hmem := (hreplies v.response).mpr ⟨v, hv, ha, hq, rfl⟩
    rw [hnil] at hmem
    exact absurd hmem List.not_mem_nil
  · obtain ⟨a, ha⟩ := List.exists_mem_of_ne_nil _ hnil
    by_cases hall : ∀ b ∈ replies p.cards (σ s.world) (.ofBytes s.request), b = a
    · obtain ⟨hret, hcheck⟩ := hheard.clear ideal ha hall
      obtain ⟨w, hw⟩ : ∃ w, s.answer r = .word w := by
        unfold Resolution.answer Inventoried.answer
        rw [hret, if_neg ReturnCode.noConfusion, if_pos (.inl rfl), if_pos hcheck]
        exact ⟨_, rfl⟩
      obtain ⟨v, hv, hq, hp, hd, -⟩ := h.listed ideal.toAir hin hnow hw
      rw [hw, ← hd]
      refine ⟨mem_words.mpr ⟨v, hv, fun hn => hq ((hquiet v).mpr (not_not.mpr hn)), rfl⟩, hp, ?_⟩
      rintro ⟨x, hx, y, hy, hxy, hqx, hqy⟩
      obtain ⟨u, hu, hua, rfl⟩ := mem_words.mp hx
      obtain ⟨u', hu', hua', rfl⟩ := mem_words.mp hy
      have hua := hall _ ((hreplies _).mpr ⟨u, hu, hua, hqx, rfl⟩)
      have hua' := hall _ ((hreplies _).mpr ⟨u', hu', hua', hqy, rfl⟩)
      rw [card_eq hu hu' (response_inj (hua.trans hua'.symm))] at hxy
      exact hxy rfl
    · push Not at hall
      obtain ⟨b, hb, hba⟩ := hall
      obtain ⟨h1, h2, h3⟩ := ideal.collides _ _ _ _ hb ha hba
      have hret := hheard.ret_eq h2
      have hans : s.answer r = .crowd := by
        unfold Resolution.answer Inventoried.answer
        rw [hret, if_neg h1, if_neg (not_or.mpr ⟨h2, h3⟩)]
      rw [hans]
      obtain ⟨u, hu, hua, hqu, rfl⟩ := (hreplies b).mp hb
      obtain ⟨u', hu', hua', hqu', rfl⟩ := (hreplies a).mp ha
      refine ⟨_, mem_words.mpr ⟨u, hu, hua, rfl⟩, _, mem_words.mpr ⟨u', hu', hua', rfl⟩, ?_, hqu,
        hqu'⟩
      intro hd
      rw [card_eq_of_digits hu hu' hd] at hba
      exact hba rfl

theorem honest_kept (ideal : Ideal p r σ) (limit : Nat) (st : Vicc → State) :
    Kept r limit
      (fun S s => Field p σ (fun v => st v ≠ .quiet) S s ∧ S.Honest maxCollSupported (words p st))
      fun S m s => (Field p σ (fun v => st v ≠ .quiet) S s ∧ InSlot σ m s) ∧
        S.Honest maxCollSupported (words p st) where
  opens := fun S s m rest hb hB hlater =>
    ⟨(field_kept ideal.toAir limit _).opens S s m rest hb hB.1 hlater,
      hB.2.next hb.tree (words_length p st) (fun _ _ d _ => List.mem_finRange d) (by decide) hb.now
        hlater⟩
  closes := fun S s m i hk => ⟨(field_kept ideal.toAir limit _).closes S s m i hk.1, hk.2⟩
  slot := fun S s m q rest hd hk hnow hb =>
    ⟨(field_kept ideal.toAir limit _).slot S s m q rest hd hk.1 hnow hb,
      hk.2.ask hd.tree hnow (right_answer ideal hd hk.1.2 hnow hk.1.1.quiet)⟩

/-! ## what is found -/

/-- the state behind the loops -/
structure Resolved (p : Population) (st : Vicc → State) (limit : Nat) (S : Search (Fin 16))
    (t : Resolution ω) (found : List Vicc) : Prop where
  sim : Sim S t
  honest : S.Honest maxCollSupported (words p st)
  listing : Listing p (fun v => st v ≠ .quiet) t.nfcvDevList found
  found : S.found = found.map Vicc.digits
  bounded : Bounded limit t
  ended : t.returned = false → S.now = [] ∧ S.later = []

theorem Resolved.devCnt {found : List Vicc} (h : Resolved p st limit S s found) :
    s.devCnt = found.length := by
  rw [h.sim.devCnt, h.found, List.length_map]

theorem resolve_ideal (ideal : Ideal p r σ) (hs : Started s)
    (hquiet : ∀ v, σ s.world v = .quiet ↔ ¬ st v ≠ .quiet) (hlimit : 0 < limit) {n : Nat}
    (hn : maxCollSupported ≤ n) :
    ∃ S t found, s.resolve r limit n = some (.errNone, t) ∧ Resolved p st limit S t found := by
  obtain ⟨S, t, ht, hsim, ⟨hf, hhonest⟩, hb, hend⟩ := resolve_rule (honest_kept ideal limit st)
    (between_start hs.colFound hs.colIt hs.colCnt hs.devCnt)
    ⟨Started.field p hquiet, Search.start_honest _ _⟩ hs.returned
    (by rw [hs.devCnt]; exact hlimit) hs.colIt hn
  obtain ⟨found, hl, hfound⟩ := hf.found
  exact ⟨S, t, found, ht, hsim, hhonest, hl, hfound, hb, hend⟩

/-- all cards are among those listed -/
theorem Listing.all_iff {list : Nat → ListenDevice} {found : List Vicc}
    (h : Listing p (fun v => st v ≠ .quiet) list found) :
    found.length ≤ (awakeCards p st).length ∧
      ((awakeCards p st).length ≤ found.length ↔ ∀ v ∈ awakeCards p st, v ∈ found) := by
  have hsub : found ⊆ awakeCards p st := fun v hv => mem_awakeCards.mpr (h.mem v hv)
  have hperm := h.nodup.subperm hsub
  refine ⟨hperm.length_le, fun hle v hv => ?_, fun hall => ?_⟩
  · exact (hperm.perm_of_length_le hle).mem_iff.mpr hv
  · exact ((awakeCards_nodup p st).subperm hall).length_le

theorem Resolved.all_iff {found : List Vicc} (h : Resolved p st limit S s found) :
    (awakeCards p st).length ≤ found.length ↔ ∀ w ∈ words p st, w ∈ S.found := by
  rw [h.listing.all_iff.2, h.found]
  constructor
  · intro hall w hw
    obtain ⟨v, hv, rfl⟩ := List.mem_map.mp hw
    exact List.mem_map_of_mem (hall v hv)
  · intro hall v hv
    obtain ⟨v', hv', heq⟩ := List.mem_map.mp (hall _ (List.mem_map_of_mem hv))
    rwa [← card_eq_of_digits (h.listing.mem v' hv').1 (mem_awakeCards.mp hv).1 heq]

/-- the container decides whether all cards are found -/
theorem Resolved.count {found : List Vicc} (h : Resolved p st limit S s found) :
    ((crowds 16 (words p st)).length ≤ maxCollSupported →
        found.length = min limit (awakeCards p st).length) ∧
      (maxCollSupported < (crowds 16 (words p st)).length →
        found.length < (awakeCards p st).length) := by
  have hle := h.listing.all_iff.1
  have hb := h.bounded
  rw [Bounded, h.devCnt] at hb
  constructor
  · intro hroom
    split_ifs at hb with hret
    · rw [← hb]
      exact (Nat.min_eq_left hle).symm
    · obtain ⟨hnow, hlater⟩ := h.ended (eq_false_of_ne_true hret)
      have hall := h.all_iff.mpr
        (h.honest.complete h.sim.tree (words_length p st) hnow hlater hroom)
      rw [Nat.min_eq_right (by omega)]
      exact Nat.le_antisymm hle hall
  · intro hcrowd
    by_contra hge
    have := h.honest.length_le h.sim.tree (words_length p st) (h.all_iff.mp (Nat.not_lt.mp hge))
    omega

/-- one card does not crowd anything -/
theorem crowds_eq_nil {w : List (List (Fin 16))} (h : w.length ≤ 1) : crowds 16 w = [] := by
  apply List.eq_nil_iff_forall_not_mem.mpr
  intro q hq
  obtain ⟨x, hx, y, hy, hxy, -⟩ := of_decide_eq_true (List.mem_filter.mp hq).2
  cases w with
  | nil => cases hx
  | cons z l =>
    rw [List.length_cons] at h
    rw [List.eq_nil_of_length_eq_zero (show l.length = 0 by omega), List.mem_singleton] at hx hy
    exact hxy (hx.trans hy.symm)

/-- the answer to the request with one slot tells how many cards there are -/
theorem present_count (ideal : Ideal p r σ) (limit : Nat) (s : Resolution ω) :
    ((s.present r limit).ret = errTimeout ∨ (s.present r limit).ret = errProto →
        awakeCards p (σ s.world) = []) ∧
      ((s.present r limit).ret = .errNone → (awakeCards p (σ s.world)).length = 1) := by
  have hheard := present_heard r limit s
  have hreplies : ∀ a, a ∈ replies p.cards (σ s.world) (.ofBytes (inventoryReq .one 0 fun _ => 0)) ↔
      ∃ v ∈ awakeCards p (σ s.world), v.response = a := by
    intro a
    rw [mem_replies, inventoryReq_one]
    refine exists_congr fun v => ?_
    rw [one_reply_iff, mem_awakeCards, and_assoc]
  by_cases hnil : awakeCards p (σ s.world) = []
  · refine ⟨fun _ => hnil, fun hret => ?_⟩
    have hsilent := ideal.silent (inventoryReq .one 0 fun _ => 0) s.world (by
      apply List.eq_nil_iff_forall_not_mem.mpr
      intro a ha
      obtain ⟨v, hv, -⟩ := (hreplies a).mp ha
      rw [hnil] at hv
      exact absurd hv List.not_mem_nil)
    rw [hheard.ret_eq (by rw [hsilent]; exact ReturnCode.noConfusion), hsilent] at hret
    cases hret
  · obtain ⟨v, hv⟩ := List.exists_mem_of_ne_nil _ hnil
    by_cases hall : ∀ u ∈ awakeCards p (σ s.world), u = v
    · have hret := (hheard.clear ideal ((hreplies _).mpr ⟨v, hv, rfl⟩) fun b hb => by
        obtain ⟨u, hu, rfl⟩ := (hreplies b).mp hb
        rw [hall u hu]).1
      refine ⟨fun h => ?_, fun _ => ?_⟩
      · rw [hret] at h
        rcases h with h | h <;> cases h
      · rw [List.eq_replicate_of_mem hall]
        have hnodup := awakeCards_nodup p (σ s.world)
        rw [List.eq_replicate_of_mem hall, List.nodup_replicate] at hnodup
        rw [List.length_replicate]
        exact Nat.le_antisymm hnodup (List.length_pos_of_mem hv)
    · push Not at hall
      obtain ⟨u, hu, huv⟩ := hall
      obtain ⟨h1, h2, h3⟩ := ideal.collides _ _ _ _ ((hreplies _).mpr ⟨u, hu, rfl⟩)
        ((hreplies _).mpr ⟨v, hv, rfl⟩) fun h => huv
          (card_eq (mem_awakeCards.mp hu).1 (mem_awakeCards.mp hv).1 (response_inj h))
      have hret := hheard.ret_eq h2
      rw [hret]
      exact ⟨fun h => (h.elim h1 h3).elim, fun h => absurd h h2⟩

/-- the presence check is silent in an empty field only -/
theorem checkPresence_timeout_iff (ideal : Ideal p r σ) (invRes : Nat → Byte) (w : ω) :
    (rfalNfcvPollerCheckPresence r invRes w).1 = errTimeout ↔ awakeCards p (σ w) = [] := by
  have hheard := inventory_one_heard r invRes w
  unfold rfalNfcvPollerCheckPresence
  dsimp only
  generalize rfalNfcvPollerInventory r .one 0 none invRes w = e at hheard
  constructor
  · intro h
    have hret : e.ret = errTimeout := by
      split_ifs at h with hmem
      exact h
    by_contra hne
    obtain ⟨v, hv⟩ := List.exists_mem_of_ne_nil _ hne
    have hv' := mem_awakeCards.mp hv
    have hreply : v.response ∈ replies p.cards (σ w) (.ofBytes (inventoryReq .one 0 fun _ => 0)) :=
      mem_replies.mpr ⟨v, hv'.1, one_reply_iff.mpr ⟨hv'.2, rfl⟩⟩
    by_cases hall : ∀ b ∈ replies p.cards (σ w) (.ofBytes (inventoryReq .one 0 fun _ => 0)),
        b = v.response
    · rw [(hheard.clear ideal hreply hall).1] at hret
      cases hret
    · push Not at hall
      obtain ⟨b, hb, hbv⟩ := hall
      obtain ⟨h1, h2, -⟩ := ideal.collides _ _ _ _ hb hreply hbv
      exact h1 ((hheard.ret_eq h2).symm.trans hret)
  · intro hnil
    have hsilent := ideal.silent (inventoryReq .one 0 fun _ => 0) w (by
      apply List.eq_nil_iff_forall_not_mem.mpr
      intro a ha
      obtain ⟨v, hv, hreply⟩ := mem_replies.mp ha
      rw [inventoryReq_one, one_reply_iff] at hreply
      have hmem := mem_awakeCards.mpr ⟨hv, hreply.1⟩
      rw [hnil] at hmem
      exact absurd hmem List.not_mem_nil)
    have hret := (hheard.ret_eq (by rw [hsilent]; exact ReturnCode.noConfusion)).trans hsilent
    rw [hret, if_neg (by decide)]

/-- the container decides how many cards are counted -/
theorem resolution_counts (ideal : Ideal p r σ) (compMode : ComplianceMode) (s : Resolution ω)
    (hlimit : 0 < limit) {n : Nat} (hn : maxCollSupported ≤ n) :
    ∃ t, rfalNfcvPollerCollisionResolution r compMode limit n s = some (.errNone, t) ∧
      ((crowds 16 (words p (σ s.world))).length ≤ maxCollSupported →
        t.devCnt = min limit (awakeCards p (σ s.world)).length) ∧
      (maxCollSupported < (crowds 16 (words p (σ s.world))).length →
        t.devCnt < (awakeCards p (σ s.world)).length) := by
  have hfew : (awakeCards p (σ s.world)).length ≤ 1 →
      (crowds 16 (words p (σ s.world))).length = 0 := by
    intro h
    rw [crowds_eq_nil (by rw [words, List.length_map]; exact h)]
    rfl
  have hcount := present_count ideal limit s
  rcases resolution_cases r compMode s hlimit n with
    ⟨-, hret, t, ht, hdev, -, hw⟩ | ⟨-, hret, t, ht, hdev, -, hlist, hw⟩ | ⟨t, ht, hs, hw⟩
  · have hnil := hcount.1 hret
    refine ⟨t, ht, fun _ => ?_, fun hc => ?_⟩
    · rw [hdev, hnil]
      exact (Nat.min_zero limit).symm
    · rw [hfew (by rw [hnil]; exact Nat.zero_le 1)] at hc
      exact absurd hc (Nat.not_lt_zero _)
  · have hone := hcount.2 hret
    refine ⟨t, ht, fun _ => ?_, fun hc => ?_⟩
    · rw [hdev, hone]
      exact (Nat.min_eq_right hlimit).symm
    · rw [hfew (Nat.le_of_eq hone)] at hc
      exact absurd hc (Nat.not_lt_zero _)
  · obtain ⟨S, u, found, hu, hres⟩ := resolve_ideal ideal hs
      (started_quiet ideal.toAir hw) hlimit hn
    refine ⟨u, ht.trans hu, ?_⟩
    rw [hres.devCnt]
    exact hres.count

/-- **The inventory.**  When no more prefixes are shared than there are entries for collisions, all
cards are found or as many as asked for; when more are shared, some card is missed. -/
theorem inventory_finds (ideal : Ideal p r σ) (compMode : ComplianceMode) (s : Resolution ω)
    (hlimit : 0 < limit) {n : Nat} (hn : maxCollSupported ≤ n) :
    ∃ t found, rfalNfcvPollerCollisionResolution r compMode limit n s = some (.errNone, t) ∧
      t.devCnt = found.length ∧
      Listing p (fun v => σ s.world v ≠ .quiet) t.nfcvDevList found ∧
      ((crowds 16 (words p (σ s.world))).length ≤ maxCollSupported →
        found.length = min limit (awakeCards p (σ s.world)).length) ∧
      (maxCollSupported < (crowds 16 (words p (σ s.world))).length →
        found.length < (awakeCards p (σ s.world)).length) := by
  obtain ⟨t, ht, hcount⟩ := resolution_counts ideal compMode s hlimit hn
  obtain ⟨t', found, ht', h⟩ := resolution_outcome ideal.toAir compMode s hlimit hn
  rw [show t = t' from congrArg Prod.snd (Option.some.inj (ht.symm.trans ht')), h.devCnt] at hcount
  exact ⟨t', found, ht', h.devCnt, h.listing, hcount⟩

/-- up to three cards share few enough prefixes -/
theorem crowds_of_few (h : (awakeCards p st).length ≤ 3) :
    (crowds 16 (words p st)).length ≤ maxCollSupported :=
  crowds_length_le (words_length p st) (by rwa [words, List.length_map])

/-! ## when the container is overrun -/

/-- two cards that differ in their last digit only -/
def Twins (p : Population) (st : Vicc → State) : Prop :=
  ∃ v ∈ awakeCards p st, ∃ v' ∈ awakeCards p st, v ≠ v' ∧ v.digits.take 15 = v'.digits.take 15

theorem Resolved.overrun_iff {found : List Vicc} (h : Resolved p st limit S s found)
    (hroom : (awakeCards p st).length ≤ limit)
    (hcrowds : (crowds 16 (words p st)).length ≤ maxCollSupported) :
    Overrun s ↔ Twins p st := by
  constructor
  · rintro ⟨hcnt, hlen⟩
    have hlt : 15 < S.seen.length := by
      rw [← h.sim.colCnt, hcnt]
      decide
    have hget : S.seen[15]? = some S.seen[15] := List.getElem?_eq_getElem hlt
    have hl := (h.sim.masks 15 _ hget).len
    have h15 : S.seen[15].length = 15 := by omega
    rcases h.honest.crowded _ (List.mem_of_getElem? hget) with hnil | hc
    · rw [hnil] at h15
      cases h15
    · obtain ⟨w, hw, w', hw', hne, hq, hq'⟩ := hc
      obtain ⟨v, hv, rfl⟩ := List.mem_map.mp hw
      obtain ⟨v', hv', rfl⟩ := List.mem_map.mp hw'
      refine ⟨v, hv, v', hv', fun heq => hne (congrArg Vicc.digits heq), ?_⟩
      rw [← h15, ← List.prefix_iff_eq_take.mp hq, ← List.prefix_iff_eq_take.mp hq']
  · rintro ⟨v, hv, v', hv', hne, htake⟩
    have hall := h.all_iff.mp (by rw [h.count.1 hcrowds, Nat.min_eq_right hroom])
    have hmem : ∀ u ∈ awakeCards p st, u.digits ∈ words p st := fun u hu =>
      List.mem_map_of_mem hu
    have hc : Crowded (words p st) (v.digits.take 15) :=
      ⟨_, hmem v hv, _, hmem v' hv', fun hd => hne
        (card_eq_of_digits (mem_awakeCards.mp hv).1 (mem_awakeCards.mp hv').1 hd),
        List.take_prefix _ _, by rw [htake]; exact List.take_prefix _ _⟩
    have hlen : (v.digits.take 15).length = 15 := by
      rw [List.length_take, digits_length]
      rfl
    have hseen := h.honest.mem_seen h.sim.tree hc (List.take_prefix _ _) (hall _ (hmem v hv))
    obtain ⟨j, hj⟩ := List.mem_iff_getElem?.mp hseen
    have hdepth := h.sim.tree.depth j _ hj
    have hlt := (List.getElem?_eq_some_iff.mp hj).1
    have hle := h.sim.tree.seen_le
    unfold maxCollSupported at hle
    have h15 : j = 15 := by omega
    rw [h15] at hj
    have hmask := (h.sim.masks 15 _ hj).len
    refine ⟨?_, by rw [hmask, hlen]⟩
    have := h.sim.colCnt
    unfold maxCollSupported
    omega

/-- **A byte behind the container is written exactly when two cards differ in their last digit
only**, in a field whose cards are all found. -/
theorem overrun_iff_twins (ideal : Ideal p r σ) (compMode : ComplianceMode) (s : Resolution ω)
    (hlimit : 0 < limit) {n : Nat} (hn : maxCollSupported ≤ n)
    (hroom : (awakeCards p (σ s.world)).length ≤ limit)
    (hcrowds : (crowds 16 (words p (σ s.world))).length ≤ maxCollSupported) :
    ∃ t, rfalNfcvPollerCollisionResolution r compMode limit n s = some (.errNone, t) ∧
      (Overrun t ↔ Twins p (σ s.world)) := by
  have hcount := present_count ideal limit s
  have hfew : ∀ t : Resolution ω, t.colCnt = 0 → (awakeCards p (σ s.world)).length ≤ 1 →
      (Overrun t ↔ Twins p (σ s.world)) := by
    intro t ht hle
    constructor
    · intro ho
      rw [Overrun, ht] at ho
      cases ho.1
    · rintro ⟨v, hv, v', hv', hne, -⟩
      have hsub : [v, v'] ⊆ awakeCards p (σ s.world) := by
        intro x hx
        rcases List.mem_cons.mp hx with rfl | hx
        · exact hv
        · rwa [List.mem_singleton.mp hx]
      have hnodup : [v, v'].Nodup := List.nodup_cons.mpr
        ⟨fun h => hne (List.mem_singleton.mp h), List.nodup_singleton v'⟩
      have hlen := (hnodup.subperm hsub).length_le
      exact absurd (show 2 ≤ 1 from Nat.le_trans hlen hle) (by decide)
  rcases resolution_cases r compMode s hlimit n with
    ⟨-, hret, t, ht, -, hcol, -⟩ | ⟨-, hret, t, ht, -, hcol, -⟩ | ⟨t, ht, hs, hw⟩
  · exact ⟨t, ht, hfew t hcol (by rw [hcount.1 hret]; exact Nat.zero_le 1)⟩
  · exact ⟨t, ht, hfew t hcol (Nat.le_of_eq (hcount.2 hret))⟩
  · obtain ⟨S, u, found, hu, hres⟩ := resolve_ideal ideal hs
      (started_quiet ideal.toAir hw) hlimit hn
    exact ⟨u, ht.trans hu, hres.overrun_iff hroom hcrowds⟩

end

/-! ## an ideal field -/

/-- equal answers are heard as one; the CRC is not looked at -/
def superpose (rs : List (List Byte)) : Reply :=
  match rs with
  | [] => ⟨errTimeout, [], 0⟩
  | a :: rest => if ∀ b ∈ rest, b = a then ⟨.errNone, a ++ [0, 0], 96⟩ else ⟨errRfCollision, [], 16⟩

def idealRadio (p : Population) : Radio (Vicc → State) where
  anticollision f st := (superpose (replies p.cards st (.ofBytes f)), hear st (.ofBytes f))
  transceive f st := (errTimeout, hear st (.ofBytes f))

theorem superpose_clear {rs : List (List Byte)} {a : List Byte} (ha : a ∈ rs)
    (hall : ∀ b ∈ rs, b = a) : superpose rs = ⟨.errNone, a ++ [0, 0], 96⟩ := by
  cases rs with
  | nil => cases ha
  | cons b rest =>
    have hb := hall b List.mem_cons_self
    unfold superpose
    dsimp only
    rw [if_pos fun x hx => (hall x (List.mem_cons_of_mem _ hx)).trans hb.symm, hb]

theorem superpose_collides {rs : List (List Byte)} {a b : List Byte} (ha : a ∈ rs) (hb : b ∈ rs)
    (hne : a ≠ b) : superpose rs = ⟨errRfCollision, [], 16⟩ := by
  cases rs with
  | nil => cases ha
  | cons c rest =>
    unfold superpose
    dsimp only
    rw [if_neg fun hall => ?_]
    have heq : ∀ x ∈ c :: rest, x = c := by
      intro x hx
      rcases List.mem_cons.mp hx with rfl | hx
      · rfl
      · exact hall x hx
    exact hne ((heq a ha).trans (heq b hb).symm)

theorem idealRadio_ideal (p : Population) : Ideal p (idealRadio p) id where
  anticollision := fun _ _ => rfl
  transceive := fun _ _ => rfl
  answered := fun f st hret hlen => by
    change (superpose (replies p.cards st (.ofBytes f))).rcvdLen = 96 at hlen
    show ∃ a ∈ replies p.cards st (.ofBytes f), ∃ crc,
      (superpose (replies p.cards st (.ofBytes f))).data = a ++ crc ∧ crc.length = crcLen
    by_cases hnil : replies p.cards st (.ofBytes f) = []
    · rw [hnil] at hlen
      cases hlen
    · obtain ⟨a, ha⟩ := List.exists_mem_of_ne_nil _ hnil
      by_cases hall : ∀ b ∈ replies p.cards st (.ofBytes f), b = a
      · rw [superpose_clear ha hall]
        exact ⟨a, ha, [0, 0], rfl, rfl⟩
      · push Not at hall
        obtain ⟨b, hb, hba⟩ := hall
        rw [superpose_collides hb ha hba] at hlen
        cases hlen
  silent := fun f st h => by
    show (superpose (replies p.cards st (.ofBytes f))).ret = _
    rw [show replies p.cards st (.ofBytes f) = [] from h]
    rfl
  clear := fun f st a ha hall => by
    change a ∈ replies p.cards st (.ofBytes f) at ha
    show (superpose (replies p.cards st (.ofBytes f))).ret = _ ∧
      (superpose (replies p.cards st (.ofBytes f))).rcvdLen = _
    rw [superpose_clear ha hall]
    exact ⟨rfl, rfl⟩
  collides := fun f st a b ha hb hne => by
    change a ∈ replies p.cards st (.ofBytes f) at ha
    show (superpose (replies p.cards st (.ofBytes f))).ret ≠ _ ∧
      (superpose (replies p.cards st (.ofBytes f))).ret ≠ _ ∧
        (superpose (replies p.cards st (.ofBytes f))).ret ≠ _
    rw [superpose_collides ha hb hne]
    exact ⟨by decide, ReturnCode.noConfusion, by decide⟩

/-! ## two cards -/

def cardA : Vicc := ⟨[0x11, 0x22, 0x33, 0x44, 0x55, 0x66, 0x02, 0xe0], 0x00, rfl⟩

/-- its first two digits are those of `cardA` -/
def cardB : Vicc := ⟨[0x11, 0x23, 0x33, 0x44, 0x55, 0x66, 0x02, 0xe0], 0x00, rfl⟩

def pair : Population where
  cards := [cardA, cardB]
  distinct := by decide

/-- the field has just been switched on -/
def fieldOn : Resolution (Vicc → State) where
  colFound := fun _ => 0xff
  nfcvDevList := fun _ => .zero
  devCnt := 0
  colIt := 0
  colCnt := 0
  slotNum := 0
  returned := false
  world := fun _ => .ready none

theorem inventory_lists_pair :
    ∃ t found, rfalNfcvPollerCollisionResolution (idealRadio pair) .nfc 1 16 fieldOn =
        some (.errNone, t) ∧
      t.devCnt = found.length ∧ found.length ≤ 1 ∧
      Listing pair (fun v => fieldOn.world v ≠ .quiet) t.nfcvDevList found ∧
      ∀ v, t.world v = .quiet ↔ fieldOn.world v = .quiet :=
  inventory_lists (idealRadio_ideal pair).toAir .nfc fieldOn Nat.one_pos (Nat.le_refl 16)

theorem inventory_finds_pair :
    ∃ t found, rfalNfcvPollerCollisionResolution (idealRadio pair) .nfc 4 16 fieldOn =
        some (.errNone, t) ∧
      t.devCnt = found.length ∧
      Listing pair (fun v => fieldOn.world v ≠ .quiet) t.nfcvDevList found ∧ found.length = 2 := by
  obtain ⟨t, found, ht, hcount, hlist, hfew, -⟩ :=
    inventory_finds (idealRadio_ideal pair) .nfc fieldOn (show 0 < 4 by decide) (Nat.le_refl 16)
  exact ⟨t, found, ht, hcount, hlist, hfew (crowds_of_few (by decide))⟩

theorem overrun_iff_twins_pair :
    ∃ t, rfalNfcvPollerCollisionResolution (idealRadio pair) .nfc 4 16 fieldOn =
        some (.errNone, t) ∧ ¬ Overrun t := by
  obtain ⟨t, ht, hiff⟩ := overrun_iff_twins (idealRadio_ideal pair) .nfc fieldOn
    (show 0 < 4 by decide) (Nat.le_refl 16) (by decide) (crowds_of_few (by decide))
  refine ⟨t, ht, fun ho => ?_⟩
  obtain ⟨v, hv, v', hv', hne, htake⟩ := hiff.mp ho
  have hall : ∀ v ∈ pair.cards, ∀ v' ∈ pair.cards,
      v.digits.take 15 = v'.digits.take 15 → v = v' := by
    decide
  exact hne (hall v (mem_awakeCards.mp hv).1 v' (mem_awakeCards.mp hv').1 htake)

end Nfcv
end Hydra
