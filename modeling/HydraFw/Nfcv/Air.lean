import HydraFw.Nfcv.Memory

/-!
# The field in front of the NFC-V poller

What the poller relies on when cards of ISO 15693 are in the field: every card hears every frame,
and a frame as long as an INVENTORY_RES that has passed its CRC was sent by a card.  What else is
reported is left open.

* `Population`, `Air`   the cards, and the promises of the radio;
* `exchange_cases`      what a slot does to the field;
* `Listing`             the devices listed are different cards of the field that were awake;
* `field_kept`          what requests and slots keep;
* `inventory_lists`     a run.
-/

namespace Hydra
namespace Nfcv
open BitBuf hiding Byte
open Vicinity hiding Byte
open Rams Common Trie
open Nfca (ComplianceMode)

structure Population where
  cards : List Vicc
  distinct : (cards.map Vicc.uid).Nodup

structure Air {ω : Type*} (p : Population) (r : Radio ω) (σ : ω → Vicc → State) : Prop where
  anticollision : ∀ f w, σ (r.anticollision f w).2 = hear (σ w) (.ofBytes f)
  transceive : ∀ f w, σ (r.transceive f w).2 = hear (σ w) (.ofBytes f)
  answered : ∀ f w,
    (r.anticollision f w).1.ret = .errNone ∨ (r.anticollision f w).1.ret = errProto →
    (r.anticollision f w).1.rcvdLen = 96 →
      ∃ a ∈ replies p.cards (σ w) (.ofBytes f), ∃ crc,
        (r.anticollision f w).1.data = a ++ crc ∧ crc.length = crcLen

/-- an entry of the device list is about a card -/
def Describes (d : ListenDevice) (v : Vicc) : Prop := slice d.invRes 0 invResLen = v.response

structure Listing (p : Population) (awake : Vicc → Prop) (list : Nat → ListenDevice)
    (found : List Vicc) : Prop where
  nodup : found.Nodup
  mem : ∀ v ∈ found, v ∈ p.cards ∧ awake v
  describes : ∀ i v, found[i]? = some v → Describes (list i) v

section
variable {ω : Type*} {p : Population} {r : Radio ω} {σ : ω → Vicc → State}

/-! ## one exchange -/

/-- the UID of a response -/
theorem Describes.uid {d : ListenDevice} {v : Vicc} (h : Describes d v) : d.uid = v.uid := by
  have hdrop := congrArg (List.drop 2) h
  change _ = v.uid at hdrop
  rw [← hdrop]
  rfl

theorem Describes.digits {d : ListenDevice} {v : Vicc} (h : Describes d v) :
    d.digits = v.digits := by
  rw [ListenDevice.digits, h.uid]
  rfl

theorem response_length (v : Vicc) : v.response.length = invResLen := by
  rw [Vicc.response, List.length_append, v.sized]
  rfl

/-- the status of a request that had no valid answer is changed -/
theorem transceive_or (e : Inventoried ω) (t : Inventoried ω)
    (h : e = if t.ret = .errNone ∧ rfalNfcvCheckInvRes (t.invRes 0) t.rcvdLen = false then
      { t with ret := errProto } else t) :
    e.invRes = t.invRes ∧ e.rcvdLen = t.rcvdLen ∧ e.world = t.world ∧
      (e.ret = t.ret ∨ t.ret = .errNone ∧ e.ret = errProto ∧
        rfalNfcvCheckInvRes (t.invRes 0) t.rcvdLen = false) := by
  split_ifs at h with hc
  · rw [h]
    exact ⟨rfl, rfl, rfl, .inr ⟨hc.1, rfl, hc.2⟩⟩
  · rw [h]
    exact ⟨rfl, rfl, rfl, .inl rfl⟩

/-- what is behind an exchange of a frame `f` -/
structure Heard (r : Radio ω) (f : List Byte) (invRes : Nat → Byte) (w : ω) (e : Inventoried ω) :
    Prop where
  invRes : e.invRes = overwrite invRes 0 (r.anticollision f w).1.data
  rcvdLen : e.rcvdLen = (r.anticollision f w).1.rcvdLen
  world : e.world = (r.anticollision f w).2
  ret : e.ret = (r.anticollision f w).1.ret ∨ (r.anticollision f w).1.ret = .errNone ∧
    e.ret = errProto ∧ rfalNfcvCheckInvRes (e.invRes 0) e.rcvdLen = false

theorem inventory_heard (r : Radio ω) (nSlots : NumSlots) (len : Nat) (val : Nat → Byte)
    (invRes : Nat → Byte) (w : ω) :
    Heard r (inventoryReq nSlots len val) invRes w
      (rfalNfcvPollerInventory r nSlots len (some val) invRes w) := by
  obtain ⟨hres, hlen, hw, hret⟩ := transceive_or _ _
    (show rfalNfcvPollerInventory r nSlots len (some val) invRes w = _ by
      unfold rfalNfcvPollerInventory
      exact if_neg fun h => Bool.false_ne_true h.1)
  refine ⟨hres, hlen, hw, hret.imp id fun h => ⟨h.1, h.2.1, ?_⟩⟩
  rw [hres, hlen]
  exact h.2.2

/-- the request for all cards in one slot -/
theorem inventory_one_heard (r : Radio ω) (invRes : Nat → Byte) (w : ω) :
    Heard r (inventoryReq .one 0 fun _ => 0) invRes w
      (rfalNfcvPollerInventory r .one 0 none invRes w) := by
  obtain ⟨hres, hlen, hw, hret⟩ := transceive_or _ _
    (show rfalNfcvPollerInventory r .one 0 none invRes w = _ by
      unfold rfalNfcvPollerInventory
      exact if_neg fun h => h.2 rfl)
  refine ⟨hres, hlen, hw, hret.imp id fun h => ⟨h.1, h.2.1, ?_⟩⟩
  rw [hres, hlen]
  exact h.2.2

theorem eof_heard (r : Radio ω) (invRes : Nat → Byte) (w : ω) :
    Heard r [] invRes w (transceiveAnticollision r [] invRes w) := ⟨rfl, rfl, rfl, .inl rfl⟩

theorem checkInvRes_iff {f : Byte} {l : Nat} :
    rfalNfcvCheckInvRes f l = true ↔ l = 96 ∧ f = 0x00 := decide_eq_true_iff

/-- an INVENTORY_RES is that of a card -/
theorem Heard.answered {f : List Byte} {invRes : Nat → Byte} {w : ω} {e : Inventoried ω}
    (h : Heard r f invRes w e) (air : Air p r σ) (hret : e.ret = .errNone ∨ e.ret = errProto)
    (hcheck : rfalNfcvCheckInvRes (e.invRes 0) e.rcvdLen = true) :
    ∃ v ∈ p.cards, v.reply (σ w v) (.ofBytes f) = some v.response ∧
      slice e.invRes 0 invResLen = v.response := by
  have hret' : (r.anticollision f w).1.ret = .errNone ∨ (r.anticollision f w).1.ret = errProto := by
    rcases h.ret with hr | hr
    · rwa [← hr]
    · exact .inl hr.1
  obtain ⟨a, ha, crc, hdata, -⟩ :=
    air.answered f w hret' (h.rcvdLen.symm.trans (checkInvRes_iff.mp hcheck).1)
  obtain ⟨v, hv, hreply⟩ := mem_replies.mp ha
  have hresp := reply_response hreply
  refine ⟨v, hv, by rw [hreply, hresp], ?_⟩
  rw [h.invRes, hdata, slice_overwrite_take _ _ _ (by
    rw [List.length_append, ← hresp, response_length]
    exact Nat.le_add_right _ _), hresp]
  exact List.take_left' (by rw [← hresp]; exact response_length v)

/-! ## one slot -/

/-- the frame of a slot -/
def Resolution.request (s : Resolution ω) : List Byte :=
  if s.slotNum = 0 then
    inventoryReq .sixteen (maskLen s.colFound s.colIt) (maskVal s.colFound s.colIt)
  else []

variable {S : Search (Fin 16)} {s : Resolution ω} {m q : List (Fin 16)}
  {rest : List (List (Fin 16))} {awake : Vicc → Prop} {limit : Nat}

theorem exchange_heard (r : Radio ω) (s : Resolution ω) :
    Heard r s.request s.device.invRes s.world (s.exchange r) := by
  unfold Resolution.exchange Resolution.request
  split_ifs
  · exact inventory_heard ..
  · exact eof_heard ..

theorem During.mask_le (h : During S s m) : m.length ≤ 15 := by
  have hdepth := h.tree.depth _ _ h.cur
  have hlt := h.colIt_lt
  have hle := h.toSim.colCnt_le
  omega

theorem During.command (h : During S s m) : Command.ofBytes s.request =
    if s.slotNum = 0 then .inventory false (maskBits m) else .eof := by
  unfold Resolution.request
  split_ifs
  · exact inventoryReq_mask (h.masks _ _ h.cur) h.mask_le
  · rfl

/-- the cards are in the slot before -/
def InSlot (σ : ω → Vicc → State) (m : List (Fin 16)) (s : Resolution ω) : Prop :=
  s.slotNum = 0 ∨ Asked (σ s.world) m (s.slotNum - 1)

/-- an exchange brings them to the next slot -/
theorem During.asked (h : During S s m) (hin : InSlot σ m s) :
    Asked (hear (σ s.world) (.ofBytes s.request)) m s.slotNum := by
  rw [h.command]
  split_ifs with hz
  · rw [hz]
    exact asked_inventory _ m
  · rcases hin with hin | hin
    · exact absurd hin hz
    · have hnext := hin.eof
      rwa [Nat.sub_add_cancel (Nat.pos_of_ne_zero hz)] at hnext

theorem During.asks (h : During S s m) :
    (∀ uid, Command.ofBytes s.request ≠ .stayQuiet uid) ∧ Command.ofBytes s.request ≠ .other := by
  rw [h.command]
  split_ifs
  · exact ⟨fun _ => Command.noConfusion, Command.noConfusion⟩
  · exact ⟨fun _ => Command.noConfusion, Command.noConfusion⟩

/-- who answers in a slot -/
theorem During.reply_iff (h : During S s m) (hin : InSlot σ m s) (hnow : S.now = q :: rest)
    {v : Vicc} {a : List Byte} :
    v.reply (σ s.world v) (.ofBytes s.request) = some a ↔
      σ s.world v ≠ .quiet ∧ q <+: v.digits ∧ v.response = a := by
  obtain ⟨hlt, hq, -⟩ := h.head hnow
  rw [hq]
  exact Asked.reply_iff h.asks.1 h.asks.2 (h.asked hin) (Nat.lt_succ_of_le h.mask_le) rfl

theorem heard_world (air : Air p r σ) (s : Resolution ω) :
    σ (s.exchange r).world = hear (σ s.world) (.ofBytes s.request) := by
  rw [(exchange_heard r s).world, air.anticollision]

/-- the device that is listed is a card that was asked -/
theorem During.listed (air : Air p r σ) (h : During S s m) (hin : InSlot σ m s)
    (hnow : S.now = q :: rest) {w : List (Fin 16)} (hw : s.answer r = .word w) :
    ∃ v ∈ p.cards, σ s.world v ≠ .quiet ∧ q <+: v.digits ∧ v.digits = w ∧
      Describes (s.heard r).device v := by
  have hdigits := answer_word hw
  unfold Resolution.answer Inventoried.answer at hw
  split_ifs at hw with h1 h2 h3
  obtain ⟨v, hv, hreply, hslice⟩ := (exchange_heard r s).answered air h2 h3
  obtain ⟨hq, hp, -⟩ := (h.reply_iff hin hnow).mp hreply
  have hdesc : Describes (s.heard r).device v := by
    unfold Describes
    rw [heard_device]
    exact hslice
  exact ⟨v, hv, hq, hp, hdesc.digits.symm.trans hdigits, hdesc⟩

/-! ## runs -/

/-- what requests and slots keep -/
structure Field (p : Population) (σ : ω → Vicc → State) (awake : Vicc → Prop)
    (S : Search (Fin 16)) (s : Resolution ω) : Prop where
  safe : S.Safe
  found : ∃ found, Listing p awake s.nfcvDevList found ∧ S.found = found.map Vicc.digits
  quiet : ∀ v, σ s.world v = .quiet ↔ ¬ awake v

theorem Listing.congr {list list' : Nat → ListenDevice} {found : List Vicc}
    (h : Listing p awake list found) (heq : ∀ i < found.length, list' i = list i) :
    Listing p awake list' found where
  nodup := h.nodup
  mem := h.mem
  describes := fun i v hv => by
    rw [heq i (List.getElem?_eq_some_iff.mp hv).1]
    exact h.describes i v hv

theorem Listing.snoc {list : Nat → ListenDevice} {found : List Vicc} {v : Vicc}
    (h : Listing p awake list found) (hv : v ∈ p.cards) (ha : awake v) (hnew : v ∉ found)
    (hdesc : Describes (list found.length) v) : Listing p awake list (found ++ [v]) where
  nodup := by
    apply List.Nodup.append h.nodup (List.nodup_singleton v)
    intro x hx hxv
    rw [List.mem_singleton.mp hxv] at hx
    exact hnew hx
  mem := by
    intro x hx
    rcases List.mem_append.mp hx with hx | hx
    · exact h.mem x hx
    · rw [List.mem_singleton.mp hx]
      exact ⟨hv, ha⟩
  describes := by
    intro i x hx
    rw [List.getElem?_append] at hx
    split_ifs at hx with hi
    · exact h.describes i x hx
    · have hi' := (List.getElem?_eq_some_iff.mp hx).1
      rw [List.length_singleton] at hi'
      rw [show x = v from List.mem_singleton.mp (List.mem_of_getElem? hx),
        show i = found.length by omega]
      exact hdesc

theorem field_slot (air : Air p r σ) (h : During S s m) (hf : Field p σ awake S s)
    (hin : InSlot σ m s) (hnow : S.now = q :: rest) :
    Field p σ awake (S.ask maxCollSupported q rest (s.answer r)) (s.answered r) ∧
      InSlot σ m (s.answered r) := by
  obtain ⟨-, hslot, hworld, -, hlist⟩ := answered_frame r s
  obtain ⟨found, hl, hfound⟩ := hf.found
  have hlen : s.devCnt = found.length := by rw [h.devCnt, hfound, List.length_map]
  have hheard : Listing p awake (s.answered r).nfcvDevList found := by
    rw [hlist]
    apply hl.congr
    intro i hi
    exact heard_list r s (by omega)
  refine ⟨⟨?_, ?_, ?_⟩, ?_⟩
  · apply hf.safe.ask h.tree hnow
    intro w hw
    obtain ⟨v, -, -, hq, hv, -⟩ := h.listed air hin hnow hw
    rwa [← hv]
  · cases ha : s.answer r with
    | silent => exact ⟨found, hheard, hfound⟩
    | word w =>
      obtain ⟨v, hv, hq, hp, hw, hdesc⟩ := h.listed air hin hnow ha
      have hnew : v ∉ found := by
        intro hmem
        refine hf.safe.closed w ?_ q (Search.head_mem_regions hnow) (by rwa [← hw])
        rw [hfound, ← hw]
        exact List.mem_map_of_mem hmem
      refine ⟨found ++ [v], hheard.snoc hv ?_ hnew ?_, ?_⟩
      · exact not_not.mp fun hn => hq ((hf.quiet v).mpr hn)
      · rw [hlist, ← hlen]
        exact hdesc
      · rw [List.map_append, ← hfound, List.map_singleton, hw]
        rfl
    | crowd =>
      refine ⟨found, hheard, ?_⟩
      by_cases hcap : S.seen.length < maxCollSupported
      · rw [Search.ask_crowd_lt hcap]
        exact hfound
      · rw [Search.ask_crowd_full (Nat.not_lt.mp hcap)]
        exact hfound
  · intro v
    rw [hworld, heard_world air, hear, receive_quiet_iff h.asks.1]
    exact hf.quiet v
  · right
    rw [hworld, heard_world air, hslot]
    exact h.asked hin

theorem field_kept (air : Air p r σ) (limit : Nat) (awake : Vicc → Prop) :
    Kept r limit (Field p σ awake) fun S m s => Field p σ awake S s ∧ InSlot σ m s where
  opens := fun S s m rest hb hf hlater =>
    ⟨{ hf with safe := hf.safe.next slots hb.now hlater }, .inl rfl⟩
  closes := fun S s m i hk => { hk.1 with }
  slot := fun S s m q rest hd hk hnow _ => by
    have h := field_slot air hd hk.1 hk.2 hnow
    rw [slot_def]
    split_ifs
    · exact ⟨{ h.1 with }, h.2⟩
    · exact h

/-- the answer to the request with one slot -/
def Resolution.present (r : Radio ω) (limit : Nat) (s : Resolution ω) : Inventoried ω :=
  rfalNfcvPollerInventory r .one 0 none (s.init limit).device.invRes (s.init limit).world

/-- the loops start -/
structure Started (s : Resolution ω) : Prop where
  colFound : ∀ k < 144, s.colFound k = 0
  colIt : s.colIt = 0
  colCnt : s.colCnt = 1
  devCnt : s.devCnt = 0
  returned : s.returned = false

theorem store_invRes (s : Resolution ω) (invRes : Nat → Byte) :
    ((s.store invRes).nfcvDevList s.devCnt).invRes = invRes := by
  unfold Resolution.store
  dsimp only
  rw [Function.update_self]

theorem present_heard (r : Radio ω) (limit : Nat) (s : Resolution ω) :
    Heard r (inventoryReq .one 0 fun _ => 0) (s.init limit).device.invRes s.world
      (s.present r limit) := inventory_one_heard ..

/-- one device at most, or the loops -/
theorem resolution_cases (r : Radio ω) (compMode : ComplianceMode) (s : Resolution ω)
    (hlimit : 0 < limit) (n : Nat) :
    (compMode = .nfc ∧
        ((s.present r limit).ret = errTimeout ∨ (s.present r limit).ret = errProto) ∧
        ∃ t, rfalNfcvPollerCollisionResolution r compMode limit n s = some (.errNone, t) ∧
          t.devCnt = 0 ∧ t.colCnt = 0 ∧ t.world = (s.present r limit).world) ∨
      (compMode = .nfc ∧ (s.present r limit).ret = .errNone ∧
        ∃ t, rfalNfcvPollerCollisionResolution r compMode limit n s = some (.errNone, t) ∧
          t.devCnt = 1 ∧ t.colCnt = 0 ∧
          (t.nfcvDevList 0).invRes = (s.present r limit).invRes ∧
          t.world = (s.present r limit).world) ∨
      ∃ t, rfalNfcvPollerCollisionResolution r compMode limit n s = t.resolve r limit n ∧
        Started t ∧ (t.world = s.world ∨ t.world = (s.present r limit).world) := by
  have hzero : ∀ k < 144, (s.init limit).colFound k = 0 := fun k hk => if_pos hk
  unfold rfalNfcvPollerCollisionResolution
  dsimp only
  rw [show rfalNfcvPollerInventory r .one 0 none (s.init limit).device.invRes
    (s.init limit).world = s.present r limit from rfl]
  split_ifs with h1 h2 h3 h4
  · exact .inl ⟨h1, h2, _, rfl, rfl, rfl, rfl⟩
  · exact .inr (.inl ⟨h1, h3, _, rfl, rfl, rfl, store_invRes (s.init limit) _, rfl⟩)
  · exact absurd h4 (Nat.ne_of_gt hlimit)
  · exact .inr (.inr ⟨_, rfl, ⟨hzero, rfl, rfl, rfl, rfl⟩, .inr rfl⟩)
  · exact .inr (.inr ⟨_, rfl, ⟨hzero, rfl, rfl, rfl, rfl⟩, .inl rfl⟩)

/-- the request with one slot leaves the cards awake -/
theorem present_quiet (air : Air p r σ) (limit : Nat) (s : Resolution ω) (v : Vicc) :
    σ (s.present r limit).world v = .quiet ↔ σ s.world v = .quiet := by
  rw [(present_heard r limit s).world, air.anticollision, inventoryReq_one, hear,
    receive_quiet_iff fun _ => Command.noConfusion]

/-- the cards are awake or quiet as they were -/
theorem started_quiet (air : Air p r σ) {t : Resolution ω}
    (hw : t.world = s.world ∨ t.world = (s.present r limit).world) (v : Vicc) :
    σ t.world v = .quiet ↔ ¬ σ s.world v ≠ .quiet := by
  rw [not_not]
  rcases hw with hw | hw
  · rw [hw]
  · rw [hw]
    exact present_quiet air limit s v

theorem Started.field {t : Resolution ω} (p : Population)
    (hquiet : ∀ v, σ t.world v = .quiet ↔ ¬ awake v) : Field p σ awake Search.start t where
  safe := Search.start_safe
  found := ⟨[], ⟨List.nodup_nil, fun v hv => absurd hv List.not_mem_nil, fun i v hv => by cases hv⟩,
    rfl⟩
  quiet := hquiet

/-- a device is listed that is the only one to be heard -/
theorem present_listing (air : Air p r σ) (hret : (s.present r limit).ret = .errNone)
    {list : Nat → ListenDevice} (hlist : (list 0).invRes = (s.present r limit).invRes) :
    ∃ v, Listing p (fun v => σ s.world v ≠ .quiet) list [v] := by
  have hheard := present_heard r limit s
  have hcheck : rfalNfcvCheckInvRes ((s.present r limit).invRes 0) (s.present r limit).rcvdLen
      = true := by
    by_contra hc
    rw [Bool.not_eq_true] at hc
    unfold Resolution.present rfalNfcvPollerInventory at hret hc
    rw [if_neg fun h => h.2 rfl] at hret hc
    dsimp only at hret hc
    split_ifs at hret hc with h1
    exact h1 ⟨hret, hc⟩
  obtain ⟨v, hv, hreply, hslice⟩ := hheard.answered air (.inl hret) hcheck
  rw [inventoryReq_one, one_reply_iff] at hreply
  refine ⟨v, List.nodup_singleton v, fun x hx => ?_, fun i x hx => ?_⟩
  · rw [List.mem_singleton.mp hx]
    exact ⟨hv, hreply.1⟩
  · have hi := (List.getElem?_eq_some_iff.mp hx).1
    rw [List.length_singleton] at hi
    rw [show x = v from List.mem_singleton.mp (List.mem_of_getElem? hx),
      show i = 0 by omega, Describes, hlist]
    exact hslice

theorem Bounded.le {t : Resolution ω} (h : Bounded limit t) : t.devCnt ≤ limit := by
  unfold Bounded at h
  split_ifs at h
  · exact Nat.le_of_eq h
  · exact Nat.le_of_lt h

/-- what a resolution leaves -/
structure Outcome (p : Population) (σ : ω → Vicc → State) (limit : Nat) (w : ω)
    (t : Resolution ω) (found : List Vicc) : Prop where
  devCnt : t.devCnt = found.length
  le : found.length ≤ limit
  listing : Listing p (fun v => σ w v ≠ .quiet) t.nfcvDevList found
  quiet : ∀ v, σ t.world v = .quiet ↔ σ w v = .quiet

theorem resolution_outcome (air : Air p r σ) (compMode : ComplianceMode) (s : Resolution ω)
    (hlimit : 0 < limit) {n : Nat} (hn : maxCollSupported ≤ n) :
    ∃ t found, rfalNfcvPollerCollisionResolution r compMode limit n s = some (.errNone, t) ∧
      Outcome p σ limit s.world t found := by
  have hpresent := present_quiet air limit s
  rcases resolution_cases r compMode s hlimit n with
    ⟨-, -, t, ht, hdev, -, hw⟩ | ⟨-, hret, t, ht, hdev, -, hlist, hw⟩ | ⟨t, ht, hs, hw⟩
  · refine ⟨t, [], ht, hdev, Nat.zero_le _, ⟨List.nodup_nil, ?_, ?_⟩, ?_⟩
    · exact fun v hv => absurd hv List.not_mem_nil
    · exact fun i v hv => by cases hv
    · rw [hw]
      exact hpresent
  · obtain ⟨v, hv⟩ := present_listing air hret hlist
    refine ⟨t, [v], ht, hdev, hlimit, hv, ?_⟩
    rw [hw]
    exact hpresent
  · obtain ⟨S, u, hu, hsim, hf, hb, -⟩ := resolve_rule
      (field_kept air limit fun v => σ s.world v ≠ .quiet)
      (between_start hs.colFound hs.colIt hs.colCnt hs.devCnt)
      (Started.field p (started_quiet air hw)) hs.returned
      (by rw [hs.devCnt]; exact hlimit) hs.colIt hn
    obtain ⟨found, hl, hfound⟩ := hf.found
    have hcount : u.devCnt = found.length := by rw [hsim.devCnt, hfound, List.length_map]
    refine ⟨u, found, ht.trans hu, hcount, ?_, hl, fun v => ?_⟩
    · rw [← hcount]
      exact hb.le
    · rw [hf.quiet, not_not]

/-- **What a resolution lists.**  In any field: the run ends, the devices listed are different cards
that were awake, no more than asked for, and no card has been put to sleep. -/
theorem inventory_lists (air : Air p r σ) (compMode : ComplianceMode) (s : Resolution ω)
    (hlimit : 0 < limit) {n : Nat} (hn : maxCollSupported ≤ n) :
    ∃ t found, rfalNfcvPollerCollisionResolution r compMode limit n s = some (.errNone, t) ∧
      t.devCnt = found.length ∧ found.length ≤ limit ∧
      Listing p (fun v => σ s.world v ≠ .quiet) t.nfcvDevList found ∧
      ∀ v, σ t.world v = .quiet ↔ σ s.world v = .quiet := by
  obtain ⟨t, found, ht, h⟩ := resolution_outcome air compMode s hlimit hn
  exact ⟨t, found, ht, h.devCnt, h.le, h.listing, h.quiet⟩

end

end Nfcv
end Hydra
