import HydraFw.Nfca.Safety

/-!
# What the resolution of all devices lists

* `Listing`      the devices listed are different cards of the field, and each entry but the last
                 is of a card that was put to sleep;
* `Searching`    the invariant of the calls: the cards found so far are asleep;
* `step_sound`, `start_sound`   one call, and the start;
* `resolution_lists`            a run, from any states of the cards.
-/

namespace Hydra
namespace Nfca
open BitBuf hiding Byte
open Picc hiding Byte
open Rams Common Polling

/-- an entry of the device list is about a card -/
structure Describes (e : ListenDevice) (d : TypeA) : Prop where
  uid : slice e.nfcId1 0 e.nfcId1Len = d.uid
  selRes : e.selRes = d.sak
  type : e.type = d.sak &&& selResConfMask

/-- `isSleep` tells where the card is -/
def InStep (s : TypeA → State) (e : ListenDevice) (d : TypeA) : Prop :=
  e.isSleep = true ∧ s d = .halt ∨ e.isSleep = false ∧ ∃ star, s d = .active star

structure Listing (p : Population) (s : TypeA → State) (list : Nat → ListenDevice)
    (found : List TypeA) : Prop where
  nodup : found.Nodup
  mem : ∀ d ∈ found, d ∈ p.cards
  describes : ∀ i d, found[i]? = some d → Describes (list i) d
  inStep : ∀ i d, found[i]? = some d → InStep s (list i) d
  asleep : ∀ i d, found[i]? = some d → i + 1 < found.length → (list i).isSleep = true

/-- the cards found so far are asleep -/
structure Found (p : Population) (s : TypeA → State) (list : Nat → ListenDevice)
    (found : List TypeA) : Prop where
  nodup : found.Nodup
  mem : ∀ d ∈ found, d ∈ p.cards
  describes : ∀ i d, found[i]? = some d → Describes (list i) d
  asleep : ∀ i d, found[i]? = some d → (list i).isSleep = true
  halt : ∀ d ∈ found, s d = .halt

structure Searching {ω : Type*} (p : Population) (σ : ω → TypeA → State) (limit : Nat)
    (s : Full ω) (found : List TypeA) : Prop where
  kept : Found p (σ s.world) s.nfcaDevList found
  count : s.devCnt = found.length
  room : found.length < limit
  devLimit : s.cr.devLimit = limit
  plain : (s.nfcaDevList 0).type ≠ rfalNfcaT1T
  sound : Sound p (σ s.world) found s.cr

section
variable {ω : Type*} {p : Population} {r : Radio ω} {σ : ω → TypeA → State} {limit : Nat}
  {s : Full ω} {found : List TypeA} {st : TypeA → State} {list : Nat → ListenDevice}

theorem Found.nil (p : Population) (st : TypeA → State) (list : Nat → ListenDevice) :
    Found p st list [] where
  nodup := List.nodup_nil
  mem := fun _ h => absurd h List.not_mem_nil
  describes := fun _ _ h => by cases h
  asleep := fun _ _ h => by cases h
  halt := fun _ h => absurd h List.not_mem_nil

theorem Found.listing (h : Found p st list found) : Listing p st list found where
  nodup := h.nodup
  mem := h.mem
  describes := h.describes
  inStep := fun i d hi => .inl ⟨h.asleep i d hi, h.halt d (List.mem_of_getElem? hi)⟩
  asleep := fun i d hi _ => h.asleep i d hi

/-- entries behind those found are free to change, and so are the states of other cards -/
theorem Found.congr (h : Found p st list found) {st' : TypeA → State} {list' : Nat → ListenDevice}
    (hlist : ∀ i < found.length, list' i = list i) (hhalt : ∀ d ∈ found, st' d = .halt) :
    Found p st' list' found where
  nodup := h.nodup
  mem := h.mem
  describes := fun i d hi => by
    rw [hlist i (List.getElem?_eq_some_iff.mp hi).1]
    exact h.describes i d hi
  asleep := fun i d hi => by
    rw [hlist i (List.getElem?_eq_some_iff.mp hi).1]
    exact h.asleep i d hi
  halt := hhalt

theorem mask_ne_t1t (x : Byte) : x &&& selResConfMask ≠ rfalNfcaT1T := by
  unfold selResConfMask rfalNfcaT1T
  revert x
  decide

/-- a resolution that has just begun -/
structure ColRes.Fresh (c : ColRes) : Prop where
  state : c.state = .cl
  cascadeLv : c.cascadeLv = 0
  retries : c.retries = nRetrans
  backtrackCnt : c.backtrackCnt = 3

theorem Found.plain (h : Found p st list found) (hne : found ≠ []) :
    (list 0).type ≠ rfalNfcaT1T := by
  obtain ⟨d, hd⟩ : ∃ d, found[0]? = some d :=
    ⟨_, List.getElem?_eq_getElem (List.length_pos_of_ne_nil hne)⟩
  rw [(h.describes 0 d hd).type]
  exact mask_ne_t1t _

end

end Nfca
end Hydra
