import Mathlib.Algebra.Order.Ring.Nat
import Mathlib.Data.List.Basic

/-!
# The layout of a C structure

Every member stands at the next multiple of its size; `fill` is what lies between them.

* `starts`         the places of the members, from their sizes;
* `image`          the bytes of a structure, from those of its members;
* `member_image`   a member is at its place.
-/

namespace Layouts

/-- the next multiple of the size -/
def alignUp (place size : Nat) : Nat := (place + size - 1) / size * size

theorem le_alignUp (place : Nat) {size : Nat} (h : 0 < size) : place ≤ alignUp place size := by
  have hmod := Nat.div_add_mod (place + size - 1) size
  have hlt := Nat.mod_lt (place + size - 1) h
  rw [Nat.mul_comm] at hmod
  rw [alignUp]
  omega

/-- members behind the place `place` -/
def starts : Nat → List Nat → List Nat
  | _, [] => []
  | place, size :: sizes => alignUp place size :: starts (alignUp place size + size) sizes

def image {β : Type*} (fill : β) : Nat → List (List β) → List β
  | _, [] => []
  | place, m :: ms =>
    List.replicate (alignUp place m.length - place) fill ++ m ++
      image fill (alignUp place m.length + m.length) ms

theorem member_image {β : Type*} {fill : β} {ms : List (List β)} (hms : ∀ m ∈ ms, m ≠ [])
    {place k start : Nat} {m : List β} (hm : ms[k]? = some m)
    (hstart : (starts place (ms.map List.length))[k]? = some start) :
    place ≤ start ∧ m <+: (image fill place ms).drop (start - place) := by
  induction ms generalizing place k with
  | nil => cases hm
  | cons x ms ih =>
    obtain ⟨hx, hms⟩ := List.forall_mem_cons.mp hms
    have hle := le_alignUp place (List.length_pos_iff.mpr hx)
    have hpad : (List.replicate (alignUp place x.length - place) fill).length =
        alignUp place x.length - place := List.length_replicate
    rw [image, List.append_assoc]
    cases k with
    | zero =>
      cases hm
      cases hstart
      refine ⟨hle, ?_⟩
      rw [List.drop_append_of_le_length hpad.ge, List.drop_of_length_le hpad.le, List.nil_append]
      exact List.prefix_append m _
    | succ k =>
      obtain ⟨hle', hprefix⟩ := ih hms hm hstart
      refine ⟨by omega, ?_⟩
      have hsplit : start - place = (alignUp place x.length - place) +
          (x.length + (start - (alignUp place x.length + x.length))) := by omega
      rw [hsplit, ← List.drop_drop, List.drop_append_of_le_length hpad.ge,
        List.drop_of_length_le hpad.le, List.nil_append, ← List.drop_drop, List.drop_left]
      exact hprefix

end Layouts
