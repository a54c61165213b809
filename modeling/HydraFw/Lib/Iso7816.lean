import Mathlib.Algebra.Order.Ring.Nat
import Mathlib.Data.List.Basic

/-!
# The answer to reset of a smart card

The bytes of an answer to reset as ISO 7816-3 defines them: `TS`, `T0`, the interface bytes that
`T0` and each `TDi` announce, the historical bytes, and `TCK`.

* `announced`, `announcesTd`   the interface bytes that `T0` or a `TDi` announces;
* `Chain b i e tds`            those from the byte at `i` on end before `e`, and `tds` are the
                               places of the `TDi` among them;
* `IsAtr b n`                  the answer in the stream `b` has `n` bytes.
-/

namespace Iso7816

abbrev Byte := BitVec 8

def announced (y : Byte) : Nat :=
  (y.getLsbD 4).toNat + (y.getLsbD 5).toNat + (y.getLsbD 6).toNat + (y.getLsbD 7).toNat

/-- the last byte announced is a `TDi` -/
def announcesTd (y : Byte) : Bool := y.getLsbD 7

inductive Chain (b : Nat → Byte) : Nat → Nat → List Nat → Prop
  | last {i : Nat} (h : announcesTd (b i) = false) : Chain b i (i + announced (b i) + 1) []
  | td {i e : Nat} {tds : List Nat} (h : announcesTd (b i) = true)
      (hrest : Chain b (i + announced (b i)) e tds) : Chain b i e ((i + announced (b i)) :: tds)

/-- the protocol that a `TDi` announces -/
def protocol (td : Byte) : Byte := td &&& 0x0f

/-- the number of historical bytes -/
def historical (t0 : Byte) : Nat := (t0 &&& 0x0f).toNat

/-- `TCK` is sent when a protocol other than 0 is announced -/
def HasTck (b : Nat → Byte) (tds : List Nat) : Prop := ∃ i ∈ tds, protocol (b i) ≠ 0

instance (b : Nat → Byte) (tds : List Nat) : Decidable (HasTck b tds) :=
  inferInstanceAs (Decidable (∃ i ∈ tds, _))

def tck (b : Nat → Byte) (tds : List Nat) : Nat := if HasTck b tds then 1 else 0

def IsAtr (b : Nat → Byte) (n : Nat) : Prop :=
  ∃ e tds, Chain b 1 e tds ∧ n = e + historical (b 1) + tck b tds

section
variable {b : Nat → Byte} {i e e' : Nat} {tds tds' : List Nat}

theorem Chain.unique (h : Chain b i e tds) (h' : Chain b i e' tds') : e = e' ∧ tds = tds' := by
  induction h generalizing e' tds' with
  | last hlast =>
    cases h' with
    | last _ => exact ⟨rfl, rfl⟩
    | td htd _ =>
      rw [hlast] at htd
      exact Bool.noConfusion htd
  | td htd _ ih =>
    cases h' with
    | last hlast =>
      rw [hlast] at htd
      exact Bool.noConfusion htd
    | td _ hrest =>
      obtain ⟨he, htds⟩ := ih hrest
      exact ⟨he, by rw [htds]⟩

/-- the chain goes past the byte that announces it -/
theorem Chain.lt (h : Chain b i e tds) : i < e := by
  induction h with
  | last _ => omega
  | td _ _ ih => omega

theorem announced_pos {y : Byte} (h : announcesTd y = true) : 0 < announced y := by
  rw [announcesTd] at h
  rw [announced, h]
  exact Nat.succ_pos _

end

end Iso7816
