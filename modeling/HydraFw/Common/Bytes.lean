import Mathlib.Algebra.Order.Ring.Nat

/-!
# Bytes

What several modes use of `common.c`.
-/

namespace Hydra
namespace Common

abbrev Byte := BitVec 8

def reverseU8 (value : Byte) : Byte :=
  let value := (value &&& 0xcc) >>> 2 ||| (value &&& 0x33) <<< 2
  let value := (value &&& 0xaa) >>> 1 ||| (value &&& 0x55) <<< 1
  value >>> 4 ||| value <<< 4

/-- a byte sent with its last bit first -/
theorem getLsbD_reverseU8 (value : Byte) (i : Fin 8) :
    (reverseU8 value).getLsbD i.val = value.getLsbD (7 - i.val) := by
  revert value i
  decide

/-! ## strings -/

/-- a cell of a memory; what is behind its end reads as 0 -/
def cell (memory : List UInt8) (i : Nat) : UInt8 := memory.getD i 0

theorem cell_drop (memory : List UInt8) (i k : Nat) :
    cell memory (i + k) = cell (memory.drop i) k := by
  unfold cell
  rw [List.getD_eq_getElem?_getD, List.getD_eq_getElem?_getD, List.getElem?_drop]

theorem cell_head (memory : List UInt8) (i : Nat) : cell memory i = (memory.drop i).headD 0 := by
  rw [← Nat.add_zero i, cell_drop, Nat.add_zero]
  cases memory.drop i <;> rfl

/-- the characters of a string -/
structure CString where
  chars : List UInt8
  noNul : 0 ∉ chars

/-- the memory from the string on -/
def CString.stored (s : CString) (behind : List UInt8) : List UInt8 := s.chars ++ 0 :: behind

theorem CString.ne_zero (s : CString) : ∀ c ∈ s.chars, c ≠ 0 :=
  fun _ hc h => s.noNul (h ▸ hc)

theorem CString.stored_eq (s : CString) (behind : List UInt8) :
    s.stored behind = s.chars ++ 0 :: behind := rfl

theorem CString.takeWhile_stored (s : CString) (behind : List UInt8) :
    (s.stored behind).takeWhile (· ≠ 0) = s.chars := by
  unfold CString.stored
  rw [List.takeWhile_append_of_pos fun c hc => decide_eq_true (s.ne_zero c hc)]
  exact List.append_nil _

end Common
end Hydra
