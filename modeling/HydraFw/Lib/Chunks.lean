import Mathlib.Algebra.Order.Ring.Nat
import Mathlib.Algebra.BigOperators.Group.List.Basic
import Mathlib.Data.List.Basic
import Mathlib.Data.List.Range

/-!
# A transfer in chunks

`n` bytes in chunks of at most `f`: the chunk `j` starts at `j * f`, and the last one may be
shorter.

* `count f n`       how many chunks there are;
* `size f n j`      the size of a chunk, `sizes f n` all of them;
* `lt_count`        the chunks are those that start before the end;
* `flatMap_chunks`   what the chunks carry one after the other;
* `sizes_sum`       they make up the whole;
* `size_toNat`      a size that is passed as a byte;
* `blocks f l`      the chunks of a list, `flatten_blocks`, `blocks_flatMap`.
-/

namespace Chunks

variable {α : Type*} {f n j : Nat}

def count (f n : Nat) : Nat := (n + f - 1) / f

def size (f n j : Nat) : Nat := min f (n - j * f)

def sizes (f n : Nat) : List Nat := (List.range (count f n)).map (size f n)

theorem lt_count (hf : 0 < f) : j < count f n ↔ j * f < n := by
  unfold count
  rw [← Nat.succ_le_iff, Nat.le_div_iff_mul_le hf, Nat.succ_mul]
  omega

theorem le_count_mul (hf : 0 < f) (n : Nat) : n ≤ count f n * f :=
  Nat.le_of_not_lt fun h => Nat.lt_irrefl _ ((lt_count hf).mpr h)

theorem count_pos (hf : 0 < f) (hn : 0 < n) : 0 < count f n := by
  rwa [lt_count hf, Nat.zero_mul]

theorem count_le (hf : 0 < f) (n : Nat) : count f n ≤ n := by
  by_contra h
  have hlt := (lt_count hf (n := n) (j := n)).mp (Nat.lt_of_not_le h)
  exact absurd (Nat.le_mul_of_pos_right n hf) (Nat.not_le_of_lt hlt)

theorem size_le (f n j : Nat) : size f n j ≤ f := Nat.min_le_left ..

theorem size_pos (hf : 0 < f) (h : j < count f n) : 0 < size f n j :=
  Nat.lt_min.mpr ⟨hf, Nat.sub_pos_of_lt ((lt_count hf).mp h)⟩

/-- every chunk before the last is full -/
theorem size_full (hf : 0 < f) (h : j + 1 < count f n) : size f n j = f := by
  have hlt := (lt_count hf).mp h
  rw [Nat.succ_mul] at hlt
  exact Nat.min_eq_left (by omega)

/-- the chunks before a chunk carry what comes before its start -/
theorem flatMap_range (hf : 0 < f) (g : Nat → α) (k : Nat) :
    ((List.range k).flatMap fun j => (List.range (size f n j)).map fun i => g (j * f + i)) =
      (List.range (min (k * f) n)).map g := by
  induction k with
  | zero => rw [Nat.zero_mul, Nat.zero_min]; rfl
  | succ k ih =>
    have hends : min ((k + 1) * f) n = min (k * f) n + size f n k := by
      rw [Nat.succ_mul, size]
      omega
    rw [List.range_succ, List.flatMap_append, ih, List.flatMap_singleton, hends, List.range_add,
      List.map_append, List.map_map]
    congr 1
    by_cases hk : k * f < n
    · rw [Nat.min_eq_left hk.le]
      rfl
    · have hnone : size f n k = 0 := by
        rw [size, Nat.sub_eq_zero_of_le (Nat.le_of_not_lt hk), Nat.min_zero]
      rw [hnone]
      rfl

/-- **What the chunks carry** is the whole, in order. -/
theorem flatMap_chunks (hf : 0 < f) (g : Nat → α) (n : Nat) :
    ((List.range (count f n)).flatMap fun j =>
      (List.range (size f n j)).map fun i => g (j * f + i)) = (List.range n).map g := by
  rw [flatMap_range hf, Nat.min_eq_right (le_count_mul hf n)]

theorem sizes_sum (hf : 0 < f) (n : Nat) : (sizes f n).sum = n := by
  have h := congrArg List.length (flatMap_chunks hf id n)
  rwa [List.length_flatMap, List.length_map, List.length_range, List.map_congr_left
    (g := size f n) fun j _ => by rw [List.length_map, List.length_range]] at h

/-- the size of a chunk that is passed as a byte, behind `i` bytes -/
theorem size_toNat {b : UInt8} {g i m : UInt32} (hg : g.toNat = b.toNat)
    (hi : i.toNat = min (j * b.toNat) m.toNat) :
    (if m - i ≥ g then b else (m - i).toUInt8).toNat = size b.toNat m.toNat j := by
  have hbyte := b.toNat_lt
  have hsub : (m - i).toNat = m.toNat - j * b.toNat := by
    rw [UInt32.toNat_sub_of_le _ _ (UInt32.le_iff_toNat_le.mpr (by omega)), hi]
    omega
  unfold size
  split_ifs with hfull
  · have hle := UInt32.le_iff_toNat_le.mp hfull
    omega
  · have hlt : ¬ g.toNat ≤ (m - i).toNat := fun hle => hfull (UInt32.le_iff_toNat_le.mpr hle)
    rw [UInt32.toNat_toUInt8]
    omega

/-! ## the chunks of a list -/

def blocks (f : Nat) (hf : 0 < f) (l : List α) : List (List α) :=
  if _h : l = [] then [] else l.take f :: blocks f hf (l.drop f)
termination_by l.length
decreasing_by
  have hpos := List.length_pos_of_ne_nil _h
  rw [List.length_drop]
  omega

theorem blocks_nil (hf : 0 < f) : blocks f hf ([] : List α) = [] := by
  rw [blocks, dif_pos rfl]

theorem blocks_cons (hf : 0 < f) {l : List α} (h : l ≠ []) :
    blocks f hf l = l.take f :: blocks f hf (l.drop f) := by
  rw [blocks, dif_neg h]

theorem blocks_short (hf : 0 < f) {l : List α} (h : l ≠ []) (hl : l.length ≤ f) :
    blocks f hf l = [l] := by
  rw [blocks_cons hf h, List.take_of_length_le hl, List.drop_eq_nil_iff.mpr hl, blocks_nil]

theorem flatten_blocks (hf : 0 < f) (l : List α) : (blocks f hf l).flatten = l := by
  induction l using blocks.induct f hf with
  | case1 => rw [blocks_nil]; rfl
  | case2 l h ih => rw [blocks_cons hf h, List.flatten_cons, ih, List.take_append_drop]

/-- pieces of one size, put together and cut again -/
theorem blocks_flatMap {β : Type*} (hf : 0 < f) (g : β → List α) {l : List β}
    (h : ∀ b ∈ l, (g b).length = f) : blocks f hf (l.flatMap g) = l.map g := by
  induction l with
  | nil => exact blocks_nil hf
  | cons b l ih =>
    have hb := h b List.mem_cons_self
    have hne : (b :: l).flatMap g ≠ [] := by
      intro hnil
      rw [List.flatMap_cons, List.append_eq_nil_iff] at hnil
      rw [hnil.1] at hb
      exact absurd hb hf.ne
    rw [blocks_cons hf hne, List.flatMap_cons, List.take_left' hb, List.drop_left' hb,
      ih fun b hb => h b (List.mem_cons_of_mem _ hb), List.map_cons]

end Chunks
