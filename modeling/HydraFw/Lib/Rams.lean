import Mathlib.Algebra.Order.Ring.Nat
import Mathlib.Algebra.Order.Ring.Int
import Mathlib.Data.List.Basic
import Mathlib.Data.List.Range

/-!
# Byte objects in a flat memory, with a record of the accesses

`Ram ω β` is the memory of a C program seen from its objects: `ω` names the objects (arrays),
`mem o i` is the cell `i` places after the base of `o`, and `trace` lists the accesses made so
far, oldest first.  An index at or past the size of its object is still an address: its cell is
what the linker placed there.  Whether a program stays inside its objects is a statement about
`trace`.

* `slice m off n`          `n` cells from `off` on;
* `overwrite m off data`   `m` with `data` stored from `off` on;
* `replay m log`           `m` after a list of stores, in order;
* `Ram.copy`               `memcpy`; `Ram.set` one store; `Ram.put` several; `Ram.rd` a load;
* `Access.Inside`          an access whose bytes all belong to the object.
-/

set_option linter.unusedSectionVars false

namespace Rams

variable {ω β : Type*}

/-! ## cells -/

/-- `n` cells from `off` on -/
def slice (m : Nat → β) (off n : Nat) : List β := (List.range n).map fun k => m (off + k)

/-- `m` with `data` stored from `off` on -/
def overwrite (m : Nat → β) (off : Nat) (data : List β) : Nat → β := fun i =>
  if off ≤ i then (data[i - off]?).getD (m i) else m i

/-- `m` after the stores of `log`, in order -/
def replay (m : Nat → β) (log : List (Nat × List β)) : Nat → β :=
  log.foldl (fun m w => overwrite m w.1 w.2) m

@[simp] theorem slice_length (m : Nat → β) (off n : Nat) : (slice m off n).length = n := by
  simp [slice]

@[simp] theorem slice_zero (m : Nat → β) (off : Nat) : slice m off 0 = [] := rfl

theorem slice_getElem? (m : Nat → β) (off n k : Nat) :
    (slice m off n)[k]? = if k < n then some (m (off + k)) else none := by
  by_cases h : k < n
  · rw [if_pos h]; simp [slice, h]
  · rw [if_neg h]; simp [slice, h]

@[simp] theorem slice_getElem (m : Nat → β) (off n k : Nat) (h : k < (slice m off n).length) :
    (slice m off n)[k] = m (off + k) := by
  simp [slice]

theorem slice_congr {m m' : Nat → β} {off off' n : Nat}
    (h : ∀ k, k < n → m (off + k) = m' (off' + k)) : slice m off n = slice m' off' n :=
  List.map_congr_left fun k hk => h k (List.mem_range.mp hk)

theorem slice_append (m : Nat → β) (off a b : Nat) :
    slice m off (a + b) = slice m off a ++ slice m (off + a) b := by
  unfold slice
  rw [List.range_add, List.map_append, List.map_map]
  congr 1
  exact List.map_congr_left fun k _ => by simp [Nat.add_assoc]

theorem slice_eq_list_iff {m : Nat → β} {off : Nat} {l : List β} :
    slice m off l.length = l ↔ ∀ k (h : k < l.length), m (off + k) = l[k] := by
  constructor
  · intro h k hk
    have e := congrArg (fun l => l[k]?) h
    simp only [slice_getElem?, if_pos hk, List.getElem?_eq_getElem hk, Option.some.injEq] at e
    exact e
  · intro h
    refine List.ext_getElem (slice_length ..) fun k _ hk => ?_
    rw [← h k hk]
    simp [slice]

theorem overwrite_in (m : Nat → β) (off : Nat) (data : List β) (k : Nat) (h : k < data.length) :
    overwrite m off data (off + k) = data[k] := by
  unfold overwrite
  rw [if_pos (Nat.le_add_right _ _), Nat.add_sub_cancel_left, List.getElem?_eq_getElem h]
  rfl

theorem overwrite_out (m : Nat → β) (off : Nat) (data : List β) (i : Nat)
    (h : i < off ∨ off + data.length ≤ i) : overwrite m off data i = m i := by
  unfold overwrite
  by_cases hi : off ≤ i
  · rw [if_pos hi, List.getElem?_eq_none (by omega)]; rfl
  · rw [if_neg hi]

/-- a part of what was stored -/
theorem slice_overwrite_part (m : Nat → β) (off : Nat) (data : List β) {a n : Nat}
    (h : a + n ≤ data.length) :
    slice (overwrite m off data) (off + a) n = (data.drop a).take n := by
  have hlen : n = ((data.drop a).take n).length := by
    rw [List.length_take, List.length_drop]
    omega
  refine List.ext_getElem ((slice_length ..).trans hlen) fun k hk _ => ?_
  rw [slice_length] at hk
  rw [slice_getElem, List.getElem_take, List.getElem_drop, Nat.add_assoc]
  exact overwrite_in m off data (a + k) (by omega)

theorem slice_overwrite_take (m : Nat → β) (off : Nat) (data : List β) {n : Nat}
    (h : n ≤ data.length) : slice (overwrite m off data) off n = data.take n :=
  slice_overwrite_part (a := 0) m off data (by rwa [Nat.zero_add])

/-- cells without a `z`, with one behind them, are what there is before the first `z` -/
theorem takeWhile_slice [DecidableEq β] {z : β} {m : Nat → β} {size : Nat} {text : List β}
    (hsize : text.length < size) (hslice : slice m 0 text.length = text)
    (htext : ∀ c ∈ text, c ≠ z) (hz : m text.length = z) :
    (slice m 0 size).takeWhile (· ≠ z) = text := by
  obtain ⟨n, rfl⟩ := Nat.exists_eq_add_of_lt hsize
  rw [Nat.add_assoc, slice_append, hslice, Nat.zero_add,
    List.takeWhile_append_of_pos fun c hc => decide_eq_true (htext c hc)]
  have hrest : slice m text.length (n + 1) = z :: slice m (text.length + 1) n := by
    rw [Nat.add_comm, slice_append]
    show m (text.length + 0) :: _ = _
    rw [Nat.add_zero, hz]
    rfl
  rw [hrest, List.takeWhile_cons_of_neg (by simp)]
  exact List.append_nil _

/-- what was stored is what is there -/
theorem slice_overwrite (m : Nat → β) (off : Nat) (data : List β) :
    slice (overwrite m off data) off data.length = data :=
  slice_eq_list_iff.mpr (overwrite_in m off data)

@[simp] theorem overwrite_nil (m : Nat → β) (off : Nat) : overwrite m off [] = m := by
  funext i
  exact overwrite_out m off [] i (by simp only [List.length_nil]; omega)

theorem overwrite_slice (m f : Nat → β) (off s n i : Nat) :
    overwrite m off (slice f s n) i = if off ≤ i ∧ i < off + n then f (s + (i - off)) else m i := by
  by_cases h : off ≤ i ∧ i < off + n
  · obtain ⟨k, rfl⟩ := Nat.exists_eq_add_of_le h.1
    rw [if_pos h, overwrite_in _ _ _ k (by rw [slice_length]; omega)]
    simp [slice]
  · rw [if_neg h, overwrite_out]
    rw [slice_length]
    omega

@[simp] theorem replay_nil (m : Nat → β) : replay m [] = m := rfl
theorem replay_single (m : Nat → β) (off : Nat) (data : List β) :
    replay m [(off, data)] = overwrite m off data := rfl

theorem replay_cons (m : Nat → β) (w : Nat × List β) (log : List (Nat × List β)) :
    replay m (w :: log) = replay (overwrite m w.1 w.2) log := rfl

/-- stores beside a cell leave it -/
theorem replay_out (m : Nat → β) (log : List (Nat × List β)) (i : Nat)
    (h : ∀ w ∈ log, i < w.1 ∨ w.1 + w.2.length ≤ i) : replay m log i = m i := by
  induction log generalizing m with
  | nil => rfl
  | cons w log ih =>
    rw [replay_cons, ih _ fun v hv => h v (List.mem_cons_of_mem _ hv)]
    exact overwrite_out m w.1 w.2 i (h w List.mem_cons_self)

/-! ## words of four bytes, the lowest first -/

def le32 (x : BitVec 32) : List UInt8 :=
  [⟨x.setWidth 8⟩, ⟨(x >>> 8).setWidth 8⟩, ⟨(x >>> 16).setWidth 8⟩, ⟨(x >>> 24).setWidth 8⟩]

def word (m : Nat → UInt8) (off : Nat) : BitVec 32 :=
  (m (off + 3)).toBitVec ++ (m (off + 2)).toBitVec ++ (m (off + 1)).toBitVec ++ (m off).toBitVec

theorem le32_length (x : BitVec 32) : (le32 x).length = 4 := rfl

theorem word_congr {m m' : Nat → UInt8} {off : Nat} (h : ∀ k, k < 4 → m (off + k) = m' (off + k)) :
    word m off = word m' off := by
  have h0 : m off = m' off := h 0 (by omega)
  unfold word
  rw [h 3 (by omega), h 2 (by omega), h 1 (by omega), h0]

/-- the bytes of what is read are those that are there -/
theorem le32_word (m : Nat → UInt8) (off : Nat) : le32 (word m off) = slice m off 4 := by
  have hbits : ∀ (a b c d : BitVec 8) (x : BitVec 32), x = d ++ c ++ b ++ a →
      x.setWidth 8 = a ∧ (x >>> 8).setWidth 8 = b ∧ (x >>> 16).setWidth 8 = c ∧
        (x >>> 24).setWidth 8 = d := by
    rintro a b c d _ rfl
    refine ⟨?_, ?_, ?_, ?_⟩
    all_goals
      ext i hi
      simp only [BitVec.getElem_setWidth, BitVec.getLsbD_ushiftRight, BitVec.getLsbD_append]
      grind
  obtain ⟨h0, h1, h2, h3⟩ := hbits _ _ _ _ (word m off) rfl
  unfold le32
  rw [h0, h1, h2, h3]
  rfl

/-- what was stored is read -/
theorem word_overwrite (m : Nat → UInt8) (off : Nat) (x : BitVec 32) :
    word (overwrite m off (le32 x)) off = x := by
  have h := fun k (hk : k < 4) => overwrite_in m off (le32 x) k hk
  unfold word
  rw [h 3 (by decide), h 2 (by decide), h 1 (by decide),
    show overwrite m off (le32 x) off = (le32 x).get ⟨0, Nat.succ_pos 3⟩ from h 0 (by decide)]
  simp only [le32, List.getElem_cons_zero, List.getElem_cons_succ, List.get_eq_getElem]
  ext i hi
  simp only [BitVec.getElem_append, BitVec.getElem_setWidth, BitVec.getLsbD_ushiftRight]
  grind

/-- storing what is there changes nothing -/
theorem overwrite_eq_self {m : Nat → β} {off : Nat} {data : List β} :
    overwrite m off data = m ↔ slice m off data.length = data := by
  rw [slice_eq_list_iff]
  constructor
  · intro h k hk
    rw [← overwrite_in m off data k hk, h]
  · intro h
    funext i
    by_cases hi : off ≤ i ∧ i < off + data.length
    · obtain ⟨k, rfl⟩ := Nat.exists_eq_add_of_le hi.1
      rw [overwrite_in m off data k (by omega), h k (by omega)]
    · exact overwrite_out m off data i (by omega)

theorem overwrite_word (m : Nat → UInt8) (off : Nat) : overwrite m off (le32 (word m off)) = m := by
  rw [overwrite_eq_self, le32_length, le32_word]

/-! ## accesses -/

inductive Dir where
  | rd
  | wr
  deriving DecidableEq

/-- `len` cells of `obj` from `off` on, loaded or stored -/
structure Access (ω : Type*) where
  dir : Dir
  obj : ω
  off : Nat
  len : Nat
  deriving DecidableEq

/-- every cell of the access belongs to the object -/
def Access.Inside (size : ω → Nat) (a : Access ω) : Prop :=
  a.len = 0 ∨ a.off + a.len ≤ size a.obj

instance (size : ω → Nat) (a : Access ω) : Decidable (a.Inside size) :=
  inferInstanceAs (Decidable (_ ∨ _))

/-! ## memory -/

structure Ram (ω β : Type*) where
  mem : ω → Nat → β
  trace : List (Access ω)

namespace Ram
variable [DecidableEq ω]

/-- a load of `n` cells -/
def rd (r : Ram ω β) (o : ω) (off n : Nat) : Ram ω β :=
  { r with trace := r.trace ++ [⟨.rd, o, off, n⟩] }

/-- a store of one cell -/
def set (r : Ram ω β) (o : ω) (i : Nat) (v : β) : Ram ω β where
  mem := Function.update r.mem o (Function.update (r.mem o) i v)
  trace := r.trace ++ [⟨.wr, o, i, 1⟩]

/-- `memcpy(d + dOff, s + sOff, n)` -/
def copy (r : Ram ω β) (d : ω) (dOff : Nat) (s : ω) (sOff n : Nat) : Ram ω β where
  mem := Function.update r.mem d (overwrite (r.mem d) dOff (slice (r.mem s) sOff n))
  trace := r.trace ++ [⟨.rd, s, sOff, n⟩, ⟨.wr, d, dOff, n⟩]

/-- a store of `data` from `off` on -/
def put (r : Ram ω β) (o : ω) (off : Nat) (data : List β) : Ram ω β where
  mem := Function.update r.mem o (overwrite (r.mem o) off data)
  trace := r.trace ++ [⟨.wr, o, off, data.length⟩]

section
variable (r : Ram ω β) (o o' d s : ω) (off dOff sOff n i : Nat) (v : β)

@[simp] theorem rd_mem : (r.rd o off n).mem = r.mem := rfl
@[simp] theorem rd_trace : (r.rd o off n).trace = r.trace ++ [⟨.rd, o, off, n⟩] := rfl
@[simp] theorem set_trace : (r.set o i v).trace = r.trace ++ [⟨.wr, o, i, 1⟩] := rfl
@[simp] theorem copy_trace :
    (r.copy d dOff s sOff n).trace = r.trace ++ [⟨.rd, s, sOff, n⟩, ⟨.wr, d, dOff, n⟩] := rfl

theorem set_mem_same : (r.set o i v).mem o = Function.update (r.mem o) i v :=
  Function.update_self ..

theorem set_mem_ne (h : o' ≠ o) : (r.set o i v).mem o' = r.mem o' :=
  Function.update_of_ne h ..

theorem set_cell (k : Nat) : (r.set o i v).mem o k = if k = i then v else r.mem o k := by
  rw [set_mem_same, Function.update_apply]

theorem copy_mem_same :
    (r.copy d dOff s sOff n).mem d = overwrite (r.mem d) dOff (slice (r.mem s) sOff n) :=
  Function.update_self ..

theorem copy_mem_ne (h : o ≠ d) : (r.copy d dOff s sOff n).mem o = r.mem o :=
  Function.update_of_ne h ..

theorem copy_cell (k : Nat) : (r.copy d dOff s sOff n).mem d k
    = if dOff ≤ k ∧ k < dOff + n then r.mem s (sOff + (k - dOff)) else r.mem d k := by
  rw [copy_mem_same, overwrite_slice]

/-- what was copied is what is there -/
theorem slice_copy : slice ((r.copy d dOff s sOff n).mem d) dOff n = slice (r.mem s) sOff n := by
  refine slice_congr fun k hk => ?_
  rw [copy_cell, if_pos (by omega), Nat.add_sub_cancel_left]

theorem put_mem_same (data : List β) : (r.put o off data).mem o = overwrite (r.mem o) off data :=
  Function.update_self ..

theorem slice_put (data : List β) :
    slice ((r.put o off data).mem o) off data.length = data := by
  rw [put_mem_same]
  exact slice_overwrite (r.mem o) off data

end
end Ram

end Rams
