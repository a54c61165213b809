import Mathlib.Data.Nat.Digits.Defs
import HydraFw.Lib.Chunks

/-!
# Pulse position modulation

A value below `m` is sent as one pulse: of `2 * m` slots it is in the second one of the pair that
the value names.  A byte is cut into `k` values, the lowest first, where `m ^ k = 256`.

* `symbol m v`       the slots of a value; `value m l` the value of some slots;
* `digits m k x`     a number in `k` values;
* `encode m k l`     the slots of bytes; `decode m k l` the bytes of some slots;
* `decode_encode`    what is sent is what is understood;
* `Frame`, `listen`  a start and an end around the bytes, in either of two modulations.
-/

namespace Pulses
open Chunks

abbrev Byte := BitVec 8

def symbol (m v : Nat) : List Bool := (List.range (2 * m)).map fun i => decide (i = 2 * v + 1)

def value (m : Nat) (l : List Bool) : Option Nat := (List.range m).find? fun v => symbol m v = l

def digits (m : Nat) : Nat → Nat → List Nat
  | 0, _ => []
  | k + 1, x => x % m :: digits m k (x / m)

def encode (m k : Nat) (l : List Byte) : List Bool :=
  l.flatMap fun b => (digits m k b.toNat).flatMap (symbol m)

section
variable {m k v w x : Nat}

def decode (hm : 0 < 2 * m) (hk : 0 < k) (l : List Bool) : Option (List Byte) :=
  ((blocks (2 * m) hm l).mapM (value m)).map fun ds =>
    (blocks k hk ds).map fun d => BitVec.ofNat 8 (Nat.ofDigits m d)

theorem symbol_length (m v : Nat) : (symbol m v).length = 2 * m := by
  rw [symbol, List.length_map, List.length_range]

/-- the place of the pulse -/
theorem symbol_inj (hv : v < m) (h : symbol m v = symbol m w) : v = w := by
  have hbit := List.map_inj_left.mp h (2 * v + 1) (List.mem_range.mpr (by omega))
  rw [decide_eq_true rfl] at hbit
  have := of_decide_eq_true hbit.symm
  omega

theorem value_symbol (hv : v < m) : value m (symbol m v) = some v := by
  unfold value
  rw [List.find?_eq_some_iff_append]
  refine ⟨decide_eq_true rfl, List.range v, (List.range (m - v - 1)).map (v + 1 + ·), ?_, ?_⟩
  · obtain ⟨d, rfl⟩ : ∃ d, m = v + 1 + d := ⟨m - v - 1, by omega⟩
    rw [show v + 1 + d - v - 1 = d by omega, List.range_add, List.range_succ, List.append_assoc]
    rfl
  · intro a ha
    have hlt := List.mem_range.mp ha
    rw [Bool.not_eq_true', decide_eq_false_iff_not]
    intro heq
    exact absurd (symbol_inj (hlt.trans hv) heq) hlt.ne

/-! ## bytes -/

theorem digits_length (m k x : Nat) : (digits m k x).length = k := by
  induction k generalizing x with
  | zero => rfl
  | succ k ih => rw [digits, List.length_cons, ih]

theorem digits_lt (hm : 0 < m) : ∀ d ∈ digits m k x, d < m := by
  induction k generalizing x with
  | zero => exact fun d hd => absurd hd List.not_mem_nil
  | succ k ih =>
    intro d hd
    rcases List.mem_cons.mp hd with rfl | hd
    · exact Nat.mod_lt _ hm
    · exact ih d hd

theorem ofDigits_digits (hx : x < m ^ k) : Nat.ofDigits m (digits m k x) = x := by
  induction k generalizing x with
  | zero =>
    rw [Nat.pow_zero] at hx
    exact (Nat.lt_one_iff.mp hx).symm
  | succ k ih =>
    have hm : 0 < m := by
      by_contra h0
      rw [Nat.eq_zero_of_not_pos h0, Nat.zero_pow k.succ_pos] at hx
      exact absurd hx (Nat.not_lt_zero x)
    rw [digits, Nat.ofDigits_cons, ih (Nat.div_lt_of_lt_mul (by rwa [Nat.pow_succ'] at hx))]
    exact Nat.mod_add_div x m

theorem mapM_value {l : List Nat} (h : ∀ d ∈ l, d < m) :
    (l.map (symbol m)).mapM (value m) = some l := by
  induction l with
  | nil => rfl
  | cons d l ih =>
    rw [List.map_cons, List.mapM_cons, value_symbol (h d List.mem_cons_self),
      ih fun d hd => h d (List.mem_cons_of_mem _ hd)]
    rfl

/-- **What is sent is what is understood.** -/
theorem decode_encode (hm : 0 < 2 * m) (hk : 0 < k) (hbase : m ^ k = 256) (l : List Byte) :
    decode hm hk (encode m k l) = some l := by
  have hflat : encode m k l =
      (l.flatMap fun b => digits m k b.toNat).flatMap (symbol m) := by
    rw [encode, List.flatMap_assoc]
  have hlt : ∀ d ∈ l.flatMap fun b => digits m k b.toNat, d < m := by
    intro d hd
    obtain ⟨b, -, hb⟩ := List.mem_flatMap.mp hd
    exact digits_lt (by omega) d hb
  unfold decode
  rw [hflat, blocks_flatMap hm (symbol m) fun d _ => symbol_length m d, mapM_value hlt,
    Option.map_some, blocks_flatMap hk _ fun b _ => digits_length m k b.toNat, List.map_map]
  congr 1
  apply List.map_id''
  intro b
  show BitVec.ofNat 8 (Nat.ofDigits m (digits m k b.toNat)) = b
  rw [ofDigits_digits (by rw [hbase]; exact b.isLt), BitVec.ofNat_toNat, BitVec.setWidth_eq]

end

/-! ## frames -/

/-- the start of a frame whose values are one of four -/
def sof4 : List Bool := [true, false, false, false, false, true, false, false]

/-- the start of a frame whose values are one of 256 -/
def sof256 : List Bool := [true, false, false, false, false, false, false, true]

def eof : List Bool := [false, false, true, false, false, false, false, false]

theorem slots4_pos : 0 < 2 * 4 := by decide

theorem values4_pos : 0 < 4 := by decide

theorem slots256_pos : 0 < 2 * 256 := by decide

theorem values256_pos : 0 < 1 := by decide

/-- the bytes between the start and the end; an end alone is a frame without bytes -/
def listen (l : List Bool) : Option (List Byte) :=
  if l = eof then some []
  else
    let body := (l.drop 8).take (l.length - 16)
    if l.drop (l.length - 8) ≠ eof then none
    else if l.take 8 = sof4 then decode slots4_pos values4_pos body
    else if l.take 8 = sof256 then decode slots256_pos values256_pos body
    else none

theorem listen_eof : listen eof = some [] := if_pos rfl

/-- without the end nothing is understood -/
theorem listen_open {l : List Bool} (h : l.drop (l.length - 8) ≠ eof) : listen l = none := by
  have hne : l ≠ eof := by
    rintro rfl
    exact h rfl
  unfold listen
  rw [if_neg hne, if_pos h]

theorem listen_frame {sof body : List Bool} (hsof : sof.length = 8) :
    listen (sof ++ body ++ eof) =
      if sof = sof4 then decode slots4_pos values4_pos body
      else if sof = sof256 then decode slots256_pos values256_pos body
      else none := by
  have hlen : (sof ++ body ++ eof).length = 16 + body.length := by
    rw [List.length_append, List.length_append, hsof]
    show 8 + body.length + 8 = _
    omega
  have hne : sof ++ body ++ eof ≠ eof := by
    intro h
    have := congrArg List.length h
    rw [hlen] at this
    change 16 + body.length = 8 at this
    omega
  have htail : (sof ++ body ++ eof).drop ((sof ++ body ++ eof).length - 8) = eof := by
    apply List.drop_left'
    rw [hlen, List.length_append, hsof]
    omega
  have hhead : (sof ++ body ++ eof).take 8 = sof := by
    rw [List.append_assoc]
    exact List.take_left' hsof
  have hbody : ((sof ++ body ++ eof).drop 8).take ((sof ++ body ++ eof).length - 16) = body := by
    rw [hlen, List.append_assoc, List.drop_left' hsof]
    apply List.take_left'
    omega
  unfold listen
  dsimp only
  rw [if_neg hne, htail, hhead, hbody, if_neg (not_not.mpr rfl)]

end Pulses
