import HydraFw.Console.Tokens

/-!
# What a write lets through

The byte arguments of a write, each with its repeat count, and the two checks of `chomp_integers`
(`hydrabus_mode.c`): a byte has eight bits, and a repeat count fits `buffer_tx` behind the bytes
before it.

* `Arg`, `expand`    the arguments, and the bytes that they stand for;
* `outcome`          what the checks make of them;
* `Faulty`           some argument is refused, `outcome_error`;
* `Filled`           a byte that is not checked is the last of the buffer;
* `outcome_small`, `outcome_large`   lists that fit, and lists that do not.
-/

namespace Hydra
namespace Write
open Walk

def oneByte : String := "Please specify one byte at a time.\r\n"
def tooMany : String := "Repeat count exceeds buffer size.\r\n"

/-! ## arguments -/

/-- a byte with its repeat count; it takes `cells` of the array -/
structure Arg where
  value : Nat
  count : Option Int
  cells : Nat

def Arg.size (a : Arg) : Nat :=
  match a.count with
  | none => 1
  | some c => 1 + (c - 1).toNat

def Arg.bytes (a : Arg) : List UInt8 := List.replicate a.size (UInt8.ofNat a.value)

def expand (args : List Arg) : List UInt8 := args.flatMap Arg.bytes

def total (args : List Arg) : Nat := (args.map Arg.size).sum

/-- with `n` bytes before it, the repeat count is refused -/
def Arg.Over (a : Arg) (n : Nat) : Prop :=
  match a.count with
  | none => False
  | some c => (n + 1 + c) % 2 ^ 32 > bufferSize

instance : ∀ (a : Arg) (n : Nat), Decidable (a.Over n)
  | ⟨_, none, _⟩, _ => isFalse not_false
  | ⟨_, some c, _⟩, n => inferInstanceAs (Decidable ((n + 1 + c) % 2 ^ 32 > bufferSize))

/-- the bytes stored, and the message of the first check that fails -/
def outcome : List UInt8 → List Arg → List UInt8 × Option String
  | bytes, [] => (bytes, none)
  | bytes, a :: args =>
    if a.value > 0xff then (bytes, some oneByte)
    else if a.Over bytes.length then (bytes ++ [UInt8.ofNat a.value], some tooMany)
    else outcome (bytes ++ a.bytes) args

/-! ## what the checks let through -/

/-- an argument that is refused, with `n` bytes before the first -/
def Faulty (n : Nat) (args : List Arg) : Prop :=
  ∃ pre a post, args = pre ++ a :: post ∧ (a.value > 0xff ∨ a.Over (n + total pre))

section
variable {bytes : List UInt8} {a : Arg} {args : List Arg}

@[simp] theorem total_nil : total [] = 0 := rfl
@[simp] theorem total_cons (a : Arg) (args : List Arg) :
    total (a :: args) = a.size + total args := List.sum_cons

@[simp] theorem Arg.bytes_length (a : Arg) : a.bytes.length = a.size := List.length_replicate

theorem Arg.size_pos (a : Arg) : 0 < a.size := by
  unfold Arg.size
  split
  · exact Nat.one_pos
  · omega

theorem expand_cons (a : Arg) (args : List Arg) : expand (a :: args) = a.bytes ++ expand args :=
  List.flatMap_cons

@[simp] theorem expand_length (args : List Arg) : (expand args).length = total args := by
  induction args with
  | nil => rfl
  | cons a args ih => rw [expand_cons, List.length_append, ih, a.bytes_length, total_cons]

theorem outcome_oneByte (h : a.value > 0xff) :
    outcome bytes (a :: args) = (bytes, some oneByte) := if_pos h

theorem outcome_tooMany (hv : ¬ a.value > 0xff) (h : a.Over bytes.length) :
    outcome bytes (a :: args) = (bytes ++ [UInt8.ofNat a.value], some tooMany) := by
  rw [outcome, if_neg hv, if_pos h]

theorem outcome_taken (hv : ¬ a.value > 0xff) (h : ¬ a.Over bytes.length) :
    outcome bytes (a :: args) = outcome (bytes ++ a.bytes) args := by
  rw [outcome, if_neg hv, if_neg h]

/-- the bytes of the arguments before a refused one stay -/
theorem outcome_extends (bytes : List UInt8) (args : List Arg) :
    bytes <+: (outcome bytes args).1 := by
  induction args generalizing bytes with
  | nil => exact List.prefix_refl _
  | cons a args ih =>
    by_cases hv : a.value > 0xff
    · have hout : bytes = (outcome bytes (a :: args)).1 :=
        (congrArg Prod.fst (outcome_oneByte hv)).symm
      exact hout ▸ List.prefix_refl bytes
    · by_cases ho : a.Over bytes.length
      · rw [outcome_tooMany hv ho]
        exact List.prefix_append ..
      · rw [outcome_taken hv ho]
        exact (List.prefix_append ..).trans (ih _)

/-- some argument, with the bytes before it: the first one, or one behind it -/
theorem split_cons (P : Nat → Arg → Prop) (n : Nat) :
    (∃ pre b post, a :: args = pre ++ b :: post ∧ P (n + total pre) b) ↔
      P n a ∨ ∃ pre b post, args = pre ++ b :: post ∧ P (n + a.size + total pre) b := by
  constructor
  · rintro ⟨pre, b, post, hargs, hb⟩
    cases pre with
    | nil =>
      obtain ⟨rfl, -⟩ := List.cons.inj hargs
      exact .inl hb
    | cons a' pre =>
      obtain ⟨rfl, rfl⟩ := List.cons.inj hargs
      rw [total_cons, ← Nat.add_assoc] at hb
      exact .inr ⟨pre, b, post, rfl, hb⟩
  · rintro (h | ⟨pre, b, post, rfl, hb⟩)
    · exact ⟨[], a, args, rfl, h⟩
    · refine ⟨a :: pre, b, post, rfl, ?_⟩
      rwa [total_cons, ← Nat.add_assoc]

theorem faulty_cons (n : Nat) :
    Faulty n (a :: args) ↔ (a.value > 0xff ∨ a.Over n) ∨ Faulty (n + a.size) args :=
  split_cons (fun m b => b.value > 0xff ∨ b.Over m) n

/-- a message is shown for each list with a refused argument -/
theorem outcome_error (bytes : List UInt8) (args : List Arg) :
    (outcome bytes args).2 ≠ none ↔ Faulty bytes.length args := by
  induction args generalizing bytes with
  | nil => exact iff_of_false (fun h => h rfl) (by rintro ⟨pre, a, post, h, -⟩; simp at h)
  | cons a args ih =>
    rw [faulty_cons]
    by_cases hv : a.value > 0xff
    · rw [outcome_oneByte hv]
      exact iff_of_true nofun (.inl (.inl hv))
    · by_cases ho : a.Over bytes.length
      · rw [outcome_tooMany hv ho]
        exact iff_of_true nofun (.inl (.inr ho))
      · rw [outcome_taken hv ho, ih, List.length_append, a.bytes_length]
        exact (or_iff_right (not_or.mpr ⟨hv, ho⟩)).symm

/-- only a refused first byte leaves nothing stored -/
theorem outcome_empty (a : Arg) (args : List Arg) :
    (outcome [] (a :: args)).1 = [] ↔ a.value > 0xff := by
  by_cases hv : a.value > 0xff
  · rw [outcome_oneByte hv]
    exact iff_of_true rfl hv
  · refine iff_of_false (fun h => ?_) hv
    by_cases ho : a.Over ([] : List UInt8).length
    · rw [outcome_tooMany hv ho] at h
      exact List.cons_ne_nil _ _ h
    · rw [outcome_taken hv ho] at h
      have hprefix := outcome_extends ([] ++ a.bytes) args
      rw [h, List.prefix_nil] at hprefix
      have hlen := congrArg List.length hprefix
      rw [List.nil_append, a.bytes_length] at hlen
      exact absurd hlen a.size_pos.ne'

/-! ### bytes of eight bits, with counts from 1 -/

/-- a byte, with a repeat count of an `int` -/
structure Arg.Proper (a : Arg) : Prop where
  value : a.value ≤ 0xff
  pos : ∀ n, a.count = some n → 1 ≤ n
  lt : ∀ n, a.count = some n → n < 2 ^ 31

/-- some byte without a repeat count is the last of the buffer -/
def Filled (n : Nat) (args : List Arg) : Prop :=
  ∃ pre a post, args = pre ++ a :: post ∧ a.count = none ∧ n + total pre + 1 = bufferSize

theorem Arg.size_none (h : a.count = none) : a.size = 1 := by
  unfold Arg.size
  rw [h]

theorem Arg.not_over_none (h : a.count = none) (n : Nat) : ¬ a.Over n := by
  unfold Arg.Over
  rw [h]
  exact not_false

/-- the check counts the byte that has been stored -/
theorem Arg.Proper.over_iff (h : a.Proper) {c : Int} (hc : a.count = some c) {n : Nat}
    (hn : n ≤ bufferSize) : a.Over n ↔ bufferSize < n + 1 + a.size := by
  have hpos := h.pos c hc
  have hlt := h.lt c hc
  have hsize : bufferSize = 256 := rfl
  unfold Arg.Over Arg.size
  rw [hc]
  simp only
  omega

theorem filled_cons (n : Nat) :
    Filled n (a :: args) ↔
      (a.count = none ∧ n + 1 = bufferSize) ∨ Filled (n + a.size) args :=
  split_cons (fun m b => b.count = none ∧ m + 1 = bufferSize) n

/-- nothing fills a buffer that is full -/
theorem not_filled {n : Nat} (hn : bufferSize ≤ n) : ¬ Filled n args := by
  rintro ⟨pre, b, post, -, -, heq⟩
  omega

/-- up to 255 bytes are all let through -/
theorem outcome_small (hargs : ∀ a ∈ args, a.Proper)
    (hsmall : bytes.length + total args < bufferSize) :
    outcome bytes args = (bytes ++ expand args, none) := by
  induction args generalizing bytes with
  | nil => rw [outcome, expand, List.flatMap_nil, List.append_nil]
  | cons a args ih =>
    obtain ⟨ha, hargs⟩ := List.forall_mem_cons.mp hargs
    rw [total_cons] at hsmall
    have hover : ¬ a.Over bytes.length := by
      cases hc : a.count with
      | none => exact Arg.not_over_none hc _
      | some c =>
        rw [ha.over_iff hc (by omega)]
        omega
    rw [outcome_taken (Nat.not_lt.mpr ha.value) hover, ih hargs
      (by rw [List.length_append, a.bytes_length]; omega), expand_cons, List.append_assoc]

/-- the next byte of a full buffer is stored behind it -/
theorem outcome_full (hargs : ∀ a ∈ args, a.Proper) (hne : args ≠ [])
    (hfull : bytes.length = bufferSize) : bufferSize < (outcome bytes args).1.length := by
  obtain ⟨a, args, rfl⟩ := List.exists_cons_of_ne_nil hne
  have ha := (List.forall_mem_cons.mp hargs).1
  by_cases ho : a.Over bytes.length
  · rw [outcome_tooMany (Nat.not_lt.mpr ha.value) ho, List.length_append, hfull]
    exact Nat.lt_succ_self _
  · rw [outcome_taken (Nat.not_lt.mpr ha.value) ho]
    have hle := (outcome_extends (bytes ++ a.bytes) args).length_le
    have hpos := a.size_pos
    rw [List.length_append, a.bytes_length, hfull] at hle
    omega

/-- more than the buffer holds is refused in time unless a byte without a repeat count fills it -/
theorem outcome_large (hargs : ∀ a ∈ args, a.Proper) (hlen : bytes.length < bufferSize)
    (hlarge : bufferSize < bytes.length + total args) :
    ((outcome bytes args).2 ≠ none ∧ (outcome bytes args).1.length ≤ bufferSize) ↔
      ¬ Filled bytes.length args := by
  induction args generalizing bytes with
  | nil =>
    rw [total_nil] at hlarge
    omega
  | cons a args ih =>
    obtain ⟨ha, hargs⟩ := List.forall_mem_cons.mp hargs
    have hv : ¬ a.value > 0xff := Nat.not_lt.mpr ha.value
    rw [total_cons] at hlarge
    have hnext : (bytes ++ a.bytes).length = bytes.length + a.size := by
      rw [List.length_append, a.bytes_length]
    rw [filled_cons]
    cases hc : a.count with
    | none =>
      have hone := Arg.size_none hc
      rw [outcome_taken hv (Arg.not_over_none hc _)]
      by_cases hfill : bytes.length + 1 = bufferSize
      · have hne : args ≠ [] := by
          rintro rfl
          rw [total_nil] at hlarge
          omega
        have hout := outcome_full hargs hne (hnext.trans (hone ▸ hfill))
        exact iff_of_false (fun h => Nat.not_lt.mpr h.2 hout) (fun h => h (.inl ⟨rfl, hfill⟩))
      · rw [ih hargs (by omega) (by omega), hnext]
        exact not_congr (or_iff_right fun h => hfill h.2).symm
    | some c =>
      have hnot : ¬ (some c = none ∧ bytes.length + 1 = bufferSize) := fun h => nomatch h.1
      rw [or_iff_right hnot]
      by_cases ho : a.Over bytes.length
      · rw [outcome_tooMany hv ho, List.length_append]
        rw [ha.over_iff hc hlen.le] at ho
        exact iff_of_true ⟨nofun, hlen⟩ (not_filled (Nat.le_of_lt_succ (by omega)))
      · rw [outcome_taken hv ho]
        rw [ha.over_iff hc hlen.le] at ho
        rw [ih hargs (by omega) (by omega), hnext]

end

end Write
end Hydra
