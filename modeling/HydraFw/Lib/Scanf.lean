import Mathlib.Algebra.Order.Ring.Nat
import Mathlib.Algebra.Order.Ring.Int
import Mathlib.Data.List.Basic

/-!
# `sscanf`

The directives `%d`, `%X`, `%*[..]` and single characters of a format, with a 32-bit `int`.  Numbers
skip white space; one that is out of range becomes the nearest that is not, and a `0x` without a
digit behind it is a `0`, as in newlib.

* `Directive.read`   what a directive takes from a text;
* `scan`             the numbers that a format reads, each with the place where it ends;
* `Result.count`     the value that `sscanf` returns;
* `scan_local`       numbers that end within a part of a text are read from that part alone.
-/

namespace Scanf

abbrev Byte := BitVec 8

def isSpace (b : Byte) : Bool := b.toNat = 0x20 || (0x09 ≤ b.toNat && b.toNat ≤ 0x0d)

inductive Base where
  | decimal | hex

def Base.radix : Base → Nat
  | .decimal => 10
  | .hex => 16

def Base.digit (base : Base) (b : Byte) : Option Nat :=
  if 0x30 ≤ b.toNat ∧ b.toNat ≤ 0x39 then some (b.toNat - 0x30)
  else match base with
    | .decimal => none
    | .hex =>
      if 0x41 ≤ b.toNat ∧ b.toNat ≤ 0x46 then some (b.toNat - 0x37)
      else if 0x61 ≤ b.toNat ∧ b.toNat ≤ 0x66 then some (b.toNat - 0x57)
      else none

/-- a field width, of which `n` bytes are used up -/
def narrow (width : Option Nat) (n : Nat) : Option Nat := width.map (· - n)

/-- the digits that a text begins with -/
def Base.digits (base : Base) : Option Nat → List Byte → List Nat
  | _, [] => []
  | width, b :: text =>
    if width = some 0 then []
    else match base.digit b with
      | some d => d :: base.digits (narrow width 1) text
      | none => []

/-- a `0x` -/
def Base.prefixed (base : Base) (width : Option Nat) : List Byte → Bool
  | z :: x :: _ =>
    match base with
    | .decimal => false
    | .hex => z = 0x30 && (x = 0x78 || x = 0x58) && width.all (2 ≤ ·)
  | _ => false

/-- the digits of a number without a sign, and how many bytes it has -/
def Base.magnitude (base : Base) (width : Option Nat) (text : List Byte) :
    Option (List Nat × Nat) :=
  if base.prefixed width text then
    match base.digits (narrow width 2) (text.drop 2) with
    | [] => some ([0], 1)
    | d :: ds => some (d :: ds, 2 + (d :: ds).length)
  else
    match base.digits width text with
    | [] => none
    | d :: ds => some (d :: ds, (d :: ds).length)

/-- `strtol`, `strtoul` -/
def Base.value (base : Base) (negative : Bool) (ds : List Nat) : Int :=
  let m := ds.foldl (fun n d => n * base.radix + d) 0
  match base with
  | .decimal => if negative then -(min m (2 ^ 31) : Nat) else (min m (2 ^ 31 - 1) : Nat)
  | .hex => if 2 ^ 32 ≤ m then 2 ^ 32 - 1 else if negative then -(m : Nat) else m

def isSign (b : Byte) : Bool := b = 0x2b || b = 0x2d

def Base.signed (base : Base) (negative : Bool) (skipped : Nat) :
    Option (List Nat × Nat) → Option (Int × Nat)
  | some (ds, n) => some (base.value negative ds, skipped + n)
  | none => none

/-- a number, and how many bytes it has -/
def Base.number (base : Base) (width : Option Nat) : List Byte → Option (Int × Nat)
  | [] => none
  | b :: text =>
    if isSign b ∧ width ≠ some 0 then
      base.signed (b = 0x2d) 1 (base.magnitude (narrow width 1) text)
    else base.signed false 0 (base.magnitude width (b :: text))

inductive Directive where
  | char (c : Byte)
  /-- `%*[..]` -/
  | skip (set : List Byte)
  /-- `%d` or `%X`, with a width -/
  | int (base : Base) (width : Option Nat)

inductive Outcome where
  /-- so many bytes are taken, for a number or not -/
  | took (value : Option Int) (n : Nat)
  | mismatch
  /-- the text is at its end -/
  | ended

def Outcome.int (spaces : Nat) : Option (Int × Nat) → Outcome
  | some (v, n) => .took (some v) (spaces + n)
  | none => .mismatch

def Directive.read : Directive → List Byte → Outcome
  | .char _, [] => .ended
  | .char c, b :: _ => if b = c then .took none 1 else .mismatch
  | .skip _, [] => .ended
  | .skip set, b :: text =>
    if b ∈ set then .took none ((b :: text).takeWhile (· ∈ set)).length else .mismatch
  | .int base width, text =>
    let rest := text.dropWhile isSpace
    if rest = [] then .ended
    else .int (text.length - rest.length) (base.number width rest)

structure Field where
  value : Int
  /-- where the field ends -/
  stop : Nat
  deriving DecidableEq

structure Result where
  fields : List Field
  /-- the text was at its end before the format was -/
  ended : Bool

/-- the text begins at the place `at` -/
def scan : List Directive → Nat → List Byte → Result
  | [], _, _ => ⟨[], false⟩
  | d :: ds, place, text =>
    match d.read text with
    | .took none n => scan ds (place + n) (text.drop n)
    | .took (some v) n =>
      let r := scan ds (place + n) (text.drop n)
      ⟨⟨v, place + n⟩ :: r.fields, r.ended⟩
    | .mismatch => ⟨[], false⟩
    | .ended => ⟨[], true⟩

/-- the value of `sscanf`: `EOF` when the text ends before a number has been stored -/
def Result.count (r : Result) : Int :=
  if r.fields = [] ∧ r.ended = true then -1 else r.fields.length

/-- the string in a memory: up to the NUL -/
def string (memory : List Byte) : List Byte := memory.takeWhile (· ≠ 0)

def sscanf (format : List Directive) (memory : List Byte) : Result := scan format 0 (string memory)

def Result.values (r : Result) : List Int := r.fields.map Field.value

/-! ## a part of a text -/

section
variable {base : Base} {width : Option Nat} {a b : List Byte} {n : Nat}

theorem digits_local (h : (base.digits width (a ++ b)).length ≤ a.length) :
    base.digits width a = base.digits width (a ++ b) := by
  induction a generalizing width with
  | nil => exact (List.length_eq_zero_iff.mp (Nat.le_zero.mp h)).symm
  | cons c a ih =>
    rw [List.cons_append, Base.digits] at h ⊢
    rw [Base.digits]
    by_cases hw : width = some 0
    · rw [if_pos hw, if_pos hw]
    · rw [if_neg hw] at h
      rw [if_neg hw, if_neg hw]
      cases hd : base.digit c with
      | none => rfl
      | some d =>
        simp only [hd, List.length_cons] at h ⊢
        rw [ih (Nat.le_of_succ_le_succ h)]

/-- a number without a sign: a `0` with an `x` behind it, digits behind a `0x`, or digits -/
theorem magnitude_cases {ds : List Nat} (h : base.magnitude width a = some (ds, n)) :
    base.prefixed width a = true ∧ base.digits (narrow width 2) (a.drop 2) = [] ∧ ds = [0] ∧ n = 1 ∨
      base.prefixed width a = true ∧ base.digits (narrow width 2) (a.drop 2) = ds ∧ ds ≠ [] ∧
        n = 2 + ds.length ∨
      base.prefixed width a = false ∧ base.digits width a = ds ∧ ds ≠ [] ∧ n = ds.length := by
  rw [Base.magnitude] at h
  cases hp : base.prefixed width a with
  | true =>
    rw [hp, if_pos rfl] at h
    cases hd : base.digits (narrow width 2) (a.drop 2) with
    | nil =>
      rw [hd] at h
      cases h
      exact .inl ⟨rfl, rfl, rfl, rfl⟩
    | cons d ds =>
      rw [hd] at h
      cases h
      exact .inr (.inl ⟨rfl, rfl, List.cons_ne_nil _ _, rfl⟩)
  | false =>
    rw [hp, if_neg Bool.false_ne_true] at h
    cases hd : base.digits width a with
    | nil =>
      rw [hd] at h
      cases h
    | cons d ds =>
      rw [hd] at h
      cases h
      exact .inr (.inr ⟨rfl, rfl, List.cons_ne_nil _ _, rfl⟩)

theorem magnitude_zero (hp : base.prefixed width a = true)
    (hd : base.digits (narrow width 2) (a.drop 2) = []) :
    base.magnitude width a = some ([0], 1) := by
  rw [Base.magnitude, hp, if_pos rfl, hd]

theorem magnitude_prefixed {ds : List Nat} (hp : base.prefixed width a = true)
    (hd : base.digits (narrow width 2) (a.drop 2) = ds) (hds : ds ≠ []) :
    base.magnitude width a = some (ds, 2 + ds.length) := by
  obtain ⟨d, ds, rfl⟩ := List.exists_cons_of_ne_nil hds
  rw [Base.magnitude, hp, if_pos rfl, hd]

theorem magnitude_plain {ds : List Nat} (hp : base.prefixed width a = false)
    (hd : base.digits width a = ds) (hds : ds ≠ []) :
    base.magnitude width a = some (ds, ds.length) := by
  obtain ⟨d, ds, rfl⟩ := List.exists_cons_of_ne_nil hds
  rw [Base.magnitude, hp, if_neg Bool.false_ne_true, hd]

theorem magnitude_pos {ds : List Nat} (h : base.magnitude width a = some (ds, n)) : 0 < n := by
  rcases magnitude_cases h with ⟨-, -, -, rfl⟩ | ⟨-, -, -, rfl⟩ | ⟨-, -, hds, rfl⟩
  · exact Nat.one_pos
  · exact Nat.lt_of_lt_of_le Nat.two_pos (Nat.le_add_right 2 _)
  · exact List.length_pos_of_ne_nil hds

theorem prefixed_short (ha : a.length < 2) : base.prefixed width a = false := by
  cases a with
  | nil => rfl
  | cons z a =>
    cases a with
    | nil => rfl
    | cons x a => exact absurd ha (by simp)

theorem prefixed_local (ha : 2 ≤ a.length) :
    base.prefixed width (a ++ b) = base.prefixed width a := by
  obtain ⟨z, a, rfl⟩ := List.exists_cons_of_length_pos (Nat.lt_of_lt_of_le Nat.two_pos ha)
  obtain ⟨x, a, rfl⟩ := List.exists_cons_of_length_pos (Nat.le_of_succ_le_succ ha)
  rfl

/-- a number that begins with a `0x` begins with the digit 0 -/
theorem digits_prefixed {c : Byte} (h : base.prefixed width (c :: b) = true) :
    base.digits width [c] = [0] := by
  cases b with
  | nil => exact Bool.noConfusion h
  | cons x b =>
    cases base with
    | decimal => exact Bool.noConfusion h
    | hex =>
      rw [Base.prefixed] at h
      simp only [Bool.and_eq_true, decide_eq_true_eq] at h
      obtain ⟨⟨rfl, -⟩, hw⟩ := h
      have hne : width ≠ some 0 := by
        rintro rfl
        exact Bool.noConfusion hw
      rw [Base.digits, if_neg hne]
      rfl

theorem magnitude_local {ds : List Nat} (h : base.magnitude width (a ++ b) = some (ds, n))
    (hn : n ≤ a.length) : base.magnitude width a = some (ds, n) := by
  have hpos := magnitude_pos h
  by_cases ha : 2 ≤ a.length
  · have hdrop : (a ++ b).drop 2 = a.drop 2 ++ b := List.drop_append_of_le_length ha
    have hlen : (a.drop 2).length = a.length - 2 := List.length_drop
    rcases magnitude_cases h with ⟨hp, hd, rfl, rfl⟩ | ⟨hp, hd, hds, rfl⟩ | ⟨hp, hd, hds, rfl⟩
    · rw [prefixed_local ha] at hp
      rw [hdrop] at hd
      have hlocal := digits_local (by rw [hd]; exact Nat.zero_le (a.drop 2).length)
      exact magnitude_zero hp (hlocal.trans hd)
    · rw [prefixed_local ha] at hp
      rw [hdrop] at hd
      have hlocal := digits_local (a := a.drop 2) (by rw [hd]; omega)
      exact magnitude_prefixed hp (hlocal.trans hd) hds
    · rw [prefixed_local ha] at hp
      exact magnitude_plain hp ((digits_local (by rw [hd]; exact hn)).trans hd) hds
  · have hshort : base.prefixed width a = false := prefixed_short (by omega)
    obtain ⟨c, rfl⟩ := List.length_eq_one_iff.mp (show a.length = 1 by omega)
    rcases magnitude_cases h with ⟨hp, -, rfl, rfl⟩ | ⟨-, -, -, rfl⟩ | ⟨-, hd, hds, rfl⟩
    · exact magnitude_plain hshort (digits_prefixed hp) (List.cons_ne_nil _ _)
    · rw [List.length_singleton] at hn
      omega
    · exact magnitude_plain hshort ((digits_local (by rw [hd]; exact hn)).trans hd) hds

theorem signed_some {negative : Bool} {k : Nat} {m : Option (List Nat × Nat)} {v : Int}
    (h : base.signed negative k m = some (v, n)) :
    ∃ ds i, m = some (ds, i) ∧ v = base.value negative ds ∧ n = k + i := by
  cases m with
  | none => cases h
  | some m =>
    cases h
    exact ⟨m.1, m.2, rfl, rfl, rfl⟩

theorem number_pos {v : Int} (h : base.number width a = some (v, n)) : 0 < n := by
  cases a with
  | nil => cases h
  | cons c a =>
    rw [Base.number] at h
    split at h
    · obtain ⟨ds, i, -, -, rfl⟩ := signed_some h
      exact Nat.lt_of_lt_of_le Nat.one_pos (Nat.le_add_right 1 i)
    · obtain ⟨ds, i, hm, -, rfl⟩ := signed_some h
      rw [Nat.zero_add]
      exact magnitude_pos hm

theorem number_local {v : Int} (h : base.number width (a ++ b) = some (v, n))
    (hn : n ≤ a.length) : base.number width a = some (v, n) := by
  have hpos := number_pos h
  cases a with
  | nil => exact absurd hn (Nat.not_le_of_lt hpos)
  | cons c a =>
    rw [List.cons_append, Base.number] at h
    rw [Base.number]
    split at h
    · next hsign =>
      obtain ⟨ds, i, hm, rfl, rfl⟩ := signed_some h
      rw [List.length_cons] at hn
      rw [if_pos hsign, magnitude_local hm (by omega)]
      rfl
    · next hsign =>
      obtain ⟨ds, i, hm, rfl, rfl⟩ := signed_some h
      rw [Nat.zero_add] at hn
      rw [if_neg hsign, magnitude_local (a := c :: a) hm hn]
      rfl

theorem int_took {k : Nat} {m : Option (Int × Nat)} {v : Option Int}
    (h : Outcome.int k m = .took v n) : ∃ x i, m = some (x, i) ∧ v = some x ∧ n = k + i := by
  cases m with
  | none => cases h
  | some m =>
    cases h
    exact ⟨m.1, m.2, rfl, rfl, rfl⟩

theorem read_pos {d : Directive} {v : Option Int} (h : d.read a = .took v n) : 0 < n := by
  cases d with
  | char c =>
    cases a with
    | nil => cases h
    | cons x a =>
      rw [Directive.read] at h
      split at h
      · cases h
        exact Nat.one_pos
      · cases h
  | skip set =>
    cases a with
    | nil => cases h
    | cons x a =>
      rw [Directive.read] at h
      split at h
      · next hx =>
        cases h
        rw [List.takeWhile_cons, decide_eq_true hx]
        exact Nat.succ_pos _
      · cases h
  | int base width =>
    rw [Directive.read] at h
    split at h
    · cases h
    · obtain ⟨x, i, hnum, -, rfl⟩ := int_took h
      exact Nat.lt_of_lt_of_le (number_pos hnum) (Nat.le_add_left i _)

theorem takeWhile_local {p : Byte → Bool} (h : ((a ++ b).takeWhile p).length ≤ a.length) :
    ((a ++ b).takeWhile p).length = (a.takeWhile p).length := by
  rw [List.takeWhile_append] at h ⊢
  split at h
  · next hall =>
    rw [List.length_append] at h
    rw [if_pos hall, List.length_append]
    omega
  · next hall => rw [if_neg hall]

theorem dropWhile_local {p : Byte → Bool} (h : b.length < ((a ++ b).dropWhile p).length) :
    (a ++ b).dropWhile p = a.dropWhile p ++ b ∧ a.dropWhile p ≠ [] := by
  rw [List.dropWhile_append] at h ⊢
  cases hrest : a.dropWhile p with
  | nil =>
    rw [hrest] at h
    exact absurd h (Nat.not_lt_of_le (List.dropWhile_suffix p).length_le)
  | cons c rest => exact ⟨rfl, List.cons_ne_nil c rest⟩

/-- what a directive takes from a part of a text, it takes from that part alone -/
theorem read_local {d : Directive} {v : Option Int} (h : d.read (a ++ b) = .took v n)
    (hn : n ≤ a.length) : d.read a = .took v n := by
  have hpos := read_pos h
  obtain ⟨c, a, rfl⟩ := List.exists_cons_of_length_pos (Nat.lt_of_lt_of_le hpos hn)
  cases d with
  | char x => exact h
  | skip set =>
    rw [List.cons_append, Directive.read] at h
    rw [Directive.read]
    split at h
    · next hc =>
      cases h
      rw [if_pos hc, ← takeWhile_local (a := c :: a) hn]
      rfl
    · cases h
  | int base width =>
    have hsuffix := (List.dropWhile_suffix (l := c :: a ++ b) isSpace).length_le
    rw [List.length_append] at hsuffix
    rw [Directive.read] at h
    split at h
    · cases h
    · obtain ⟨x, i, hnum, rfl, rfl⟩ := int_took h
      have hi := number_pos hnum
      rw [List.length_append] at hn
      obtain ⟨hrest, hne⟩ := dropWhile_local (p := isSpace) (a := c :: a) (b := b) (by omega)
      rw [hrest] at hnum hn
      rw [List.length_append] at hn
      have hle := (List.dropWhile_suffix (l := c :: a) isSpace).length_le
      rw [Directive.read, if_neg hne, number_local hnum (by omega), hrest, List.length_append,
        List.length_append, Nat.add_sub_add_right]
      rfl

/-! ## a text that goes on -/

theorem digits_extend (h : (base.digits width a).length < a.length) :
    base.digits width (a ++ b) = base.digits width a := by
  induction a generalizing width with
  | nil => exact absurd h (Nat.not_lt_zero _)
  | cons c a ih =>
    rw [Base.digits] at h
    rw [List.cons_append, Base.digits, Base.digits]
    by_cases hw : width = some 0
    · rw [if_pos hw, if_pos hw]
    · rw [if_neg hw] at h
      rw [if_neg hw, if_neg hw]
      cases hd : base.digit c with
      | none => rfl
      | some d =>
        simp only [hd, List.length_cons, Nat.succ_lt_succ_iff] at h ⊢
        rw [ih h]

theorem digits_append_ne_nil (h : base.digits width a ≠ []) :
    base.digits width (a ++ b) ≠ [] := by
  cases a with
  | nil => exact absurd rfl h
  | cons c a =>
    rw [Base.digits] at h
    rw [List.cons_append, Base.digits]
    by_cases hw : width = some 0
    · rw [if_pos hw] at h
      exact absurd rfl h
    · rw [if_neg hw] at h ⊢
      cases hd : base.digit c with
      | none =>
        rw [hd] at h
        exact absurd rfl h
      | some d => exact List.cons_ne_nil _ _

theorem magnitude_of_digits (h : base.digits width a ≠ []) :
    ∃ ds n, base.magnitude width a = some (ds, n) := by
  cases hp : base.prefixed width a with
  | false => exact ⟨_, _, magnitude_plain hp rfl h⟩
  | true =>
    by_cases hd : base.digits (narrow width 2) (a.drop 2) = []
    · exact ⟨_, _, magnitude_zero hp hd⟩
    · exact ⟨_, _, magnitude_prefixed hp rfl hd⟩

/-- what a number leaves that goes on in a longer text: nothing, or the `x` of a `0x` -/
def Cut (text : List Byte) : Prop := text = [] ∨ text = [0x78] ∨ text = [0x58]

theorem Cut.read {text : List Byte} (h : Cut text) (v : Option Int) :
    (Directive.int base width).read text ≠ .took v n := by
  have hx : ∀ x : Byte, x = 0x78 ∨ x = 0x58 → base.number width [x] = none := by
    intro x hx
    have hdigit : base.digit x = none := by rcases hx with rfl | rfl <;> cases base <;> rfl
    have hsign : isSign x = false := by rcases hx with rfl | rfl <;> rfl
    have hdigits : base.digits width [x] = [] := by
      rw [Base.digits, hdigit]
      split <;> rfl
    rw [Base.number, hsign, if_neg (fun h => Bool.false_ne_true h.1), Base.magnitude,
      prefixed_short (a := [x]) (Nat.lt_succ_self 1), if_neg Bool.false_ne_true, hdigits]
    rfl
  rw [Directive.read]
  rcases h with rfl | rfl | rfl
  · exact nofun
  · show Outcome.int _ (base.number width [0x78]) ≠ _
    rw [hx 0x78 (.inl rfl)]
    exact nofun
  · show Outcome.int _ (base.number width [0x58]) ≠ _
    rw [hx 0x58 (.inr rfl)]
    exact nofun

theorem prefixed_second (h : base.prefixed width a = true) (ha : a.length = 2) :
    Cut (a.drop 1) := by
  obtain ⟨z, x, rfl⟩ := List.length_eq_two.mp ha
  cases base with
  | decimal => exact Bool.noConfusion h
  | hex =>
    simp only [Base.prefixed, Bool.and_eq_true, Bool.or_eq_true, decide_eq_true_eq] at h
    rcases h.1.2 with rfl | rfl
    · exact .inr (.inl rfl)
    · exact .inr (.inr rfl)

theorem prefixed_length (h : base.prefixed width a = true) : 2 ≤ a.length := by
  by_contra hlt
  rw [prefixed_short (by omega)] at h
  exact Bool.noConfusion h

/-- a number stays the same in a longer text, or goes on there -/
theorem magnitude_extend {ds : List Nat} (h : base.magnitude width a = some (ds, n))
    (b : List Byte) : ∃ ds' n', base.magnitude width (a ++ b) = some (ds', n') ∧
      (n' = n ∨ Cut (a.drop n)) := by
  rcases magnitude_cases h with ⟨hp, hd, rfl, rfl⟩ | ⟨hp, hd, hds, rfl⟩ | ⟨hp, hd, hds, rfl⟩
  · have ha := prefixed_length hp
    have hp' : base.prefixed width (a ++ b) = true := by rw [prefixed_local ha, hp]
    have hdrop : (a ++ b).drop 2 = a.drop 2 ++ b := List.drop_append_of_le_length ha
    have hlen : (a.drop 2).length = a.length - 2 := List.length_drop
    by_cases h2 : a.length = 2
    · by_cases hd' : base.digits (narrow width 2) ((a ++ b).drop 2) = []
      · exact ⟨_, _, magnitude_zero hp' hd', .inl rfl⟩
      · exact ⟨_, _, magnitude_prefixed hp' rfl hd', .inr (prefixed_second hp h2)⟩
    · have hext : base.digits (narrow width 2) (a.drop 2 ++ b) =
          base.digits (narrow width 2) (a.drop 2) := digits_extend (by rw [hd]; show 0 < _; omega)
      exact ⟨_, _, magnitude_zero hp' (by rw [hdrop, hext, hd]), .inl rfl⟩
  · have ha := prefixed_length hp
    have hp' : base.prefixed width (a ++ b) = true := by rw [prefixed_local ha, hp]
    have hdrop : (a ++ b).drop 2 = a.drop 2 ++ b := List.drop_append_of_le_length ha
    have hlen : (a.drop 2).length = a.length - 2 := List.length_drop
    by_cases hall : ds.length < (a.drop 2).length
    · have hext : base.digits (narrow width 2) (a.drop 2 ++ b) =
          base.digits (narrow width 2) (a.drop 2) := digits_extend (by rw [hd]; exact hall)
      exact ⟨_, _, magnitude_prefixed hp' (by rw [hdrop, hext, hd]) hds, .inl rfl⟩
    · have hnil : a.drop (2 + ds.length) = [] := List.drop_eq_nil_iff.mpr (by omega)
      refine ⟨_, _, magnitude_prefixed hp' rfl ?_, .inr (.inl hnil)⟩
      rw [hdrop]
      exact digits_append_ne_nil (by rw [hd]; exact hds)
  · by_cases hall : ds.length < a.length
    · have hpos := List.length_pos_of_ne_nil hds
      have hext : base.digits width (a ++ b) = base.digits width a :=
        digits_extend (by rw [hd]; exact hall)
      have hp' : base.prefixed width (a ++ b) = false := by rw [prefixed_local (by omega), hp]
      exact ⟨_, _, magnitude_plain hp' (hext.trans hd) hds, .inl rfl⟩
    · have hne : base.digits width (a ++ b) ≠ [] := digits_append_ne_nil (by rw [hd]; exact hds)
      obtain ⟨ds', n', hm⟩ := magnitude_of_digits hne
      exact ⟨ds', n', hm, .inr (.inl (List.drop_eq_nil_iff.mpr (Nat.le_of_not_lt hall)))⟩

theorem number_extend {v : Int} (h : base.number width a = some (v, n)) (b : List Byte) :
    ∃ v' n', base.number width (a ++ b) = some (v', n') ∧ (n' = n ∨ Cut (a.drop n)) := by
  cases a with
  | nil => cases h
  | cons c a =>
    rw [Base.number] at h
    rw [List.cons_append, Base.number]
    by_cases hsign : isSign c = true ∧ width ≠ some 0
    · rw [if_pos hsign] at h ⊢
      obtain ⟨ds, i, hm, rfl, rfl⟩ := signed_some h
      obtain ⟨ds', i', hm', hcut⟩ := magnitude_extend hm b
      rw [hm']
      refine ⟨_, _, rfl, hcut.imp (congrArg (1 + ·)) fun hcut => ?_⟩
      rw [Nat.add_comm]
      exact hcut
    · rw [if_neg hsign] at h ⊢
      obtain ⟨ds, i, hm, rfl, rfl⟩ := signed_some h
      obtain ⟨ds', i', hm', hcut⟩ := magnitude_extend hm b
      rw [← List.cons_append, hm']
      refine ⟨_, _, rfl, hcut.imp (congrArg (0 + ·)) fun hcut => ?_⟩
      rw [Nat.zero_add]
      exact hcut

theorem dropWhile_extend {p : Byte → Bool} (h : a.dropWhile p ≠ []) :
    (a ++ b).dropWhile p = a.dropWhile p ++ b := by
  rw [List.dropWhile_append, if_neg (by rwa [List.isEmpty_iff])]

theorem int_extend {v : Option Int} (h : (Directive.int base width).read a = .took v n)
    (b : List Byte) : ∃ v' n', (Directive.int base width).read (a ++ b) = .took (some v') n' ∧
      (n' = n ∨ Cut (a.drop n)) := by
  rw [Directive.read] at h
  by_cases hne : a.dropWhile isSpace = []
  · rw [if_pos hne] at h
    cases h
  · rw [if_neg hne] at h
    obtain ⟨x, i, hnum, rfl, rfl⟩ := int_took h
    obtain ⟨v', i', hnum', hcut⟩ := number_extend hnum b
    have hle := (List.dropWhile_suffix (l := a) isSpace).length_le
    have hdrop : a.drop (a.length - (a.dropWhile isSpace).length) = a.dropWhile isSpace :=
      (List.suffix_iff_eq_drop.mp (List.dropWhile_suffix isSpace)).symm
    refine ⟨v', a.length - (a.dropWhile isSpace).length + i', ?_, ?_⟩
    · rw [Directive.read, dropWhile_extend hne, if_neg (by simp [hne]), hnum', List.length_append,
        List.length_append, Nat.add_sub_add_right]
      rfl
    · refine hcut.imp (fun h => by rw [h]) fun hcut => ?_
      rw [← List.drop_drop, hdrop]
      exact hcut

theorem takeWhile_extend {p : Byte → Bool} (h : (a.takeWhile p).length < a.length) :
    (a ++ b).takeWhile p = a.takeWhile p := by
  rw [List.takeWhile_append, if_neg (Nat.ne_of_lt h)]

theorem skip_extend {set : List Byte} {v : Option Int} (h : (Directive.skip set).read a = .took v n)
    (hn : n < a.length) (b : List Byte) : (Directive.skip set).read (a ++ b) = .took v n := by
  cases a with
  | nil => cases h
  | cons c a =>
    rw [Directive.read] at h
    rw [List.cons_append, Directive.read]
    split at h
    · next hc =>
      cases h
      rw [if_pos hc, ← List.cons_append, takeWhile_extend hn]
    · cases h

theorem digit_le {c : Byte} {d : Nat} (h : Base.decimal.digit c = some d) : d ≤ 9 := by
  rw [Base.digit] at h
  split at h
  · cases h
    omega
  · cases h

/-- `%1d` reads a digit -/
theorem number_one {c : Byte} {text : List Byte} :
    Base.number .decimal (some 1) (c :: text) =
      if isSign c then none else (Base.decimal.digit c).map fun d : Nat => ((d : Int), 1) := by
  have hplain : ∀ w t, Base.magnitude .decimal w t =
      match Base.decimal.digits w t with
      | [] => none
      | d :: ds => some (d :: ds, (d :: ds).length) := by
    intro w t
    have hp : Base.decimal.prefixed w t = false := by
      cases t with
      | nil => rfl
      | cons z t => cases t <;> rfl
    rw [Base.magnitude, hp, if_neg Bool.false_ne_true]
  have hzero : ∀ t, Base.decimal.digits (some 0) t = [] := fun t => by cases t <;> rfl
  rw [Base.number]
  cases hsign : isSign c with
  | true =>
    rw [if_pos ⟨rfl, by simp⟩, hplain, narrow]
    simp only [Option.map_some, Nat.sub_self, hzero, if_true]
    rfl
  | false =>
    rw [if_neg (fun h => Bool.false_ne_true h.1), if_neg Bool.false_ne_true, hplain, Base.digits,
      if_neg (by simp), narrow]
    cases hd : Base.decimal.digit c with
    | none => rfl
    | some d =>
      simp only [Option.map_some, Nat.sub_self, hzero]
      have hle := digit_le hd
      show some (((min (0 * 10 + d) (2 ^ 31 - 1) : Nat) : Int), 0 + 1) = some ((d : Int), 1)
      rw [Nat.zero_mul, Nat.zero_add, Nat.min_eq_left (by omega)]

theorem one_value {x : Int}
    (h : (Directive.int .decimal (some 1)).read a = .took (some x) n) : 0 ≤ x ∧ x ≤ 9 := by
  rw [Directive.read] at h
  split at h
  · cases h
  · next hne =>
    obtain ⟨c, text, hc⟩ := List.exists_cons_of_ne_nil hne
    obtain ⟨y, i, hnum, hv, -⟩ := int_took h
    cases hv
    rw [hc, number_one] at hnum
    split at hnum
    · cases hnum
    · obtain ⟨d, hd, hdx⟩ := Option.map_eq_some_iff.mp hnum
      have hle := digit_le hd
      cases hdx
      omega

theorem one_extend {v : Option Int}
    (h : (Directive.int .decimal (some 1)).read a = .took v n) (b : List Byte) :
    (Directive.int .decimal (some 1)).read (a ++ b) = .took v n := by
  rw [Directive.read] at h
  by_cases hne : a.dropWhile isSpace = []
  · rw [if_pos hne] at h
    cases h
  · rw [if_neg hne] at h
    rw [Directive.read, dropWhile_extend hne, if_neg (by simp [hne]), List.length_append,
      List.length_append, Nat.add_sub_add_right]
    obtain ⟨c, text, hc⟩ := List.exists_cons_of_ne_nil hne
    rw [hc, number_one] at h
    rw [hc, List.cons_append, number_one]
    simpa using h

end

section
variable {ds : List Directive} {place : Nat}

theorem scan_stop {text : List Byte} {f : Field} (h : f ∈ (scan ds place text).fields) :
    place < f.stop := by
  induction ds generalizing place text with
  | nil => exact absurd h List.not_mem_nil
  | cons d ds ih =>
    rw [scan] at h
    cases hd : d.read text with
    | took v n =>
      have hpos := read_pos hd
      rw [hd] at h
      cases v with
      | none =>
        have hlt := ih h
        omega
      | some v =>
        rcases List.mem_cons.mp h with rfl | h
        · exact Nat.lt_add_of_pos_right hpos
        · have hlt := ih h
          omega
    | mismatch =>
      rw [hd] at h
      exact absurd h List.not_mem_nil
    | ended =>
      rw [hd] at h
      exact absurd h List.not_mem_nil

/-- **Locality.**  Numbers that end within a part of a text are read from that part alone. -/
theorem scan_local {a b : List Byte} {m : Nat} (hm : m ≤ (scan ds place (a ++ b)).fields.length)
    (h : ∀ f ∈ (scan ds place (a ++ b)).fields.take m, f.stop ≤ place + a.length) :
    (scan ds place a).fields.take m = (scan ds place (a ++ b)).fields.take m := by
  induction ds generalizing place a m with
  | nil => rfl
  | cons d ds ih =>
    cases m with
    | zero => rfl
    | succ m =>
      rw [scan] at hm h
      cases hd : d.read (a ++ b) with
      | took v n =>
        rw [hd] at hm h
        have hn : n ≤ a.length := by
          cases v with
          | none =>
            obtain ⟨f, rest, hf⟩ := List.exists_cons_of_length_pos (Nat.lt_of_succ_le hm |>.pos)
            have hmem : f ∈ (scan ds (place + n) ((a ++ b).drop n)).fields := by
              rw [hf]
              exact List.mem_cons_self
            have hstop := scan_stop hmem
            have hle := h f (by rw [hf]; exact List.mem_cons_self)
            omega
          | some v =>
            have hle : place + n ≤ place + a.length := h _ List.mem_cons_self
            omega
        have hdrop : (a ++ b).drop n = a.drop n ++ b := List.drop_append_of_le_length hn
        have hplace : place + a.length = place + n + (a.drop n).length := by
          rw [List.length_drop]
          omega
        rw [hplace] at h
        rw [scan, scan, read_local hd hn, hd]
        cases v with
        | none =>
          simp only [hdrop] at hm h ⊢
          exact ih hm h
        | some v =>
          simp only [hdrop, List.length_cons, Nat.succ_le_succ_iff, List.take_succ_cons] at hm h ⊢
          rw [ih hm fun f hf => h f (List.mem_cons_of_mem _ hf)]
      | mismatch =>
        rw [hd] at hm
        exact absurd hm (Nat.not_succ_le_zero m)
      | ended =>
        rw [hd] at hm
        exact absurd hm (Nat.not_succ_le_zero m)

theorem int_value {a : List Byte} {base : Base} {width : Option Nat} {v : Option Int} {n : Nat}
    (h : (Directive.int base width).read a = .took v n) : ∃ x, v = some x := by
  rw [Directive.read] at h
  split at h
  · cases h
  · obtain ⟨x, -, -, rfl, -⟩ := int_took h
    exact ⟨x, rfl⟩

theorem Cut.scan {text : List Byte} (h : Cut text)
    (hds : ∀ d ∈ ds, ∃ base width, d = .int base width) : (scan ds place text).fields = [] := by
  cases ds with
  | nil => rfl
  | cons d ds =>
    obtain ⟨base, width, rfl⟩ := hds d List.mem_cons_self
    rw [Scanf.scan]
    cases hd : (Directive.int base width).read text with
    | took v n => exact absurd hd (h.read v)
    | mismatch => rfl
    | ended => rfl

theorem scan_nil : (scan ds place []).fields = [] := by
  cases ds with
  | nil => rfl
  | cons d ds => cases d <;> rfl

theorem scan_skip {set : List Byte} {text : List Byte} {f : Field} {fs : List Field}
    (h : (scan (.skip set :: ds) place text).fields = f :: fs) :
    ∃ n, (Directive.skip set).read text = .took none n ∧
      (scan ds (place + n) (text.drop n)).fields = f :: fs := by
  rw [scan] at h
  cases text with
  | nil => cases h
  | cons c text =>
    by_cases hc : c ∈ set
    · have hread : (Directive.skip set).read (c :: text) =
          .took none ((c :: text).takeWhile (· ∈ set)).length := if_pos hc
      rw [hread] at h
      exact ⟨_, hread, h⟩
    · have hread : (Directive.skip set).read (c :: text) = .mismatch := if_neg hc
      rw [hread] at h
      cases h

theorem scan_int {base : Base} {width : Option Nat} {text : List Byte} {f : Field}
    {fs : List Field} (h : (scan (.int base width :: ds) place text).fields = f :: fs) :
    ∃ n, (Directive.int base width).read text = .took (some f.value) n ∧ f.stop = place + n ∧
      (scan ds (place + n) (text.drop n)).fields = fs := by
  rw [scan] at h
  cases hd : (Directive.int base width).read text with
  | mismatch =>
    rw [hd] at h
    cases h
  | ended =>
    rw [hd] at h
    cases h
  | took v n =>
    obtain ⟨x, rfl⟩ := int_value hd
    rw [hd] at h
    cases h
    exact ⟨n, rfl, rfl, rfl⟩

/-- a format of numbers reads no fewer of them from a longer text -/
theorem scan_extend {a : List Byte} (hds : ∀ d ∈ ds, ∃ base width, d = .int base width)
    (b : List Byte) :
    (scan ds place a).fields.length ≤ (scan ds place (a ++ b)).fields.length := by
  induction ds generalizing place a with
  | nil => exact Nat.le_refl _
  | cons d ds ih =>
    obtain ⟨base, width, rfl⟩ := hds d List.mem_cons_self
    have hrest := fun d hd => hds d (List.mem_cons_of_mem _ hd)
    rw [scan]
    cases hd : (Directive.int base width).read a with
    | mismatch => exact Nat.zero_le _
    | ended => exact Nat.zero_le _
    | took v n =>
      obtain ⟨v', n', hd', hcut⟩ := int_extend hd b
      obtain ⟨x, rfl⟩ := int_value hd
      rw [scan, hd']
      refine Nat.succ_le_succ ?_
      have hcut' : Cut (a.drop n) → (scan ds (place + n) (a.drop n)).fields.length ≤
          (scan ds (place + n') ((a ++ b).drop n')).fields.length := by
        intro h
        rw [h.scan hrest]
        exact Nat.zero_le _
      rcases hcut with rfl | hcut
      · by_cases hn : n' ≤ a.length
        · rw [List.drop_append_of_le_length hn]
          exact ih hrest
        · exact hcut' (.inl (List.drop_eq_nil_iff.mpr (Nat.le_of_not_le hn)))
      · exact hcut' hcut

section
variable {set a : List Byte} {base : Base} {width : Option Nat} {f f' : Field} {fs : List Field}

/-- fields that are read behind a place are read inside the text -/
theorem lt_of_fields_drop {n : Nat} (h : (scan ds place (a.drop n)).fields = f :: fs) :
    n < a.length := by
  by_contra hle
  rw [List.drop_eq_nil_iff.mpr (Nat.le_of_not_lt hle), scan_nil] at h
  cases h

/-- what has been skipped before a number is skipped in a longer text -/
theorem skip_longer (h : (scan (.skip set :: ds) place a).fields = f :: fs) :
    ∃ place' x, (scan ds place' x).fields = f :: fs ∧
      ∀ b, (scan (.skip set :: ds) place (a ++ b)).fields = (scan ds place' (x ++ b)).fields := by
  obtain ⟨n, hread, hrest⟩ := scan_skip h
  refine ⟨place + n, a.drop n, hrest, fun b => ?_⟩
  have hn := lt_of_fields_drop hrest
  rw [scan, skip_extend hread hn b]
  show (scan ds (place + n) ((a ++ b).drop n)).fields = _
  rw [List.drop_append_of_le_length (Nat.le_of_lt hn)]

/-- a number with another one behind it is the same in a longer text -/
theorem int_longer (hds : ∀ d ∈ ds, ∃ base width, d = .int base width)
    (h : (scan (.int base width :: ds) place a).fields = f :: f' :: fs) :
    ∃ place' x, (scan ds place' x).fields = f' :: fs ∧
      ∀ b, (scan (.int base width :: ds) place (a ++ b)).fields =
        f :: (scan ds place' (x ++ b)).fields := by
  obtain ⟨n, hread, hstop, hrest⟩ := scan_int h
  refine ⟨place + n, a.drop n, hrest, fun b => ?_⟩
  have hn := lt_of_fields_drop hrest
  obtain ⟨v, n', hread', rfl | hcut⟩ := int_extend hread b
  · have hlocal := (read_local hread' (Nat.le_of_lt hn)).symm.trans hread
    obtain rfl : v = f.value := by injection hlocal with hv _; exact Option.some.inj hv
    rw [scan, hread']
    show Field.mk f.value (place + n') :: (scan ds (place + n') ((a ++ b).drop n')).fields = _
    rw [List.drop_append_of_le_length (Nat.le_of_lt hn), ← hstop]
  · rw [hcut.scan hds] at hrest
    cases hrest

/-- a digit is the same in a longer text -/
theorem one_longer (h : (scan (.int .decimal (some 1) :: ds) place a).fields = f :: fs)
    (b : List Byte) :
    ∃ fs', (scan (.int .decimal (some 1) :: ds) place (a ++ b)).fields = f :: fs' := by
  obtain ⟨n, hread, hstop, -⟩ := scan_int h
  refine ⟨(scan ds (place + n) ((a ++ b).drop n)).fields, ?_⟩
  rw [scan, one_extend hread b]
  show Field.mk f.value (place + n) :: _ = _
  rw [← hstop]

end

end

end Scanf
