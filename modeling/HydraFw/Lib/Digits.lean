import Mathlib.Data.Nat.Digits.Lemmas
import HydraFw.Lib.Scanf

/-!
# Numbers that are printed and scanned

`%d`, `%X` and `%0wX` of `printf`, for numbers without a sign, and what `sscanf` reads of them.

* `Base.print`      the digits, with zeros in front of them up to a width;
* `number_print`    a field of that width is the number again;
* `scan_print`      a directive of that width takes the number and leaves what is behind it;
* `sscanf_digits`   two hexadecimal digits, in either case, are the number of the two.
-/

namespace Scanf

/-- a digit, in upper case -/
def char (d : Nat) : Byte := BitVec.ofNat 8 (if d < 10 then 0x30 + d else 0x37 + d)

/-- at least `width` digits; `%d` and `%X` have at least one -/
def Base.print (base : Base) (width n : Nat) : List Byte :=
  (Nat.digitsAppend base.radix width n).reverse.map char

section
variable {base : Base} {width n : Nat} {rest : List Byte}

theorem radix_gt (base : Base) : 1 < base.radix := by
  cases base <;> decide

theorem digit_char {d : Nat} (h : d < base.radix) : base.digit (char d) = some d := by
  cases base with
  | decimal =>
    have hall : ∀ d < 10, Base.decimal.digit (char d) = some d := by decide
    exact hall d h
  | hex =>
    have hall : ∀ d < 16, Base.hex.digit (char d) = some d := by decide
    exact hall d h

/-- a digit is no sign, no white space, no NUL, and no letter behind the `f` -/
theorem char_plain {d : Nat} (h : d < base.radix) :
    isSign (char d) = false ∧ isSpace (char d) = false ∧ char d ≠ 0 ∧ (char d).toNat ≤ 0x46 := by
  have hall : ∀ d < 16,
      isSign (char d) = false ∧ isSpace (char d) = false ∧ char d ≠ 0 ∧ (char d).toNat ≤ 0x46 := by
    decide
  apply hall
  cases base with
  | decimal => exact Nat.lt_trans h (by decide)
  | hex => exact h

theorem print_length (h : n < base.radix ^ width) : (base.print width n).length = width := by
  rw [Base.print, List.length_map, List.length_reverse]
  exact Nat.length_digitsAppend (radix_gt base) width h

theorem mem_print {b : Byte} (h : b ∈ base.print width n) : ∃ d < base.radix, b = char d := by
  obtain ⟨d, hd, rfl⟩ := List.mem_map.mp h
  have hmem := List.mem_reverse.mp hd
  exact ⟨d, Nat.lt_of_mem_digitsAppend (radix_gt base) width d hmem, rfl⟩

theorem digits_chars (ds : List Nat) (h : ∀ d ∈ ds, d < base.radix) :
    base.digits (some ds.length) (ds.map char ++ rest) = ds := by
  induction ds with
  | nil =>
    cases rest with
    | nil => rfl
    | cons b rest => exact if_pos rfl
  | cons d ds ih =>
    obtain ⟨hd, hds⟩ := List.forall_mem_cons.mp h
    rw [List.map_cons, List.cons_append, Base.digits, if_neg (by simp), digit_char hd]
    show d :: base.digits (narrow (some (ds.length + 1)) 1) _ = _
    rw [narrow, Option.map_some, Nat.add_sub_cancel, ih hds]

/-- no number that is printed begins with a `0x` -/
theorem prefixed_chars {d : Nat} {ds : List Nat} (h : ∀ d' ∈ d :: ds, d' < base.radix) :
    base.prefixed (some (d :: ds).length) ((d :: ds).map char ++ rest) = false := by
  cases base with
  | decimal =>
    cases ds with
    | nil => cases rest <;> rfl
    | cons d' ds => rfl
  | hex =>
    cases ds with
    | nil =>
      cases rest with
      | nil => rfl
      | cons b rest => simp [Base.prefixed]
    | cons d' ds =>
      have hle := (@char_plain .hex d' (h d' (by simp))).2.2.2
      have hx : (decide (char d' = 0x78) || decide (char d' = 0x58)) = false := by
        rw [Bool.or_eq_false_iff, decide_eq_false_iff_not, decide_eq_false_iff_not]
        constructor
        · intro heq
          rw [heq] at hle
          exact absurd hle (by decide)
        · intro heq
          rw [heq] at hle
          exact absurd hle (by decide)
      show (decide (char d = 0x30) && (decide (char d' = 0x78) || decide (char d' = 0x58)) &&
        Option.all _ _) = false
      rw [hx, Bool.and_false, Bool.false_and]

/-- `digitsAppend` has the lowest digit first -/
theorem foldl_print : (Nat.digitsAppend base.radix width n).reverse.foldl
    (fun m d => m * base.radix + d) 0 = n := by
  have hvalue : Nat.ofDigits base.radix (Nat.digitsAppend base.radix width n) = n := by
    rw [Nat.digitsAppend, Nat.ofDigits_append_replicate_zero, Nat.ofDigits_digits]
  rw [Nat.ofDigits_eq_foldr] at hvalue
  rw [List.foldl_reverse]
  simpa only [Nat.cast_id, Nat.add_comm, Nat.mul_comm] using hvalue

theorem value_print (h : n < 2 ^ 31) :
    base.value false (Nat.digitsAppend base.radix width n).reverse = n := by
  cases base with
  | decimal =>
    rw [Base.value, foldl_print]
    show ((min n (2 ^ 31 - 1) : Nat) : Int) = n
    rw [Nat.min_eq_left (by omega)]
  | hex =>
    rw [Base.value, foldl_print]
    show (if 2 ^ 32 ≤ n then _ else _) = (n : Int)
    rw [if_neg (by omega)]
    rfl

/-- a number is read back from as many digits as it was printed with -/
theorem number_print (hwidth : width ≠ 0) (hn : n < base.radix ^ width) (h31 : n < 2 ^ 31) :
    base.number (some width) (base.print width n ++ rest) = some ((n : Int), width) := by
  have hvalue := @value_print base width n h31
  have hlen := Nat.length_digitsAppend (radix_gt base) width hn
  have hmem : ∀ d ∈ (Nat.digitsAppend base.radix width n).reverse, d < base.radix := fun d hd =>
    Nat.lt_of_mem_digitsAppend (radix_gt base) width d (List.mem_reverse.mp hd)
  rw [← List.length_reverse] at hlen
  rw [Base.print]
  generalize (Nat.digitsAppend base.radix width n).reverse = ds at hvalue hlen hmem
  cases ds with
  | nil => exact absurd hlen.symm hwidth
  | cons d ds =>
    have hsign := (char_plain (hmem d List.mem_cons_self)).1
    have hprefixed := @prefixed_chars base rest d ds hmem
    have hdigits := @digits_chars base rest (d :: ds) hmem
    rw [hlen] at hprefixed hdigits
    have hmagnitude := magnitude_plain hprefixed hdigits (List.cons_ne_nil d ds)
    rw [List.map_cons, List.cons_append] at hmagnitude ⊢
    rw [Base.number, if_neg (fun h => absurd (hsign.symm.trans h.1) Bool.false_ne_true), hmagnitude,
      Base.signed, hvalue, hlen, Nat.zero_add]

/-- **What is printed is scanned.** -/
theorem scan_print (hwidth : width ≠ 0) (hn : n < base.radix ^ width) (h31 : n < 2 ^ 31)
    (ds : List Directive) (place : Nat) :
    (scan (.int base (some width) :: ds) place (base.print width n ++ rest)).fields =
      ⟨n, place + width⟩ :: (scan ds (place + width) rest).fields := by
  have hlen := print_length hn
  have hread : (Directive.int base (some width)).read (base.print width n ++ rest) =
      .took (some n) width := by
    have hspaces : (base.print width n ++ rest).dropWhile isSpace = base.print width n ++ rest := by
      have hpos : 0 < (base.print width n).length := by omega
      obtain ⟨b, text, htext⟩ := List.exists_cons_of_length_pos hpos
      have hmem : b ∈ base.print width n := by
        rw [htext]
        exact List.mem_cons_self
      obtain ⟨d, hd, hb⟩ := mem_print hmem
      rw [htext, List.cons_append, List.dropWhile_cons_of_neg]
      rw [hb, (char_plain hd).2.1]
      exact Bool.false_ne_true
    have hne : base.print width n ++ rest ≠ [] := by
      intro h
      rw [(List.append_eq_nil_iff.mp h).1] at hlen
      exact hwidth hlen.symm
    rw [Directive.read, hspaces, if_neg hne, number_print hwidth hn h31, Nat.sub_self,
      Outcome.int, Nat.zero_add]
  have hdrop : (base.print width n ++ rest).drop width = rest := by
    rw [List.drop_append_of_le_length hlen.ge, List.drop_of_length_le hlen.le, List.nil_append]
  rw [scan, hread]
  show Field.mk n (place + width) :: (scan ds (place + width) (List.drop _ _)).fields = _
  rw [hdrop]

end

/-! ## two hexadecimal digits -/

section
variable {b c : Byte} {x y : Nat} {rest : List Byte}

/-- a digit in either case is no sign, no white space, no NUL and no `x` -/
theorem digit_plain (h : Base.hex.digit b = some x) :
    x < 16 ∧ b ≠ 0 ∧ isSpace b = false ∧ isSign b = false ∧ b ≠ 0x78 ∧ b ≠ 0x58 := by
  have hrange : x < 16 ∧ 0x30 ≤ b.toNat ∧ b.toNat ≤ 0x66 ∧ b.toNat ≠ 0x58 := by
    rw [Base.digit] at h
    split_ifs at h with h1 h2 h3
    · cases h
      omega
    · cases h
      omega
    · cases h
      omega
  obtain ⟨hlt, hlow, hhigh, hne⟩ := hrange
  have hspace : isSpace b = false := by
    rw [isSpace, Bool.or_eq_false_iff, ← Bool.decide_and, decide_eq_false_iff_not,
      decide_eq_false_iff_not]
    omega
  have hother : ∀ k : Byte, k.toNat < 0x30 ∨ 0x66 < k.toNat ∨ k.toNat = 0x58 → b ≠ k := by
    rintro k hk rfl
    omega
  refine ⟨hlt, hother 0 (by decide), hspace, ?_, hother 0x78 (by decide), hother 0x58 (by decide)⟩
  rw [isSign, decide_eq_false (hother 0x2b (by decide)), decide_eq_false (hother 0x2d (by decide))]
  rfl

/-- two digits are a number of two places -/
theorem sscanf_digits (hb : Base.hex.digit b = some x) (hc : Base.hex.digit c = some y) :
    (sscanf [.int .hex (some 2)] (b :: c :: rest)).values = [((16 * x + y : Nat) : Int)] := by
  obtain ⟨hx, hb0, hspace, hsign, -, -⟩ := digit_plain hb
  obtain ⟨hy, hc0, -, -, hcx, hcX⟩ := digit_plain hc
  have htext : string (b :: c :: rest) = b :: c :: string rest := by
    rw [string, List.takeWhile_cons_of_pos (by simpa using hb0),
      List.takeWhile_cons_of_pos (by simpa using hc0)]
    rfl
  have hprefixed : Base.hex.prefixed (some 2) (b :: c :: string rest) = false := by
    rw [Base.prefixed, decide_eq_false hcx, decide_eq_false hcX, Bool.or_false, Bool.and_false,
      Bool.false_and]
  have hdigits : Base.hex.digits (some 2) (b :: c :: string rest) = [x, y] := by
    have hend : Base.hex.digits (some 0) (string rest) = [] := by cases string rest <;> rfl
    rw [Base.digits, if_neg (by decide), hb]
    show x :: Base.hex.digits (some 1) (c :: string rest) = _
    rw [Base.digits, if_neg (by decide), hc]
    show [x, y] ++ Base.hex.digits (some 0) (string rest) = _
    rw [hend]
    rfl
  have hvalue : Base.hex.value false [x, y] = ((16 * x + y : Nat) : Int) := by
    show (if 2 ^ 32 ≤ (0 * 16 + x) * 16 + y then _ else (((0 * 16 + x) * 16 + y : Nat) : Int)) = _
    rw [if_neg (by omega)]
    omega
  have hnumber : Base.hex.number (some 2) (b :: c :: string rest) =
      some (((16 * x + y : Nat) : Int), 2) := by
    rw [Base.number, if_neg (fun h => absurd (hsign.symm.trans h.1) Bool.false_ne_true),
      magnitude_plain hprefixed hdigits (List.cons_ne_nil _ _), Base.signed, hvalue]
    rfl
  have hread : (Directive.int .hex (some 2)).read (b :: c :: string rest) =
      .took (some ((16 * x + y : Nat) : Int)) 2 := by
    rw [Directive.read, List.dropWhile_cons_of_neg (by rw [hspace]; exact Bool.false_ne_true),
      if_neg (List.cons_ne_nil _ _), hnumber, Nat.sub_self]
    rfl
  rw [sscanf, htext, scan, hread]
  rfl
end

end Scanf
