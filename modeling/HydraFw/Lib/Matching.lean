import Mathlib.Data.List.Basic
import Mathlib.Data.List.Infix
import Mathlib.Data.List.TakeWhile

/-!
# Search for a pattern in a stream

* `EndsAt p s k`      `p` has just occurred after `k` elements of `s`;
* `FirstEnd p s k`    and it has not occurred before;
* `scan p i s`        the search that keeps only the number `i` of elements it has matched, and at
                      a mismatch takes up the pattern from its start behind the element read;
* `Misses p w`        `w` splits into failed comparisons of that search;
* `scan_iff`          the search stops behind the occurrences that failed comparisons lead up to;
* `scan_first_iff`    it finds the first occurrence exactly when they lead up to that one;
* `scan_all_iff`      it does so in every stream exactly for the patterns of one repeated element.
-/

namespace Matching

variable {α : Type*}

def EndsAt (p s : List α) (k : Nat) : Prop := k ≤ s.length ∧ p <:+ s.take k

def FirstEnd (p s : List α) (k : Nat) : Prop := EndsAt p s k ∧ ∀ j < k, ¬ EndsAt p s j

/-- a failed comparison is a proper prefix of the pattern and an element that does not go on -/
inductive Misses (p : List α) : List α → Prop
  | nil : Misses p []
  | cons {k : Nat} {c : α} {w : List α} (hk : k < p.length) (hc : p[k]? ≠ some c)
      (hw : Misses p w) : Misses p (p.take k ++ c :: w)

section
variable {p s : List α} {k : Nat}

theorem endsAt_iff : EndsAt p s k ↔ k ≤ s.length ∧ ∃ w, s.take k = w ++ p := by
  constructor
  · rintro ⟨hk, w, hw⟩
    exact ⟨hk, w, hw.symm⟩
  · rintro ⟨hk, w, hw⟩
    exact ⟨hk, w, hw.symm⟩

theorem endsAt_append (w p r : List α) : EndsAt p (w ++ p ++ r) (w.length + p.length) := by
  constructor
  · simp
  · rw [← List.length_append, List.take_left]
    exact List.suffix_append w p

theorem EndsAt.length_le (h : EndsAt p s k) : p.length ≤ k := by
  have := h.2.length_le
  rw [List.length_take] at this
  omega

/-- an occurrence behind `w` is one in the whole -/
theorem EndsAt.append_left (w : List α) (h : EndsAt p s k) : EndsAt p (w ++ s) (w.length + k) := by
  constructor
  · rw [List.length_append]
    exact Nat.add_le_add_left h.1 _
  · rw [List.take_length_add_append]
    exact h.2.trans (List.suffix_append w _)

theorem FirstEnd.append_left {w : List α} (h : FirstEnd p (w ++ s) (w.length + k))
    (hk : EndsAt p s k) : FirstEnd p s k := by
  refine ⟨hk, fun j hj hend => ?_⟩
  exact h.2 (w.length + j) (by omega) (hend.append_left w)

/-- where the pattern occurs, it occurs first -/
theorem EndsAt.first (h : EndsAt p s k) : ∃ j ≤ k, FirstEnd p s j := by
  induction k using Nat.strong_induction_on with
  | _ k ih =>
    by_cases hex : ∃ j < k, EndsAt p s j
    · obtain ⟨j, hj, hend⟩ := hex
      obtain ⟨i, hi, hfirst⟩ := ih j hj hend
      exact ⟨i, by omega, hfirst⟩
    · exact ⟨k, le_rfl, h, fun j hj hend => hex ⟨j, hj, hend⟩⟩

end

section
variable {p : List α} {i : Nat} {b : α}

theorem take_hit (h : p[i]? = some b) (t : List α) :
    p.take i ++ b :: t = p.take (i + 1) ++ t := by
  obtain ⟨hi, rfl⟩ := List.getElem?_eq_some_iff.mp h
  rw [List.take_succ_eq_append_getElem hi, List.append_assoc, List.singleton_append]

/-- the element at `i` of a text that begins with `i` elements of the pattern -/
theorem getElem?_read (hi : i < p.length) (t : List α) : (p.take i ++ b :: t)[i]? = some b := by
  have hlen : (p.take i).length = i := List.length_take_of_le (Nat.le_of_lt hi)
  rw [List.getElem?_append_right (Nat.le_of_eq hlen), hlen, Nat.sub_self]
  rfl

theorem getElem?_matched {j : Nat} (hji : j < i) (hi : i < p.length) (t : List α) :
    (p.take i ++ t)[j]? = p[j]? := by
  rw [List.getElem?_append_left (by rw [List.length_take]; omega), List.getElem?_take_of_lt hji]

/-- a comparison that fails is the first of the failed comparisons that the text splits into -/
theorem Misses.of_miss {t w : List α} (hi : i < p.length) (hb : p[i]? ≠ some b)
    (hw : Misses p w) (h : p.take i ++ b :: t = w ++ p) :
    ∃ w', w = p.take i ++ b :: w' ∧ Misses p w' ∧ t = w' ++ p := by
  cases hw with
  | nil =>
    refine absurd ?_ hb
    rw [← getElem?_read hi t, h, List.nil_append]
  | @cons k c w' hk hc hw' =>
    rw [List.append_assoc, List.cons_append] at h
    rcases Nat.lt_trichotomy k i with hlt | rfl | hlt
    · refine absurd ?_ hc
      rw [← getElem?_read (b := c) hk (w' ++ p), ← h, getElem?_matched hlt hi]
    · obtain ⟨hbc, htail⟩ := List.cons.inj (List.append_cancel_left h)
      exact ⟨w', by rw [hbc], hw', htail⟩
    · refine absurd ?_ hb
      rw [← getElem?_read (b := b) hi t, h, getElem?_matched hlt hk]

/-- a text that begins with the pattern does not begin with a failed comparison -/
theorem Misses.of_hit {t w : List α} (hw : Misses p w) (h : p ++ t = w ++ p) : w = [] := by
  cases hw with
  | nil => rfl
  | @cons k c w' hk hc hw' =>
    refine absurd ?_ hc
    rw [List.append_assoc, List.cons_append] at h
    rw [← getElem?_read (b := c) hk (w' ++ p), ← h, List.getElem?_append_left hk]

theorem Misses.head {b : α} (h : Misses p [b]) : p[0]? ≠ some b := by
  generalize hw : [b] = w at h
  cases h with
  | nil => cases hw
  | @cons k c w hk hc _ =>
    obtain ⟨q, hq⟩ : ∃ q, q = p.take k := ⟨_, rfl⟩
    rw [← hq] at hw
    cases q with
    | nil =>
      obtain rfl : k = 0 := by
        have := congrArg List.length hq
        rw [List.length_take] at this
        simp only [List.length_nil] at this
        omega
      obtain ⟨rfl, -⟩ := List.cons.inj hw
      exact hc
    | cons d q =>
      have := congrArg List.length hw
      simp at this

theorem eq_replicate_of_shift {a : α} {q : List α} (h : q = (a :: q).take q.length) :
    q = List.replicate q.length a := by
  induction q with
  | nil => rfl
  | cons b q ih =>
    rw [List.length_cons, List.take_succ_cons] at h
    obtain ⟨rfl, hq⟩ := List.cons.inj h
    rw [List.length_cons, List.replicate_succ, ← ih hq]

end

/-! ## the search -/

variable [DecidableEq α]

instance (p s : List α) (k : Nat) : Decidable (EndsAt p s k) :=
  inferInstanceAs (Decidable (_ ∧ _))

instance (p s : List α) (k : Nat) : Decidable (FirstEnd p s k) :=
  inferInstanceAs (Decidable (_ ∧ _))

def next (p : List α) (i : Nat) (b : α) : Nat := if p[i]? = some b then i + 1 else 0

/-- how many elements are read when the whole pattern is matched -/
def scan (p : List α) : Nat → List α → Option Nat
  | _, [] => none
  | i, b :: s => if next p i b = p.length then some 1 else (scan p (next p i b) s).map (· + 1)

section
variable {p : List α} {i : Nat} {b : α}

theorem next_hit (h : p[i]? = some b) : next p i b = i + 1 := if_pos h
theorem next_miss (h : p[i]? ≠ some b) : next p i b = 0 := if_neg h

theorem scan_hit_last {s : List α} (h : p[i]? = some b) (hi : i + 1 = p.length) :
    scan p i (b :: s) = some 1 := by
  rw [scan, next_hit h, if_pos hi]

theorem scan_hit {s : List α} (h : p[i]? = some b) (hi : i + 1 ≠ p.length) :
    scan p i (b :: s) = (scan p (i + 1) s).map (· + 1) := by
  rw [scan, next_hit h, if_neg hi]

theorem scan_miss {s : List α} (h : p[i]? ≠ some b) (hp : 0 < p.length) :
    scan p i (b :: s) = (scan p 0 s).map (· + 1) := by
  rw [scan, next_miss h, if_neg (by omega)]

/-- `scan` stops behind the occurrences that failed comparisons lead up to -/
theorem scan_iff {s : List α} {k : Nat} (hi : i < p.length) :
    scan p i s = some k ↔
      k ≤ s.length ∧ ∃ w, Misses p w ∧ p.take i ++ s.take k = w ++ p := by
  induction s generalizing i k with
  | nil =>
    refine ⟨fun h => absurd h (by simp [scan]), ?_⟩
    rintro ⟨-, w, -, h⟩
    have := congrArg List.length h
    simp only [List.take_nil, List.append_nil, List.length_take, List.length_append] at this
    omega
  | cons b s ih =>
    cases k with
    | zero =>
      constructor
      · intro h
        by_cases hb : p[i]? = some b
        · by_cases hlast : i + 1 = p.length
          · simp [scan_hit_last hb hlast] at h
          · simp [scan_hit hb hlast] at h
        · simp [scan_miss hb (by omega)] at h
      · rintro ⟨-, w, -, h⟩
        have := congrArg List.length h
        simp only [List.take_zero, List.append_nil, List.length_take, List.length_append] at this
        omega
    | succ k =>
      rw [List.length_cons, Nat.succ_le_succ_iff, List.take_succ_cons]
      by_cases hb : p[i]? = some b
      · rw [take_hit hb]
        by_cases hlast : i + 1 = p.length
        · rw [scan_hit_last hb hlast, hlast, List.take_length]
          constructor
          · intro h
            obtain rfl : k = 0 := by simpa using h
            exact ⟨Nat.zero_le _, [], .nil, by simp⟩
          · rintro ⟨hk, w, hw, h⟩
            obtain rfl := hw.of_hit h
            have := congrArg List.length h
            simp only [List.length_append, List.length_take, List.length_nil] at this
            obtain rfl : k = 0 := by omega
            rfl
        · rw [scan_hit hb hlast, Option.map_eq_some_iff, ← ih (by omega)]
          simp
      · rw [scan_miss hb (by omega), Option.map_eq_some_iff]
        have hzero := ih (i := 0) (k := k) (by omega)
        rw [List.take_zero, List.nil_append] at hzero
        constructor
        · rintro ⟨j, hj, hjk⟩
          obtain rfl : j = k := by omega
          obtain ⟨hk, w, hw, h⟩ := hzero.mp hj
          exact ⟨hk, p.take i ++ b :: w, .cons hi hb hw, by rw [h]; simp⟩
        · rintro ⟨hk, w, hw, h⟩
          obtain ⟨w', -, hw', h'⟩ := hw.of_miss hi hb h
          exact ⟨k, hzero.mpr ⟨hk, w', hw', h'⟩, rfl⟩

theorem scan_zero_iff {s : List α} {k : Nat} (hp : 0 < p.length) :
    scan p 0 s = some k ↔ k ≤ s.length ∧ ∃ w, Misses p w ∧ s.take k = w ++ p := by
  rw [scan_iff hp, List.take_zero]
  rfl

theorem scan_endsAt {s : List α} {k : Nat} (hp : 0 < p.length) (h : scan p 0 s = some k) :
    EndsAt p s k := by
  obtain ⟨hk, w, -, hw⟩ := (scan_zero_iff hp).mp h
  exact endsAt_iff.mpr ⟨hk, w, hw⟩

/-- **The search without fallback.**  It finds the first occurrence, and nothing else, exactly when
failed comparisons lead up to the first occurrence. -/
theorem scan_first_iff (hp : 0 < p.length) (s : List α) :
    (∀ k, scan p 0 s = some k ↔ FirstEnd p s k) ↔
      ∀ w r, s = w ++ p ++ r → FirstEnd p s (w.length + p.length) → Misses p w := by
  constructor
  · rintro hright w r rfl hfirst
    obtain ⟨-, w', hw', h⟩ := (scan_zero_iff hp).mp ((hright _).mpr hfirst)
    rw [← List.length_append, List.take_left] at h
    rwa [List.append_cancel_right h]
  · intro hled
    have hfinds : ∀ k, FirstEnd p s k → scan p 0 s = some k := by
      intro k hfirst
      obtain ⟨hk, w, hw⟩ := endsAt_iff.mp hfirst.1
      have hlen : k = w.length + p.length := by
        rw [← List.length_append, ← hw, List.length_take_of_le hk]
      have hs : s = w ++ p ++ s.drop k := by rw [← hw, List.take_append_drop]
      refine (scan_zero_iff hp).mpr ⟨hk, w, hled w (s.drop k) hs ?_, hw⟩
      rwa [← hlen]
    intro k
    refine ⟨fun h => ?_, hfinds k⟩
    obtain ⟨j, -, hfirst⟩ := (scan_endsAt hp h).first
    have hj := hfinds j hfirst
    rw [h] at hj
    rwa [Option.some.inj hj]

/-! ## patterns of one element -/

/-- a first occurrence of `a` repeated has failed comparisons before it only -/
theorem misses_replicate {n : Nat} {a : α} (w r : List α)
    (h : FirstEnd (List.replicate n a) (w ++ List.replicate n a ++ r) (w.length + n)) :
    Misses (List.replicate n a) w := by
  induction hlen : w.length using Nat.strong_induction_on generalizing w with
  | _ len ih =>
    subst hlen
    have hsplit := List.takeWhile_append_dropWhile (p := fun x => decide (x = a)) (l := w)
    obtain ⟨k, hk⟩ : ∃ k, w.takeWhile (fun x => decide (x = a)) = List.replicate k a := by
      refine ⟨_, List.eq_replicate_of_mem fun x hx => ?_⟩
      simpa using List.mem_takeWhile_imp hx
    cases hd : w.dropWhile (fun x => decide (x = a)) with
    | nil =>
      cases k with
      | zero =>
        rw [hk, hd] at hsplit
        rw [← hsplit]
        exact .nil
      | succ k =>
        -- the pattern occurs one element earlier
        rw [hk, hd, List.append_nil] at hsplit
        refine absurd ?_ (h.2 (k + n) (by rw [← hsplit]; simp))
        have hshift : w ++ List.replicate n a ++ r
            = List.replicate k a ++ List.replicate n a ++ a :: r := by
          rw [← hsplit, ← List.replicate_add, ← List.replicate_add, ← List.singleton_append,
            ← List.replicate_one, ← List.append_assoc, ← List.replicate_add]
          congr 2
          omega
        have hend := endsAt_append (List.replicate k a) (List.replicate n a) (a :: r)
        rw [← hshift, List.length_replicate, List.length_replicate] at hend
        exact hend
    | cons c w' =>
      rw [hk, hd] at hsplit
      have hc : c ≠ a := by
        have := List.head_dropWhile_not (fun x => decide (x = a)) (l := w) (by simp [hd])
        simpa [hd] using this
      have hkn : k < n := by
        by_contra hge
        refine h.2 n (by rw [← hsplit, List.length_append, List.length_cons]; omega) ?_
        have hend := endsAt_append [] (List.replicate n a)
          (List.replicate (k - n) a ++ c :: w' ++ List.replicate n a ++ r)
        rw [List.length_nil, Nat.zero_add, List.length_replicate] at hend
        have hsame : w ++ List.replicate n a ++ r = [] ++ List.replicate n a
            ++ (List.replicate (k - n) a ++ c :: w' ++ List.replicate n a ++ r) := by
          rw [← hsplit, List.nil_append, ← List.append_assoc, ← List.append_assoc,
            ← List.append_assoc, ← List.replicate_add, Nat.add_sub_cancel' (by omega)]
        rw [hsame]
        exact hend
      have htake : (List.replicate n a).take k = List.replicate k a := by
        rw [List.take_replicate, Nat.min_eq_left (Nat.le_of_lt hkn)]
      rw [← hsplit, ← htake]
      refine .cons (by rwa [List.length_replicate]) ?_ (ih w'.length ?_ w' ?_ rfl)
      · rw [List.getElem?_replicate, if_pos hkn]
        exact fun heq => hc (Option.some.inj heq).symm
      · rw [← hsplit, List.length_append, List.length_cons]
        omega
      · rw [← hsplit] at h
        refine FirstEnd.append_left (w := List.replicate k a ++ [c]) ?_ ?_
        · have hlen : (List.replicate k a ++ [c]).length + (w'.length + n)
              = (List.replicate k a ++ c :: w').length + n := by
            simp only [List.length_append, List.length_cons, List.length_nil]
            omega
          rw [hlen]
          simpa using h
        · have hend := endsAt_append w' (List.replicate n a) r
          rwa [List.length_replicate] at hend

/-- **When the search without fallback is enough.** -/
theorem scan_all_iff (hp : 0 < p.length) :
    (∀ s k, scan p 0 s = some k ↔ FirstEnd p s k) ↔ ∃ a, p = List.replicate p.length a := by
  constructor
  · intro hright
    obtain ⟨a, q, rfl⟩ : ∃ a q, p = a :: q := List.exists_cons_of_length_pos hp
    -- in the pattern with its first element put before it
    have hled := (scan_first_iff hp (a :: a :: q)).mp (hright _) [a] [] (by simp)
    have hend := endsAt_append [a] (a :: q) []
    obtain ⟨j, hj, hfirst⟩ := hend.first
    have hlen := hfirst.1.length_le
    rw [List.length_cons] at hj hlen
    by_cases hlast : j = [a].length + (a :: q).length
    · refine absurd rfl (hled ?_).head
      rwa [← hlast, ← List.append_nil (a :: a :: q)]
    · -- the pattern is its own text moved by one
      obtain rfl : j = q.length + 1 := by
        simp only [List.length_cons, List.length_nil] at hj hlast
        omega
      have hsuff := hfirst.1.2.eq_of_length (by simp)
      rw [List.singleton_append, List.append_nil, List.take_succ_cons] at hsuff
      refine ⟨a, ?_⟩
      rw [List.length_cons, List.replicate_succ, ← eq_replicate_of_shift (List.cons.inj hsuff).2]
  · rintro ⟨a, ha⟩ s
    refine (scan_first_iff hp s).mpr ?_
    rw [ha]
    rintro w r rfl hfirst
    rw [List.length_replicate] at hfirst
    exact misses_replicate w r hfirst

end

end Matching
