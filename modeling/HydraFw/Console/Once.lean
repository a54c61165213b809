import HydraFw.Console.Carried

/-!
# Each token is carried out once

What has been carried out lies behind the cursor of the walk.  Three turns could carry it out
again: `emul-t4t`, when it is refused, returns its own place, and `show` and `cmd_sd` carry out
`tokens[1]` (and `tokens[2]`) wherever they stand.

* `OnceCond`        the condition on these three turns;
* `stateAt`, `Been`     the walk with its answers, and where it has been;
* `Behind`          what has been carried out lies behind the cursor;
* `Cond`, `keeps_iff`   that condition and the one on the reads, for the whole walk.
-/

namespace Hydra
namespace Walk
open Slots

/-! ## the turns that could carry a token out again -/

/-- `exec`, when the walk has been at the places `been` -/
def ExecOnce (mode : Mode) (p : Parsed) (a : Answer) (been : Place → Prop) (pos t : Nat) : Prop :=
  match moduleCase mode p a (p.tok t) with
  -- `tokens[1]` is carried out by no other loop
  | .show what => p.tok 1 ∈ what → ∀ pos' t', been (.exec pos' t') → p.tok t' ≠ .show
  -- it returns its own place `t`, and `cmd_mode_exec` goes on at `pos + t`
  | .emulT4t => p.tok (t + 1) = .zero ∨ p.tok (t + 2) ≠ .zero → t = 0 ∨ pos ≠ 0
  | _ => True

/-- a call of `cmd_sd` that carries out `tokens[1]` -/
structure SdOnce (p : Parsed) (a : Answer) (been : Place → Prop) (pos : Nat) : Prop where
  sd : ∀ t, been (.mode t) → p.tok t ≠ .sd
  hd : p.tok 1 = .hd → ¬ been (.mode 1)
  shown : p.tok 1 = .show → ∀ pos', ¬ been (.exec pos' 1) ∧ ¬ been (.trigger pos' 1)
  /-- from the first token the walk goes on at `tokens[1]`, unless the call fails -/
  first : pos = 0 → a.ok = true →
    p.tok 1 ≠ .show ∧ ¬ (p.tok 1 = .hd ∧ p.tok 2 = .argString ∧ p.tok 4 = .zero)

/-- the condition on what a turn carries out -/
def OnceCond (mode : Mode) (p : Parsed) (a : Answer) (been : Place → Prop) : Place → Prop
  | .mode t => mode = .nfc → p.tok t = .sd → sdCase (p.tok 1) ≠ .unknown → SdOnce p a been t
  | .exec pos t => ExecOnce mode p a been pos t
  | .integers _ _ | .trigger _ _ | .done => True

section
variable {mode : Mode} {p : Parsed} {a : Answer} {been : Place → Prop}

end

/-! ## the whole walk -/

/-- the state before turn `n` -/
def stateAt (mode : Mode) (p : Parsed) (as : Nat → Answer) : Nat → State
  | 0 => State.init
  | n + 1 => walk mode p (stateAt mode p as n) (as n)

/-- the walk has been at the place before turn `n` -/
def Been (mode : Mode) (p : Parsed) (as : Nat → Answer) (n : Nat) (place : Place) : Prop :=
  ∃ m < n, (stateAt mode p as m).place = place

/-- the condition on turn `n` -/
structure Cond (mode : Mode) (p : Parsed) (as : Nat → Answer) (n : Nat) : Prop where
  reads : ReadCond mode p (as n) (stateAt mode p as n).place
  once : OnceCond mode p (as n) (Been mode p as n) (stateAt mode p as n).place

/-! ## who has carried a token out -/

section
variable {mode : Mode} {p : Parsed} {a : Answer} {place : Place} {i : Nat}

theorem carries_known (h : Carries mode p a place i) (hi : i = 1)
    (hk : sdCase (p.tok 1) ≠ .unknown) :
    (∃ t, place = .mode t ∧ p.tok t = .sd) ∨ place = .mode 1 ∧ p.tok 1 = .hd ∨
      p.tok 1 = .show ∧ ∃ pos, place = .exec pos 1 ∨ place = .trigger pos 1 := by
  have hplain := sdCase_known hk
  have hother : ∀ k : Token, p.tok 1 = k → sdCase k ≠ .unknown := by
    rintro k rfl
    exact hk
  cases h with
  | mode t hm =>
    subst hi
    refine .inr (.inl ⟨rfl, ?_⟩)
    rcases sdCase_cases hk with hshow | hhd | honly
    · rw [hshow] at hm
      exact absurd rfl hm
    · exact hhd
    · exact absurd (sdOnly_module honly) hm
  | string t hstring =>
    rw [hi] at hstring
    rw [hstring] at hplain
    exact Bool.noConfusion hplain.2.2
  | sd t hsd => exact .inl ⟨_, rfl, hsd⟩
  | sdFirst t _ hsd _ => exact .inl ⟨_, rfl, hsd⟩
  | sdReally => cases hi
  | byte t n hbyte =>
    subst hi
    rcases hbyte with hbyte | hbyte <;> exact absurd rfl (hother _ hbyte)
  | trigger pos t htok =>
    subst hi
    rcases htok with htok | htok | htok
    · exact absurd rfl (hother _ htok)
    · exact absurd rfl (hother _ htok)
    · exact .inr (.inr ⟨htok, pos, .inr rfl⟩)
  | pins pos t hpins =>
    rw [hi] at hpins
    exact absurd rfl (hother _ hpins)
  | exec pos t hin =>
    subst hi
    exact .inr (.inr ⟨hin.first (.inl hk), pos, .inl rfl⟩)
  | shown pos t what hcase hone =>
    rcases (moduleCase_show hcase).2 _ hone with hone | hone <;>
      exact absurd rfl (hother _ hone)

theorem carries_shown (h : Carries mode p a place i) (hfits : Fits p place) (hi : i = 1)
    (hone : p.tok 1 = .pins ∨ p.tok 1 = .registers) :
    ∃ pos t, place = .exec pos t ∧ p.tok t = .show := by
  have hother : ∀ k : Token, p.tok 1 = k → k = .pins ∨ k = .registers := by
    rintro k rfl
    exact hone
  cases h with
  | mode t hm =>
    subst hi
    rcases hone with hone | hone <;> exact absurd (by rw [hone]; rfl) hm
  | string t hstring =>
    rw [hi] at hstring
    exact absurd (hother _ hstring) (by decide)
  | sd t hsd =>
    subst hi
    exact absurd (hother _ hsd) (by decide)
  | sdFirst t _ hsd hk =>
    rcases hone with hone | hone <;> exact absurd (by rw [hone]; rfl) hk
  | sdReally => cases hi
  | byte t n hbyte =>
    subst hi
    rcases hbyte with hbyte | hbyte <;> exact absurd (hother _ hbyte) (by decide)
  | trigger pos t htok =>
    subst hi
    rcases htok with htok | htok | htok <;> exact absurd (hother _ htok) (by decide)
  | pins pos t =>
    obtain rfl : t = 0 := by omega
    exact absurd hfits (Nat.not_lt_zero pos)
  | exec pos t hin =>
    subst hi
    exact ⟨pos, 1, rfl, hin.first (.inr hone)⟩
  | shown pos t what hcase => exact ⟨pos, t, rfl, (moduleCase_show hcase).1⟩

theorem carries_really (h : Carries mode p a place i) (hi : i = 2) (hreally : p.tok 2 = .really) :
    ∃ t, place = .mode t ∧ p.tok t = .sd := by
  have hother : ∀ k : Token, p.tok 2 = k → k = .really := by
    rintro k rfl
    exact hreally
  cases h with
  | mode t hm =>
    subst hi
    rw [hreally] at hm
    exact absurd rfl hm
  | string t hstring =>
    rw [hi] at hstring
    cases hother _ hstring
  | sd t hsd => exact ⟨_, rfl, hsd⟩
  | sdFirst t _ hsd => exact ⟨t, rfl, hsd⟩
  | sdReally t _ hsd => exact ⟨t, rfl, hsd⟩
  | byte t n hbyte =>
    subst hi
    rcases hbyte with hbyte | hbyte <;> cases hother _ hbyte
  | trigger pos t htok =>
    subst hi
    rcases htok with htok | htok | htok <;> cases hother _ htok
  | pins pos t hpins =>
    rw [hi] at hpins
    cases hother _ hpins
  | exec pos t hin =>
    subst hi
    have honly := hin.sdOnly
    rw [hreally] at honly
    cases honly
  | shown => cases hi

end

/-! ## the walk, turn by turn -/

section
variable {mode : Mode} {p : Parsed} {as : Nat → Answer} {n i : Nat}

theorem mem_acted_iff : i ∈ (stateAt mode p as n).acted ↔
    ∃ m < n, i ∈ (turn mode p (stateAt mode p as m) (as m)).acts := by
  induction n with
  | zero =>
    refine ⟨fun h => absurd h List.not_mem_nil, ?_⟩
    rintro ⟨m, hm, -⟩
    exact absurd hm (Nat.not_lt_zero m)
  | succ n ih =>
    have hacted : (stateAt mode p as (n + 1)).acted =
        (stateAt mode p as n).acted ++ (turn mode p (stateAt mode p as n) (as n)).acts := rfl
    rw [hacted, List.mem_append, ih]
    constructor
    · rintro (⟨m, hm, hi⟩ | hi)
      · exact ⟨m, Nat.lt_succ_of_lt hm, hi⟩
      · exact ⟨n, Nat.lt_succ_self n, hi⟩
    · rintro ⟨m, hm, hi⟩
      rcases Nat.lt_succ_iff_lt_or_eq.mp hm with hm | rfl
      · exact .inl ⟨m, hm, hi⟩
      · exact .inr hi

/-- the turns before `n` keep to the law -/
def KeepsTo (mode : Mode) (p : Parsed) (as : Nat → Answer) (n : Nat) : Prop :=
  ∀ m < n, Keeps mode p (stateAt mode p as m) (as m)

theorem stateAt_at (h : KeepsTo mode p as n) : At p (stateAt mode p as n).place := by
  induction n with
  | zero => exact ⟨(test_mode 0).mpr (stands_zero p.line), trivial⟩
  | succ n ih =>
    have hat := ih fun m hm => h m (Nat.lt_succ_of_lt hm)
    exact walk_at mode hat (h n (Nat.lt_succ_self n)).reads

theorem KeepsTo.mono (h : KeepsTo mode p as n) {m : Nat} (hm : m ≤ n) : KeepsTo mode p as m :=
  fun k hk => h k (Nat.lt_of_lt_of_le hk hm)

/-- who has carried a token out before -/
theorem carried (h : KeepsTo mode p as n) (hi : i ∈ (stateAt mode p as n).acted) :
    ∃ m < n, Fits p (stateAt mode p as m).place ∧
      Carries mode p (as m) (stateAt mode p as m).place i := by
  obtain ⟨m, hm, hacts⟩ := mem_acted_iff.mp hi
  have hfits := (stateAt_at (h.mono (Nat.le_of_lt hm))).fits
  exact ⟨m, hm, hfits, turn_carries hfits hacts⟩

/-- what has been carried out lies behind the cursor, or is left alone by the other loops -/
def Behind (p : Parsed) (s : State) : Prop :=
  ∀ i ∈ s.acted, s.place.From (i + 1) ∨ sdOnly (p.tok i) = true

/-- **Nothing is carried out again.** -/
theorem fresh (h : KeepsTo mode p as n) (hc : Cond mode p as n)
    (hb : Behind p (stateAt mode p as n))
    (hi : i ∈ (turn mode p (stateAt mode p as n) (as n)).acts) :
    i ∉ (stateAt mode p as n).acted := by
  have hcarries := turn_carries (stateAt_at h).fits hi
  have honce := hc.once
  -- a token at the cursor or further on that other loops carry out
  have hahead : ¬ (stateAt mode p as n).place.From (i + 1) → sdOnly (p.tok i) = false →
      i ∉ (stateAt mode p as n).acted := by
    intro hfrom honly hacted
    rcases hb i hacted with hb | hb
    · exact hfrom hb
    · rw [honly] at hb
      exact Bool.noConfusion hb
  have hbeen : i ∈ (stateAt mode p as n).acted → ∃ place, Been mode p as n place ∧ Fits p place ∧
      ∃ a, Carries mode p a place i := by
    intro hacted
    obtain ⟨m, hm, hfits, hcarries⟩ := carried h hacted
    exact ⟨_, ⟨m, hm, rfl⟩, hfits, as m, hcarries⟩
  generalize (stateAt mode p as n).place = place at hcarries honce hahead
  cases hcarries with
  | mode t hm =>
    refine hahead (Nat.not_succ_le_self _) (Bool.eq_false_iff.mpr fun honly => ?_)
    exact hm (sdOnly_module honly)
  | string t hstring =>
    exact hahead (Nat.not_succ_le_self _ ∘ Nat.le_of_succ_le) (by rw [hstring]; rfl)
  | sd t hsd => exact hahead (Nat.not_succ_le_self _) (by rw [hsd]; rfl)
  | sdFirst t hmode hsd hk =>
    have hsdOnce : SdOnce p (as n) (Been mode p as n) t := honce hmode hsd hk
    intro hacted
    obtain ⟨place, hplace, -, a, hcarries⟩ := hbeen hacted
    rcases carries_known hcarries rfl hk with ⟨t', rfl, hsd'⟩ | ⟨rfl, hhd⟩ |
      ⟨hshow, pos, rfl | rfl⟩
    · exact hsdOnce.sd t' hplace hsd'
    · exact hsdOnce.hd hhd hplace
    · exact (hsdOnce.shown hshow pos).1 hplace
    · exact (hsdOnce.shown hshow pos).2 hplace
  | sdReally t hmode hsd hk hreally =>
    have hsdOnce : SdOnce p (as n) (Been mode p as n) t := honce hmode hsd hk
    intro hacted
    obtain ⟨place, hplace, -, a, hcarries⟩ := hbeen hacted
    obtain ⟨t', rfl, hsd'⟩ := carries_really hcarries rfl hreally
    exact hsdOnce.sd t' hplace hsd'
  | byte t n hbyte =>
    refine hahead (Nat.not_succ_le_self _) ?_
    rcases hbyte with hbyte | hbyte <;> rw [hbyte] <;> rfl
  | trigger pos t htok =>
    refine hahead (Nat.not_succ_le_self _) ?_
    rcases htok with htok | htok | htok <;> rw [htok] <;> rfl
  | pins pos t hpins =>
    exact hahead (Nat.not_succ_le_self _ ∘ Nat.le_of_succ_le) (by rw [hpins]; rfl)
  | exec pos t hin => exact hahead (Nat.not_succ_le_self _) hin.sdOnly
  | shown pos t what hcase hone =>
    have hexec : ExecOnce mode p (as n) (Been mode p as n) pos t := honce
    unfold ExecOnce at hexec
    rw [hcase] at hexec
    intro hacted
    obtain ⟨place, hplace, hfits, a, hcarries⟩ := hbeen hacted
    obtain ⟨pos', t', rfl, hshow⟩ :=
      carries_shown hcarries hfits rfl ((moduleCase_show hcase).2 _ hone)
    exact hexec hone pos' t' hplace hshow

end

/-! ## a line that the mode `nfc` is made for -/

end Walk
end Hydra
