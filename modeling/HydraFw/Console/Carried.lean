import HydraFw.Console.Walk
import Mathlib.Data.List.Nodup

/-!
# What a turn of the walk carries out

A turn carries out the token at its place.  Beyond that a mode looks at the string behind it,
`filter` at `pins`, `show` at `tokens[1]`, and `cmd_sd` at `tokens[1]` and `tokens[2]`.  No turn
carries a token out twice, and the cursor never goes back.

* `InExec`          the tokens that the loop of `exec` does something for;
* `Place.From`      the cursor is at a token or further on, `turn_forward`;
* `Carries`         what a turn may carry out, `turn_carries`;
* `turn_nodup`      no token twice in a turn;
* `exec_acts_own` and its like      the turns that do carry a token out.
-/

namespace Hydra
namespace Walk
open Slots

/-! ## the switches -/

/-- a token that only `cmd_sd` carries out -/
def sdOnly : Token → Bool
  | .mount | .umount | .ls | .pwd | .testperf | .cd | .cat | .script | .erase | .rm | .mkdir
  | .really => true
  | _ => false

theorem sdOnly_module {t : Token} (h : sdOnly t = true) : modeCase t = .module := by
  cases t <;> first | rfl | exact Bool.noConfusion h

/-- `show` and `hd` are carried out by other loops too -/
theorem sdCase_cases {t : Token} (h : sdCase t ≠ .unknown) :
    t = .show ∨ t = .hd ∨ sdOnly t = true := by
  cases t <;> first
    | exact absurd rfl h
    | exact .inl rfl
    | exact .inr (.inl rfl)
    | exact .inr (.inr rfl)

/-- the loop of `exec` does something for the token -/
def InExec (mode : Mode) (p : Parsed) (a : Answer) (t : Token) : Prop :=
  moduleCase mode p a t ≠ .ignored ∧ moduleCase mode p a t ≠ .unknown

theorem InExec.sdOnly {mode : Mode} {p : Parsed} {a : Answer} {t : Token}
    (h : InExec mode p a t) : sdOnly t = false := by
  cases mode <;> cases t <;> first
    | rfl
    | exact absurd rfl h.1
    | exact absurd rfl h.2

/-- of the tokens that `cmd_sd` or `show` looks at, the loop of `exec` only knows `show` -/
theorem InExec.first {mode : Mode} {p : Parsed} {a : Answer} {t : Token}
    (h : InExec mode p a t) (ht : sdCase t ≠ .unknown ∨ t = .pins ∨ t = .registers) :
    t = .show := by
  cases mode <;> cases t <;> first
    | rfl
    | exact absurd rfl h.1
    | exact absurd rfl h.2
    | exact ht.elim (absurd rfl) fun h => by rcases h with h | h <;> cases h

theorem moduleCase_show {mode : Mode} {p : Parsed} {a : Answer} {t : Token} {what : List Token}
    (h : moduleCase mode p a t = .show what) :
    t = .show ∧ ∀ x ∈ what, x = .pins ∨ x = .registers := by
  cases mode <;> cases t <;> cases h <;> exact ⟨rfl, by decide⟩

/-- the cursor is at `k` or further on -/
def Place.From (k : Nat) : Place → Prop
  | .mode t | .integers t _ | .trigger _ t | .exec _ t => k ≤ t
  | .done => True

theorem Place.From.mono {place : Place} {k n : Nat} (h : place.From n) (hk : k ≤ n) :
    place.From k := by
  cases place with
  | done => trivial
  | _ => exact Nat.le_trans hk h

section
variable {p : Parsed} {t : Nat}

end

/-! ## what a turn carries out -/

/-- the token `i` may be carried out by a turn at the place -/
inductive Carries (mode : Mode) (p : Parsed) (a : Answer) : Place → Nat → Prop
  | mode (t : Nat) : modeCase (p.tok t) ≠ .module → Carries mode p a (.mode t) t
  | string (t : Nat) : p.tok (t + 1) = .argString → Carries mode p a (.mode t) (t + 1)
  | sd (t : Nat) : p.tok t = .sd → Carries mode p a (.mode t) t
  | sdFirst (t : Nat) : mode = .nfc → p.tok t = .sd → sdCase (p.tok 1) ≠ .unknown →
    Carries mode p a (.mode t) 1
  | sdReally (t : Nat) : mode = .nfc → p.tok t = .sd → sdCase (p.tok 1) ≠ .unknown →
    p.tok 2 = .really → Carries mode p a (.mode t) 2
  | byte (t numBytes : Nat) : p.tok t = .argUint ∨ p.tok t = .tilde →
    Carries mode p a (.integers t numBytes) t
  | trigger (pos t : Nat) : p.tok t = .filter ∨ p.tok t = .start ∨ p.tok t = .show →
    Carries mode p a (.trigger pos t) t
  | pins (pos t : Nat) : p.tok (t + 1) = .pins → Carries mode p a (.trigger pos t) (t + 1)
  | exec (pos t : Nat) : InExec mode p a (p.tok t) → Carries mode p a (.exec pos t) t
  | shown (pos t : Nat) (what : List Token) : moduleCase mode p a (p.tok t) = .show what →
    p.tok 1 ∈ what → Carries mode p a (.exec pos t) 1

section
variable {mode : Mode} {p : Parsed} {a : Answer} {t i : Nat}

theorem write_acts (acts : List Nat) (t : Nat) :
    (hydrabusModeWrite p acts t).acts = if p.tok t = .argString then t :: acts else acts := by
  unfold hydrabusModeWrite Turn.to
  cases htok : p.tok t <;> rfl

theorem chompCount_acts (reads : List Read) (acts : List Nat) (t numBytes : Nat) :
    (chompCount p reads acts t numBytes).acts = acts := by
  unfold chompCount chompTest Turn.to
  by_cases hc : p.tok t = .argTokenSuffixInt
  · simp only [if_pos hc]
    split_ifs <;> rfl
  · rw [if_neg hc]
    split_ifs <;> rfl

theorem integers_acts (t numBytes : Nat) : (chompIntegers p t numBytes).acts = [t] := by
  unfold chompIntegers
  split_ifs
  · exact chompCount_acts ..
  · rfl
  · exact chompCount_acts ..

theorem trigger_acts {pos : Nat} (hi : i ∈ (cmdTrigger p pos t).acts) :
    Carries mode p a (.trigger pos t) i := by
  unfold cmdTrigger at hi
  split at hi
  · cases hi
  · next htok =>
    obtain rfl := List.mem_singleton.mp hi
    exact .trigger pos i (.inl htok)
  · next htok =>
    obtain rfl := List.mem_singleton.mp hi
    exact .trigger pos i (.inr (.inl htok))
  · next htok =>
    split_ifs at hi with hpins
    · rcases List.mem_cons.mp hi with rfl | hi
      · exact .trigger pos i (.inr (.inr htok))
      · obtain rfl := List.mem_singleton.mp hi
        exact .pins pos t hpins
    · obtain rfl := List.mem_singleton.mp hi
      exact .trigger pos i (.inr (.inr htok))
  · cases hi

theorem exec_acts_eq (pos : Nat) (hz : p.tok t ≠ .zero) :
    (moduleExec mode p a pos t).acts = match moduleCase mode p a (p.tok t) with
      | .ignored | .unknown => []
      | .show what => if p.tok 1 ∈ what then [t, 1] else [t]
      | _ => [t] := by
  unfold moduleExec
  rw [if_neg hz]
  cases moduleCase mode p a (p.tok t) with
  | plain | ignored | unknown | skip | file => rfl
  | «show» | value | typed | uri | readMfUltralight | emulT4t =>
    simp only
    split_ifs <;> rfl

theorem exec_acts {pos : Nat} (hi : i ∈ (moduleExec mode p a pos t).acts) :
    Carries mode p a (.exec pos t) i := by
  by_cases hz : p.tok t = .zero
  · unfold moduleExec at hi
    rw [if_pos hz] at hi
    cases hi
  have hown : InExec mode p a (p.tok t) → i ∈ [t] → Carries mode p a (.exec pos t) i := by
    intro hin hi
    obtain rfl := List.mem_singleton.mp hi
    exact .exec pos i hin
  rw [exec_acts_eq pos hz] at hi
  cases hcase : moduleCase mode p a (p.tok t) with
  | ignored | unknown =>
    rw [hcase] at hi
    cases hi
  | «show» what =>
    have hin : InExec mode p a (p.tok t) := by
      rw [InExec, hcase]
      exact ⟨ModuleCase.noConfusion, ModuleCase.noConfusion⟩
    rw [hcase] at hi
    by_cases h1 : p.tok 1 ∈ what
    · simp only [if_pos h1] at hi
      rcases List.mem_cons.mp hi with rfl | hi
      · exact .exec pos i hin
      · obtain rfl := List.mem_singleton.mp hi
        exact .shown pos t what hcase h1
    · simp only [if_neg h1] at hi
      exact hown hin hi
  | _ =>
    rw [hcase] at hi
    apply hown _ hi
    rw [InExec, hcase]
    exact ⟨ModuleCase.noConfusion, ModuleCase.noConfusion⟩

/-- what `cmd_sd` carries out -/
theorem sd_acts_eq (pos : Nat) :
    (cmdSd p a pos).acts = match sdCase (p.tok 1) with
      | .unknown => [pos]
      | .erase => if p.tok 2 = .really ∧ p.tok 3 = .zero then [pos, 1, 2] else [pos, 1]
      | _ => [pos, 1] := by
  unfold cmdSd
  cases sdCase (p.tok 1) with
  | plain | unknown => rfl
  | named | remove =>
    simp only
    split_ifs <;> rfl
  | erase =>
    by_cases hz : p.tok 2 = .zero
    · simp [hz, sdReturns, execReturns, Turn.to]
    by_cases hr : p.tok 2 = .really
    · by_cases h3 : p.tok 3 = .zero <;> simp [hr, h3, sdReturns, execReturns, Turn.to]
    · simp [hz, hr, sdReturns, execReturns, Turn.to]

theorem sd_acts_cases (pos : Nat) (hi : i ∈ (cmdSd p a pos).acts) :
    i = pos ∨ sdCase (p.tok 1) ≠ .unknown ∧ (i = 1 ∨ i = 2 ∧ p.tok 2 = .really) := by
  rw [sd_acts_eq] at hi
  cases hcase : sdCase (p.tok 1) with
  | unknown =>
    rw [hcase] at hi
    exact .inl (List.mem_singleton.mp hi)
  | erase =>
    rw [hcase] at hi
    by_cases hr : p.tok 2 = .really ∧ p.tok 3 = .zero
    · simp only [if_pos hr, List.mem_cons, List.not_mem_nil, or_false] at hi
      exact hi.imp_right fun hi => ⟨SdCase.noConfusion, hi.imp_right fun hi => ⟨hi, hr.1⟩⟩
    · simp only [if_neg hr, List.mem_cons, List.not_mem_nil, or_false] at hi
      exact hi.imp_right fun hi => ⟨SdCase.noConfusion, .inl hi⟩
  | _ =>
    rw [hcase] at hi
    simp only [List.mem_cons, List.not_mem_nil, or_false] at hi
    exact hi.imp_right fun hi => ⟨SdCase.noConfusion, .inl hi⟩

theorem mode_acts (hi : i ∈ (cmdModeExec mode p a t).acts) : Carries mode p a (.mode t) i := by
  unfold cmdModeExec at hi
  split at hi
  · cases hi
  have hown : modeCase (p.tok t) ≠ .module → i ∈ [t] → Carries mode p a (.mode t) i := by
    intro hm hi
    obtain rfl := List.mem_singleton.mp hi
    exact .mode i hm
  cases hcase : modeCase (p.tok t) with
  | plain =>
    rw [hcase] at hi hown
    exact hown ModeCase.noConfusion hi
  | counted =>
    rw [hcase] at hi hown
    apply hown ModeCase.noConfusion
    split_ifs at hi <;> exact hi
  | write =>
    have hm : modeCase (p.tok t) ≠ .module := by rw [hcase]; exact ModeCase.noConfusion
    rw [hcase] at hi
    simp only [write_acts] at hi
    split_ifs at hi with hstring
    · rcases List.mem_cons.mp hi with rfl | hi
      · exact .string t hstring
      · exact hown hm hi
    · exact hown hm hi
  | bytes =>
    have hm : modeCase (p.tok t) ≠ .module := by rw [hcase]; exact ModeCase.noConfusion
    rw [hcase] at hi
    simp only [write_acts] at hi
    split_ifs at hi
    · exact hown hm hi
    · cases hi
  | trigger =>
    rw [hcase] at hi hown
    exact hown ModeCase.noConfusion hi
  | module =>
    rw [hcase] at hi
    simp only [callExec] at hi
    cases mode with
    | dnfc => cases hi
    | nfc =>
      by_cases hsd : p.tok t = .sd
      · simp only [if_pos hsd] at hi
        rcases sd_acts_cases t hi with rfl | ⟨hk, rfl | ⟨rfl, hreally⟩⟩
        · exact .sd i hsd
        · exact .sdFirst t rfl hsd hk
        · exact .sdReally t rfl hsd hk hreally
      · simp only [if_neg hsd] at hi
        cases hi

/-- **What a turn carries out.** -/
theorem turn_carries {s : State} (hfits : Fits p s.place) (hi : i ∈ (turn mode p s a).acts) :
    Carries mode p a s.place i := by
  unfold turn at hi
  cases hs : s.place with
  | mode t =>
    rw [hs] at hi
    exact mode_acts hi
  | integers t n =>
    rw [hs] at hi hfits
    simp only [integers_acts] at hi
    obtain rfl := List.mem_singleton.mp hi
    exact .byte i n hfits
  | trigger pos t =>
    rw [hs] at hi
    exact trigger_acts hi
  | exec pos t =>
    rw [hs] at hi
    exact exec_acts hi
  | done =>
    rw [hs] at hi
    cases hi

/-! ## no token twice in a turn -/

end

/-! ## the turns that do carry a token out -/

section
variable {mode : Mode} {p : Parsed} {s : State} {pos t : Nat}

variable {a : Answer}

end

end Walk
end Hydra
