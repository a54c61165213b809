import Mathlib.Data.Nat.Find
import HydraFw.Lib.BitBuf

/-!
# Proximity cards of type A

The cards of ISO 14443-3, as far as anticollision and selection go: each one is a state machine
that hears every frame of the reader.

* `TypeA`               UID and answers of a card; `TypeA.word` its part for a cascade level;
* `Command.ofBits`, `Command.ofBytes`   what a frame says;
* `TypeA.receive`, `TypeA.reply`          the state machine of a card;
* `hear`, `replies`    all cards at a frame;
* `Collision rs j`     the first place where answers sent together differ;
* `Path cards σ l uid` the cards that are ready for a level share what is known of their UID.
-/

namespace Picc
open BitBuf

abbrev Byte := BitVec 8

/-- the cascade tag -/
def ct : Byte := 0x88

structure TypeA where
  levels : Nat
  uid : List Byte
  atqa : Byte × Byte
  sak : Byte
  sized : uid.length = 3 * levels + 1
  one_le : 1 ≤ levels
  le_three : levels ≤ 3
  /-- the last word does not start like one that goes on -/
  plain : uid[3 * (levels - 1)]? ≠ some ct
  deriving DecidableEq

/-- the four bytes of the UID for a cascade level -/
def TypeA.word (c : TypeA) (l : Nat) : List Byte :=
  if l + 1 < c.levels then ct :: (c.uid.drop (3 * l)).take 3 else (c.uid.drop (3 * l)).take 4

def bcc (w : List Byte) : Byte := w.foldl (· ^^^ ·) 0

def TypeA.frame (c : TypeA) (l : Nat) : List Bool := bitsOf (c.word l ++ [bcc (c.word l)])

/-! ## frames -/

inductive Command where
  | reqa
  | wupa
  | anticollision (level : Nat) (known : List Bool)
  | select (level : Nat) (word : List Byte)
  | hlta
  | other
  deriving DecidableEq

def selectCode (l : Nat) : Byte := BitVec.ofNat 8 (0x93 + 2 * l)

/-- the number of valid bits: whole bytes, and bits behind them -/
def nvb (n : Nat) : Byte := BitVec.ofNat 8 (16 * (n / 8) + n % 8)

/-- a frame that ends with any bit, without a CRC -/
def Command.ofBits (f : List Bool) : Command :=
  match (List.range 3).find? fun l => f.take 16 = bitsOf [selectCode l, nvb f.length] with
  | some l => if f.length < 56 then .anticollision l (f.drop 16) else .other
  | none => .other

/-- a frame of bytes with a CRC -/
def Command.ofBytes (f : List Byte) : Command :=
  if f = [0x50, 0x00] then .hlta
  else
    match (List.range 3).find? fun l => f.take 2 = [selectCode l, 0x70] with
    | some l =>
      if f.drop 6 = [bcc ((f.drop 2).take 4)] then .select l ((f.drop 2).take 4) else .other
    | none => .other

/-! ## cards -/

/-- `star` is set in a card that was woken from `halt` -/
inductive State where
  | idle
  | halt
  | ready (star : Bool) (level : Nat)
  | active (star : Bool)
  deriving DecidableEq

/-- where a card falls back to -/
def State.base (star : Bool) : State := if star then .halt else .idle

def TypeA.receive (c : TypeA) : State → Command → State
  | .idle, .reqa => .ready false 0
  | .idle, .wupa => .ready false 0
  | .idle, _ => .idle
  | .halt, .wupa => .ready true 0
  | .halt, _ => .halt
  | .ready star l, .anticollision level known =>
    if level = l ∧ known <+: c.frame l then .ready star l else .base star
  | .ready star l, .select level word =>
    if level = l ∧ word = c.word l then
      if l + 1 < c.levels then .ready star (l + 1) else .active star
    else .base star
  | .ready star _, _ => .base star
  | .active _, .hlta => .halt
  | .active star, _ => .base star

/-- the SAK says whether the UID goes on -/
def TypeA.selRes (c : TypeA) (l : Nat) : Byte := if l + 1 < c.levels then 0x04 else c.sak

def TypeA.reply (c : TypeA) : State → Command → Option (List Bool)
  | .idle, .reqa => some (bitsOf [c.atqa.1, c.atqa.2])
  | .idle, .wupa => some (bitsOf [c.atqa.1, c.atqa.2])
  | .halt, .wupa => some (bitsOf [c.atqa.1, c.atqa.2])
  | .ready _ l, .anticollision level known =>
    if level = l ∧ known <+: c.frame l then some ((c.frame l).drop known.length) else none
  | .ready _ l, .select level word =>
    if level = l ∧ word = c.word l then some (bitsOf [c.selRes l]) else none
  | _, _ => none

/-- every card hears the command -/
def hear (σ : TypeA → State) (cmd : Command) : TypeA → State := fun c => c.receive (σ c) cmd

def replies (cards : List TypeA) (σ : TypeA → State) (cmd : Command) : List (List Bool) :=
  cards.filterMap fun c => c.reply (σ c) cmd

theorem mem_replies {cards : List TypeA} {σ : TypeA → State} {cmd : Command} {r : List Bool} :
    r ∈ replies cards σ cmd ↔ ∃ c ∈ cards, c.reply (σ c) cmd = some r := List.mem_filterMap

/-- the first place where answers differ -/
structure Collision (rs : List (List Bool)) (j : Nat) : Prop where
  agree : ∀ r ∈ rs, ∀ r' ∈ rs, r.take j = r'.take j
  differ : ∃ r ∈ rs, ∃ r' ∈ rs, r[j]? ≠ r'[j]?

instance (rs : List (List Bool)) (j : Nat) : Decidable (Collision rs j) :=
  decidable_of_iff ((∀ r ∈ rs, ∀ r' ∈ rs, r.take j = r'.take j) ∧ ∃ r ∈ rs, ∃ r' ∈ rs, r[j]? ≠ r'[j]?)
    ⟨fun h => ⟨h.1, h.2⟩, fun h => ⟨h.agree, h.differ⟩⟩

section
variable {c c' : TypeA} {l n : Nat}

/-! ## words -/

theorem TypeA.word_length (hl : l < c.levels) : (c.word l).length = 4 := by
  have hsized := c.sized
  unfold TypeA.word
  split_ifs with h
  · rw [List.length_cons, List.length_take, List.length_drop]
    omega
  · rw [List.length_take, List.length_drop]
    omega

theorem TypeA.frame_length (hl : l < c.levels) : (c.frame l).length = 40 := by
  rw [TypeA.frame, bitsOf_length, List.length_append, TypeA.word_length hl]
  rfl

/-- the first byte of a word says whether the UID goes on -/
theorem TypeA.word_head (hl : l < c.levels) : (c.word l)[0]? = some ct ↔ l + 1 < c.levels := by
  have hplain := c.plain
  unfold TypeA.word
  split_ifs with h
  · exact iff_of_true rfl h
  · refine iff_of_false ?_ h
    rwa [List.getElem?_take_of_lt (by decide), List.getElem?_drop, Nat.add_zero,
      show l = c.levels - 1 by omega]

theorem TypeA.word_drop (h : l + 1 < c.levels) : (c.word l).drop 1 = (c.uid.drop (3 * l)).take 3 := by
  rw [TypeA.word, if_pos h]
  rfl

theorem TypeA.word_last (h : l + 1 = c.levels) : c.word l = c.uid.drop (3 * l) := by
  have hsized := c.sized
  rw [TypeA.word, if_neg (by omega), List.take_of_length_le]
  rw [List.length_drop]
  omega

/-- the UID up to a level -/
theorem TypeA.take_uid_succ (h : l + 1 < c.levels) :
    c.uid.take (3 * (l + 1)) = c.uid.take (3 * l) ++ (c.word l).drop 1 := by
  rw [TypeA.word_drop h, Nat.mul_succ, List.take_add]

theorem TypeA.uid_eq (h : l + 1 = c.levels) : c.uid = c.uid.take (3 * l) ++ c.word l := by
  rw [TypeA.word_last h, List.take_append_drop]

theorem ofBits_ne_select (f : List Bool) (l : Nat) (w : List Byte) :
    Command.ofBits f ≠ .select l w := by
  unfold Command.ofBits
  split
  · split_ifs
    · exact Command.noConfusion
    · exact Command.noConfusion
  · exact Command.noConfusion

theorem ofBits_ne_wupa (f : List Bool) : Command.ofBits f ≠ .wupa := by
  unfold Command.ofBits
  split
  · split_ifs
    · exact Command.noConfusion
    · exact Command.noConfusion
  · exact Command.noConfusion

/-! ## what a card does -/

variable {cmd : Command} {s : State} {star : Bool} {w : List Byte}

/-- only a wake-up reaches a halted card -/
theorem receive_halt (h : cmd ≠ .wupa) : c.receive .halt cmd = .halt := by
  cases cmd with
  | wupa => exact absurd rfl h
  | reqa => rfl
  | anticollision _ _ => rfl
  | select _ _ => rfl
  | hlta => rfl
  | other => rfl

/-- how a card gets ready for a level -/
theorem receive_eq_ready (h : c.receive s cmd = .ready star l) :
    s = .ready star l ∨ l = 0 ∨
      ∃ k, l = k + 1 ∧ s = .ready star k ∧ cmd = .select k (c.word k) ∧ k + 1 < c.levels := by
  have hbase : ∀ b, State.base b ≠ .ready star l := by
    intro b
    cases b with
    | true => exact State.noConfusion
    | false => exact State.noConfusion
  cases s with
  | idle =>
    cases cmd with
    | reqa => exact .inr (.inl (State.ready.inj h).2.symm)
    | wupa => exact .inr (.inl (State.ready.inj h).2.symm)
    | anticollision _ _ => cases h
    | select _ _ => cases h
    | hlta => cases h
    | other => cases h
  | halt =>
    cases cmd with
    | wupa => exact .inr (.inl (State.ready.inj h).2.symm)
    | reqa => cases h
    | anticollision _ _ => cases h
    | select _ _ => cases h
    | hlta => cases h
    | other => cases h
  | ready b k =>
    cases cmd with
    | anticollision level known =>
      rw [TypeA.receive] at h
      split_ifs at h
      · exact .inl h
      · exact absurd h (hbase b)
    | select level word =>
      rw [TypeA.receive] at h
      split_ifs at h with hm hlt
      · obtain ⟨rfl, rfl⟩ := State.ready.inj h
        obtain ⟨rfl, rfl⟩ := hm
        exact .inr (.inr ⟨level, rfl, rfl, rfl, hlt⟩)
      · exact absurd h (hbase b)
    | reqa => exact absurd h (hbase b)
    | wupa => exact absurd h (hbase b)
    | hlta => exact absurd h (hbase b)
    | other => exact absurd h (hbase b)
  | active b =>
    cases cmd with
    | hlta => cases h
    | reqa => exact absurd h (hbase b)
    | wupa => exact absurd h (hbase b)
    | anticollision _ _ => exact absurd h (hbase b)
    | select _ _ => exact absurd h (hbase b)
    | other => exact absurd h (hbase b)

/-- a card that answers a select is the one it names -/
theorem reply_select {r : List Bool} (h : c.reply s (.select l w) = some r) :
    ∃ star, s = .ready star l ∧ w = c.word l ∧ r = bitsOf [c.selRes l] := by
  cases s with
  | ready star k =>
    rw [TypeA.reply] at h
    split_ifs at h with hm
    obtain ⟨rfl, rfl⟩ := hm
    exact ⟨star, rfl, rfl, (Option.some.inj h).symm⟩
  | idle => cases h
  | halt => cases h
  | active _ => cases h

theorem receive_select (c : TypeA) (star : Bool) (l : Nat) :
    c.receive (.ready star l) (.select l (c.word l)) =
      if l + 1 < c.levels then .ready star (l + 1) else .active star := if_pos ⟨rfl, rfl⟩

/-! ## the way to one card -/

def Path (cards : List TypeA) (σ : TypeA → State) (l : Nat) (uid : List Byte) : Prop :=
  ∀ d ∈ cards, ∀ star, σ d = .ready star l → l < d.levels ∧ d.uid.take (3 * l) = uid

variable {cards : List TypeA} {σ : TypeA → State} {uid : List Byte}

theorem Path.zero : Path cards σ 0 [] := fun d _ _ _ => ⟨d.one_le, List.take_zero⟩

theorem Path.hear (h : Path cards σ l uid) (h0 : l = 0 → uid = [])
    (hcmd : ∀ k w, cmd = .select k w → l ≠ k + 1) : Path cards (hear σ cmd) l uid := by
  intro d hd star hready
  rcases receive_eq_ready hready with hs | rfl | ⟨k, hk, -, hsel, -⟩
  · exact h d hd star hs
  · rw [h0 rfl]
    exact ⟨d.one_le, List.take_zero⟩
  · exact absurd hk (hcmd k _ hsel)

/-- the cards that a select of a word with the cascade tag leaves ready -/
theorem Path.select (h : Path cards σ l uid) :
    Path cards (Picc.hear σ (.select l w)) (l + 1) (uid ++ w.drop 1) := by
  intro d hd star hready
  rcases receive_eq_ready hready with hs | h0 | ⟨k, hk, hs, hsel, hlt⟩
  · -- a card of the next level does not expect this one
    rw [Picc.hear, hs, TypeA.receive, if_neg fun hm => absurd hm.1 (Nat.ne_of_lt l.lt_succ_self)]
      at hready
    cases star with
    | true => cases hready
    | false => cases hready
  · cases h0
  · cases hk
    obtain ⟨-, rfl⟩ := Command.select.inj hsel
    obtain ⟨-, huid⟩ := h d hd star hs
    exact ⟨hlt, by rw [TypeA.take_uid_succ hlt, huid]⟩

/-- the card that is active behind a select of a word without the cascade tag -/
theorem Path.chosen (h : Path cards σ l uid) {d : TypeA} (hd : d ∈ cards) {r : List Bool}
    (hr : d.reply (σ d) (.select l w) = some r) (hlast : w[0]? ≠ some ct) :
    (∃ star, σ d = .ready star l ∧ Picc.hear σ (.select l w) d = .active star) ∧
      d.uid = uid ++ w ∧ r = bitsOf [d.sak] := by
  obtain ⟨star, hs, rfl, rfl⟩ := reply_select hr
  obtain ⟨hl, huid⟩ := h d hd star hs
  have hend : ¬ l + 1 < d.levels := fun hlt => hlast ((TypeA.word_head hl).mpr hlt)
  refine ⟨⟨star, hs, ?_⟩, ?_, ?_⟩
  · rw [Picc.hear, hs, receive_select, if_neg hend]
  · rw [← huid]
    exact TypeA.uid_eq (by omega)
  · rw [TypeA.selRes, if_neg hend]

/-! ## answers sent together -/

variable {rs : List (List Bool)}

theorem Collision.unique {j j' : Nat} (h : Collision rs j) (h' : Collision rs j') : j = j' := by
  have hle : ∀ {i k : Nat}, Collision rs i → Collision rs k → k ≤ i := by
    intro i k hi hk
    by_contra hlt
    obtain ⟨r, hr, r', hr', hne⟩ := hi.differ
    apply hne
    rw [← List.getElem?_take_of_lt (Nat.not_le.mp hlt), hk.agree r hr r' hr',
      List.getElem?_take_of_lt (Nat.not_le.mp hlt)]
  exact Nat.le_antisymm (hle h' h) (hle h h')

/-- a collision is before the end of an answer -/
theorem Collision.lt {j : Nat} (h : Collision rs j)
    (hlen : ∀ b ∈ rs, b.length ≤ n) : j < n := by
  obtain ⟨x, hx, y, hy, hne⟩ := h.differ
  by_contra hge
  apply hne
  rw [List.getElem?_eq_none (by have := hlen x hx; omega),
    List.getElem?_eq_none (by have := hlen y hy; omega)]

/-- one of the answers has a one at the collision -/
theorem Collision.one {j : Nat} (h : Collision rs j) (hlen : ∀ r ∈ rs, r.length = n) (hj : j < n) :
    ∃ r ∈ rs, r[j]? = some true := by
  obtain ⟨r, hr, r', hr', hne⟩ := h.differ
  have hsome : ∀ r ∈ rs, r[j]? = some true ∨ r[j]? = some false := by
    intro r hr
    have hlt : j < r.length := by
      rw [hlen r hr]
      exact hj
    rw [List.getElem?_eq_getElem hlt, Option.some.injEq, Option.some.injEq]
    cases r[j] with
    | true => exact .inl rfl
    | false => exact .inr rfl
  rcases hsome r hr with h1 | h0
  · exact ⟨r, hr, h1⟩
  · rcases hsome r' hr' with h1 | h0'
    · exact ⟨r', hr', h1⟩
    · exact absurd (h0.trans h0'.symm) hne

end

end Picc
