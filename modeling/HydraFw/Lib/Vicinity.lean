import HydraFw.Lib.BitBuf
import HydraFw.Lib.Trie

/-!
# Vicinity cards

The inventory of ISO 15693: a request with a mask is heard by every card, and a card whose UID goes
on with the mask answers in the slot that the next four bits of its UID name.  The slots are parted
by the reader's end of frame.

* `Vicc`             a card; `Vicc.digits` its UID in fours of bits;
* `Command.ofBytes`  what a frame says;
* `Vicc.receive`, `Vicc.reply`   the state machine of a card;
* `hear`, `replies`  all cards at a frame;
* `maskBits`         the mask of a prefix;
* `Asked σ m j`      the cards in slot `j` of a request;
* `Asked.replies_iff`   who answers there.
-/

namespace Vicinity
open BitBuf Trie

abbrev Byte := BitVec 8

structure Vicc where
  /-- the byte sent first comes first -/
  uid : List Byte
  dsfid : Byte
  sized : uid.length = 8
  deriving DecidableEq

def Vicc.bits (v : Vicc) : List Bool := bitsOf v.uid

def digitsOf (x : Byte) : List (Fin 16) :=
  [⟨x.toNat % 16, Nat.mod_lt _ (Nat.succ_pos _)⟩,
    ⟨x.toNat / 16 % 16, Nat.mod_lt _ (Nat.succ_pos _)⟩]

def Vicc.digits (v : Vicc) : List (Fin 16) := v.uid.flatMap digitsOf

def slotBits (d : Fin 16) : List Bool := (List.range 4).map d.val.testBit

def maskBits (m : List (Fin 16)) : List Bool := m.flatMap slotBits

/-- the number of the slot that four bits name -/
def slotOf (l : List Bool) : Nat := l.foldr (fun b n => 2 * n + b.toNat) 0

/-! ## cards -/

inductive Command where
  /-- with one slot, or with sixteen -/
  | inventory (one : Bool) (mask : List Bool)
  | eof
  | stayQuiet (uid : List Byte)
  | other
  deriving DecidableEq

/-- a frame with its CRC, or an end of frame alone -/
def Command.ofBytes : List Byte → Command
  | [] => .eof
  | flags :: code :: rest =>
    if flags.getLsbD 2 ∧ ¬ flags.getLsbD 4 ∧ code = 0x01 then
      match rest with
      | len :: mask =>
        if mask.length = (len.toNat + 7) / 8 then
          .inventory (flags.getLsbD 5) ((bitsOf mask).take len.toNat)
        else .other
      | [] => .other
    else if ¬ flags.getLsbD 2 ∧ flags.getLsbD 5 ∧ code = 0x02 then .stayQuiet rest
    else .other
  | _ => .other

theorem ofBytes_inventory {flags len : Byte} {mask : List Byte} (h2 : flags.getLsbD 2 = true)
    (h4 : flags.getLsbD 4 = false) (hlen : mask.length = (len.toNat + 7) / 8) :
    Command.ofBytes (flags :: 0x01 :: len :: mask) =
      .inventory (flags.getLsbD 5) ((bitsOf mask).take len.toNat) := by
  unfold Command.ofBytes
  dsimp only
  rw [if_pos ⟨h2, by rw [h4]; exact Bool.false_ne_true, rfl⟩, if_pos hlen]

/-- `turn` counts the ends of frame before the card answers -/
inductive State where
  | ready (turn : Option Nat)
  | quiet
  deriving DecidableEq

/-- the slot of a card whose UID goes on with the mask -/
def Vicc.turn (v : Vicc) (mask : List Bool) : Option Nat :=
  if mask <+: v.bits then some (slotOf ((v.bits.drop mask.length).take 4)) else none

def Vicc.receive (v : Vicc) : State → Command → State
  | .quiet, _ => .quiet
  | .ready _, .inventory true mask => .ready (if mask <+: v.bits then some 0 else none)
  | .ready _, .inventory false mask => .ready (v.turn mask)
  | .ready (some (k + 1)), .eof => .ready (some k)
  | .ready _, .eof => .ready none
  | .ready _, .stayQuiet uid => if uid = v.uid then .quiet else .ready none
  | .ready _, .other => .ready none

/-- the INVENTORY_RES without its CRC -/
def Vicc.response (v : Vicc) : List Byte := [0x00, v.dsfid] ++ v.uid

def Vicc.reply (v : Vicc) (st : State) : Command → Option (List Byte)
  | .stayQuiet _ => none
  | .other => none
  | cmd => if v.receive st cmd = .ready (some 0) then some v.response else none

/-- every card hears the command -/
def hear (σ : Vicc → State) (cmd : Command) : Vicc → State := fun v => v.receive (σ v) cmd

def replies (cards : List Vicc) (σ : Vicc → State) (cmd : Command) : List (List Byte) :=
  cards.filterMap fun v => v.reply (σ v) cmd

theorem mem_replies {cards : List Vicc} {σ : Vicc → State} {cmd : Command} {r : List Byte} :
    r ∈ replies cards σ cmd ↔ ∃ v ∈ cards, v.reply (σ v) cmd = some r := List.mem_filterMap

/-! ## digits -/

theorem slotBits_length (d : Fin 16) : (slotBits d).length = 4 := by
  rw [slotBits, List.length_map, List.length_range]

theorem slotOf_slotBits (d : Fin 16) : slotOf (slotBits d) = d.val := by
  revert d
  decide

theorem slotBits_injective : Function.Injective slotBits := fun a b h =>
  Fin.ext (by rw [← slotOf_slotBits a, h, slotOf_slotBits])

theorem maskBits_cons (d : Fin 16) (m : List (Fin 16)) :
    maskBits (d :: m) = slotBits d ++ maskBits m := List.flatMap_cons

theorem maskBits_append (m m' : List (Fin 16)) : maskBits (m ++ m') = maskBits m ++ maskBits m' :=
  List.flatMap_append

theorem maskBits_singleton (d : Fin 16) : maskBits [d] = slotBits d := List.append_nil _

theorem maskBits_length (m : List (Fin 16)) : (maskBits m).length = 4 * m.length := by
  induction m with
  | nil => rfl
  | cons d m ih =>
    rw [maskBits_cons, List.length_append, slotBits_length, ih, List.length_cons, Nat.mul_succ,
      Nat.add_comm]

/-- prefixes of whole digits -/
theorem maskBits_prefix {m m' : List (Fin 16)} : maskBits m <+: maskBits m' ↔ m <+: m' := by
  constructor
  · intro h
    induction m generalizing m' with
    | nil => exact List.nil_prefix
    | cons d m ih =>
      cases m' with
      | nil =>
        have hle := h.length_le
        rw [maskBits_length, maskBits_length, List.length_cons, List.length_nil] at hle
        omega
      | cons d' m' =>
        obtain ⟨t, ht⟩ := h
        rw [maskBits_cons, maskBits_cons, List.append_assoc] at ht
        obtain ⟨hd, hm⟩ := List.append_inj ht (by rw [slotBits_length, slotBits_length])
        rw [slotBits_injective hd, List.cons_prefix_cons]
        exact ⟨rfl, ih ⟨t, hm⟩⟩
  · rintro ⟨t, rfl⟩
    rw [maskBits_append]
    exact List.prefix_append _ _

theorem maskBits_digitsOf (x : Byte) : maskBits (digitsOf x) = (List.range 8).map x.getLsbD := by
  revert x
  decide

section
variable (v : Vicc)

theorem digits_length : v.digits.length = 16 := by
  have hlen : ∀ l : List Byte, (l.flatMap digitsOf).length = 2 * l.length := by
    intro l
    induction l with
    | nil => rfl
    | cons x l ih =>
      rw [List.flatMap_cons, List.length_append, ih, List.length_cons]
      show 2 + 2 * l.length = _
      omega
  rw [Vicc.digits, hlen, v.sized]

theorem bits_eq : v.bits = maskBits v.digits := by
  have heq : ∀ l : List Byte, bitsOf l = maskBits (l.flatMap digitsOf) := by
    intro l
    induction l with
    | nil => rfl
    | cons x l ih =>
      rw [List.flatMap_cons, maskBits_append, ← ih, maskBits_digitsOf]
      rfl
  exact heq v.uid

/-- a UID is its digits -/
theorem uid_eq_of_digits {v v' : Vicc} (h : v.digits = v'.digits) : v.uid = v'.uid := by
  apply bitsOf_injective
  show v.bits = v'.bits
  rw [bits_eq, bits_eq, h]

theorem mask_prefix_iff {m : List (Fin 16)} : maskBits m <+: v.bits ↔ m <+: v.digits := by
  rw [bits_eq]
  exact maskBits_prefix

theorem slot_eq {m : List (Fin 16)} {d : Fin 16} (h : m ++ [d] <+: v.digits) :
    slotOf ((v.bits.drop (maskBits m).length).take 4) = d.val := by
  obtain ⟨t, ht⟩ := h
  rw [bits_eq, ← ht, maskBits_append, maskBits_append, List.append_assoc, List.drop_left,
    maskBits_singleton, List.take_left' (slotBits_length d), slotOf_slotBits]

/-- a card waits for the slot of its next digit -/
theorem turn_eq_some_iff {m : List (Fin 16)} {k : Nat} (hm : m.length < 16) :
    v.turn (maskBits m) = some k ↔ ∃ d : Fin 16, d.val = k ∧ m ++ [d] <+: v.digits := by
  unfold Vicc.turn
  constructor
  · intro h
    split_ifs at h with hp
    have hlt : m.length < v.digits.length := by rwa [digits_length]
    have hd : m ++ [v.digits[m.length]] <+: v.digits :=
      snoc_prefix_iff.mpr ⟨(mask_prefix_iff v).mp hp, List.getElem?_eq_getElem hlt⟩
    exact ⟨_, (slot_eq v hd).symm.trans (Option.some.inj h), hd⟩
  · rintro ⟨d, rfl, hd⟩
    rw [if_pos ((mask_prefix_iff v).mpr ((List.prefix_append m [d]).trans hd)), slot_eq v hd]

end

/-! ## slots -/

/-- the ends of frame that are left -/
def after (turn : Option Nat) (j : Nat) : Option Nat :=
  turn.bind fun k => if j ≤ k then some (k - j) else none

theorem after_zero (turn : Option Nat) : after turn 0 = turn := by
  cases turn <;> rfl

theorem after_eq_zero_iff {turn : Option Nat} {j : Nat} :
    after turn j = some 0 ↔ turn = some j := by
  cases turn with
  | none => exact ⟨fun h => (nomatch h), fun h => (nomatch h)⟩
  | some k =>
    rw [after, Option.bind_some, Option.some.injEq]
    split_ifs with h
    · rw [Option.some.injEq]
      omega
    · exact ⟨False.elim, fun h => by omega⟩

/-- the cards in slot `j` of a request -/
def Asked (σ : Vicc → State) (m : List (Fin 16)) (j : Nat) : Prop :=
  ∀ v, σ v ≠ .quiet → σ v = .ready (after (v.turn (maskBits m)) j)

section
variable {σ : Vicc → State} {m : List (Fin 16)} {j : Nat} {v : Vicc}

theorem receive_quiet_iff {cmd : Command} (hcmd : ∀ uid, cmd ≠ .stayQuiet uid) :
    v.receive (σ v) cmd = .quiet ↔ σ v = .quiet := by
  cases hs : σ v with
  | quiet => exact ⟨fun _ => rfl, fun _ => rfl⟩
  | ready turn =>
    cases cmd with
    | inventory one mask => cases one <;> exact ⟨State.noConfusion, State.noConfusion⟩
    | eof =>
      cases turn with
      | none => exact ⟨State.noConfusion, State.noConfusion⟩
      | some k => cases k <;> exact ⟨State.noConfusion, State.noConfusion⟩
    | stayQuiet uid => exact absurd rfl (hcmd uid)
    | other => exact ⟨State.noConfusion, State.noConfusion⟩

/-- a request starts with its first slot -/
theorem asked_inventory (σ : Vicc → State) (m : List (Fin 16)) :
    Asked (hear σ (.inventory false (maskBits m))) m 0 := by
  intro v hv
  rw [after_zero]
  rw [hear, ne_eq, receive_quiet_iff fun _ => Command.noConfusion] at hv
  show v.receive (σ v) _ = _
  cases hs : σ v with
  | quiet => exact absurd hs hv
  | ready turn => rfl

/-- an end of frame starts the next slot -/
theorem Asked.eof (h : Asked σ m j) : Asked (hear σ .eof) m (j + 1) := by
  intro v hv
  rw [hear, ne_eq, receive_quiet_iff fun _ => Command.noConfusion] at hv
  show v.receive (σ v) _ = _
  rw [h v hv]
  cases v.turn (maskBits m) with
  | none => rfl
  | some k =>
    rw [after, after, Option.bind_some, Option.bind_some]
    by_cases hjk : j + 1 ≤ k
    · obtain ⟨i, hi⟩ : ∃ i, k - j = i + 1 := ⟨k - j - 1, by omega⟩
      rw [if_pos hjk, if_pos (by omega), hi, show k - (j + 1) = i by omega]
      rfl
    · rw [if_neg hjk]
      by_cases hle : j ≤ k
      · rw [if_pos hle, show k - j = 0 by omega]
        rfl
      · rw [if_neg hle]
        rfl

/-- a card that was asked answers when its turn has come -/
theorem reply_of_asks {cmd : Command} (hs : ∀ uid, cmd ≠ .stayQuiet uid) (ho : cmd ≠ .other)
    (st : State) :
    v.reply st cmd = if v.receive st cmd = .ready (some 0) then some v.response else none := by
  cases cmd with
  | inventory _ _ => rfl
  | eof => rfl
  | stayQuiet uid => exact absurd rfl (hs uid)
  | other => exact absurd rfl ho

/-- a card sends nothing but its response -/
theorem reply_response {st : State} {cmd : Command} {r : List Byte} (h : v.reply st cmd = some r) :
    v.response = r := by
  have hs : ∀ uid, cmd ≠ .stayQuiet uid := by
    rintro uid rfl
    cases h
  have ho : cmd ≠ .other := by
    rintro rfl
    cases h
  rw [reply_of_asks hs ho] at h
  split_ifs at h
  exact Option.some.inj h

/-- who answers in a slot -/
theorem Asked.reply_iff {cmd : Command} (hs : ∀ uid, cmd ≠ .stayQuiet uid) (ho : cmd ≠ .other)
    (h : Asked (hear σ cmd) m j) (hm : m.length < 16) {d : Fin 16} (hd : d.val = j)
    {r : List Byte} :
    v.reply (σ v) cmd = some r ↔ σ v ≠ .quiet ∧ m ++ [d] <+: v.digits ∧ v.response = r := by
  have hquiet := receive_quiet_iff (σ := σ) (v := v) hs
  have hturn : v.turn (maskBits m) = some j ↔ m ++ [d] <+: v.digits := by
    rw [turn_eq_some_iff v hm]
    constructor
    · rintro ⟨d', hd', hp⟩
      rwa [Fin.ext (hd.trans hd'.symm)]
    · exact fun hp => ⟨d, hd, hp⟩
  rw [reply_of_asks hs ho, ← hturn, ← after_eq_zero_iff]
  by_cases hq : σ v = .quiet
  · rw [hquiet.mpr hq, if_neg State.noConfusion]
    exact ⟨fun hn => (nomatch hn), fun hn => absurd hq hn.1⟩
  · have hst : v.receive (σ v) cmd = .ready (after (v.turn (maskBits m)) j) :=
      h v fun hn => hq (hquiet.mp hn)
    rw [hst]
    by_cases hz : after (v.turn (maskBits m)) j = some 0
    · rw [if_pos (congrArg State.ready hz), Option.some.injEq]
      exact ⟨fun hr => ⟨hq, hz, hr⟩, fun hr => hr.2.2⟩
    · rw [if_neg fun hn => hz (State.ready.inj hn)]
      exact ⟨fun hn => (nomatch hn), fun hn => absurd hn.2.1 hz⟩

/-- all cards answer a request for all that has one slot -/
theorem one_reply_iff {r : List Byte} :
    v.reply (σ v) (.inventory true []) = some r ↔ σ v ≠ .quiet ∧ v.response = r := by
  unfold Vicc.reply
  cases hs : σ v with
  | quiet => exact ⟨fun hn => (nomatch hn), fun hn => absurd rfl hn.1⟩
  | ready turn =>
    show (if State.ready (if [] <+: v.bits then some 0 else none) = .ready (some 0) then
      some v.response else none) = some r ↔ _
    rw [if_pos (congrArg State.ready (if_pos List.nil_prefix)), Option.some.injEq]
    exact ⟨fun hr => ⟨State.noConfusion, hr⟩, fun hr => hr.2⟩

/-- a card that is told to be quiet is -/
theorem hear_stayQuiet_iff {uid : List Byte} :
    hear σ (.stayQuiet uid) v = .quiet ↔ σ v = .quiet ∨ uid = v.uid := by
  unfold hear
  cases hs : σ v with
  | quiet => exact ⟨fun _ => .inl rfl, fun _ => rfl⟩
  | ready turn =>
    have hrec : v.receive (.ready turn) (.stayQuiet uid) =
        if uid = v.uid then .quiet else .ready none := by
      cases turn with
      | none => rfl
      | some k => cases k <;> rfl
    rw [hrec]
    by_cases hu : uid = v.uid
    · rw [if_pos hu]
      exact ⟨fun _ => .inr hu, fun _ => rfl⟩
    · rw [if_neg hu]
      exact ⟨fun h => (nomatch h), fun h => h.elim (fun h => (nomatch h)) fun h => absurd h hu⟩

end

end Vicinity
