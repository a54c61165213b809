import HydraFw.Nfca.Ends

/-!
# A field without noise

In an ideal field the answers of the cards superpose: equal answers are received as one, and where
they first differ a collision is found.

* `Ideal`        the promises of such a field, on top of those of `Air`;
* `idealRadio`   one that can be computed, on the states of the cards;
* `idealRadio_ideal`   it keeps the promises.
-/

namespace Hydra
namespace Nfca
open BitBuf hiding Byte
open Picc hiding Byte
open Rams Common Serial

structure Ideal {ω : Type*} (p : Population) (r : Radio ω) (σ : ω → TypeA → State) : Prop
    extends Air p r σ where
  unanswered : ∀ cmd w, replies p.cards (σ w) cmd.command = [] → (r.short cmd w).1.ret = errTimeout
  woke : ∀ cmd w, replies p.cards (σ w) cmd.command ≠ [] →
    (r.short cmd w).1.ret = .errNone ∧ (r.short cmd w).1.rcvdLen = 16 ∨
      (r.short cmd w).1.ret = errRfCollision
  clear : ∀ f w a, a ∈ replies p.cards (σ w) (.ofBits f) →
    (∀ b ∈ replies p.cards (σ w) (.ofBits f), b = a) →
      (r.anticollision f w).1.tx = .errNone ∧ (r.anticollision f w).1.rx = .errNone ∧
        Placed (f.length % 8) (r.anticollision f w).1.data a
  collides : ∀ f w j, Collision (replies p.cards (σ w) (.ofBits f)) j →
    (r.anticollision f w).1.tx = .errNone ∧ (r.anticollision f w).1.rx = errRfCollision ∧
      (r.anticollision f w).1.place = f.length + j ∧
        ∀ a ∈ replies p.cards (σ w) (.ofBits f),
          Placed (f.length % 8) (r.anticollision f w).1.data (a.take j)
  acknowledged : ∀ f w b, bitsOf [b] ∈ replies p.cards (σ w) (.ofBytes f) →
    (∀ a ∈ replies p.cards (σ w) (.ofBytes f), a = bitsOf [b]) →
      (r.transceive f w).1.ret = .errNone ∧ (r.transceive f w).1.data = [b]

/-! ## superposition -/

/-- bytes with the bits `a` from bit `off` on -/
def pack (off : Nat) (a : List Bool) : List Byte :=
  (List.range ((off + a.length + 7) / 8)).map fun k =>
    collect (fun i => a.getD (8 * k + i - off) false) 8

/-- the collision register -/
def register (n : Nat) : Byte := BitVec.ofNat 8 (16 * (n / 8) + 2 * (n % 8))

/-- what is heard of answers to a frame of `n` bits -/
def superpose (n : Nat) (rs : List (List Bool)) : Heard :=
  match rs with
  | [] => ⟨.errNone, errTimeout, [], 0, 0⟩
  | a :: _ =>
    match (List.range 40).find? fun j => Collision rs j with
    | none => ⟨.errNone, .errNone, pack (n % 8) a, a.length, 0⟩
    | some j => ⟨.errNone, errRfCollision, pack (n % 8) (a.take j), j, register (n + j)⟩

/-- a frame of bytes is heard when all answers are the same -/
def superposeBytes (rs : List (List Bool)) (other : ReturnCode) : Reply :=
  match rs with
  | [] => ⟨errTimeout, [], 0⟩
  | a :: rest => if ∀ b ∈ rest, b = a then ⟨.errNone, pack 0 a, a.length⟩ else ⟨other, [], 0⟩

def idealRadio (p : Population) : Radio (TypeA → State) where
  short cmd s := (superposeBytes (replies p.cards s cmd.command) errRfCollision, hear s cmd.command)
  anticollision f s :=
    (superpose f.length (replies p.cards s (.ofBits f)), hear s (.ofBits f))
  transceive f s := (superposeBytes (replies p.cards s (.ofBytes f)) errCrc, hear s (.ofBytes f))
  rid s := ((errTimeout, fun _ => 0), s)

theorem pack_length (off : Nat) (a : List Bool) : (pack off a).length = (off + a.length + 7) / 8 := by
  rw [pack, List.length_map, List.length_range]

theorem pack_placed (off : Nat) (a : List Bool) : Placed off (pack off a) a := by
  constructor
  · rw [pack_length]
    omega
  · intro i b hi
    have hlt := (List.getElem?_eq_some_iff.mp hi).1
    rw [bitAt, pack, List.getD_eq_getElem?_getD, List.getElem?_map,
      List.getElem?_range (by omega), Option.map_some, Option.getD_some,
      collect_bit _ (Nat.le_refl 8) (Nat.mod_lt _ (by decide)), decide_eq_true (by omega),
      Bool.true_and, Nat.add_sub_cancel, Nat.div_add_mod, Nat.add_sub_cancel_left,
      List.getD_eq_getElem?_getD, hi]
    rfl

/-- bytes are the only ones with their bits -/
theorem pack_bitsOf (l : List Byte) : pack 0 (bitsOf l) = l := by
  apply bitsOf_injective
  have hlen : (pack 0 (bitsOf l)).length = l.length := by
    rw [pack_length, bitsOf_length]
    omega
  obtain ⟨-, hbit⟩ := pack_placed 0 (bitsOf l)
  have hbits : ∀ m : List Byte, ∀ i < 8 * m.length, (bitsOf m)[i]? = some (bitAt m i) := by
    intro m i hi
    have hslice : slice (fun k => m.getD k 0) 0 m.length = m := by
      rw [slice_eq_list_iff]
      intro k hk
      rw [Nat.zero_add, List.getD_eq_getElem?_getD, List.getElem?_eq_getElem hk]
      rfl
    have hb := bitsOf_slice (fun k => m.getD k 0) 0 m.length
    rw [hslice] at hb
    rw [hb, slice_getElem?, if_pos hi, Nat.mul_zero, Nat.zero_add]
    rfl
  apply List.ext_getElem?
  intro i
  by_cases hi : i < 8 * l.length
  · rw [hbits _ i (by rw [hlen]; exact hi), hbits l i hi]
    congr 1
    have h := hbit i _ (hbits l i hi)
    rwa [Nat.zero_add] at h
  · rw [List.getElem?_eq_none (by rw [bitsOf_length, hlen]; omega),
      List.getElem?_eq_none (by rw [bitsOf_length]; omega)]

theorem register_place {n : Nat} (hn : n < 56) (h : Heard) (hc : h.collData = register n) :
    h.place = n := by
  unfold Heard.place
  rw [hc]
  have hall : ∀ k : Fin 56, 8 * (register k.val >>> 4 &&& 0x0f#8).toNat +
      (register k.val >>> 1 &&& 0x07#8).toNat = k.val := by decide
  exact hall ⟨n, hn⟩

/-! ## what the cards answer -/

section
variable {p : Population} {s : TypeA → State} {c : TypeA} {st : State} {a : List Bool}

theorem word_length_le (c : TypeA) (l : Nat) : (c.word l).length ≤ 4 := by
  unfold TypeA.word
  split_ifs
  · rw [List.length_cons, List.length_take]
    omega
  · rw [List.length_take]
    omega

theorem frame_length_le (c : TypeA) (l : Nat) : (c.frame l).length ≤ 40 := by
  have h := word_length_le c l
  rw [TypeA.frame, bitsOf_length, List.length_append, List.length_singleton]
  omega

theorem ofBits_cases (f : List Bool) :
    Command.ofBits f = .other ∨ 16 ≤ f.length ∧ f.length < 56 ∧
      ∃ l, Command.ofBits f = .anticollision l (f.drop 16) := by
  unfold Command.ofBits
  split
  · next l hl =>
    split_ifs with h
    · have hpre := List.find?_some hl
      have hlen := congrArg List.length (decide_eq_true_iff.mp hpre)
      rw [List.length_take, bitsOf_length] at hlen
      change min 16 f.length = 16 at hlen
      exact .inr ⟨by omega, h, l, rfl⟩
    · exact .inl rfl
  · exact .inl rfl

/-- an answer to an anticollision frame ends with the frame of the level -/
theorem reply_ofBits {f : List Bool} (h : c.reply st (.ofBits f) = some a) :
    f.length + a.length ≤ 56 := by
  rcases ofBits_cases f with ho | ⟨hlo, hhi, l, ho⟩
  · rw [ho] at h
    cases st <;> cases h
  · rw [ho] at h
    cases st with
    | ready star k =>
      rw [TypeA.reply] at h
      split_ifs at h with hm
      rw [← Option.some.inj h, List.length_drop, List.length_drop]
      have := frame_length_le c k
      omega
    | idle => cases h
    | halt => cases h
    | active star => cases h

theorem reply_ofBytes {f : List Byte} (h : c.reply st (.ofBytes f) = some a) :
    ∃ b, a = bitsOf [b] := by
  have hcases : Command.ofBytes f = .hlta ∨ Command.ofBytes f = .other ∨
      ∃ l w, Command.ofBytes f = .select l w := by
    unfold Command.ofBytes
    split
    · exact .inl rfl
    · split
      · split
        · exact .inr (.inr ⟨_, _, rfl⟩)
        · exact .inr (.inl rfl)
      · exact .inr (.inl rfl)
  rcases hcases with ho | ho | ⟨l, w, ho⟩
  · rw [ho] at h
    cases st <;> cases h
  · rw [ho] at h
    cases st <;> cases h
  · rw [ho] at h
    obtain ⟨-, -, -, hb⟩ := reply_select h
    exact ⟨_, hb⟩

theorem reply_wake (cmd : ShortFrameCmd) (h : c.reply st cmd.command = some a) :
    a = bitsOf [c.atqa.1, c.atqa.2] := by
  cases cmd with
  | wupa =>
    cases st with
    | idle => exact (Option.some.inj h).symm
    | halt => exact (Option.some.inj h).symm
    | ready _ _ => cases h
    | active _ => cases h
  | reqa =>
    cases st with
    | idle => exact (Option.some.inj h).symm
    | halt => cases h
    | ready _ _ => cases h
    | active _ => cases h

/-! ## the promises -/

theorem superpose_clear {n : Nat} {rs : List (List Bool)} (ha : a ∈ rs) (hall : ∀ b ∈ rs, b = a) :
    superpose n rs = ⟨.errNone, .errNone, pack (n % 8) a, a.length, 0⟩ := by
  cases rs with
  | nil => cases ha
  | cons b rest =>
    have hb := hall b List.mem_cons_self
    have hfind : (List.range 40).find? (fun j => decide (Collision (b :: rest) j)) = none := by
      rw [List.find?_eq_none]
      intro j _ hj
      obtain ⟨x, hx, y, hy, hne⟩ := (decide_eq_true_iff.mp hj).differ
      exact hne (by rw [hall x hx, hall y hy])
    unfold superpose
    dsimp only
    rw [hfind, hb]

theorem superpose_collides {n j : Nat} {rs : List (List Bool)} (h : Collision rs j)
    (hlen : ∀ b ∈ rs, b.length ≤ 40) :
    ∃ a ∈ rs, superpose n rs =
      ⟨.errNone, errRfCollision, pack (n % 8) (a.take j), j, register (n + j)⟩ := by
  obtain ⟨x, hx, y, hy, hne⟩ := h.differ
  have hj : j < 40 := by
    by_contra hge
    apply hne
    rw [List.getElem?_eq_none (by have := hlen x hx; omega),
      List.getElem?_eq_none (by have := hlen y hy; omega)]
  cases rs with
  | nil => cases hx
  | cons b rest =>
    have hfind : (List.range 40).find? (fun j => decide (Collision (b :: rest) j)) = some j := by
      rw [List.find?_range_eq_some]
      refine ⟨decide_eq_true h, List.mem_range.mpr hj, fun k hk => ?_⟩
      rw [Bool.not_eq_true', decide_eq_false_iff_not]
      exact fun hc => absurd (hc.unique h) (Nat.ne_of_lt hk)
    refine ⟨b, List.mem_cons_self, ?_⟩
    unfold superpose
    dsimp only
    rw [hfind]

theorem superposeBytes_clear {rs : List (List Bool)} (other : ReturnCode) (ha : a ∈ rs)
    (hall : ∀ b ∈ rs, b = a) : superposeBytes rs other = ⟨.errNone, pack 0 a, a.length⟩ := by
  cases rs with
  | nil => cases ha
  | cons b rest =>
    have hb := hall b List.mem_cons_self
    unfold superposeBytes
    dsimp only
    rw [if_pos fun x hx => (hall x (List.mem_cons_of_mem _ hx)).trans hb.symm, hb]

/-- what is heard without an error is an answer -/
theorem superposeBytes_none {rs : List (List Bool)} {other : ReturnCode} (ho : other ≠ .errNone)
    (h : (superposeBytes rs other).ret = .errNone) :
    ∃ a ∈ rs, superposeBytes rs other = ⟨.errNone, pack 0 a, a.length⟩ := by
  cases rs with
  | nil => cases h
  | cons b rest =>
    unfold superposeBytes at h ⊢
    dsimp only at h ⊢
    split_ifs at h ⊢ with hall
    · exact ⟨b, List.mem_cons_self, rfl⟩
    · exact absurd h ho

theorem superposeBytes_cases (a : List Bool) (rest : List (List Bool)) (other : ReturnCode) :
    superposeBytes (a :: rest) other = ⟨.errNone, pack 0 a, a.length⟩ ∨
      superposeBytes (a :: rest) other = ⟨other, [], 0⟩ := by
  unfold superposeBytes
  dsimp only
  split_ifs
  · exact .inl rfl
  · exact .inr rfl

/-- what is heard of an anticollision frame -/
theorem superpose_cases (n : Nat) (rs : List (List Bool)) :
    superpose n rs = ⟨.errNone, errTimeout, [], 0, 0⟩ ∨
      ∃ a ∈ rs, superpose n rs = ⟨.errNone, .errNone, pack (n % 8) a, a.length, 0⟩ ∨
        ∃ j, Collision rs j ∧
          superpose n rs =
            ⟨.errNone, errRfCollision, pack (n % 8) (a.take j), j, register (n + j)⟩ := by
  cases rs with
  | nil => exact .inl rfl
  | cons a rest =>
    refine .inr ⟨a, List.mem_cons_self, ?_⟩
    unfold superpose
    dsimp only
    split
    · exact .inl rfl
    · next j hj =>
      have hc := List.find?_some hj
      rw [decide_eq_true_iff] at hc
      exact .inr ⟨j, hc, rfl⟩

theorem replies_ofBits_length (p : Population) (s : TypeA → State) (f : List Bool) :
    ∀ b ∈ replies p.cards s (.ofBits f), b.length ≤ 56 - f.length ∧ b.length ≤ 40 := by
  intro b hb
  obtain ⟨c, -, hc⟩ := mem_replies.mp hb
  have h := reply_ofBits hc
  refine ⟨by omega, ?_⟩
  rcases ofBits_cases f with ho | ⟨hlo, -, -⟩
  · rw [ho] at hc
    cases hst : s c <;> rw [hst] at hc <;> cases hc
  · omega

theorem idealRadio_air (p : Population) : Air p (idealRadio p) id where
  short := fun _ _ => rfl
  anticollision := fun _ _ => rfl
  transceive := fun _ _ => rfl
  answered := fun f s b hret hdata => by
    obtain ⟨a, ha, heq⟩ := superposeBytes_none (by decide) hret
    obtain ⟨c, hc, hreply⟩ := mem_replies.mp ha
    obtain ⟨x, rfl⟩ := reply_ofBytes hreply
    change (superposeBytes (replies p.cards s (.ofBytes f)) errCrc).data = [b] at hdata
    rw [heq, pack_bitsOf] at hdata
    rwa [← hdata]
  woken := fun s hret => by
    obtain ⟨a, ha, heq⟩ := superposeBytes_none (by decide) hret
    obtain ⟨c, hc, hreply⟩ := mem_replies.mp ha
    refine ⟨c, hc, ?_⟩
    show (superposeBytes (replies p.cards s ShortFrameCmd.wupa.command) errRfCollision).data = _
    rw [heq, reply_wake .wupa hreply, pack_bitsOf]
  sent := fun f s => by
    show (superpose f.length (replies p.cards s (.ofBits f))).tx ≠ _
    rcases superpose_cases f.length (replies p.cards s (.ofBits f)) with
      h | ⟨a, -, h | ⟨j, -, h⟩⟩ <;> rw [h] <;> exact ReturnCode.noConfusion
  place := fun f s hret => by
    change (superpose f.length (replies p.cards s (.ofBits f))).rx = errRfCollision at hret
    show f.length ≤ (superpose f.length (replies p.cards s (.ofBits f))).place ∧
      (superpose f.length (replies p.cards s (.ofBits f))).place < 56
    rcases superpose_cases f.length (replies p.cards s (.ofBits f)) with
      h | ⟨a, -, h | ⟨j, hj, h⟩⟩
    · rw [h] at hret
      exact absurd hret (by decide)
    · rw [h] at hret
      cases hret
    · have hlt := hj.lt fun b hb => (replies_ofBits_length p s f b hb).1
      rw [register_place (n := f.length + j) (by omega) _ (by rw [h])]
      omega
  blocks := by
    refine ⟨fun f s => ?_, fun f s => ?_⟩
    · show (superpose f.length (replies p.cards s (.ofBits f))).tx ≠ _ ∧
        (superpose f.length (replies p.cards s (.ofBits f))).rx ≠ _
      rcases superpose_cases f.length (replies p.cards s (.ofBits f)) with
        h | ⟨a, -, h | ⟨j, -, h⟩⟩ <;> rw [h] <;>
          exact ⟨ReturnCode.noConfusion, ReturnCode.noConfusion⟩
    · show (superposeBytes (replies p.cards s (.ofBytes f)) errCrc).ret ≠ _
      cases replies p.cards s (.ofBytes f) with
      | nil => exact ReturnCode.noConfusion
      | cons a rest =>
        rcases superposeBytes_cases a rest errCrc with h | h <;> rw [h] <;>
          exact ReturnCode.noConfusion
  room := fun f s hf => by
    show f.length / 8 + (superpose f.length (replies p.cards s (.ofBits f))).data.length ≤ 7
    have hlen := replies_ofBits_length p s f
    rcases superpose_cases f.length (replies p.cards s (.ofBits f)) with
      h | ⟨a, ha, h | ⟨j, hj, h⟩⟩
    · rw [h]
      show f.length / 8 + 0 ≤ 7
      omega
    · have := (hlen a ha).1
      rw [h]
      show f.length / 8 + (pack (f.length % 8) a).length ≤ 7
      rw [pack_length]
      omega
    · have := (hlen a ha).1
      rw [h]
      show f.length / 8 + (pack (f.length % 8) (a.take j)).length ≤ 7
      rw [pack_length, List.length_take]
      omega

theorem idealRadio_ideal (p : Population) : Ideal p (idealRadio p) id where
  toAir := idealRadio_air p
  unanswered := fun cmd s h => by
    show (superposeBytes (replies p.cards s cmd.command) errRfCollision).ret = _
    rw [show replies p.cards s cmd.command = [] from h]
    rfl
  woke := fun cmd s h => by
    change replies p.cards s cmd.command ≠ [] at h
    show (superposeBytes (replies p.cards s cmd.command) errRfCollision).ret = _ ∧
        (superposeBytes (replies p.cards s cmd.command) errRfCollision).rcvdLen = _ ∨
      (superposeBytes (replies p.cards s cmd.command) errRfCollision).ret = _
    have hatqa : ∀ a ∈ replies p.cards s cmd.command, a.length = 16 := by
      intro a ha
      obtain ⟨c, -, hc⟩ := mem_replies.mp ha
      rw [reply_wake cmd hc, bitsOf_length]
      rfl
    cases hr : replies p.cards s cmd.command with
    | nil => exact absurd hr h
    | cons a rest =>
      rw [hr] at hatqa
      rcases superposeBytes_cases a rest errRfCollision with h | h
      · rw [h]
        exact .inl ⟨rfl, hatqa a List.mem_cons_self⟩
      · rw [h]
        exact .inr rfl
  clear := fun f s a ha hall => by
    have h := superpose_clear (n := f.length) ha hall
    show (superpose f.length (replies p.cards s (.ofBits f))).tx = _ ∧
      (superpose f.length (replies p.cards s (.ofBits f))).rx = _ ∧
        Placed _ (superpose f.length (replies p.cards s (.ofBits f))).data a
    change superpose f.length (replies p.cards s (.ofBits f)) = _ at h
    rw [h]
    exact ⟨rfl, rfl, pack_placed _ a⟩
  collides := fun f s j hj => by
    change Collision (replies p.cards s (.ofBits f)) j at hj
    have hlen := replies_ofBits_length p s f
    obtain ⟨a, ha, h⟩ := superpose_collides (n := f.length) hj fun b hb => (hlen b hb).2
    show (superpose f.length (replies p.cards s (.ofBits f))).tx = _ ∧
      (superpose f.length (replies p.cards s (.ofBits f))).rx = _ ∧
        (superpose f.length (replies p.cards s (.ofBits f))).place = _ ∧
          ∀ b ∈ replies p.cards s (.ofBits f),
            Placed _ (superpose f.length (replies p.cards s (.ofBits f))).data (b.take j)
    have hlt := hj.lt fun b hb => (hlen b hb).1
    refine ⟨by rw [h], by rw [h], ?_, fun b hb => ?_⟩
    · rw [register_place (n := f.length + j) (by omega) _ (by rw [h])]
    · rw [h, hj.agree b hb a ha]
      exact pack_placed _ _
  acknowledged := fun f s b hb hall => by
    have h := superposeBytes_clear errCrc hb hall
    change superposeBytes (replies p.cards s (.ofBytes f)) errCrc = _ at h
    show (superposeBytes (replies p.cards s (.ofBytes f)) errCrc).ret = _ ∧
      (superposeBytes (replies p.cards s (.ofBytes f)) errCrc).data = _
    rw [h]
    exact ⟨rfl, pack_bitsOf [b]⟩

end

/-! ## two cards -/

def cardOfFour : TypeA where
  levels := 1
  uid := [0x12, 0x34, 0x56, 0x78]
  atqa := (0x04, 0x00)
  sak := 0x08
  sized := rfl
  one_le := Nat.le_refl 1
  le_three := Nat.le_add_right 1 2
  plain := by decide

def cardOfSeven : TypeA where
  levels := 2
  uid := [0x04, 0xa1, 0xb2, 0xc3, 0xd4, 0xe5, 0x80]
  atqa := (0x44, 0x03)
  sak := 0x20
  sized := rfl
  one_le := Nat.le_add_left 1 1
  le_three := Nat.le_add_right 2 1
  plain := by decide

def pair : Population where
  cards := [cardOfFour, cardOfSeven]
  distinct := by decide
  resolvable := by decide

/-- the field has just been switched on -/
def fieldOn : Full (TypeA → State) where
  cr :=
    { devLimit := 0, collPend := false, selReq := fun _ => 0, selRes := 0, nfcId1 := fun _ => 0
      nfcId1Len := 0, cascadeLv := 0, state := .idle, bytesTxRx := 0, bitsTxRx := 0, retries := 0
      backtrackCnt := 0, doBacktrack := false }
  nfcaDevList := fun _ => .zero
  devCnt := 0
  world := fun _ => .idle

end Nfca
end Hydra
