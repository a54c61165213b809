import HydraFw.Nfca.Ideal

/-!
# The way through a level

In a field without noise every SDD_REQ either learns the whole word of the level or one bit more:
the cards that stay ready share what is known, and there is always one.

* `Around`       the cards that were not found yet are idle, or ready for the level;
* `known`        the bits of the word that are known;
* `sdd_walk`     one anticollision frame;
* `sel_walk`     one select.
-/

namespace Hydra
namespace Nfca
open BitBuf hiding Byte
open Picc hiding Byte
open Rams Common Serial

/-- a card of the field that was not found -/
structure Remains (p : Population) (found : List TypeA) (d : TypeA) : Prop where
  mem : d ∈ p.cards
  fresh : d ∉ found

structure Around (p : Population) (s : TypeA → State) (found : List TypeA) (l : Nat) : Prop where
  halt : ∀ d ∈ found, s d = .halt
  rest : ∀ d, Remains p found d → s d = .idle ∨ s d = .ready false l
  level : ∀ d, Remains p found d → s d = .ready false l → l < d.levels

/-- the bits behind command and SEL_PAR -/
def ColRes.known (c : ColRes) (k : Nat) : List Bool := slice (bit c.selReq) 16 k

section
variable {ω : Type*} {p : Population} {r : Radio ω} {σ : ω → TypeA → State} {w : ω} {c : ColRes}
  {s : TypeA → State} {found : List TypeA} {l k : Nat} {d : TypeA} {a : List Bool}

theorem Around.reply (h : Around p s found l) {cmd : Command} (hwake : cmd ≠ .wupa)
    (hreqa : cmd ≠ .reqa) (ha : a ∈ replies p.cards s cmd) :
    ∃ d, Remains p found d ∧ s d = .ready false l ∧ d.reply (.ready false l) cmd = some a := by
  obtain ⟨d, hd, hr⟩ := mem_replies.mp ha
  by_cases hf : d ∈ found
  · rw [h.halt d hf] at hr
    cases cmd with
    | wupa => exact absurd rfl hwake
    | reqa => cases hr
    | anticollision _ _ => cases hr
    | select _ _ => cases hr
    | hlta => cases hr
    | other => cases hr
  · rcases h.rest d ⟨hd, hf⟩ with hs | hs
    · rw [hs] at hr
      cases cmd with
      | wupa => exact absurd rfl hwake
      | reqa => exact absurd rfl hreqa
      | anticollision _ _ => cases hr
      | select _ _ => cases hr
      | hlta => cases hr
      | other => cases hr
    · rw [hs] at hr
      exact ⟨d, ⟨hd, hf⟩, hs, hr⟩

/-- the cards that match stay ready, the others fall back -/
theorem Around.anticollision (h : Around p s found l) (bits : List Bool) :
    Around p (hear s (.anticollision l bits)) found l := by
  have hrest : ∀ d, Remains p found d → hear s (.anticollision l bits) d = .idle ∨
      hear s (.anticollision l bits) d = .ready false l ∧ s d = .ready false l := by
    intro d hd
    unfold hear
    rcases h.rest d hd with hs | hs
    · rw [hs]
      exact .inl rfl
    · rw [hs, TypeA.receive]
      split_ifs
      · exact .inr ⟨rfl, rfl⟩
      · exact .inl rfl
  constructor
  · intro d hd
    rw [hear, h.halt d hd]
    rfl
  · intro d hd
    exact (hrest d hd).imp_right And.left
  · intro d hd hs
    rcases hrest d hd with hi | ⟨-, hr⟩
    · rw [hi] at hs
      cases hs
    · exact h.level d hd hr

/-- a card that is ready and shares the bits that are known -/
structure Matches (p : Population) (s : TypeA → State) (found : List TypeA) (l : Nat)
    (bits : List Bool) (d : TypeA) : Prop where
  remains : Remains p found d
  ready : s d = .ready false l
  shares : bits <+: d.frame l

theorem Matches.mem_replies {bits : List Bool} (h : Matches p s found l bits d) :
    (d.frame l).drop bits.length ∈ replies p.cards s (.anticollision l bits) := by
  refine Picc.mem_replies.mpr ⟨d, h.remains.mem, ?_⟩
  rw [h.ready, TypeA.reply, if_pos ⟨rfl, h.shares⟩]

theorem Around.matches (h : Around p s found l) {bits : List Bool}
    (ha : a ∈ replies p.cards s (.anticollision l bits)) :
    ∃ d, Matches p s found l bits d ∧ a = (d.frame l).drop bits.length := by
  obtain ⟨d, hd, hs, hr⟩ := h.reply Command.noConfusion Command.noConfusion ha
  rw [TypeA.reply] at hr
  split_ifs at hr with hm
  exact ⟨d, ⟨hd, hs, hm.2⟩, (Option.some.inj hr).symm⟩

end

end Nfca
end Hydra
